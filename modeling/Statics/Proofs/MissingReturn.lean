import Statics.Proofs.Execution
import Statics.Proofs.Nesting

/-!
# Procedures do not run past their ends

Statements that are checked without a report about control flow have every `fallthrough` where one may stand. A body
with results is reported unless control cannot run past it. Together: the body of a procedure with results has no run
that completes, if it was checked without a report about control flow or a missing return.
-/

namespace Statics

variable {b : Body} {s t : Pass} {a : Unit}

/-- A report about control flow or about a missing return. -/
def LogEntry.IsFlowReport (entry : LogEntry) : Prop :=
  entry.diagnostic.category = .illegalControlFlow ∨ entry.diagnostic.category = .missingReturn

instance (entry : LogEntry) : Decidable entry.IsFlowReport := inferInstanceAs (Decidable (_ ∨ _))

/-! ## Falling through -/

theorem Place.mayFall_listed (last : Bool) (place : Place) :
    mayFall (.listed last :: place) = (mayFall (.listed true :: place) && last) := by
  cases last <;> simp [mayFall]

/-- Where nothing is reported about control flow, every `fallthrough` stands where one may stand. -/
theorem Control.fallsPlaced_of_reports :
    (∀ (place : Place) (s : Stmt), place.isStray = false → reports (s.controls place) = [] →
      s.fallsPlaced place.mayFall) ∧
    (∀ label falls (place : Place) clauses, place.isStray = false →
      reports (Clause.controls label falls place clauses) = [] → Clause.fallsPlacedList falls clauses) ∧
    (∀ (place : Place) stmts, place.isStray = false → reports (Stmt.controlsList place stmts) = [] →
      Stmt.fallsPlacedList (Place.mayFall (.listed true :: place)) stmts) ∧
    (∀ (place : Place) s, place.isStray = false → reports (Stmt.controlsElse place s) = [] → Stmt.fallsPlacedOption s) ∧
    (∀ (place : Place) s, place.isStray = false → reports (Stmt.controlsOption place s) = [] → place.mayFall = false →
      Stmt.fallsPlacedOption s) ∧
    (∀ (place : Place) (b : Block), place.isStray = false → reports (b.controls place) = [] →
      b.fallsPlaced (Place.mayFall (.listed true :: place))) := by
  have hjump (place : Place) (token label) (h : place.isStray = false) :
      reports [.jump ⟨place, token, .fallsThrough, label⟩] = [] → place.mayFall := by
    rw [reports_singleton (by simp [isReached, Control.place, h])]
    simp +contextual [report?, Jump.isLegal]
  have helse (place : Place) (token cs) (h : place.isStray = false) : reports (.wrongElse place token :: cs) ≠ [] := by
    rw [← List.singleton_append, reports_append, reports_singleton (by simp [isReached, Control.place, h])]
    simp [report?]
  apply Stmt.controls.mutual_induct
  case case8 =>
    intro place token kind label
    cases kind <;> grind [Stmt.controls, Stmt.fallsPlaced]
  case case9 =>
    -- Statements without control flow.
    intro s
    cases s <;> grind [Stmt.fallsPlaced]
  case case15 => grind [Stmt.controlsOption, Stmt.fallsPlacedOption]
  all_goals simp_all [Stmt.controls, Stmt.controlsOption, Stmt.controlsElse, Stmt.controlsList, Block.controls,
    Clause.controls, Stmt.fallsPlaced, Stmt.fallsPlacedOption, Stmt.fallsPlacedList, Block.fallsPlaced,
    Clause.fallsPlacedList, Place.mayFall, Place.mayFall_listed (List.all _ _), Frame.isStray]

namespace Check

/-- A body without a report about its control flow has every `fallthrough` where one may stand. -/
theorem fallsPlaced_of_clear_body {config : Config} (h : Clear LogEntry.IsFlowReport (body config b) s a t) :
    Stmt.fallsPlacedList false b.block.stmts := by
  have hsilent : s.flagged .illegalControlFlow t = [] := by
    refine List.filter_eq_nil_iff.mpr fun d hd => ?_
    obtain ⟨entry, hentry, rfl⟩ := List.mem_map.mp hd
    simpa using fun hflow => h.silent entry hentry (.inl hflow)
  rw [(flow_body config b).completes s a t h.run, Body.controls_eq] at hsilent
  exact Control.fallsPlaced_of_reports.2.2.1 [] b.block.stmts rfl hsilent

/-- A body with results whose check reports no missing return terminates. -/
theorem terminates_of_clear_missingReturn (h : Clear LogEntry.IsFlowReport (missingReturn b) s a t)
    (hr : resultsOf t.store.arena b.type ≠ []) : t = s ∧ b.block.terminates (neverReturns t) := by
  have hif := h.read
  split at hif
  · exact absurd hif (not_clear_report fun _ => .inr rfl)
  · obtain ⟨-, rfl⟩ := hif.of_pure
    simp_all

/-- The body of a procedure with results that is checked without a report about its control flow has no run that
completes. -/
theorem no_normal_run_of_clear_body {config : Config} (h : Clear LogEntry.IsFlowReport (body config b) s a t)
    (hr : resultsOf t.store.arena b.type ≠ []) : ¬ Runs (neverReturns t) (.all b.block.stmts) .normal := by
  have hc (scope : ScopeId) : (bodyContext config scope b).AtTop := ⟨rfl, rfl⟩
  have hplaced := fallsPlaced_of_clear_body h
  unfold body at h
  obtain ⟨scope, s₁, -, h⟩ := h.split (by grind)
  obtain ⟨_, s₂, -, h⟩ := h.split (by grind)
  obtain ⟨_, s₃, -, h⟩ := h.split (by grind)
  obtain ⟨_, s₄, -, h⟩ := h.split (by grind)
  obtain ⟨_, s₅, -, h⟩ := h.split (by grind)
  obtain ⟨_, s₆, -, hreturn⟩ := h.split (by grind)
  have hterm := (terminates_of_clear_missingReturn hreturn hr).2
  rw [Block.terminates_eq] at hterm
  exact fun hrun => hrun.not_normal none _ hplaced hterm rfl

end Check

/-- Soundness of the analysis of missing returns. Statements that the analysis accepts have no run that completes,
whatever calls never return, if every `fallthrough` in them stands where it may. And where the body of a procedure
with results is checked without a report about control flow or a missing return, control never runs past its end. -/
theorem missing_return_analysis_sound :
    (∀ (never : Expr → Bool) (may : Bool) (stmts : List Stmt), Stmt.fallsPlacedList may stmts →
      Stmt.terminatesList never stmts → ¬ Runs never (.all stmts) .normal) ∧
    (∀ (config : Config) (b : Body) (s t : Pass), Check.body config b s = .ok () t →
      (∀ entry ∈ s.logged t, ¬ entry.IsFlowReport) → Check.resultsOf t.store.arena b.type ≠ [] →
      ¬ Runs (Check.neverReturns t) (.all b.block.stmts) .normal) := by
  constructor
  · intro never may stmts hplaced hterm hrun
    exact hrun.not_normal none may hplaced hterm rfl
  · intro config b s t hrun hsilent hresults
    exact Check.no_normal_run_of_clear_body ⟨hrun, hsilent⟩ hresults

/-! A procedure with one result, whose body is a switch: its first clause falls into the default, which returns. -/

namespace FallingBody

/-- A token of a file. -/
def token (text : String) : Token := ⟨text, ⟨"m", 1, 1⟩, ⟨0, 0⟩⟩

/-- A node of the file. -/
def node (id : NodeId) (text : String) : Node := ⟨id, token text⟩

/-- The body. -/
def body : Body where
  entity := ⟨0, 0⟩
  scope := ⟨1, 0⟩
  type := ⟨1, 0⟩
  block := ⟨1, token "\x7b", token "\x7d",
    [.switch (node 2 "switch") none none none
      [⟨node 3 "case", [.name (node 4 "true")], [.jump (token "fallthrough") .fallsThrough none]⟩,
        ⟨node 5 "case", [], [.returns (token "return") [.literal (node 6 "1") (.int .one)]]⟩]]⟩

/-- The state in which the body is checked: its signature was read. -/
def start : Pass :=
  let slab : Slab := ⟨1, #[⟨some .global, [], .empty, .signature⟩], #[], #[.proc [] [.basic .int]], [], []⟩
  .start ⟨slab, [Universe.store.current]⟩ [] (.empty 10)

end FallingBody

theorem missing_return_analysis_sound_falling_body :
    ∃ t, Check.body .standard FallingBody.body FallingBody.start = .ok () t ∧
      (∀ entry ∈ FallingBody.start.logged t, ¬ entry.IsFlowReport) ∧
      Check.resultsOf t.store.arena FallingBody.body.type ≠ [] ∧
      Stmt.fallsPlacedList false FallingBody.body.block.stmts ∧
      Stmt.terminatesList (Check.neverReturns t) FallingBody.body.block.stmts ∧
      ¬ Runs (Check.neverReturns t) (.all FallingBody.body.block.stmts) .normal := by
  have hrun := Check.eq_ok_of_outcome (x := Check.body .standard FallingBody.body) (s := FallingBody.start)
    (by decide +kernel)
  have hsilent : ∀ entry ∈ FallingBody.start.logged ((Check.body .standard FallingBody.body).outcome
      FallingBody.start).2, ¬ entry.IsFlowReport := by decide +kernel
  have hresults : Check.resultsOf ((Check.body .standard FallingBody.body).outcome
      FallingBody.start).2.store.arena FallingBody.body.type ≠ [] := by decide +kernel
  exact ⟨_, hrun, hsilent, hresults, by decide +kernel, by decide +kernel,
    missing_return_analysis_sound.2 _ _ _ _ hrun hsilent hresults⟩

end Statics
