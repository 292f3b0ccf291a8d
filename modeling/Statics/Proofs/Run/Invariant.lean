import Statics.Proofs.Run.Clear

/-!
# Invariants of runs without errors

`Keeps I` relates two states if, where no error was logged between them, `I` of the first gives `I` of the second.
Routines that only keep an invariant as a whole are looked at run by run: `Check.Clean` is a run that completes
without an error. A run that stops has passed the cap, so where there is room for errors, it logged one.
-/

namespace Statics

variable {ctx : Context} {e : EntityId} {s t : Pass} {p : Problem} {token : Token}

/-- Whether a log entry is an error. -/
def LogEntry.IsError (entry : LogEntry) : Prop := entry.diagnostic.isError

/-- No error was logged on the way from one state to a later one. -/
def Pass.Silent (s t : Pass) : Prop := ∀ entry ∈ s.logged t, ¬ entry.IsError

theorem Pass.Silent.of_count_eq (h : LogGrows s t) (hc : t.collector.count = s.collector.count) : s.Silent t := by
  have hcount := h.count_eq
  rw [hc, Nat.left_eq_add, List.countP_eq_zero] at hcount
  exact hcount

/-- Nothing is logged about a milestone. -/
theorem Pass.Silent.record (s : Pass) (m : Milestone) : s.Silent { s with journal := m :: s.journal } :=
  .of_count_eq (Records.record s m) rfl

/-- The number of errors did not pass the cap. -/
def Pass.HasRoom (s : Pass) : Prop := ¬ s.collector.isFatal

theorem Pass.HasRoom.of_silent (h : s.HasRoom) (hlog : LogGrows s t) (hs : s.Silent t) : t.HasRoom := by
  have hcount := hlog.count_eq
  rw [List.countP_eq_zero.mpr hs, Nat.add_zero] at hcount
  obtain ⟨-, -, -, hcap⟩ := hlog
  simpa only [HasRoom, Collector.isFatal, hcount, hcap] using h

theorem Pass.Silent.split {u : Pass} (h : s.Silent u) (hst : LogGrows s t) (htu : LogGrows t u) :
    s.Silent t ∧ t.Silent u := by
  have hlog := hst.logged_eq htu
  exact ⟨fun entry he => h entry (by simp [hlog, he]), fun entry he => h entry (by simp [hlog, he])⟩

/-- Where there is room for errors, a report is logged. -/
theorem Pass.HasRoom.not_silent (h : s.HasRoom) {d : Diagnostic} (hd : d.isError) :
    ¬ s.Silent { s with collector := (s.collector.report d).1 } := by
  intro hs
  have hfatal : s.collector.isFatal = false := by simpa [Pass.HasRoom] using h
  refine hs ⟨d, s.collector.last != some d.pos⟩ ?_ hd
  simp [Pass.logged, Collector.report, hfatal]

/-- Where no error is logged, an invariant is kept. -/
structure Keeps (I : Pass → Prop) (s t : Pass) : Prop where
  log : LogGrows s t
  keeps : s.Silent t → I s → I t

namespace Keeps

variable {I : Pass → Prop}

theorem refl (s : Pass) : Keeps I s s := ⟨.of_collector_eq rfl, fun _ h => h⟩

theorem trans {s t u : Pass} (h : Keeps I s t) (h' : Keeps I t u) : Keeps I s u where
  log := h.log.trans h'.log
  keeps hs hI := h'.keeps (hs.split h.log h'.log).2 (h.keeps (hs.split h.log h'.log).1 hI)

/-- A step that does not touch the diagnostics. -/
theorem of_eq (hc : t.collector = s.collector) (h : I s → I t) : Keeps I s t :=
  ⟨.of_collector_eq hc, fun _ => h⟩

theorem report (hroom : ∀ {s}, I s → s.HasRoom) (s : Pass) (d : Diagnostic) (hd : d.isError) :
    Keeps I s { s with collector := (s.collector.report d).1 } :=
  ⟨LogGrows.report s d hd, fun hs hI => absurd hs ((hroom hI).not_silent hd)⟩

end Keeps

/-- Expressions that never stand for a type. -/
def Expr.isValueForm : Expr → Bool
  | .literal .. | .unary .. | .binary .. | .call .. => true
  | _ => false

namespace Check

variable {α β : Type} {I : Pass → Prop}

/-- A run that completes without an error. -/
abbrev Clean (x : Check α) (s : Pass) (a : α) (t : Pass) : Prop := Clear LogEntry.IsError x s a t

theorem not_clean_report {a : Unit} : ¬ Clean (report token p) s a t :=
  not_clear_report fun _ => rfl

/-- No clean run starts with a report. -/
theorem Clear.not_report {f : Unit → Check β} {b : β}
    (h : Clean (report token p >>= f) s b t) (hf : ∀ a, Moves LogGrows (f a)) : False := by
  obtain ⟨_, _, hreport, -⟩ := h.bind (moves_anyReport LogGrows.report token p) hf
  exact not_clean_report hreport

/-- No run of a routine is clean. -/
structure Refuses (x : Check α) : Prop where
  log : Moves LogGrows x
  not_clean : ∀ {s a t}, ¬ Clean x s a t

@[grind ←]
theorem refuses_report (token : Token) (p : Problem) : Refuses (report token p) :=
  ⟨moves_anyReport LogGrows.report token p, not_clean_report⟩

@[grind ←]
theorem Refuses.bind {x : Check α} (hx : Refuses x) {f : α → Check β} (hf : ∀ a, Moves LogGrows (f a)) :
    Refuses (x >>= f) where
  log := moves_bind hx.log hf
  not_clean h := by
    obtain ⟨a, t, hclean, -⟩ := h.bind hx.log hf
    exact hx.not_clean hclean

/-- A routine that ends in one that refuses does too. -/
@[grind ←]
theorem refuses_bind {x : Check α} (hx : Moves LogGrows x) {f : α → Check β} (hf : ∀ a, Refuses (f a)) :
    Refuses (x >>= f) where
  log := moves_bind hx fun a => (hf a).log
  not_clean h := by
    obtain ⟨a, t, -, hclean⟩ := h.bind hx fun a => (hf a).log
    exact (hf a).not_clean hclean

theorem refuses_rejectType (e : Expr) : Refuses (rejectType e) :=
  (refuses_report _ _).bind (by grind)

/-- A value is no type. -/
@[grind ←]
theorem refuses_finishValue (declared : Option TypeId) (e : Expr) (x : Operand) :
    Refuses (finishValue (.type declared) e x) :=
  refuses_bind (by grind) fun _ => refuses_rejectType e

/-- Literals, operators and calls are not read as types. -/
theorem refuses_expr {resolve : Resolver} (hr : ∀ ctx e, Moves LogGrows (resolve ctx e)) {e : Expr} (he : e.isValueForm)
    (ctx : Context) (declared : Option TypeId) : Refuses (expr resolve ctx (.type declared) e) := by
  have hexpr := moves_expr hr ctx
  unfold expr
  cases e with
  | literal n v => exact refuses_finishValue _ _ _
  | unary n op operand => grind
  | binary n op left right => grind
  | call n callee args =>
    have hargs := moves_exprs fun e (_ : e ∈ args) => hexpr .value e
    have hprinted := moves_printed fun e (_ : e ∈ args) reading => hexpr reading e
    have hconversion := fun e t => moves_conversion e t fun e (_ : e ∈ args) => hexpr .value e
    have hbuiltin := fun e b => moves_builtin e b fun e (_ : e ∈ args) reading => hexpr reading e
    have harguments := fun params => moves_arguments params fun e (_ : e ∈ args) reading => hexpr reading e
    refine refuses_bind (hexpr .value callee) fun f => ?_
    dsimp only
    split <;> grind
  | _ => simp [Expr.isValueForm] at he

/-- What a routine does in clean runs is all that counts for an invariant, where there is room for errors. -/
theorem Moves.of_clean {x : Check α} (hx : Moves LogGrows x) (hroom : ∀ {s}, I s → s.HasRoom)
    (h : ∀ {s a t}, Clean x s a t → I s → I t) : Moves (Keeps I) x where
  along s := by
    refine ⟨hx.along s, fun hs hI => ?_⟩
    cases hr : x s with
    | ok a t =>
      rw [after_of_ok hr] at hs ⊢
      exact h ⟨hr, hs⟩ hI
    | error e t =>
      have hlog := hx.along s
      rw [after_of_error hr] at hs hlog
      exact absurd (hx.fatal hr) ((hroom hI).of_silent hlog hs)
  traced := hx.traced

/-- An invariant that is kept does not depend on milestones. -/
theorem keeps_record [Records (Keeps I)] (h : I s) (m : Milestone) : I { s with journal := m :: s.journal } :=
  (Records.record (R := Keeps I) s m).keeps (.record s m) h

theorem Moves.clean {x : Check α} (hx : Moves (Keeps I) x) {a : α} (h : Clean x s a t) (hI : I s) : I t :=
  (hx.ok h.run).keeps h.silent hI

/-- What a demand does without an error: nothing, where the entity has a type or no pending declaration, or else its
declaration is entered, runs with the rest pending, and is left. -/
theorem Clear.demandFrom_cases {pending : Pending}
    (h : Clean (demandFrom pending ctx e) s () t) :
    ((s.store.arena.entity e).type.isSome ∧ t = s) ∨
      (s.store.arena.entity e).type = none ∧ ((take? e pending = none ∧ t = s) ∨
        ∃ d rest u, take? e pending = some (d, rest) ∧
          Clean (declaration (demandFrom rest) (ctx.within d.scope) e d) { s with journal := .enter e :: s.journal }
            () u ∧
          t = { u with journal := .leave e :: u.journal }) := by
  have hset := moves_setType (R := LogGrows) (F := fun _ => True) (e := e) trivial .invalid
  have hrecord := moves_record (R := LogGrows)
  unfold demandFrom at h
  have h := h.readEntity
  split at h
  case isTrue htyped =>
    obtain ⟨-, rfl⟩ := h.of_pure
    exact .inl ⟨htyped, rfl⟩
  case isFalse hnone =>
    refine .inr ⟨by simpa using hnone, ?_⟩
    have h := h.read
    split at h
    · obtain ⟨_, s₃, hcycle, -⟩ := h.split (by grind)
      exact absurd hcycle (refuses_bind (moves_entity e) fun _ => refuses_report _ _).not_clean
    · split at h
      case h_1 d rest taken =>
        have hdecl := moves_declaration (R := LogGrows) (moves_demandFrom rest) (ctx.within d.scope) e d
        obtain ⟨_, s₁, henter, h⟩ := h.bind (hrecord _) fun _ => moves_bind hdecl fun _ => hrecord _
        obtain ⟨_, s₂, hrun, hleave⟩ := h.bind hdecl fun _ => hrecord _
        cases henter.run
        cases hleave.run
        exact .inr ⟨d, rest, s₂, taken, hrun, rfl⟩
      case h_2 hnone =>
        obtain ⟨-, rfl⟩ := h.of_pure
        exact .inl ⟨hnone, rfl⟩

/-- A demand where no declaration is being checked takes all declarations as pending. -/
theorem Clear.demandFrom_of_demand (h : Clean (demand ctx e) s () t) :
    Clean (demandFrom s.decls ctx e) s () t := h.read

end Check

end Statics
