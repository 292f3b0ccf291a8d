import Statics.Proofs.Nesting
import Statics.Source.Builder

/-!
# Jumps out of deferred statements

A deferred statement runs when its block is left, so a jump out of it has nowhere to go. A jump without a label never
gets out: the permissions of the place are dropped at a deferred statement. The labels around it are kept, though, so
a jump with the label of a construct further out is accepted. These are the only ones.
-/

namespace Statics

namespace Jump

/-- Whether a jump goes to the construct that a frame belongs to, if it goes to none inside. -/
def isTakenBy (j : Jump) (f : Frame) : Bool :=
  match j.label, j.kind with
  | some l, _ => f.label?.any fun found => found.name == l.name
  | none, .breaks => f.takesBreak
  | none, .continues => f.takesContinue
  | none, .fallsThrough => false

/-- Whether a jump has the label of a construct around a place, which is a loop if the jump goes on with it. -/
def isCarriedBy (j : Jump) (outer : Place) : Bool :=
  j.label.any fun l => (outer.carrier? l.name).any fun found => j.kind == .breaks || found.isLoop

end Jump

/-! ## What frames that do not take a jump mean for it -/

namespace Place

/-- No jump without a label gets past a deferred statement. -/
theorem allows_deferred {takes : Frame → Bool} (hdeferred : takes .deferred = false) {inner outer : Place}
    (hinner : ∀ f ∈ inner, takes f = false) : allows takes (inner ++ .deferred :: outer) = false := by
  induction inner with
  | nil => simp [hdeferred, Frame.isSealed]
  | cons f rest ih =>
    rw [List.forall_mem_cons] at hinner
    rw [List.cons_append, allows_cons, hinner.1, ih hinner.2]
    exact ite_self _

/-- A label that nothing inside carries is looked for outside. -/
theorem carrier?_deferred {name : String} {inner outer : Place}
    (hinner : ∀ f ∈ inner, (f.label?.any fun found => found.name == name) = false) :
    carrier? (inner ++ .deferred :: outer) name = carrier? outer name := by
  induction inner with
  | nil => simp [carrier?, Frame.label?]
  | cons f rest ih =>
    rw [List.forall_mem_cons] at hinner
    rw [← ih hinner.2, List.cons_append, carrier?, labels_cons, List.find?_append]
    cases hlabel : f.label? with
    | none => rfl
    | some found =>
      have hname : (found.name == name) = false := by simpa [hlabel] using hinner.1
      simp [hname, carrier?]

end Place

/-- A jump that nothing inside a deferred statement takes is legal exactly if it has a label that is carried outside. -/
theorem Jump.isLegal_deferred {j : Jump} (hkind : j.kind ≠ .fallsThrough) {inner outer : Place}
    (hplace : j.place = inner ++ .deferred :: outer) (hinner : ∀ f ∈ inner, j.isTakenBy f = false) :
    j.isLegal = j.isCarriedBy outer := by
  obtain ⟨place, token, kind, label⟩ := j
  dsimp only at hkind hplace
  subst hplace
  cases label with
  | none =>
    cases kind with
    | breaks => exact Place.allows_deferred rfl hinner
    | continues => exact Place.allows_deferred rfl hinner
    | fallsThrough => exact absurd rfl hkind
  | some l =>
    have hcarrier : Place.carrier? (inner ++ .deferred :: outer) l.name = outer.carrier? l.name :=
      Place.carrier?_deferred hinner
    cases kind with
    | breaks => simp [isLegal, isCarriedBy, hcarrier]
    | continues =>
      have hkind : (BranchKind.continues == BranchKind.breaks) = false := rfl
      simp [isLegal, isCarriedBy, hcarrier, hkind]
    | fallsThrough => exact absurd rfl hkind

/-! ## What checking does not look into -/

/-- Something that checking does not look into only stands in a wrong `else` that it gets to. -/
def Covered (controls : List Control) : Prop :=
  ∀ c ∈ controls, c.place.isStray → ∃ place token, .wrongElse place token ∈ controls ∧ place.isStray = false

theorem Covered.nil : Covered [] := fun _ h => by cases h

theorem Covered.singleton {c : Control} (h : c.place.isStray = false) : Covered [c] := by
  intro d hd hstray
  rw [List.mem_singleton.mp hd, h] at hstray
  cases hstray

theorem Covered.append {cs ds : List Control} (hcs : Covered cs) (hds : Covered ds) : Covered (cs ++ ds) := by
  intro c hc hstray
  obtain hc | hc := List.mem_append.mp hc
  · obtain ⟨place, token, hmem, hplace⟩ := hcs c hc hstray
    exact ⟨place, token, List.mem_append_left _ hmem, hplace⟩
  · obtain ⟨place, token, hmem, hplace⟩ := hds c hc hstray
    exact ⟨place, token, List.mem_append_right _ hmem, hplace⟩

theorem Covered.controls :
    (∀ (place : Place) (s : Stmt), place.isStray = false → Covered (s.controls place)) ∧
    (∀ label falls (place : Place) clauses, place.isStray = false →
    Covered (Clause.controls label falls place clauses)) ∧
      (∀ (place : Place) stmts, place.isStray = false → Covered (Stmt.controlsList place stmts)) ∧
    (∀ (place : Place) s, place.isStray = false → Covered (Stmt.controlsElse place s)) ∧
    (∀ (place : Place) s, place.isStray = false → Covered (Stmt.controlsOption place s)) ∧
    (∀ (place : Place) (b : Block), place.isStray = false → Covered (b.controls place)) := by
  -- A wrong `else` that is looked at covers whatever stands in it.
  have helse {cs : List Control} {place : Place} {token : Token} (h : place.isStray = false) :
      Covered (.wrongElse place token :: cs) := fun _ _ _ => ⟨place, token, List.mem_cons_self, h⟩
  apply Stmt.controls.mutual_induct <;>
    grind [Stmt.controls, Stmt.controlsOption, Stmt.controlsElse, Stmt.controlsList, Block.controls, Clause.controls,
      Covered.nil, Covered.append, Covered.singleton, Place.isStray_cons, Frame.isStray, Control.place]

/-- A body with an illegal jump is reported, be it for the jump or for the wrong `else` that it stands in. -/
theorem Body.reports_ne_nil {b : Body} {j : Jump} (hj : .jump j ∈ b.controls) (hillegal : j.isLegal = false) :
    Control.reports b.controls ≠ [] := by
  have hmem (c : Control) (d : Diagnostic) (hc : c ∈ b.controls) (hreached : c.isReached) (hd : c.report? = some d) :
      Control.reports b.controls ≠ [] :=
    List.ne_nil_of_mem (List.mem_filterMap.mpr ⟨c, List.mem_filter.mpr ⟨hc, hreached⟩, hd⟩)
  by_cases hstray : j.place.isStray
  · obtain ⟨place, token, hwrong, hplace⟩ := Covered.controls.2.2.2.2.2 [] b.block rfl _ hj hstray
    exact hmem _ _ hwrong (by simp [Control.isReached, Control.place, hplace]) rfl
  · exact hmem _ j.complaint hj (by simp [Control.isReached, Control.place, hstray])
      (by simp [Control.report?, hillegal])

/-- Only a label leads out of a deferred statement. Of a break or continue inside a deferred statement that nothing
inside takes: it is legal exactly if it has a label that a construct around the deferred statement carries, a loop in
the case of a continue. Otherwise a body that was checked to its end is reported for illegal control flow. -/
theorem deferred_jump_needs_outer_label {config : Config} {b : Body} {s t : Pass}
    (hrun : Check.body config b s = .ok () t) {j : Jump} (hj : .jump j ∈ b.controls) (hkind : j.kind ≠ .fallsThrough)
    {inner outer : Place} (hplace : j.place = inner ++ .deferred :: outer)
    (hinner : ∀ f ∈ inner, j.isTakenBy f = false) :
    j.isLegal = j.isCarriedBy outer ∧
      (j.isCarriedBy outer = false → s.flagged .illegalControlFlow t ≠ []) := by
  have hlegal := Jump.isLegal_deferred hkind hplace hinner
  refine ⟨hlegal, fun hcarried => ?_⟩
  rw [(Check.flow_body config b).completes s () t hrun]
  exact Body.reports_ne_nil hj (hlegal.trans hcarried)

/-! A loop with a label, and a break deferred in it. -/

namespace DeferredBreak

/-- A token of a file. -/
def token (text : String) : Token := ⟨text, ⟨"m", 1, 1⟩, ⟨0, 0⟩⟩

/-- The label of the loop. -/
def loopLabel : Ident := ⟨3, token "l"⟩

/-- A loop `for l` around `defer break`. -/
def body : Body where
  entity := ⟨0, 0⟩
  scope := ⟨1, 0⟩
  type := ⟨1, 0⟩
  block := ⟨1, token "\x7b", token "\x7d",
    [.loop ⟨2, token "for"⟩ (some loopLabel) none none none
      ⟨4, token "\x7b", token "\x7d", [.defer (token "defer") (.jump (token "break") .breaks none)]⟩]⟩

/-- The state in which the body is checked: its signature was read. -/
def start : Pass :=
  let slab : Slab := ⟨1, #[⟨some .global, [], .empty, .signature⟩], #[], #[.proc [] []], [], []⟩
  .start ⟨slab, [Universe.store.current]⟩ [] (.empty 10)

/-- The break in the body. -/
def exit : Jump := ⟨[.deferred, .listed true, .loop (some loopLabel), .listed true], token "break", .breaks, none⟩

open Builder in
/-- One file with a procedure: a loop `for l` around `defer break l`. -/
def files : List File :=
  let decls : Build (List Stmt) := do
    let sig ← signature [] []
    let deferred ← defer (← jump .breaks "break" (some "l"))
    let loop ← loop (some "l") none none none [deferred]
    return [← procDecl "f" sig (some (← block [loop])) ⟨false, false, false⟩ none none]
  [⟨"m", (decls (.start "m")).1⟩]

/-- The label that is written at the break of the file. -/
def written : Ident := ⟨1, ⟨"l", ⟨"m", 2, 1⟩, ⟨5, 1⟩⟩⟩

end DeferredBreak

open DeferredBreak in
/-- A break without a label is reported, although the loop around would take it. -/
theorem deferred_jump_needs_outer_label_break :
    ∃ t, Check.body .standard body start = .ok () t ∧ .jump exit ∈ body.controls ∧
      exit.isLegal = false ∧ start.flagged .illegalControlFlow t ≠ [] := by
  have hrun := Check.eq_ok_of_outcome (x := Check.body .standard body) (s := start) (by decide +kernel)
  have hmem : .jump exit ∈ body.controls := by decide +kernel
  have hplace : exit.place = [] ++ .deferred :: exit.place.tail := rfl
  have h := deferred_jump_needs_outer_label hrun hmem (by decide) hplace (by simp)
  exact ⟨_, hrun, hmem, h.1.trans (by decide +kernel), h.2 (by decide +kernel)⟩

open DeferredBreak in
/-- A break with the label of the loop around is accepted: the program is checked without a report, and its only jump
stands directly in a deferred statement of that loop. -/
theorem labelled_break_leaves_deferred :
    (checkFiles .standard files).collector.log = [] ∧
      (checkFileLevel .standard files).2.queue.map Body.controls =
        [[.jump ⟨[.deferred, .listed true, .loop (some ⟨2, ⟨"l", ⟨"m", 5, 1⟩, ⟨19, 1⟩⟩⟩), .listed true],
          ⟨"break", ⟨"m", 3, 1⟩, ⟨7, 5⟩⟩, .breaks, some written⟩]] := by
  decide +kernel

end Statics
