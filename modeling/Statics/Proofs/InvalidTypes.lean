import Statics.Proofs.Typing

/-!
# Invalid types behind values

What was reported as wrong stands for an invalid operand from then on, which every consumer takes without another
report. So an operand that is a value should never have an invalid type. Names, literals, operators, conversions and
built-in procedures keep to this. A call of a procedure with one result and the selection of a field do not look at
the type that they hand on.
-/

namespace Statics

/-- The types of `nil` and of the implicit value are there, and not invalid. -/
def Pass.Grounded (s : Pass) : Prop := ∀ t ∈ Universe.innateTypes, s.view.Has t ∧ s.store.arena.isInvalid t = false

theorem Pass.Leads.grounded {s t : Pass} (h : s.Leads t) (hs : s.Valid) (hg : s.Grounded) : t.Grounded :=
  fun u hu => ⟨h.has (hg u hu).1, (h.isInvalid_eq hs (hg u hu).1).trans (hg u hu).2⟩

theorem Pass.Valid.refersSoundly {s : Pass} (h : s.Valid) (hg : s.Grounded) : s.RefersSoundly := by
  intro p hp u hinnate
  obtain ⟨x, hx, hread⟩ := Check.exists_entity (h.referred p hp)
  rw [Arena.IsInnate, hread] at hinnate
  obtain ⟨v, hv, htype⟩ :=
    (h.intact.entities p.2 x hx).innate (by rcases hinnate.1 with hkind | hkind <;> rw [hkind] <;> rfl)
  rw [← hinnate.2, htype]
  exact (hg v hv).2

namespace Check

variable {s : Pass} {ctx : Context} {resolve : Resolver} {y : Operand} {u : TypeId}

/-- An expression that hands on a type is a value of it, whatever that type is. -/
theorem PassesOn.value {e : Expr} {t : Pass} (he : PassesOn resolve ctx s e u)
    (h : Gives (expr resolve ctx .value e) s y t) : y.mode.isValue ∧ y.type = u := by
  induction he generalizing y t with
  | @call n callee args f s₁ params u hf hcalled hbase =>
    unfold expr at h
    obtain ⟨f', s₁', hf', h⟩ := h.bind
    cases hf.symm.trans hf'.run
    have hend {s₂ : Pass} (h : Gives (do
        arguments resolve ctx params args
        let y ← resultOf (.call n callee args) [u]
        finishValue .value (.call n callee args) y) s₂ y t) : y.mode.isValue ∧ y.type = u := by
      obtain ⟨_, s₃, -, h⟩ := h.bind
      obtain ⟨z, s₄, hz, h⟩ := h.bind
      obtain ⟨rfl, rfl⟩ := hz.of_pure
      obtain ⟨rfl, -⟩ := finishValue_keeps h
      exact ⟨rfl, rfl⟩
    dsimp only at h
    split at h
    case h_1 hmode => rw [hmode] at hcalled; cases hcalled
    case h_2 hmode => rw [hmode] at hcalled; cases hcalled
    case h_3 hmode => rw [hmode] at hcalled; cases hcalled
    case h_4 hmode => rw [hmode] at hcalled; cases hcalled
    case h_5 =>
      have h := h.readArena
      rw [hbase] at h
      dsimp only at h
      split at h
      · obtain ⟨_, s₃, -, h⟩ := h.bind
        exact hend h
      · exact hend h
  | @field n base field x s₁ f u himport hx hnotInvalid hnotType hf hu =>
    unfold expr at h
    have h := h.readArena
    rw [himport] at h
    obtain ⟨x', s₁', hx', h⟩ := h.bind
    cases hx.symm.trans hx'.run
    obtain ⟨z, s₂, hz, h⟩ := h.bind
    obtain ⟨rfl, -⟩ := finishName_gives h
    unfold selection at hz
    split at hz
    case h_1 hmode => exact absurd hmode hnotInvalid
    case h_2 hmode => exact absurd hmode hnotType
    case h_3 =>
      have hz := hz.readArena
      rw [hf] at hz
      obtain ⟨_, s₄, -, hz⟩ := hz.bind
      obtain ⟨rfl, -⟩ := hz.of_pure
      refine ⟨?_, ?_⟩
      · split <;> rfl
      · split <;> exact hu
  | @paren n inner u _ ih =>
    unfold expr at h
    obtain ⟨x, s₁, hx, h⟩ := h.bind
    obtain ⟨_, s₂, hnote, h⟩ := h.bind
    obtain ⟨rfl, rfl⟩ := h.of_pure
    have hinner : x.mode.isValue ∧ x.type = u := ih hx
    exact hinner

end Check

/-! ## Programs -/

/-- A type that cannot be completed stays as it is. -/
theorem Store.Step.type? {s t : Store} (h : s.Step t) {u : TypeId} {τ : Ty} (hu : s.arena.type? u = some τ)
    (hτ : ∀ σ, ¬ τ.Completes σ) : t.arena.type? u = some τ := by
  cases h with
  | @newType σ => exact (Grows.newType s σ).toExtends.types u τ hu
  | newEntity x => exact (Grows.newEntity s x).toExtends.types u τ hu
  | @openScope parent kind => exact (Grows.openScope s parent kind).toExtends.types u τ hu
  | bind => rw [type?_bind, hu]
  | modifyEntity => rw [type?_modifyEntity, hu]
  | markUsed => rw [type?_markUsed, hu]
  | modifyType _ hf =>
    rw [type?_modifyType, hu]
    split
    case isTrue hv =>
      obtain ⟨-, rfl⟩ := hv
      exact absurd (hf τ hu) (hτ _)
    case isFalse => rfl

namespace Universe

theorem innateTypes_eq : innateTypes = [.basic .untypedNil, contextType] := by decide +kernel

/-- The record of the implicit value and its name, as they are in a store. -/
def KeepsContext (s : Store) : Prop := ∀ u ∈ [contextRecord, contextType], s.arena.type? u = some (store.arena.type u)

theorem keepsContext : KeepsContext store := by
  intro u hu
  have hu : u = contextRecord ∨ u = contextType := by simpa using hu
  have hread : store.arena.type u ≠ .blank := by
    rcases hu with rfl | rfl
    · simp [type_contextRecord, Ty.blank]
    · simp [type_contextType, Ty.blank]
  obtain ⟨τ, hτ⟩ := Option.isSome_iff_exists.mp (Arena.isSome_type?_of_type_ne hread)
  rw [hτ, Arena.type_eq hτ]

theorem KeepsContext.step {s t : Store} (h : KeepsContext s) (hstep : s.Step t) : KeepsContext t := by
  intro u hu
  refine hstep.type? (h u hu) fun σ hσ => ?_
  have hu : u = contextRecord ∨ u = contextType := by simpa using hu
  rcases hu with rfl | rfl
  · rw [type_contextRecord] at hσ
    cases hσ
  · rw [type_contextType] at hσ
    cases hσ

theorem KeepsContext.grounded {s : Pass} (h : KeepsContext s.store) (hs : s.Valid) : s.Grounded := by
  intro u hu
  rw [innateTypes_eq] at hu
  have hu : u = .basic .untypedNil ∨ u = contextType := by simpa using hu
  rcases hu with rfl | rfl
  · exact ⟨hs.intact.has_basic _, hs.intact.basics.isInvalid_eq_false (by simp [hs.intact.basics.base_basic])⟩
  · have hname := h contextType (by simp)
    have hrecord := h contextRecord (by simp)
    rw [type_contextType] at hname
    rw [type_contextRecord] at hrecord
    have hbase : s.view.arena.base contextType = _ := (Arena.base_of_named hname hrecord rfl).2
    exact ⟨Option.isSome_iff_exists.mpr ⟨_, hname⟩, hs.intact.basics.isInvalid_eq_false (by simp [hbase])⟩

end Universe

namespace Program

theorem throughout_grounded (config : Config) (files : List File) :
    Throughout config files fun s => s.Valid ∧ s.Grounded := by
  have hkeeps : Throughout config files fun s => s.Valid ∧ Universe.KeepsContext s.store := by
    refine (throughout_valid config files).maintain (fun _ hs hstep => hs.step hstep) Universe.keepsContext
      fun id hpos hend u hu => ?_
    have hread := hend u hu
    rw [arena_fileEnd] at hread
    refine (Store.type?_empty (fun slab hslab => ?_) u).trans hread
    rw [List.mem_singleton.mp hslab, (slabs_fileEnd config files).1]
    exact hpos
  exact hkeeps.imp fun s hs => ⟨hs.1, hs.2.grounded hs.1⟩

end Program

open Check in
/-- What happens to invalid types in a state. An evaluation gives no constant of an invalid type, and gives a value of
one exactly if the expression hands the type on. Operators, conversions and assignments take invalid operands without
a report. -/
structure Pass.ContainsInvalid (s : Pass) : Prop where
  evaluated : ∀ resolve, resolve = demand ∨ (∃ pending ⊆ s.decls, resolve = demandFrom pending) → ∀ ctx, ctx.Valid s →
    ∀ e x t, expr resolve ctx .value e s = .ok x t → t.store.arena.isInvalid x.type →
      (x.mode.isValue ↔ PassesOn resolve ctx s e x.type) ∧ x.mode ≠ .constant
  operators : ∀ x, x.isInvalid → (∀ e op operand, unary e op operand x s = .ok { x with expr := e.id } s) ∧
    ∀ token op y id, binary token op x y id s = .ok (.invalid id) s ∧ binary token op y x id s = .ok (.invalid id) s
  conversions : ∀ x, x.isInvalid → ∀ e u arg, convert e u arg x s = .ok (.invalid e.id) s
  assignments : ∀ x, x.isInvalid → ∀ e place purpose, assign x e place purpose s = .ok x s

/-- In every state of a check, a value has an invalid type only if it is the result of a call or a field. -/
theorem invalid_types_contained (config : Config) (files : List File) :
    Program.Throughout config files Pass.ContainsInvalid := by
  refine (Program.throughout_grounded config files).imp fun s ⟨hs, hg⟩ => ⟨?_, ?_, ?_, ?_⟩
  · intro resolve hresolve ctx hctx e x t hrun hinvalid
    have hleads : s.Leads t := by
      rw [← Check.after_of_ok hrun]
      exact ((Check.checks_expr resolve e).value (Check.answers_resolver hresolve) hctx hs).1
    have hbasics := hleads.valid.intact.basics
    have hrefers := hleads.valid.refersSoundly (hleads.grounded hs hg)
    have hmarks (_ : True) (ctx : Context) (e : EntityId) : Check.Moves Pass.Maintains (resolve ctx e) := by
      rcases hresolve with rfl | ⟨pending, -, rfl⟩
      · exact Check.moves_demand ctx e
      · exact Check.moves_demandFrom pending ctx e
    rcases Check.expr_gives hmarks ⟨hrun⟩ with hsturdy | ⟨hother, hpasses⟩
    · have hnotValue (hvalue : x.mode.isValue) : False := by
        rw [hsturdy hvalue hbasics (.inr ⟨trivial, hrefers⟩)] at hinvalid
        cases hinvalid
      exact ⟨⟨fun hvalue => (hnotValue hvalue).elim, fun he => (he.value ⟨hrun⟩).1⟩,
        fun hv => hnotValue (by rw [hv]; rfl)⟩
    · exact ⟨⟨fun _ => hpasses, fun he => (he.value ⟨hrun⟩).1⟩, hother.not_constant⟩
  · intro x hx
    refine ⟨fun e op operand => ?_, fun token op y id => ⟨?_, ?_⟩⟩
    · simp only [Check.unary, hx, ↓reduceIte]
      rfl
    · simp only [Check.binary, hx, Bool.true_or, ↓reduceIte]
      rfl
    · simp only [Check.binary, hx, Bool.or_true, ↓reduceIte]
      rfl
  · intro x hx e u arg
    have hinvalid : (x.isInvalid || s.store.arena.isInvalid u) = true := by rw [hx, Bool.true_or]
    show (if x.isInvalid || s.store.arena.isInvalid u then pure (.invalid e.id) else _ : Check Operand) s = _
    rw [if_pos hinvalid]
    rfl
  · intro x hx e place purpose
    have hmode : x.mode = .invalid := beq_iff_eq.mp hx
    unfold Check.assign
    rw [hmode]
    rfl

/-! A missing type is reported where it is written, as the result of `f` and as the type of the field `v`. Then `f() +
1` and `r.v + 1` are reported, too. -/

namespace MissingType

open Builder in
/-- The call, the selection, and the declarations with both. -/
def parts : Build (Expr × Expr × List Stmt) := do
  let f ← procDecl "f" (← signature [] [← name "Missing"]) none ⟨true, false, false⟩ none none
  let result ← call (← name "f") []
  let x ← vars ["x"] none [← binary .add result (← int .one)] false
  let r ← vars ["r"] (some (← record .struct [← field ["v"] (← name "Missing") false])) [] false
  let part ← select (← name "r") "v"
  let y ← vars ["y"] none [← binary .add part (← int .one)] false
  return (result, part, [f, x, r, y])

def call : Expr := (parts (.start "m")).1.1

def selection : Expr := (parts (.start "m")).1.2.1

def files : List File := [⟨"m", (parts (.start "m")).1.2.2⟩]

/-- The state in which the file level ends. -/
def final : Pass := Program.fileEnd .standard files

/-- The context of the file. -/
def outer : Context := .outer .standard ⟨0, 1⟩

/-- Whether an expression is then a value of an invalid type. -/
def masks (e : Expr) : Bool :=
  match Check.expr Check.demand outer .value e final with
  | .ok x t => x.mode.isValue && t.store.arena.isInvalid x.type
  | .error _ _ => false

theorem exists_of_masks {e : Expr} (h : masks e) :
    ∃ x t, Check.expr Check.demand outer .value e final = .ok x t ∧ x.mode.isValue ∧
    t.store.arena.isInvalid x.type := by
  unfold masks at h
  split at h
  case h_1 x t hrun =>
    rw [Bool.and_eq_true] at h
    exact ⟨x, t, hrun, h⟩
  case h_2 => cases h

end MissingType

open MissingType in
/-- The call and the selection are values of the invalid type, and the operators that take them report it again. -/
theorem missing_types_reported_twice :
    (∀ e ∈ [call, selection], ∃ x t, Check.expr Check.demand outer .value e final = .ok x t ∧ x.mode.isValue ∧
      t.store.arena.isInvalid x.type) ∧
      (checkFiles .standard files).collector.errors.map Diagnostic.category =
        [.undeclared, .typeMismatch, .undeclared, .typeMismatch] := by
  refine ⟨fun e he => exists_of_masks ?_, by decide +kernel⟩
  have hmasks : ∀ e ∈ [call, selection], masks e := by decide +kernel
  exact hmasks e he

end Statics
