import Statics.Proofs.Constants.Operands
import Statics.Proofs.Containment.Layout
import Statics.Proofs.Run.Invariant

/-!
# Types of constants

A declared type is invalid if it is the invalid type under its name. That stays so, as a name that has a base keeps
it. The base is there and is no name itself, since a type expression yields types that were declared or built before.
-/

namespace Statics

variable {e : Expr} {d : Option TypeId} {τ : Ty} {base : TypeId}

namespace Arena

variable {a b : Arena} {t : TypeId}

/-- A type that is basic of some kind, or a name for it. -/
def ReadsKind (a : Arena) (k : Kind) (t : TypeId) : Prop :=
  a.type? t = some (.basic k) ∨ ∃ base, a.HasBase t base ∧ a.type? base = some (.basic k)

/-- A type that is the invalid one, or a name for it. -/
def ReadsInvalid (a : Arena) (t : TypeId) : Prop := a.ReadsKind .invalid t

/-- Kinds depend on the types alone. -/
theorem kind?_congr (h : ∀ t, b.type? t = a.type? t) (t : TypeId) : b.kind? t = a.kind? t := by
  have hbase (fuel : Nat) (t : TypeId) : b.baseWithin fuel t = a.baseWithin fuel t := by
    induction fuel generalizing t with
    | zero => rfl
    | succ fuel ih => simp only [baseWithin, type, h, ih]
  simp only [kind?, base, baseType, hbase, type, h]

theorem IsProper.rooted (h : a.IsProper t) : a.Rooted t := ⟨h.isSome, fun hb => absurd hb.isName h.not_isName⟩

theorem isProper_of_type (h : a.type? t = some τ) (hτ : ∀ name base e, τ ≠ .named name base e) : a.IsProper t where
  isSome := by simp [h]
  not_isName := by
    rintro ⟨name, base, e, hn⟩
    simp only [type_eq h] at hn
    exact hτ name base e hn

theorem Rooted.readsKind {k : Kind} (h : a.Rooted t) (ht : a.base t = .basic k) : a.ReadsKind k t := by
  rw [base] at ht
  by_cases hbase : ∃ base, a.HasBase t base
  · obtain ⟨base, hbase⟩ := hbase
    have hproper := h.bases hbase
    obtain ⟨τ, hτ⟩ := Option.isSome_iff_exists.mp hproper.isSome
    rw [baseType_of_hasBase hbase hproper, type_eq hτ] at ht
    exact .inr ⟨base, hbase, ht ▸ hτ⟩
  · obtain ⟨τ, hτ⟩ := Option.isSome_iff_exists.mp h.isSome
    rw [baseType_of_not_hasBase fun base hb => hbase ⟨base, hb⟩, type_eq hτ] at ht
    exact .inl (ht ▸ hτ)

/-! ## Types that were filled in -/

/-- What becomes of a type: an enum may get its members, and a name its base. -/
inductive Becomes (b : Arena) : Ty → Ty → Prop
  | same (τ : Ty) : Becomes b τ τ
  | enum (base : TypeId) (members : List EntityId) : Becomes b (.enum base []) (.enum base members)
  | named (name : String) (e : EntityId) {base : TypeId} :
    b.IsProper base → Becomes b (.named name none e) (.named name (some base) e)

/-- All types are still there, and some may have been filled in. -/
def Refines (a b : Arena) : Prop := ∀ t τ, a.type? t = some τ → ∃ σ, b.type? t = some σ ∧ b.Becomes τ σ

theorem Extends.refines (h : a.Extends b) : a.Refines b := fun t τ ht => ⟨τ, h.types t τ ht, .same τ⟩

namespace Refines

variable (h : a.Refines b)

include h

theorem isSome (ht : (a.type? t).isSome) : (b.type? t).isSome := by
  obtain ⟨τ, hτ⟩ := Option.isSome_iff_exists.mp ht
  obtain ⟨σ, hσ, -⟩ := h t τ hτ
  simp [hσ]

theorem basic {k : Kind} (ht : a.type? t = some (.basic k)) : b.type? t = some (.basic k) := by
  obtain ⟨σ, hσ, hbecomes⟩ := h t _ ht
  cases hbecomes
  exact hσ

theorem basic_of_basic {k : Kind} (ht : (a.type? t).isSome) (hb : b.type? t = some (.basic k)) :
    a.type? t = some (.basic k) := by
  obtain ⟨τ, hτ⟩ := Option.isSome_iff_exists.mp ht
  obtain ⟨σ, hσ, hbecomes⟩ := h t τ hτ
  cases hσ.symm.trans hb
  cases hbecomes
  exact hτ

theorem hasBase (ht : a.HasBase t base) : b.HasBase t base := by
  obtain ⟨τ, hτ⟩ := Option.isSome_iff_exists.mp ht.isName.isSome
  obtain ⟨name, e, hread⟩ := ht
  simp only [type_eq hτ] at hread
  obtain ⟨σ, hσ, hbecomes⟩ := h t τ hτ
  subst hread
  cases hbecomes
  exact ⟨name, e, by simp [type, hσ]⟩

theorem isProper (ht : a.IsProper t) : b.IsProper t := by
  obtain ⟨τ, hτ⟩ := Option.isSome_iff_exists.mp ht.isSome
  obtain ⟨σ, hσ, hbecomes⟩ := h t τ hτ
  refine isProper_of_type hσ fun name base e hn => ht.not_isName ?_
  subst hn
  cases hbecomes with
  | same => exact ⟨name, base, e, by simp [type, hτ]⟩
  | named _ _ _ => exact ⟨name, none, e, by simp [type, hτ]⟩

theorem isName_of_isName (ht : (a.type? t).isSome) (hn : b.IsName t) : a.IsName t := by
  by_contra hnot
  exact (h.isProper ⟨ht, hnot⟩).not_isName hn

theorem rooted (ht : a.Rooted t) : b.Rooted t where
  isSome := h.isSome ht.isSome
  bases {base} hb := by
    obtain ⟨τ, hτ⟩ := Option.isSome_iff_exists.mp ht.isSome
    obtain ⟨σ, hσ, hbecomes⟩ := h t τ hτ
    obtain ⟨name, e, hread⟩ := hb
    simp only [type_eq hσ] at hread
    subst hread
    cases hbecomes with
    | same => exact h.isProper (ht.bases ⟨name, e, by simp [type, hτ]⟩)
    | named _ _ hproper => exact hproper

theorem readsKind {k : Kind} (ht : a.ReadsKind k t) : b.ReadsKind k t := by
  rcases ht with ht | ⟨base, hbase, ht⟩
  · exact .inl (h.basic ht)
  · exact .inr ⟨base, h.hasBase hbase, h.basic ht⟩

theorem hasBasics (hb : a.HasBasics) : b.HasBasics := fun k => h.basic (hb k)

end Refines

/-- What a type name stands for. -/
def HasTitle (a : Arena) (e : EntityId) (t : TypeId) : Prop :=
  (a.entity e).kind = .typeName ∧ (a.entity e).type = some t

/-- What the type names stand for is there. -/
def NamesRooted (a : Arena) : Prop := ∀ {e t}, a.HasTitle e t → a.Rooted t

/-- A type that is there and no name, or one that some type name stands for. -/
def Titled (a : Arena) (t : TypeId) : Prop := a.IsProper t ∨ ∃ e, a.HasTitle e t

theorem Titled.rooted (h : a.Titled t) (hn : a.NamesRooted) : a.Rooted t := by
  rcases h with h | ⟨e, h⟩
  · exact h.rooted
  · exact hn h

/-- A type that was built: it is there, and is neither basic nor a name. -/
structure IsBuilt (a : Arena) (t : TypeId) : Prop extends IsProper a t where
  not_basic : ∀ k, a.type? t ≠ some (.basic k)

theorem isBuilt_of_type (h : a.type? t = some τ) (hbasic : ∀ k, τ ≠ .basic k)
    (hname : ∀ name base e, τ ≠ .named name base e) : a.IsBuilt t where
  toIsProper := isProper_of_type h hname
  not_basic k hk := hbasic k (Option.some.inj (h.symm.trans hk))

theorem HasBasics.isProper (h : a.HasBasics) (k : Kind) : a.IsProper (.basic k) := isProper_of_type (h k) (by simp)

end Arena

/-! ## Type expressions -/

/-- A type operand has the type that some type name stands for, unless that is no name. -/
def Operand.Stands (a : Arena) (x : Operand) : Prop := x.mode = .type → a.HasBasics → a.Titled x.type

namespace Check

variable {s t : Pass} {x y : Operand} {resolve : Resolver} {ctx : Context}

theorem Nothing.stands {a : Arena} (h : Nothing x) : x.Stands a := fun hx => absurd hx h.not_type

theorem Operand.OfEntity.stands {a : Arena} {id : EntityId} {Q : Prop} (h : Operand.OfEntity a id x) (_ : Q) :
    x.Stands a := by
  intro hx hb
  obtain ⟨hkind, htype⟩ := h.type hx
  cases hread : (a.entity id).type with
  | none =>
    rw [htype, hread]
    exact .inl (hb.isProper .invalid)
  | some u => exact .inr ⟨id, hkind, by simp [htype, hread]⟩

/-- A type expression yields a type that is there, and one that is titled if it is a name. -/
def YieldsType (x : Operand) (t : Pass) : Prop := t.store.arena.HasBasics → t.store.arena.Titled x.type

/-- A type expression yields a type that it built. -/
def YieldsBuilt (x : Operand) (t : Pass) : Prop := t.store.arena.IsBuilt x.type

theorem YieldsBuilt.yieldsType (h : YieldsBuilt x t) : YieldsType x t := fun _ => .inl h.toIsProper

theorem yieldsType_invalid (h : Gives (typeOperand e .invalid) s x t) : YieldsType x t := by
  obtain ⟨_, s₁, hnote, h⟩ := h.bind
  obtain ⟨rfl, rfl⟩ := h.of_pure
  cases hnote.run
  exact fun hb => .inl (hb.isProper .invalid)

theorem yieldsType_rejectType (h : Gives (rejectType e) s x t) : YieldsType x t := by
  obtain ⟨_, s₁, -, h⟩ := h.bind
  exact yieldsType_invalid h

theorem yieldsType_finishName (hx : x.Stands s.store.arena)
    (h : Gives (finishName (.type d) e x) s y t) : YieldsType y t := by
  obtain ⟨_, s₁, hnote, h⟩ := h.bind
  cases hnote.run
  split at h
  case h_1 => contradiction
  case h_2 htype =>
    obtain ⟨rfl, rfl⟩ := h.of_pure
    exact hx htype
  case h_3 => exact yieldsType_invalid h
  case h_4 => exact yieldsType_rejectType h

/-- A routine that ends in rejecting what is no type. -/
def ReadsType (x : Check Operand) : Prop := ∀ {s y t}, Gives x s y t → YieldsType y t

@[grind ←]
theorem readsType_finishValue : ReadsType (finishValue (.type d) e x) := by
  intro s y t h
  obtain ⟨_, s₁, -, h⟩ := h.bind
  exact yieldsType_rejectType h

@[grind ←]
theorem readsType_bind {α : Type} {x : Check α} {f : α → Check Operand} (h : ∀ a, ReadsType (f a)) :
    ReadsType (x >>= f) := by
  intro s y t hs
  obtain ⟨a, u, -, hu⟩ := hs.bind
  exact h a hu

theorem yieldsBuilt_typeOperand {u : TypeId} (hu : s.store.arena.IsBuilt u)
    (h : Gives (typeOperand e u) s x t) : YieldsBuilt x t := by
  obtain ⟨_, s₁, hnote, h⟩ := h.bind
  obtain ⟨rfl, rfl⟩ := h.of_pure
  cases hnote.run
  exact hu

theorem yieldsBuilt_newType (hbasic : ∀ k, τ ≠ .basic k)
    (hname : ∀ name base e, τ ≠ .named name base e) (h : Gives (do typeOperand e (← newType τ)) s x t) :
    YieldsBuilt x t := by
  obtain ⟨u, s₁, hnew, h⟩ := h.bind
  obtain ⟨rfl, rfl⟩ := newType_ok hnew.run
  have hread : (s.store.newType τ).2.arena.type? (s.store.newType τ).1 = some τ := by
    rw [Store.type?_newType, if_pos rfl]
  exact yieldsBuilt_typeOperand (Arena.isBuilt_of_type hread hbasic hname) h

theorem yieldsBuilt_signature {sig : Signature} {n : Node}
    (h : Gives (do typeOperand (.proc n sig) (← signature resolve ctx none sig)) s x t) : YieldsBuilt x t := by
  obtain ⟨u, s₁, hsig, h⟩ := h.bind
  cases sig
  unfold signature at hsig
  obtain ⟨params, s₂, -, hsig⟩ := hsig.bind
  obtain ⟨results, s₃, -, hsig⟩ := hsig.bind
  obtain ⟨v, s₄, hnew, hsig⟩ := hsig.bind
  obtain ⟨_, s₅, hnote, hsig⟩ := hsig.bind
  obtain ⟨rfl, rfl⟩ := hsig.of_pure
  obtain ⟨rfl, rfl⟩ := newType_ok hnew.run
  cases hnote.run
  have hread : (s₃.store.newType (.proc params results)).2.arena.type? (s₃.store.newType (.proc params results)).1 =
      some (.proc params results) := by rw [Store.type?_newType, if_pos rfl]
  exact yieldsBuilt_typeOperand (Arena.isBuilt_of_type hread (by simp) (by simp)) h

/-- An enum is no name, before and after its members are filled in. -/
theorem yieldsBuilt_enum {members : TypeId → Check MemberScan}
    (hm : ∀ id, Moves Pass.Grows (members id)) (h : Gives (do
      let id ← newType (.enum base [])
      let scan ← members id
      onStore fun s => s.modifyType id fun _ => .enum base scan.members
      typeOperand e id) s x t) : YieldsBuilt x t := by
  obtain ⟨id, s₁, hnew, h⟩ := h.bind
  obtain ⟨scan, s₂, hscan, h⟩ := h.bind
  obtain ⟨_, s₃, hfill, h⟩ := h.bind
  obtain ⟨rfl, rfl⟩ := newType_ok hnew.run
  have hgrows := (hm _).ok hscan.run
  have hread := hgrows.store.toExtends.types (s.store.newType (.enum base [])).1 (.enum base [])
    (by rw [Store.type?_newType, if_pos rfl])
  cases hfill.run
  refine yieldsBuilt_typeOperand ?_ h
  have hfilled := s₂.store.type?_modifyType (s.store.newType (.enum base [])).1 (fun _ => .enum base scan.members)
    (s.store.newType (.enum base [])).1
  rw [hread] at hfilled
  split at hfilled <;> exact Arena.isBuilt_of_type hfilled (by simp) (by simp)

end Check

namespace Expr

/-- Type expressions that build a type. -/
def buildsType : Expr → Bool
  | .proc .. => true
  | e => e.isTypeForm

/-- Expressions that refer to something by a name. -/
def isReference : Expr → Bool
  | .name _ | .select .. => true
  | _ => false

end Expr

namespace Check

variable {s t : Pass} {x : Operand} {resolve : Resolver} {ctx : Context}
  (hg : ∀ ctx e, Moves Pass.Grows (resolve ctx e))

include hg

/-- A type form yields a type that it built. -/
theorem yieldsBuilt_expr (he : e.buildsType) (h : Gives (expr resolve ctx (.type d) e) s x t) : YieldsBuilt x t := by
  unfold expr at h
  cases e with
  | pointer n elem =>
    obtain ⟨y, s₁, -, h⟩ := h.bind
    exact yieldsBuilt_newType (by simp) (by simp) h
  | array n count elem =>
    obtain ⟨y, s₁, -, h⟩ := h.bind
    obtain ⟨length, s₂, -, h⟩ := h.bind
    obtain ⟨z, s₃, -, h⟩ := h.bind
    exact yieldsBuilt_newType (by simp) (by simp) h
  | slice n elem =>
    obtain ⟨y, s₁, -, h⟩ := h.bind
    exact yieldsBuilt_newType (by simp) (by simp) h
  | record n form fields =>
    obtain ⟨scan, s₁, -, h⟩ := h.bind
    exact yieldsBuilt_newType (by simp) (by simp) h
  | enum n base members =>
    obtain ⟨u, s₁, -, h⟩ := h.bind
    obtain ⟨a, s₂, -, h⟩ := h.bind
    exact yieldsBuilt_enum (fun _ => moves_enumMembers _ _ _ _ fun m _ e _ => moves_expr hg _ _ e) h
  | proc n sig => exact yieldsBuilt_signature h
  | _ => simp [Expr.buildsType, Expr.isTypeForm] at he

/-- Reading an expression as a type yields a type that is there. -/
theorem yieldsType_expr (h : Gives (expr resolve ctx (.type d) e) s x t) : YieldsType x t := by
  induction e using Expr.induction generalizing x t with
  | h e ih =>
    by_cases hbuilds : e.buildsType
    · exact (yieldsBuilt_expr hg hbuilds h).yieldsType
    · unfold expr at h
      cases e with
      | name n =>
        obtain ⟨y, s₁, hy, h⟩ := h.bind
        exact yieldsType_finishName (nameOperand_gives False.elim Operand.OfEntity.stands Nothing.stands hy) h
      | literal n v => exact readsType_finishValue h
      | paren n inner =>
        obtain ⟨y, s₁, hy, h⟩ := h.bind
        obtain ⟨_, s₂, hnote, h⟩ := h.bind
        obtain ⟨rfl, rfl⟩ := h.of_pure
        cases hnote.run
        have hread : YieldsType y s₁ := ih inner (by simp) hy
        exact hread
      | unary n op operand =>
        refine readsType_bind (fun y => readsType_bind fun z => ?_) h
        exact readsType_finishValue
      | binary n op left right =>
        refine readsType_bind (fun y => readsType_bind fun z => readsType_bind fun w => ?_) h
        exact readsType_finishValue
      | call n callee args =>
        refine readsType_bind (fun f => ?_) h
        grind
      | select n base field =>
        obtain ⟨a, s₁, -, h⟩ := h.bind
        split at h
        · obtain ⟨y, s₂, hy, h⟩ := h.bind
          exact yieldsType_finishName (importSelection_gives False.elim Operand.OfEntity.stands Nothing.stands hy) h
        · obtain ⟨y, s₂, -, h⟩ := h.bind
          obtain ⟨z, s₃, hz, h⟩ := h.bind
          rcases selection_gives False.elim Operand.OfEntity.stands Nothing.stands hz with hstands | hselects
          · exact yieldsType_finishName hstands h
          · exact yieldsType_finishName (fun hx => absurd hx hselects.other.not_type) h
      | _ => simp [Expr.buildsType, Expr.isTypeForm] at hbuilds

/-- What is read as a type without an error builds one, or refers to one by a name. -/
theorem yieldsBuilt_of_clean (hlog : ∀ ctx e, Moves LogGrows (resolve ctx e))
    (he : e.unparen.isReference = false) (h : Clean (expr resolve ctx (.type d) e) s x t) : YieldsBuilt x t := by
  have hexpr := fun reading e => moves_expr hlog ctx reading e
  induction e using Expr.induction generalizing x t with
  | h e ih =>
    cases e with
    | name n => simp [Expr.unparen, Expr.isReference] at he
    | select n base field => simp [Expr.unparen, Expr.isReference] at he
    | paren n inner =>
      unfold expr at h
      obtain ⟨y, s₁, hy, h⟩ := h.split (by grind)
      obtain ⟨_, s₂, hnote, h⟩ := h.split (by grind)
      obtain ⟨rfl, rfl⟩ := h.of_pure
      cases hnote.run
      have hread : YieldsBuilt y s₁ := ih inner (by simp) (by simpa only [Expr.unparen] using he) hy
      exact hread
    | literal n v => exact absurd h (refuses_expr hlog rfl _ _).not_clean
    | unary n op operand => exact absurd h (refuses_expr hlog rfl _ _).not_clean
    | binary n op left right => exact absurd h (refuses_expr hlog rfl _ _).not_clean
    | call n callee args => exact absurd h (refuses_expr hlog rfl _ _).not_clean
    | _ => exact yieldsBuilt_expr hg rfl ⟨h.run⟩

end Check

end Statics
