import Statics.Proofs.Containment.Steps
import Statics.Proofs.Declared

/-!
# Runs keep the layout of types

The invariant `Pass.Ready` is carried through expressions, declarations and statements, along runs that log no error.
Most routines only add types without parts. Type expressions and the declarations of named types are looked at one by
one.
-/

namespace Statics

/-! ## Stores -/

namespace Store

variable {s : Store}

/-- The slab that may be written is the newest. -/
def Stacked (s : Store) : Prop := ∀ slab ∈ s.frozen, slab.id < s.current.id

theorem Stacked.grows {t : Store} (h : s.Stacked) (hg : s.Grows t) : t.Stacked := by
  intro slab hslab
  rw [hg.frozen] at hslab
  rw [hg.id]
  exact h slab hslab

theorem Stacked.adds (h : s.Stacked) (τ : Ty) : s.arena.Adds (s.newType τ).1 τ (s.newType τ).2.arena where
  new := by rw [type?_newType, if_pos rfl]
  rest hu := by rw [type?_newType, if_neg hu]
  entities := entity?_congr rfl rfl rfl
  last {u} hu := by
    rw [type?_arena] at hu
    split at hu
    case isTrue hslab =>
      rw [isSome_getElem?] at hu
      exact .inr ⟨hslab.symm, hu⟩
    case isFalse hslab =>
      simp only [Arena.type?, Arena.slab?, below, Option.isSome_bind, Option.any_eq_true] at hu
      obtain ⟨slab, hfind, -⟩ := hu
      have hid := List.find?_some hfind
      have hlt := h slab (List.mem_of_find?_eq_some hfind)
      simp only [beq_iff_eq] at hid
      exact .inl (by rwa [← hid])

/-- Filling in a type that is no pointer or slice and has no parts, by one of the same sort. -/
theorem refills {t : TypeId} {σ : Ty} (hlocal : t.slab = s.current.id) (hold : s.arena.type? t = some σ) (f : Ty → Ty)
    (hσ : (∃ name e, σ = .named name none e ∧ ∃ base, f σ = .named name (some base) e) ∨
      ∃ base members, σ = .enum base [] ∧ f σ = .enum base members) :
    s.arena.Refills t (f σ) (s.modifyType t f).arena := by
  have hread : s.arena.type t = σ := by simp [Arena.type, hold]
  have hnew : (s.modifyType t f).arena.type? t = some (f σ) := by
    rw [type?_modifyType, if_pos ⟨hlocal, rfl⟩, hold]
    rfl
  have hread' : (s.modifyType t f).arena.type t = f σ := by simp [Arena.type, hnew]
  refine ⟨?_, hnew, fun hu => by rw [type?_modifyType, if_neg fun h => hu h.2], s.entity?_modifyType t f, ?_, ?_, ?_⟩
  · rcases hσ with ⟨name, e, rfl, -⟩ | ⟨base, members, rfl, -⟩ <;> simp [hread]
  · rcases hσ with ⟨name, e, rfl, base, hf⟩ | ⟨base, members, rfl, hf⟩ <;> simp [Arena.parts, hread, hread', hf]
  · rcases hσ with ⟨name, e, rfl, base, hf⟩ | ⟨base, members, rfl, hf⟩ <;> simp [Arena.IsName, hread, hread', hf]
  · rcases hσ with ⟨name, e, rfl, -⟩ | ⟨base, members, rfl, -⟩ <;> simp [Arena.IsIndirect, hread]

end Store

/-! ## Passes that grow lightly -/

/-- Only types without names and parts were added, and no type name got a type. -/
structure Lightly (s t : Pass) : Prop extends Sparing Arena.TypedName s t where
  types : s.store.Stacked → s.store.arena.AddsLightly t.store.arena

namespace Lightly

variable {s t u : Pass}

theorem lightly (h : Lightly s t) (hs : s.store.Stacked) : s.store.arena.GrowsLightly t.store.arena :=
  ⟨h.grows.store.toExtends, h.types hs, h.spares⟩

theorem trans (h : Lightly s t) (h' : Lightly t u) : Lightly s u where
  toSparing := h.toSparing.trans h'.toSparing
  types hs {v} hold hnew := by
    have hs' := hs.grows h.grows.store
    cases ht : t.store.arena.type? v with
    | none => exact h'.types hs' ht hnew
    | some τ =>
      have hsome : (t.store.arena.type? v).isSome := by simp [ht]
      rw [h'.grows.store.toExtends.type_eq hsome]
      exact h.types hs hold hsome

/-- A step that leaves the types alone. -/
theorem of_types (h : Sparing Arena.TypedName s t) (ht : ∀ u, t.store.arena.type? u = s.store.arena.type? u) :
    Lightly s t := ⟨h, fun _ {u} hold hnew => by simp [ht, hold] at hnew⟩

theorem of_store_eq (hg : s.Grows t) (h : t.store = s.store) : Lightly s t :=
  of_types (.of_store_eq hg h) fun _ => by rw [h]

theorem newType (s : Pass) {τ : Ty} (hτ : τ.isLight) : Lightly s { s with store := (s.store.newType τ).2 } :=
  ⟨.newType s τ, fun hs => (hs.adds τ).addsLightly hτ⟩

theorem not_typedName_of_isOrdinary (x : Entity) (hx : x.isOrdinary) : ¬ Arena.TypedName x.kind x.type := by
  rintro ⟨hk, -⟩
  simp [Entity.isOrdinary, hk] at hx

instance : Enters (Sparing Arena.TypedName) := Sparing.enters not_typedName_of_isOrdinary fun k h => by simpa using h.2

instance : Enters Lightly where
  refl s := of_store_eq (.refl s) rfl
  trans := trans
  report s d hd hk := of_store_eq (Reports.report s d hd hk) rfl
  refer s id e := of_store_eq (Remarks.refer s id e) rfl
  define s id e := of_store_eq (Remarks.define s id e) rfl
  markUsed s e := of_types (Remarks.markUsed s e) (s.store.type?_markUsed e)
  openScope s parent kind := of_types (Supplies.openScope s parent kind) (s.store.type?_openScope parent kind)
  noteScope s id scope := of_store_eq (Supplies.noteScope s id scope) rfl
  bind s scope e := of_types (Binds.bind s scope e) (s.store.type?_bind scope e)
  newEntity s e he := of_types (Allocates.newEntity s e he) (Store.type?_congr rfl rfl rfl)
  newPointer s _ := newType s rfl
  newTuple s _ := newType s rfl
  newProc s _ _ := newType s rfl
  newWaiting s e he := of_types (Prepares.newWaiting s e he) (Store.type?_congr rfl rfl rfl)
  await s p := of_store_eq (Enters.await s p) rfl
  hoist s id := of_store_eq (Prepares.hoist s id) rfl

instance : Observes Lightly where
  annotate s id note := of_store_eq (Observes.annotate s id note) rfl

end Lightly

/-- No type was added. -/
def SameTypes (s t : Pass) : Prop := ∀ u, t.store.arena.type? u = s.store.arena.type? u

instance : Observes SameTypes where
  refl _ _ := rfl
  trans h h' u := (h' u).trans (h u)
  report _ _ _ _ _ := rfl
  annotate _ _ _ _ := rfl
  refer _ _ _ _ := rfl
  define _ _ _ _ := rfl
  markUsed s e := s.store.type?_markUsed e

/-! ## The invariant -/

/-- What holds between two steps that log no error. The entities in `focus` may be settled, of the declarations,
`pending` may still be checked, and `path` and `n` say where type declarations stand. -/
structure Pass.Ready (focus : EntityId → Prop) (pending : List (EntityId × Declaration)) (path : List (EntityId × Nat))
    (n : Nat) (s : Pass) : Prop where
  room : s.HasRoom
  stacked : s.store.Stacked
  declared : s.Declared
  pending : pending ⊆ s.decls
  focus : ∀ e, focus e → ∃ sort, sort ≠ "type name" ∧ s.store.Owns e sort
  layout : s.store.arena.Layout path n

/-- The invariant where a context says where type declarations stand. -/
abbrev Pass.ReadyIn (focus : EntityId → Prop) (pending : Pending) (ctx : Context) : Pass → Prop :=
  Pass.Ready focus pending ctx.typePath ctx.indirection

variable {focus : EntityId → Prop} {pending : Pending} {path : List (EntityId × Nat)} {n : Nat}

namespace Pass.Ready

variable {s t : Pass}

section

variable (h : s.Ready focus pending path n)

include h

/-- A step that leaves diagnostics and declarations alone keeps the invariant if it keeps the layout. -/
theorem change {path' : List (EntityId × Nat)} {n' : Nat} (hg : s.Grows t) (hc : t.collector = s.collector)
    (hd : t.decls = s.decls) (hl : t.store.arena.Layout path' n') : t.Ready focus pending path' n' where
  room := by
    unfold HasRoom
    rw [hc]
    exact h.room
  stacked := h.stacked.grows hg.store
  declared := h.declared.grows hg hd
  pending := hd ▸ h.pending
  focus e he := by
    obtain ⟨sort, hsort, hown⟩ := h.focus e he
    exact ⟨sort, hsort, hown.grows hg.store⟩
  layout := hl

/-- So does a step that fills in a type. -/
theorem refill {path' : List (EntityId × Nat)} {n' : Nat} (u : TypeId) (f : Ty → Ty)
    (hl : (s.store.modifyType u f).arena.Layout path' n') :
    Pass.Ready focus pending path' n' { s with store := s.store.modifyType u f } where
  room := h.room
  stacked := by
    have hstacked := h.stacked
    grind [Store.Stacked]
  declared p hp :=
    ⟨(h.declared p hp).own.modifyType u f, fun v hv => ((h.declared p hp).vars v hv).modifyType u f,
      (h.declared p hp).among⟩
  pending := h.pending
  focus e he := by
    obtain ⟨sort, hsort, hown⟩ := h.focus e he
    exact ⟨sort, hsort, hown.modifyType u f⟩
  layout := hl

theorem light (hl : Lightly s t) (hc : t.collector = s.collector) (hd : t.decls = s.decls) :
    t.Ready focus pending path n :=
  h.change hl.grows hc hd (h.layout.light (hl.lightly h.stacked))

theorem adds (τ : Ty) : s.store.arena.Adds (s.store.newType τ).1 τ (s.store.newType τ).2.arena := h.stacked.adds τ

end

end Pass.Ready

theorem Keeps.light {s t : Pass} (hl : Lightly s t) (hc : t.collector = s.collector) (hd : t.decls = s.decls) :
    Keeps (Pass.Ready focus pending path n) s t :=
  .of_eq hc fun h => h.light hl hc hd

instance : Binds (Keeps (Pass.Ready focus pending path n)) :=
  .of_still (fun h hst => .light h hst.collector hst.decls) .trans fun s d hd _ => .report Pass.Ready.room s d hd

instance : Observes (Keeps (Pass.Ready focus pending path n)) :=
  .of_still (fun h hst => .light h hst.collector hst.decls) .trans fun s d hd _ => .report Pass.Ready.room s d hd

instance : Settles (Keeps (Pass.Ready focus pending path n)) focus where
  settle s e f he hf := .of_eq rfl fun h => by
    have hkeeps (x : Entity) : x.Keeps (f x) := .of_settles (hf x)
    have hnot (x : Entity) (hx : s.store.arena.entity? e = some x) : ¬ Arena.TypedName (f x).kind (f x).type := by
      rintro ⟨hk, -⟩
      obtain ⟨sort, hsort, hown⟩ := h.focus e he
      have hkind := hown.kind
      simp only [Arena.entity_eq hx, (hkeeps x).typeName hk] at hkind
      exact hsort hkind.symm
    have hspare := Sparing.settle s e hkeeps fun x hx hW => absurd hW (hnot x hx)
    exact h.light (.of_types hspare (s.store.type?_modifyEntity e f)) rfl rfl
  claimSymbol s p := .light (.of_store_eq (Settles.claimSymbol s p) rfl) rfl rfl

instance : OpensVariables (Keeps (Pass.Ready focus pending path n)) where
  newVariable s token ident := .light (OpensVariables.newVariable s token ident) rfl rfl

instance : Records (Keeps (Pass.Ready focus pending path n)) where
  record s m := .light (.of_store_eq (Records.record s m) rfl) rfl rfl

end Statics
