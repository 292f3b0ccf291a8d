import Mathlib.Data.List.Basic
import Mathlib.Logic.Relation
import Statics.Proofs.Growth

/-!
# Named types that contain one another

A value of a named type is made of values of the types in its base: elements of arrays and fields of records, at any
depth. Pointers, slices and procedures end that. A named type that contains itself in this way has no size.

Bases are allocated after what they hold. So a named type whose base is older than that of another cannot contain it,
unless it was completed while the other was being declared. `Arena.acyclic_iff`: containment is acyclic exactly if no
type leads back to one that was completed inside its own declaration.
-/

namespace Statics

namespace Arena

variable {a b : Arena}

/-- The types whose values are the parts of a value: elements of an array, fields of a record. -/
def parts (a : Arena) (t : TypeId) : List TypeId :=
  match a.type t with
  | .array _ elem => [elem]
  | .record _ fields => fields.filterMap fun f => (a.entity f).type
  | _ => []

/-- A named type occurs in a type by value. -/
inductive Holds (a : Arena) : TypeId → TypeId → Prop where
  | self {t : TypeId} {name : String} {base : Option TypeId} {e : EntityId} (h : a.type t = .named name base e) :
    Holds a t t
  | part {t p u : TypeId} (hp : p ∈ a.parts t) (hu : Holds a p u) : Holds a t u

/-- The type that a name stands for. -/
def HasBase (a : Arena) (t base : TypeId) : Prop := ∃ name e, a.type t = .named name (some base) e

/-- Types that are names for others, or will be once their declarations were checked. -/
def IsName (a : Arena) (t : TypeId) : Prop := ∃ name base e, a.type t = .named name base e

/-- A named type directly contains another one. -/
def Contains (a : Arena) (t u : TypeId) : Prop := ∃ base, a.HasBase t base ∧ a.Holds base u

/-- Pointers and slices. -/
def IsIndirect (a : Arena) (t : TypeId) : Prop := ∃ elem, a.type t = .pointer elem ∨ a.type t = .slice elem

/-- The base of `u` holds `t`, and it was built while the declaration of `t` was behind a pointer or slice: after `t`
was named, and before that pointer or slice, which is older than the base of `t`. -/
def CompletedInside (a : Arena) (u t : TypeId) : Prop :=
  ∃ base indirect base', a.HasBase u base ∧ a.Holds base t ∧ a.HasBase t base' ∧ a.IsIndirect indirect ∧
    t.before base ∧ base.before indirect ∧ indirect.before base'

/-! ## Allocation order -/

/-- No base is a name itself, and what a base holds is older, or was completed inside. -/
structure Ordered (a : Arena) : Prop where
  bases : ∀ {t base}, a.HasBase t base → ¬ a.IsName base
  before : ∀ {base t base'}, ¬ a.IsName base → a.Holds base t → a.HasBase t base' → a.parts base' ≠ [] →
    base'.before base ∨ (t.before base ∧ ∃ p, a.IsIndirect p ∧ base.before p ∧ p.before base')

theorem exists_bound (a : Arena) :
    ∃ slabs size, ∀ t : TypeId, (a.type? t).isSome → t.slab < slabs ∧ t.index < size := by
  have hslabs : ∀ slabs : List Slab, ∃ n m, ∀ s ∈ slabs, s.id < n ∧ s.types.size ≤ m := by
    intro slabs
    induction slabs with
    | nil => exact ⟨0, 0, by simp⟩
    | cons s rest ih =>
      obtain ⟨n, m, h⟩ := ih
      refine ⟨max n (s.id + 1), max m s.types.size, fun r hr => ?_⟩
      rcases List.mem_cons.mp hr with rfl | hr
      · omega
      · have := h r hr
        omega
  obtain ⟨n, m, h⟩ := hslabs a.slabs
  refine ⟨n, m, fun t ht => ?_⟩
  simp only [type?, slab?, Option.isSome_bind, Option.any_eq_true] at ht
  obtain ⟨s, hs, ht⟩ := ht
  have hid := List.find?_some hs
  have hmem := h s (List.mem_of_find?_eq_some hs)
  simp only [beq_iff_eq] at hid
  rw [isSome_getElem?] at ht
  omega

/-- There is no endless ascent in allocation order. -/
theorem not_of_ascent {P : TypeId → Prop} (hsome : ∀ t, P t → (a.type? t).isSome)
    (hup : ∀ t, P t → ∃ u, P u ∧ t.before u) (t : TypeId) : ¬ P t := by
  obtain ⟨slabs, size, hbound⟩ := a.exists_bound
  -- How many places are left above a type that is in bounds.
  induction hn : (slabs - t.slab) * size + (size - t.index) using Nat.strongRecOn generalizing t with
  | ind n ih =>
    intro ht
    obtain ⟨u, hu, hbefore⟩ := hup t ht
    have hut := hbound u (hsome u hu)
    have htt := hbound t (hsome t ht)
    refine ih _ ?_ u rfl hu
    rw [← hn]
    rcases hbefore with hslab | ⟨hslab, hindex⟩
    · have hmul : (slabs - u.slab + 1) * size ≤ (slabs - t.slab) * size := Nat.mul_le_mul_right size (by omega)
      rw [Nat.add_mul, Nat.one_mul] at hmul
      omega
    · rw [← hslab]
      omega

theorem isSome_type?_of_parts {t p : TypeId} (h : p ∈ a.parts t) : (a.type? t).isSome := by
  cases ht : a.type? t with
  | some τ => rfl
  | none => simp [parts, type, ht, Ty.blank] at h

theorem HasBase.unique {t base base' : TypeId} (h : a.HasBase t base) (h' : a.HasBase t base') : base = base' := by
  obtain ⟨name, e, h⟩ := h
  obtain ⟨name', e', h'⟩ := h'
  rw [h] at h'
  cases h'
  rfl

/-- A base that holds something holds it in a part of it. -/
theorem Ordered.parts_ne_nil (h : a.Ordered) {t base u : TypeId} (hb : a.HasBase t base) (hu : a.Holds base u) :
    a.parts base ≠ [] := by
  cases hu with
  | self hself => exact absurd ⟨_, _, _, hself⟩ (h.bases hb)
  | part hp _ => exact List.ne_nil_of_mem hp

open Relation in
/-- Where something is contained, going back along a cycle leads to younger bases, unless a type on it was completed
inside the one before it. -/
theorem Ordered.exists_after (h : a.Ordered) (hin : ∀ u t, a.CompletedInside u t → ¬ TransGen a.Contains t u)
    {t base : TypeId} (hcycle : TransGen a.Contains t t) (hbase : a.HasBase t base) :
    ∃ u base', TransGen a.Contains u u ∧ a.HasBase u base' ∧ base.before base' := by
  obtain ⟨u, htu, base', hbase', hholds⟩ := TransGen.tail'_iff.mp hcycle
  have hut : a.Contains u t := ⟨base', hbase', hholds⟩
  obtain ⟨v, ⟨base'', hbase'', hv⟩, -⟩ := TransGen.head'_iff.mp hcycle
  obtain rfl := hbase.unique hbase''
  refine ⟨u, base', TransGen.head' hut htu, hbase', ?_⟩
  rcases h.before (h.bases hbase') hholds hbase (h.parts_ne_nil hbase hv) with hbefore | ⟨ht, p, hp, hpb, hpb'⟩
  · exact hbefore
  · exact absurd (hcycle.trans_left htu) (hin u t ⟨base', p, base, hbase', hholds, hbase, hp, ht, hpb, hpb'⟩)

open Relation in
/-- Containment is acyclic exactly if no type leads to one that was completed inside it. -/
theorem Ordered.acyclic_iff (h : a.Ordered) :
    (∀ t, ¬ TransGen a.Contains t t) ↔ ∀ u t, a.CompletedInside u t → ¬ TransGen a.Contains t u := by
  constructor
  · rintro hacyclic u t ⟨base, _, _, hbase, hholds, -⟩ htu
    exact hacyclic t (htu.tail ⟨base, hbase, hholds⟩)
  · intro hin t hcycle
    obtain ⟨_, ⟨base, hbase, _⟩, -⟩ := TransGen.head'_iff.mp hcycle
    refine not_of_ascent (a := a) (P := fun base => ∃ t, TransGen a.Contains t t ∧ a.HasBase t base) ?_ ?_ base
      ⟨t, hcycle, hbase⟩
    · rintro base ⟨t, hcycle, hbase⟩
      obtain ⟨_, ⟨base', hbase', hu⟩, -⟩ := TransGen.head'_iff.mp hcycle
      obtain rfl := hbase.unique hbase'
      obtain ⟨p, hp⟩ := List.exists_mem_of_ne_nil _ (h.parts_ne_nil hbase hu)
      exact isSome_type?_of_parts hp
    · rintro base ⟨t, hcycle, hbase⟩
      obtain ⟨u, base', hu, hbase', hbefore⟩ := h.exists_after hin hcycle hbase
      exact ⟨base', ⟨u, hu, hbase'⟩, hbefore⟩

/-! ## Larger arenas -/

/-- Everything that types are made of is in the arena. -/
structure Closed (a : Arena) : Prop where
  fields : ∀ {t form fields}, a.type t = .record form fields → ∀ f ∈ fields, (a.entity f).type.isSome
  parts : ∀ {t p}, p ∈ a.parts t → (a.type? p).isSome

namespace Closed

variable (hc : a.Closed) (h : a.Extends b)

include hc h

theorem parts_eq {t : TypeId} (ht : (a.type? t).isSome) : b.parts t = a.parts t := by
  unfold Arena.parts
  rw [h.type_eq ht]
  split
  · rfl
  · rename_i fields hrecord
    refine List.filterMap_congr fun f hf => ?_
    obtain ⟨u, hu⟩ := Option.isSome_iff_exists.mp (hc.fields hrecord f hf)
    rw [hu, h.entity_type hu]
  · rfl

theorem holds_iff {t u : TypeId} (ht : (a.type? t).isSome) : b.Holds t u ↔ a.Holds t u := by
  constructor
  · intro hu
    induction hu with
    | self hself =>
      rw [h.type_eq ht] at hself
      exact .self hself
    | part hp _ ih =>
      rw [hc.parts_eq h ht] at hp
      exact .part hp (ih (hc.parts hp))
  · intro hu
    induction hu with
    | self hself =>
      rw [← h.type_eq ht] at hself
      exact .self hself
    | part hp _ ih =>
      have hsome := hc.parts hp
      rw [← hc.parts_eq h ht] at hp
      exact .part hp (ih hsome)

end Closed

end Arena

end Statics
