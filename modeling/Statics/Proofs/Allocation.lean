import Mathlib.Data.Finset.Card
import Mathlib.Data.List.Nodup
import Statics.Arena.Basic

/-!
# Allocation order

Handles are ordered by slab, and within a slab by index. Going from handle to older handle ends after no more steps
than the arena has places, since the number of older places (`Arena.rank`) gets smaller. The bounds that reading an
arena goes by are of this sort.
-/

namespace Statics

namespace Handle

variable {pool : Pool} {f g h : Handle pool}

theorem not_before_self (h : Handle pool) : ¬ h.before h := by
  simp only [before]
  omega

theorem before_trans (hfg : f.before g) (hgh : g.before h) : f.before h := by
  simp only [before] at *
  omega

end Handle

namespace Arena

variable {pool : Pool} {a : Arena} {size : Slab → Nat} {g h : Handle pool}

/-- The places of a pool in which slabs have as many as `size` says. -/
def places (a : Arena) (pool : Pool) (size : Slab → Nat) : List (Handle pool) :=
  a.slabs.flatMap fun s => (List.range (size s)).map fun i => ⟨s.id, i⟩

/-- How many places are older than a handle. -/
def rank (a : Arena) (size : Slab → Nat) (h : Handle pool) : Nat :=
  ((a.places pool size).toFinset.filter (·.before h)).card

theorem length_places (a : Arena) (pool : Pool) (size : Slab → Nat) :
    (a.places pool size).length = (a.slabs.map size).foldr Nat.add 0 := by
  obtain ⟨slabs⟩ := a
  induction slabs with
  | nil => rfl
  | cons s rest ih =>
    have hcons : (Arena.places ⟨s :: rest⟩ pool size).length = size s + (Arena.places ⟨rest⟩ pool size).length := by
      simp [places]
    rw [hcons, ih]
    rfl

theorem rank_lt (hg : g ∈ a.places pool size) (hgh : g.before h) : a.rank size g < a.rank size h := by
  refine Finset.card_lt_card ((Finset.ssubset_iff_of_subset fun f hf => ?_).mpr ⟨g, ?_, ?_⟩)
  · rw [Finset.mem_filter] at hf ⊢
    exact ⟨hf.1, Handle.before_trans hf.2 hgh⟩
  · exact Finset.mem_filter.mpr ⟨List.mem_toFinset.mpr hg, hgh⟩
  · exact fun hmem => g.not_before_self (Finset.mem_filter.mp hmem).2

/-- A place has fewer older ones than there are places. -/
theorem rank_lt_length (hh : h ∈ a.places pool size) : a.rank size h < (a.places pool size).length := by
  have hlt : a.rank size h < (a.places pool size).toFinset.card := by
    refine Finset.card_lt_card (Finset.filter_ssubset.mpr ⟨h, List.mem_toFinset.mpr hh, h.not_before_self⟩)
  exact Nat.lt_of_lt_of_le hlt (List.toFinset_card_le _)

theorem mem_places {s : Slab} (hs : a.slab? h.slab = some s) (hindex : h.index < size s) : h ∈ a.places pool size := by
  have hid := List.find?_some hs
  rw [beq_iff_eq] at hid
  refine List.mem_flatMap.mpr ⟨s, List.mem_of_find?_eq_some hs,
    List.mem_map.mpr ⟨h.index, List.mem_range.mpr hindex, ?_⟩⟩
  rw [hid]

theorem mem_places_of_scope? {f : ScopeId} (hf : (a.scope? f).isSome) :
    f ∈ a.places .scope fun s => s.scopes.size := by
  obtain ⟨c, hc⟩ := Option.isSome_iff_exists.mp hf
  obtain ⟨s, hs, hget⟩ := Option.bind_eq_some_iff.mp hc
  exact mem_places hs (Array.getElem?_eq_some_iff.mp hget).1

theorem mem_places_of_type? {t : TypeId} (ht : (a.type? t).isSome) : t ∈ a.places .type fun s => s.types.size := by
  obtain ⟨τ, hτ⟩ := Option.isSome_iff_exists.mp ht
  obtain ⟨s, hs, hget⟩ := Option.bind_eq_some_iff.mp hτ
  exact mem_places hs (Array.getElem?_eq_some_iff.mp hget).1

/-- How many scopes are older than a scope. -/
def scopeRank (a : Arena) (f : ScopeId) : Nat := a.rank (fun s => s.scopes.size) f

/-- How many types are older than a type. -/
def typeRank (a : Arena) (t : TypeId) : Nat := a.rank (fun s => s.types.size) t

theorem scopeRank_lt {f g : ScopeId} (hf : (a.scope? f).isSome) (hfg : f.before g) : a.scopeRank f < a.scopeRank g :=
  rank_lt (mem_places_of_scope? hf) hfg

theorem scopeRank_lt_scopeCount {f : ScopeId} (hf : (a.scope? f).isSome) : a.scopeRank f < a.scopeCount := by
  have hlt := rank_lt_length (mem_places_of_scope? hf)
  rwa [length_places] at hlt

theorem typeRank_lt {t u : TypeId} (ht : (a.type? t).isSome) (htu : t.before u) : a.typeRank t < a.typeRank u :=
  rank_lt (mem_places_of_type? ht) htu

theorem typeRank_lt_typeCount {t : TypeId} (ht : (a.type? t).isSome) : a.typeRank t < a.typeCount := by
  have hlt := rank_lt_length (mem_places_of_type? ht)
  rwa [length_places] at hlt

end Arena

end Statics
