import Mathlib.Data.List.Forall2
import Statics.Proofs.Allocation
import Statics.Proofs.Typing

/-!
# Identity of types

Types are compared part by part. The parts of a type are older than the type itself in every state of a program
(`Program.throughout_layered`), so comparing two types ends, and the bound on its depth never matters
(`Arena.identical_iff`). What is compared so is an equivalence at every depth.
-/

namespace Statics

namespace Arena

variable {a b : Arena}

/-! ## Comparing two types once -/

/-- The types that a type is compared by: what it is built from, except that names and enums are only compared as
handles. -/
def components (a : Arena) : Ty → List TypeId
  | .named .. | .enum .. => []
  | τ => a.constituents τ

theorem components_subset (a : Arena) (τ : Ty) : a.components τ ⊆ a.constituents τ := by
  intro t ht
  cases τ with
  | named => cases ht
  | enum => cases ht
  | _ => exact ht

/-- Two fields have the same name and exposure, and types that are related. -/
def FieldsMatch (a : Arena) (R : TypeId → TypeId → Prop) (f g : EntityId) : Prop :=
  (a.entity f).name = (a.entity g).name ∧ (a.entity f).isAnonymous = (a.entity g).isAnonymous ∧
    ∃ t u, (a.entity f).type = some t ∧ (a.entity g).type = some u ∧ R t u

/-- Two types are built in the same way, from components that are related. -/
inductive Matches (a : Arena) (R : TypeId → TypeId → Prop) : Ty → Ty → Prop where
  | basic (k : Kind) : Matches a R (.basic k) (.basic k)
  | pointer {t u : TypeId} : R t u → Matches a R (.pointer t) (.pointer u)
  | array (count : Nat) {t u : TypeId} : R t u → Matches a R (.array count t) (.array count u)
  | slice {t u : TypeId} : R t u → Matches a R (.slice t) (.slice u)
  | record (form : RecordForm) {fs gs : List EntityId} : List.Forall₂ (a.FieldsMatch R) fs gs →
    Matches a R (.record form fs) (.record form gs)
  | tuple {ts us : List TypeId} : List.Forall₂ R ts us → Matches a R (.tuple ts) (.tuple us)
  | proc {ps qs rs ss : List TypeId} : List.Forall₂ R ps qs → List.Forall₂ R rs ss →
    Matches a R (.proc ps rs) (.proc qs ss)

namespace Matches

variable {R S : TypeId → TypeId → Prop} {σ τ ρ : Ty}

/-- Only components are looked at. -/
theorem imp (h : a.Matches R σ τ) (hRS : ∀ t ∈ a.components σ, ∀ u ∈ a.components τ, R t u → S t u) :
    a.Matches S σ τ := by
  have hlist {ts us : List TypeId} (hts : ts ⊆ a.components σ) (hus : us ⊆ a.components τ) (h : List.Forall₂ R ts us) :
      List.Forall₂ S ts us := by
    induction h with
    | nil => exact .nil
    | cons hhead _ ih =>
      obtain ⟨ht, hts⟩ := List.cons_subset.mp hts
      obtain ⟨hu, hus⟩ := List.cons_subset.mp hus
      exact .cons (hRS _ ht _ hu hhead) (ih hts hus)
  cases h with
  | basic k => exact .basic k
  | pointer h => exact .pointer (hRS _ (List.mem_singleton_self _) _ (List.mem_singleton_self _) h)
  | array count h => exact .array count (hRS _ (List.mem_singleton_self _) _ (List.mem_singleton_self _) h)
  | slice h => exact .slice (hRS _ (List.mem_singleton_self _) _ (List.mem_singleton_self _) h)
  | @record form fs gs h =>
    have hfields {fs' gs' : List EntityId} (hfs : fs' ⊆ fs) (hgs : gs' ⊆ gs)
      (h : List.Forall₂ (a.FieldsMatch R) fs' gs') :
        List.Forall₂ (a.FieldsMatch S) fs' gs' := by
      induction h with
      | nil => exact .nil
      | cons hhead _ ih =>
        obtain ⟨hf, hfs⟩ := List.cons_subset.mp hfs
        obtain ⟨hg, hgs⟩ := List.cons_subset.mp hgs
        obtain ⟨hname, hexposed, t, u, ht, hu, hR⟩ := hhead
        refine .cons ⟨hname, hexposed, t, u, ht, hu, hRS t ?_ u ?_ hR⟩ (ih hfs hgs)
        · exact List.mem_filterMap.mpr ⟨_, hf, ht⟩
        · exact List.mem_filterMap.mpr ⟨_, hg, hu⟩
    exact .record form (hfields (List.Subset.refl _) (List.Subset.refl _) h)
  | tuple h => exact .tuple (hlist (List.Subset.refl _) (List.Subset.refl _) h)
  | proc h h' =>
    exact .proc (hlist (List.subset_append_left ..) (List.subset_append_left ..) h)
      (hlist (List.subset_append_right ..) (List.subset_append_right ..) h')

theorem symm (h : a.Matches R σ τ) : a.Matches (fun t u => R u t) τ σ := by
  cases h with
  | basic k => exact .basic k
  | pointer h => exact .pointer h
  | array count h => exact .array count h
  | slice h => exact .slice h
  | record form h =>
    refine .record form (h.flip.imp fun f g hfg => ?_)
    obtain ⟨hname, hexposed, t, u, ht, hu, hR⟩ := hfg
    exact ⟨hname.symm, hexposed.symm, u, t, hu, ht, hR⟩
  | tuple h => exact .tuple h.flip
  | proc h h' => exact .proc h.flip h'.flip

theorem forall₂_trans {α : Type} {P : α → α → Prop} (hP : ∀ x y z, P x y → P y z → P x z) {xs ys zs : List α}
    (h : List.Forall₂ P xs ys) (h' : List.Forall₂ P ys zs) : List.Forall₂ P xs zs := by
  induction h generalizing zs with
  | nil =>
    cases h'
    exact .nil
  | cons hhead _ ih =>
    cases h' with
    | cons hhead' htail' => exact .cons (hP _ _ _ hhead hhead') (ih htail')

theorem trans (hR : ∀ t u v, R t u → R u v → R t v) (h : a.Matches R σ τ) (h' : a.Matches R τ ρ) : a.Matches R σ ρ := by
  cases h with
  | basic k =>
    cases h'
    exact .basic k
  | pointer h =>
    cases h' with
    | pointer h' => exact .pointer (hR _ _ _ h h')
  | array count h =>
    cases h' with
    | array _ h' => exact .array count (hR _ _ _ h h')
  | slice h =>
    cases h' with
    | slice h' => exact .slice (hR _ _ _ h h')
  | record form h =>
    cases h' with
    | record _ h' =>
      refine .record form (forall₂_trans (fun f g k hfg hgk => ?_) h h')
      obtain ⟨hname, hexposed, t, u, ht, hu, htu⟩ := hfg
      obtain ⟨hname', hexposed', u', v, hu', hv, huv⟩ := hgk
      obtain rfl := Option.some.inj (hu.symm.trans hu')
      exact ⟨hname.trans hname', hexposed.trans hexposed', t, v, ht, hv, hR t u v htu huv⟩
  | tuple h =>
    cases h' with
    | tuple h' => exact .tuple (forall₂_trans hR h h')
  | proc hp hr =>
    cases h' with
    | proc hp' hr' => exact .proc (forall₂_trans hR hp hp') (forall₂_trans hR hr hr')

end Matches

theorem all_zip_iff {α : Type} {p : α → α → Bool} {xs ys : List α} :
    (xs.length == ys.length && (xs.zip ys).all fun q => p q.1 q.2) ↔ List.Forall₂ (fun x y => p x y = true) xs ys := by
  rw [List.forall₂_iff_zip, Bool.and_eq_true, beq_iff_eq, List.all_eq_true]
  exact and_congr_right fun _ => ⟨fun h x y hxy => h (x, y) hxy, fun h q hq => h hq⟩

theorem sameField_iff {same : TypeId → TypeId → Bool} {f g : EntityId} :
    a.sameField same f g ↔ a.FieldsMatch (fun t u => same t u = true) f g := by
  simp only [sameField, FieldsMatch, Bool.and_eq_true, beq_iff_eq, and_assoc]
  refine and_congr_right fun _ => and_congr_right fun _ => ?_
  cases (a.entity f).type <;> cases (a.entity g).type <;> simp

/-- One level of comparing types. -/
theorem identicalWithin_succ_iff {n : Nat} {x y : TypeId} : a.identicalWithin (n + 1) x y ↔
    x = y ∨ a.Matches (fun t u => a.identicalWithin n t u) (a.type x) (a.type y) := by
  rw [identicalWithin, Bool.or_eq_true, beq_iff_eq]
  refine or_congr_right ?_
  have hrecords {fs gs : List EntityId} :
      (fs.length == gs.length && (fs.zip gs).all fun p => a.sameField (a.identicalWithin n) p.1 p.2) ↔
        List.Forall₂ (a.FieldsMatch fun t u => a.identicalWithin n t u) fs gs := by
    rw [all_zip_iff]
    refine ⟨fun h => h.imp fun _ _ => sameField_iff.mp, fun h => h.imp fun _ _ => sameField_iff.mpr⟩
  generalize a.type x = σ, a.type y = τ
  refine ⟨fun h => ?_, fun h => ?_⟩
  · split at h
    · exact beq_iff_eq.mp h ▸ .basic _
    · exact .pointer h
    · exact .slice h
    · obtain ⟨hcount, h⟩ := (Bool.and_eq_true _ _).mp h
      exact beq_iff_eq.mp hcount ▸ .array _ h
    · rw [Bool.and_assoc, Bool.and_eq_true, hrecords] at h
      exact beq_iff_eq.mp h.1 ▸ .record _ h.2
    · exact .tuple (all_zip_iff.mp h)
    · obtain ⟨h, h'⟩ := (Bool.and_eq_true _ _).mp h
      exact .proc (all_zip_iff.mp h) (all_zip_iff.mp h')
    · cases h
  · cases h with
    | basic k => exact beq_self_eq_true k
    | pointer h => exact h
    | array count h => exact (Bool.and_eq_true _ _).mpr ⟨beq_self_eq_true count, h⟩
    | slice h => exact h
    | record form h =>
      show (form == form && _ && _) = true
      rw [Bool.and_assoc, Bool.and_eq_true, hrecords]
      exact ⟨beq_self_eq_true form, h⟩
    | tuple h => exact all_zip_iff.mpr h
    | proc h h' => exact (Bool.and_eq_true _ _).mpr ⟨all_zip_iff.mpr h, all_zip_iff.mpr h'⟩

/-! ## An equivalence at every depth -/

variable {n : Nat} {x y z : TypeId}

theorem identicalWithin_self (n : Nat) (x : TypeId) : a.identicalWithin n x x := by
  cases n with
  | zero => exact beq_self_eq_true x
  | succ n => exact identicalWithin_succ_iff.mpr (.inl rfl)

theorem identicalWithin_symm (h : a.identicalWithin n x y) : a.identicalWithin n y x := by
  induction n generalizing x y with
  | zero => exact beq_iff_eq.mpr (beq_iff_eq.mp h).symm
  | succ n ih =>
    rw [identicalWithin_succ_iff] at h ⊢
    rcases h with h | h
    · exact .inl h.symm
    · exact .inr (h.symm.imp fun t _ u _ htu => ih htu)

theorem identicalWithin_trans (h : a.identicalWithin n x y) (h' : a.identicalWithin n y z) :
    a.identicalWithin n x z := by
  induction n generalizing x y z with
  | zero =>
    rw [identicalWithin, beq_iff_eq] at h h'
    rw [h, h']
    exact identicalWithin_self ..
  | succ n ih =>
    rw [identicalWithin_succ_iff] at h h' ⊢
    rcases h with rfl | h
    · exact h'
    · rcases h' with rfl | h'
      · exact .inr h
      · exact .inr (h.trans (fun _ _ _ => ih) h')

/-! ## Depth does not matter -/

/-- The components of a type are older than the type. -/
def Layered (a : Arena) : Prop := ∀ u τ, a.type? u = some τ → ∀ c ∈ a.components τ, a.Has c ∧ c.before u

theorem type_of_has {t : TypeId} (h : a.Has t) : a.type? t = some (a.type t) := by
  obtain ⟨τ, hτ⟩ := Option.isSome_iff_exists.mp h
  rwa [type_eq hτ]

namespace Layered

variable (h : a.Layered)

include h

theorem components_older (hx : a.Has x) {t : TypeId} (ht : t ∈ a.components (a.type x)) :
    a.Has t ∧ a.typeRank t < a.typeRank x := by
  obtain ⟨hhas, hbefore⟩ := h x _ (type_of_has hx) t ht
  exact ⟨hhas, typeRank_lt hhas hbefore⟩

/-- Once there is a level for every older type, more make no difference. -/
theorem identicalWithin_eq {n m : Nat} (hx : a.Has x) (hn : a.typeRank x < n) (hm : a.typeRank x < m) (y : TypeId) :
    a.identicalWithin n x y = a.identicalWithin m x y := by
  induction n generalizing m x y with
  | zero => omega
  | succ n ih =>
    obtain ⟨m, rfl⟩ : ∃ k, m = k + 1 := ⟨m - 1, by omega⟩
    have hparts (t : TypeId) (ht : t ∈ a.components (a.type x)) (u : TypeId) :
        a.identicalWithin n t u = a.identicalWithin m t u := by
      obtain ⟨hhas, hlt⟩ := h.components_older hx ht
      exact ih hhas (by omega) (by omega) u
    rw [Bool.eq_iff_iff, identicalWithin_succ_iff, identicalWithin_succ_iff]
    refine or_congr_right ⟨fun hmatch => hmatch.imp fun t ht u _ htu => ?_,
      fun hmatch => hmatch.imp fun t ht u _ htu => ?_⟩
    · rw [← hparts t ht]
      exact htu
    · rw [hparts t ht]
      exact htu

/-- Comparing types is comparing their components, without a bound. -/
theorem identical_iff (hx : a.Has x) (y : TypeId) :
    a.identical x y ↔ x = y ∨ a.Matches (fun t u => a.identical t u) (a.type x) (a.type y) := by
  have hcount : a.typeRank x < a.typeCount := typeRank_lt_typeCount hx
  have hparts (t : TypeId) (ht : t ∈ a.components (a.type x)) (u : TypeId) :
      a.identicalWithin a.typeCount t u = a.identical t u := by
    obtain ⟨hhas, hlt⟩ := h.components_older hx ht
    exact h.identicalWithin_eq hhas (by omega) (by omega) u
  rw [identical, identicalWithin_succ_iff]
  refine or_congr_right ⟨fun hmatch => hmatch.imp fun t ht u _ htu => ?_,
    fun hmatch => hmatch.imp fun t ht u _ htu => ?_⟩
  · rw [← hparts t ht]
    exact htu
  · rw [hparts t ht]
    exact htu

/-- No other relation compares types so. -/
theorem identical_unique {R : TypeId → TypeId → Prop}
    (hR : ∀ x y, a.Has x → a.Has y → (R x y ↔ x = y ∨ a.Matches R (a.type x) (a.type y))) (hx : a.Has x)
    (hy : a.Has y) : R x y ↔ a.identical x y := by
  generalize hn : a.typeRank x = n
  induction n using Nat.strong_induction_on generalizing x y with
  | _ n ih =>
    have hparts (t : TypeId) (ht : t ∈ a.components (a.type x)) (u : TypeId) (hu : u ∈ a.components (a.type y)) :
        R t u ↔ a.identical t u := by
      obtain ⟨hthas, hlt⟩ := h.components_older hx ht
      exact ih _ (hn ▸ hlt) hthas (h.components_older hy hu).1 rfl
    rw [hR x y hx hy, h.identical_iff hx]
    exact or_congr_right ⟨fun hmatch => hmatch.imp fun t ht u hu => (hparts t ht u hu).mp,
      fun hmatch => hmatch.imp fun t ht u hu => (hparts t ht u hu).mpr⟩

end Layered

/-! ## Layers stay -/

/-- The components of a valid type stay when slabs grow. -/
theorem components_extend {v : View} {τ : Ty} (hτ : τ.Valid v) (hext : v.arena.Extends b) :
    b.components τ = v.arena.components τ := by
  have heq := constituents_extend hτ hext
  cases τ with
  | named => rfl
  | enum => rfl
  | _ => exact heq

end Arena

namespace Store

variable {s : Pass} {t : Store}

/-- In a store with the slabs below in order, components are older than the type. -/
structure Layered (s : Store) : Prop where
  arena : s.arena.Layered
  below : ∀ slab ∈ s.frozen, slab.id < s.current.id

/-- A new type is younger than all others. -/
theorem before_newType {s : Store} (hbelow : ∀ slab ∈ s.frozen, slab.id < s.current.id) {u : TypeId}
    (hu : s.arena.Has u) (τ : Ty) : u.before (s.newType τ).1 := by
  obtain ⟨σ, hσ⟩ := Option.isSome_iff_exists.mp hu
  rw [type?_arena] at hσ
  split at hσ
  case isTrue hslab => exact .inr ⟨hslab.symm, (Array.getElem?_eq_some_iff.mp hσ).1⟩
  case isFalse =>
    obtain ⟨slab, hslab, -⟩ := Option.bind_eq_some_iff.mp hσ
    have hid := List.find?_some hslab
    rw [beq_iff_eq] at hid
    exact .inl (hid ▸ hbelow slab (List.mem_of_find?_eq_some hslab))

/-- Where no type changes, layers stay. -/
theorem Layered.grow (hs : s.Valid) (hl : s.store.Layered) (hgrows : s.store.Grows t)
    (htype : ∀ u, t.arena.type? u = s.store.arena.type? u) : t.Layered := by
  refine ⟨fun u τ hτ c hc => ?_, ?_⟩
  · rw [htype] at hτ
    rw [Arena.components_extend (v := s.view) (hs.intact.types u τ hτ) hgrows.toExtends] at hc
    obtain ⟨hhas, hbefore⟩ := hl.arena u τ hτ c hc
    refine ⟨?_, hbefore⟩
    show (t.arena.type? c).isSome
    rw [htype]
    exact hhas
  · rw [hgrows.id, hgrows.frozen]
    exact hl.below

theorem Layered.newType (hs : s.Valid) (hl : s.store.Layered) {τ : Ty} (hτ : τ.Valid s) :
    (s.store.newType τ).2.Layered := by
  have hext := (Grows.newType s.store τ).toExtends
  have hhas {u : TypeId} (hu : s.store.arena.Has u) : (s.store.newType τ).2.arena.Has u := by
    obtain ⟨σ, hσ⟩ := Option.isSome_iff_exists.mp hu
    exact Option.isSome_iff_exists.mpr ⟨σ, hext.types u σ hσ⟩
  refine ⟨fun u σ hσ c hc => ?_, hl.below⟩
  rw [type?_newType] at hσ
  split at hσ
  case isTrue hu =>
    cases hσ
    rw [Arena.components_extend (v := s.view) hτ hext] at hc
    have hc' : s.view.Has c := (Arena.settled_of_mem_constituents hs.intact hτ (Arena.components_subset _ _ hc)).has
    exact ⟨hhas hc', hu ▸ before_newType hl.below hc' τ⟩
  case isFalse =>
    rw [Arena.components_extend (v := s.view) (hs.intact.types u σ hσ) hext] at hc
    obtain ⟨hold, hbefore⟩ := hl.arena u σ hσ c hc
    exact ⟨hhas hold, hbefore⟩

/-- What a type gets when it is completed is none of its components. -/
theorem components_of_completes {a : Arena} {σ τ : Ty} (h : σ.Completes τ) : a.components τ = [] := by
  cases h <;> rfl

theorem Layered.modifyType (hl : s.store.Layered) {u : TypeId} {f : Ty → Ty}
    (hf : ∀ τ, s.store.arena.type? u = some τ → τ.Completes (f τ)) : (s.store.modifyType u f).Layered := by
  have hcomponents (τ : Ty) : (s.store.modifyType u f).arena.components τ = s.store.arena.components τ := by
    cases τ with
    | record _ fields =>
      refine List.filterMap_congr fun e _ => ?_
      rw [Arena.entity, Arena.entity, entity?_modifyType]
    | _ => rfl
  refine ⟨fun w τ hτ c hc => ?_, by simpa using hl.below⟩
  rw [type?_modifyType] at hτ
  split at hτ
  case isTrue hw =>
    obtain ⟨-, rfl⟩ := hw
    obtain ⟨σ, hσ, rfl⟩ := Option.map_eq_some_iff.mp hτ
    rw [components_of_completes (hf σ hσ)] at hc
    cases hc
  case isFalse =>
    rw [hcomponents] at hc
    obtain ⟨hhas, hbefore⟩ := hl.arena w τ hτ c hc
    exact ⟨by grind [Arena.Has], hbefore⟩

/-- What a type needs does not depend on what is being declared. -/
theorem valid_of_store {s : Store} {decls decls' : Pending} {τ : Ty} (h : τ.Valid ⟨s, decls⟩) :
    τ.Valid ⟨s, decls'⟩ := by
  have hfield {f : EntityId} (hf : View.IsField ⟨s, decls⟩ f) : View.IsField ⟨s, decls'⟩ f :=
    { hf with }
  cases τ with
  | record _ fields => exact fun f hf => hfield (h f hf)
  | enum base members => exact ⟨h.1, fun m hm => hfield (h.2 m hm)⟩
  | _ => exact h

/-- Every elementary change of a valid state keeps components older. -/
theorem Layered.step (hs : s.Valid) (hl : s.store.Layered) (h : s.store.Step t) : t.Layered := by
  cases h with
  | newType hτ => exact hl.newType hs (valid_of_store hτ)
  | newEntity x => exact hl.grow hs (.newEntity ..) (type?_congr (s := s.store) rfl rfl rfl)
  | openScope => exact hl.grow hs (.openScope ..) (s.store.type?_openScope _ _)
  | bind => exact hl.grow hs (.bind ..) (s.store.type?_bind _ _)
  | modifyEntity _ hkeeps => exact hl.grow hs (.modifyEntity _ _ hkeeps) (s.store.type?_modifyEntity _ _)
  | modifyType _ hf => exact hl.modifyType hf
  | markUsed => exact hl.grow hs (.markUsed ..) (s.store.type?_markUsed _)

theorem Layered.empty {s : Store} (hl : s.Layered) {id : Nat} (hnil : s.frozen = []) (hid : s.current.id < id) :
    Layered ⟨.empty id, [s.current]⟩ := by
  have harena : s.arena = ⟨[s.current]⟩ := by rw [Store.arena, hnil]
  have hslabs : ∀ slab ∈ [s.current], slab.id < id := fun slab hslab => List.mem_singleton.mp hslab ▸ hid
  have htype (u : TypeId) : (Store.arena ⟨.empty id, [s.current]⟩).type? u = s.arena.type? u := by
    rw [type?_empty hslabs, harena]
  have hcomponents (τ : Ty) : (Store.arena ⟨.empty id, [s.current]⟩).components τ = s.arena.components τ := by
    cases τ with
    | record _ fields =>
      refine List.filterMap_congr fun e _ => ?_
      rw [Arena.entity, Arena.entity, entity?_empty hslabs, harena]
    | _ => rfl
  refine ⟨fun u τ hτ c hc => ?_, hslabs⟩
  rw [htype] at hτ
  rw [hcomponents] at hc
  obtain ⟨hhas, hbefore⟩ := hl.arena u τ hτ c hc
  refine ⟨?_, hbefore⟩
  show ((Store.arena ⟨.empty id, [s.current]⟩).type? c).isSome
  rw [htype]
  exact hhas

end Store

/-! ## Programs -/

/-- The components of the types of the universe, read off it in one evaluation. -/
theorem Universe.components_spec : ∀ i < store.current.types.size,
    ∀ c ∈ store.arena.components (store.arena.type ⟨0, i⟩), store.arena.Has c ∧ c.before ⟨0, i⟩ := by
  decide +kernel

theorem Universe.layered : store.Layered := by
  have hspec := components_spec
  have hslabs := store_slabs
  generalize store = st at *
  refine ⟨fun u τ hτ c hc => ?_, ?_⟩
  · obtain ⟨slab, hslab, hget⟩ := Option.bind_eq_some_iff.mp hτ
    obtain ⟨hid, rfl⟩ := Store.slab?_eq_some hslabs hslab
    obtain ⟨id, index⟩ := u
    cases hid
    rw [← Arena.type_eq hτ] at hc
    exact hspec index (Array.getElem?_eq_some_iff.mp hget).1 c hc
  · rw [hslabs.1]
    exact fun _ h => by cases h

namespace Program

variable {config : Config} {files : List File}

/-- In every state of a program components are older than types. -/
theorem throughout_layered (config : Config) (files : List File) :
    Throughout config files fun s => s.Valid ∧ s.store.Layered := by
  obtain ⟨hid, hnil⟩ := slabs_fileEnd config files
  exact (throughout_valid config files).maintain Store.Layered.step Universe.layered fun id hpos hend =>
    hend.empty hnil (hid ▸ hpos)

theorem Merges.layered {passes : List Pass} {p : Program} (h : Merges config files passes p) : p.arena.Layered := by
  intro u τ hτ c hc
  obtain ⟨s, hs, hread⟩ := h.exists_type hτ
  obtain ⟨hvalid, hlayered⟩ := h.holds_ends (throughout_layered config files) s hs
  have hext := h.extends_ends hs
  rw [Arena.components_extend (v := s.view) (hvalid.intact.types u τ hread) hext] at hc
  obtain ⟨hhas, hbefore⟩ := hlayered.arena u τ hread c hc
  obtain ⟨σ, hσ⟩ := Option.isSome_iff_exists.mp hhas
  exact ⟨Option.isSome_iff_exists.mpr ⟨σ, hext.types c σ hσ⟩, hbefore⟩

end Program

/-- Comparing types ends and is an equivalence. Every component of a type was allocated before the type. Two types are
identical if they are the same, or built in the same way from identical components: that holds of no other relation,
so the answer is that of the recursion without a bound. -/
structure Arena.ComparesTypes (a : Arena) : Prop where
  older : a.Layered
  step : ∀ x y, a.Has x → a.Has y →
    (a.identical x y ↔ x = y ∨ a.Matches (fun t u => a.identical t u) (a.type x) (a.type y))
  only : ∀ R : TypeId → TypeId → Prop,
    (∀ x y, a.Has x → a.Has y → (R x y ↔ x = y ∨ a.Matches R (a.type x) (a.type y))) →
      ∀ x y, a.Has x → a.Has y → (R x y ↔ a.identical x y)
  refl : ∀ x, a.identical x x
  symm : ∀ x y, a.identical x y → a.identical y x
  trans : ∀ x y z, a.identical x y → a.identical y z → a.identical x z

theorem Arena.Layered.comparesTypes {a : Arena} (h : a.Layered) : a.ComparesTypes where
  older := h
  step _ y hx _ := h.identical_iff hx y
  only _ hR _ _ hx hy := h.identical_unique hR hx hy
  refl x := a.identicalWithin_self _ x
  symm _ _ := identicalWithin_symm
  trans _ _ _ := identicalWithin_trans

/-- In every state of a check, comparing types ends and is an equivalence. -/
theorem type_identity_is_equivalence (config : Config) (files : List File) :
    Program.Throughout config files (fun s => s.store.arena.ComparesTypes) ∧
      (∀ n, (Program.stage config files n).arena.ComparesTypes) ∧ (checkFiles config files).arena.ComparesTypes := by
  refine ⟨(Program.throughout_layered config files).imp fun s hs => hs.2.arena.comparesTypes, fun n => ?_, ?_⟩
  · obtain ⟨passes, hmerges⟩ := Program.merges_stage config files n
    exact hmerges.layered.comparesTypes
  · obtain ⟨passes, hmerges⟩ := Program.merges_checkFiles config files
    exact hmerges.layered.comparesTypes

end Statics
