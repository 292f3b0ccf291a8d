import Mathlib.Data.Nat.Find
import Statics.Proofs.Accepted
import Statics.Proofs.Allocation
import Statics.Source.Builder

/-!
# The search for a field

A field is looked for in a record, then in the records that its exposing fields lead to, and so on. `Arena.Leads` says
what chains of exposing fields lead to, `Arena.level` lists it for chains of one length in the order of the fields,
and `Arena.matchAt` is the first field of a given name on a level.

The search leaves out records that it has seen. `Trims known level frontier` says that a frontier has the types of a
level but some that are known, or repeated. Such a frontier finds what its level finds, and leads to such a frontier
of the next level. Each level but the last has a record that is new, so the search does not end too early:
`field_search_breadth_first`.

A field that exposes a record is checked against the names of that record alone, so an accepted record may have two
fields of one name at different distances: `exposed_name_repeated`.
-/

namespace Statics

variable {t u : TypeId}

namespace Arena

variable {a : Arena} {name : String} {known seen next types frontier start : List TypeId}

/-! ## Chains of exposing fields -/

/-- A chain of `n` exposing fields leads from one type to another. Each is followed through the names of its type and
through one pointer. -/
inductive Leads (a : Arena) (t : TypeId) : Nat → TypeId → Prop where
  | here : Leads a t 0 t
  | through {n : Nat} {u v : TypeId} {fields : List EntityId} {f : EntityId} :
    Leads a t n u → a.fields? (a.baseType u) = some fields → f ∈ fields → (a.entity f).isAnonymous →
      (a.entity f).type = some v → Leads a t (n + 1) (a.pointee v)

/-- A chain of `n` exposing fields leads to a record that has a field of a given name. -/
def HasField (a : Arena) (t : TypeId) (n : Nat) (name : String) (f : EntityId) : Prop :=
  ∃ u fields, a.Leads t n u ∧ a.fields? (a.baseType u) = some fields ∧ f ∈ fields ∧ (a.entity f).name = name

/-- The types that the fields of a record expose. -/
def exposedBy (a : Arena) (t : TypeId) : List TypeId := a.exposed ((a.fields? t).getD [])

/-- The first field of a given name in a record. -/
def ownField? (a : Arena) (name : String) (t : TypeId) : Option EntityId := (a.fields? t).bind (a.fieldNamed? name)

/-- The types that some types expose, in order. -/
def onward (a : Arena) (types : List TypeId) : List TypeId := types.flatMap fun t => a.exposedBy (a.baseType t)

/-- The first field of a given name in the records under some types. -/
def matchIn (a : Arena) (name : String) (types : List TypeId) : Option EntityId :=
  types.findSome? fun t => a.ownField? name (a.baseType t)

/-- What chains of `n` exposing fields lead to from some types, in breadth-first order. -/
def level (a : Arena) (start : List TypeId) : Nat → List TypeId
  | 0 => start
  | n + 1 => a.onward (level a start n)

/-- The first field of a given name, in breadth-first order, that chains of `n` exposing fields lead to. -/
def matchAt (a : Arena) (name : String) (start : List TypeId) (n : Nat) : Option EntityId :=
  a.matchIn name (a.level start n)

theorem level_succ (start : List TypeId) (n : Nat) : a.level start (n + 1) = a.level (a.onward start) n := by
  induction n with
  | zero => rfl
  | succ n ih => rw [level, ih, level]

theorem matchAt_succ (start : List TypeId) (n : Nat) :
    a.matchAt name start (n + 1) = a.matchAt name (a.onward start) n := by
  rw [matchAt, level_succ, matchAt]

theorem mem_exposedBy :
    u ∈ a.exposedBy t ↔ ∃ fields, a.fields? t = some fields ∧ ∃ f ∈ fields, (a.entity f).isAnonymous ∧ ∃ v,
      (a.entity f).type = some v ∧ a.pointee v = u := by
  cases hfields : a.fields? t <;> simp [exposedBy, exposed, hfields]

theorem mem_level {n : Nat} : u ∈ a.level [t] n ↔ a.Leads t n u := by
  induction n generalizing u with
  | zero =>
    rw [level, List.mem_singleton]
    exact ⟨fun h => h ▸ .here, fun h => by cases h; rfl⟩
  | succ n ih =>
    rw [level, onward, List.mem_flatMap]
    constructor
    · rintro ⟨w, hw, hu⟩
      obtain ⟨fields, hfields, f, hf, hanonymous, v, hv, rfl⟩ := mem_exposedBy.mp hu
      exact .through (ih.mp hw) hfields hf hanonymous hv
    · rintro (_ | ⟨hw, hfields, hf, hanonymous, hv⟩)
      exact ⟨_, ih.mpr hw, mem_exposedBy.mpr ⟨_, hfields, _, hf, hanonymous, _, hv, rfl⟩⟩

theorem ownField?_eq_none :
    a.ownField? name t = none ↔ ∀ fields, a.fields? t = some fields → ∀ f ∈ fields, (a.entity f).name ≠ name := by
  cases hfields : a.fields? t <;> simp [ownField?, fieldNamed?, hfields]

theorem matchAt_eq_none {n : Nat} : a.matchAt name [t] n = none ↔ ∀ f, ¬ a.HasField t n name f := by
  simp only [matchAt, matchIn, List.findSome?_eq_none_iff, mem_level, ownField?_eq_none]
  constructor
  · rintro h f ⟨u, fields, hu, hfields, hf, hname⟩
    exact h u hu fields hfields f hf hname
  · intro h u hu fields hfields f hf hname
    exact h f ⟨u, fields, hu, hfields, hf, hname⟩

/-! ## Frontiers -/

/-- A frontier has the types of a level, but some whose records are known or stand before them. -/
inductive Trims (a : Arena) : List TypeId → List TypeId → List TypeId → Prop where
  | nil (known : List TypeId) : Trims a known [] []
  | keep {known types frontier : List TypeId} {t : TypeId} :
    Trims a (a.baseType t :: known) types frontier → Trims a known (t :: types) (t :: frontier)
  | drop {known types frontier : List TypeId} {t : TypeId} :
    a.baseType t ∈ known → Trims a known types frontier → Trims a known (t :: types) frontier

theorem trims_self (known types : List TypeId) : Trims a known types types := by
  induction types generalizing known with
  | nil => exact .nil known
  | cons t rest ih => exact .keep (ih _)

theorem Trims.mono {known' : List TypeId} (h : Trims a known types frontier) (hsub : known ⊆ known') :
    Trims a known' types frontier := by
  induction h generalizing known' with
  | nil => exact .nil known'
  | keep _ ih => exact .keep (ih (List.cons_subset_cons _ hsub))
  | drop ht _ ih => exact .drop (hsub ht) (ih hsub)

/-- What is in front stays, and is known from then on. -/
theorem Trims.keepAll {front : List TypeId} (h : Trims a (front.map a.baseType ++ known) types frontier) :
    Trims a known (front ++ types) (front ++ frontier) := by
  induction front generalizing known with
  | nil => exact h
  | cons t rest ih => exact .keep (ih (h.mono (by simp)))

theorem Trims.dropAll {front : List TypeId} (hfront : ∀ t ∈ front, a.baseType t ∈ known)
    (h : Trims a known types frontier) : Trims a known (front ++ types) frontier := by
  induction front with
  | nil => exact h
  | cons t rest ih =>
    rw [List.forall_mem_cons] at hfront
    exact .drop hfront.1 (ih hfront.2)

/-- A frontier finds what its level finds, if nothing is found in what is known. -/
theorem Trims.matchIn_eq (h : Trims a known types frontier) (hknown : ∀ t ∈ known, a.ownField? name t = none) :
    a.matchIn name types = a.matchIn name frontier := by
  induction h with
  | nil => rfl
  | @keep known types frontier t _ ih =>
    rw [matchIn, matchIn, List.findSome?_cons, List.findSome?_cons]
    cases hfield : a.ownField? name (a.baseType t) with
    | some f => rfl
    | none => exact ih (List.forall_mem_cons.mpr ⟨hfield, hknown⟩)
  | @drop known types frontier t ht _ ih =>
    rw [matchIn, List.findSome?_cons, hknown _ ht]
    exact ih hknown

/-! ## One level -/

theorem searchLevel_cons (t : TypeId) (rest seen next : List TypeId) :
    a.searchLevel name (t :: rest) seen next =
      if a.baseType t ∈ seen then a.searchLevel name rest seen next
      else match a.ownField? name (a.baseType t) with
        | some f => .found f
        | none => a.searchLevel name rest (a.baseType t :: seen) (next ++ a.exposedBy (a.baseType t)) := by
  rw [searchLevel]
  simp only [List.contains_iff_mem]
  split
  · rfl
  · cases hfields : a.fields? (a.baseType t) with
    | none => simp [ownField?, exposedBy, exposed, hfields]
    | some fields => cases hfield : a.fieldNamed? name fields <;> simp [ownField?, exposedBy, hfields, hfield]

/-- The search of a level finds the first field of the name. -/
theorem searchLevel_found {f : EntityId} (hseen : ∀ t ∈ seen, a.ownField? name t = none)
    (h : a.matchIn name frontier = some f) : a.searchLevel name frontier seen next = .found f := by
  induction frontier generalizing seen next with
  | nil => cases h
  | cons t rest ih =>
    rw [matchIn, List.findSome?_cons] at h
    rw [searchLevel_cons]
    split
    case isTrue ht =>
      rw [hseen _ ht] at h
      exact ih hseen h
    case isFalse =>
      cases hfield : a.ownField? name (a.baseType t) with
      | some g =>
        rw [hfield] at h
        cases h
        rfl
      | none =>
        rw [hfield] at h
        exact ih (List.forall_mem_cons.mpr ⟨hfield, hseen⟩) h

/-- Where a level has no field of the name, the search goes on with what its records expose, but for those that were
seen. Everything that is seen was seen before or is on the frontier, and what it exposes is on the next frontier. -/
theorem searchLevel_onward (name : String) (seen next later : List TypeId) (h : Trims a known types frontier)
    (hseen : ∀ t, t ∈ seen ↔ t ∈ known) (hlater : ∀ t ∈ known, ∀ u ∈ a.exposedBy t, a.baseType u ∈ later)
    (hnone : a.matchIn name frontier = none) :
    ∃ seen' front, a.searchLevel name frontier seen next = .onward seen' (next ++ front) ∧
      Trims a later (a.onward types) front ∧
      (∀ t, t ∈ seen' ↔ t ∈ known ∨ t ∈ frontier.map a.baseType) ∧
      (∀ t ∈ seen', t ∈ known ∨ a.exposedBy t ⊆ front) ∧
      ∀ u ∈ front, ∃ t ∈ seen', t ∉ known ∧ u ∈ a.exposedBy t := by
  induction h generalizing seen next later with
  | nil =>
    exact ⟨seen, [], by simp [searchLevel], .nil later, by simp [hseen], fun t ht => .inl ((hseen t).mp ht), by simp⟩
  | @drop known types frontier t ht _ ih =>
    obtain ⟨seen', front, hrun, htrims, hrest⟩ := ih seen next later hseen hlater hnone
    exact ⟨seen', front, hrun, htrims.dropAll (hlater _ ht), hrest⟩
  | @keep known types frontier t _ ih =>
    rw [matchIn, List.findSome?_cons] at hnone
    cases hfield : a.ownField? name (a.baseType t) with
    | some f => simp [hfield] at hnone
    | none =>
      rw [hfield] at hnone
      rw [searchLevel_cons, hfield]
      split
      case isTrue ht =>
        have ht := (hseen _).mp ht
        have hsame (u : TypeId) : u ∈ seen ↔ u ∈ a.baseType t :: known := by
          rw [hseen, List.mem_cons, or_iff_right_of_imp (· ▸ ht)]
        obtain ⟨seen', front, hrun, htrims, hmem, hexposed, hnew⟩ :=
          ih seen next later hsame (List.forall_mem_cons.mpr ⟨hlater _ ht, hlater⟩) hnone
        refine ⟨seen', front, hrun, htrims.dropAll (hlater _ ht), fun u => ?_, fun u hu => ?_, fun u hu => ?_⟩
        · rw [hmem, List.mem_cons, List.map_cons, List.mem_cons, or_assoc, or_left_comm]
        · exact (hexposed u hu).imp_left fun h => (hseen u).mp ((hsame u).mpr h)
        · obtain ⟨w, hw, hnot, hu⟩ := hnew u hu
          exact ⟨w, hw, fun h => hnot (List.mem_cons_of_mem _ h), hu⟩
      case isFalse ht =>
        obtain ⟨seen', front, hrun, htrims, hmem, hexposed, hnew⟩ :=
          ih (a.baseType t :: seen) (next ++ a.exposedBy (a.baseType t))
            ((a.exposedBy (a.baseType t)).map a.baseType ++ later) (fun u => by simp [hseen])
              (List.forall_mem_cons.mpr ⟨fun u hu => List.mem_append_left _ (List.mem_map_of_mem hu),
              fun w hw u hu => List.mem_append_right _ (hlater w hw u hu)⟩) hnone
        rw [List.append_assoc] at hrun
        refine ⟨seen', _, hrun, htrims.keepAll, fun u => ?_, fun u hu => ?_, fun u hu => ?_⟩
        · rw [hmem, List.mem_cons, List.map_cons, List.mem_cons, or_assoc, or_left_comm]
        · rcases hexposed u hu with h | h
          · rcases List.mem_cons.mp h with rfl | h
            · exact .inr (List.subset_append_left _ _)
            · exact .inl h
          · exact .inr (List.Subset.trans h (List.subset_append_right _ _))
        · rcases List.mem_append.mp hu with hu | hu
          · exact ⟨_, (hmem _).mpr (.inl List.mem_cons_self), fun h => ht ((hseen _).mpr h), hu⟩
          · obtain ⟨w, hw, hnot, hu⟩ := hnew u hu
            exact ⟨w, hw, fun h => hnot (List.mem_cons_of_mem _ h), hu⟩

/-! ## All levels -/

/-- Nothing is found where everything that is known exposes only what is known. -/
theorem matchAt_of_trims_nil (h : Trims a known types []) (hknown : ∀ t ∈ known, a.ownField? name t = none)
    (hclosed : ∀ t ∈ known, ∀ u ∈ a.exposedBy t, a.baseType u ∈ known) (n : Nat) : a.matchAt name types n = none := by
  induction n generalizing types with
  | zero => exact h.matchIn_eq hknown
  | succ n ih =>
    obtain ⟨seen', front, hrun, htrims, -⟩ := searchLevel_onward name known [] known h (fun _ => .rfl) hclosed rfl
    cases hrun
    rw [matchAt_succ]
    exact ih htrims

/-- The types that are stored and not yet seen. -/
def unseen (a : Arena) (seen : List TypeId) : Nat := ((a.places .type fun s => s.types.size).filter (· ∉ seen)).length

/-- A record that is new is one of those that were not yet seen. -/
theorem unseen_lt {seen' : List TypeId} (hsub : seen ⊆ seen') (ht : t ∈ seen') (hnot : t ∉ seen)
    (hu : u ∈ a.exposedBy t) : a.unseen seen' < a.unseen seen := by
  have hstored : (a.type? t).isSome := by
    refine Option.isSome_iff_ne_none.mpr fun hnone => ?_
    obtain ⟨fields, hfields, -⟩ := mem_exposedBy.mp hu
    have htype : a.type t = .blank := by simp [Arena.type, hnone]
    have hbase : a.baseType t = t := by
      show a.baseWithin (1023 + 1) t = t
      rw [baseWithin, htype]
      rfl
    rw [fields?, base, hbase, htype] at hfields
    cases hfields
  have hfilter : (a.places .type fun s => s.types.size).filter (· ∉ seen') =
      ((a.places .type fun s => s.types.size).filter (· ∉ seen)).filter (· ∉ seen') := by
    rw [List.filter_filter]
    refine List.filter_congr fun u _ => ?_
    by_cases h : u ∈ seen'
    · simp [h]
    · have hold : u ∉ seen := fun hold => h (hsub hold)
      simp [h, hold]
  rw [unseen, hfilter]
  refine List.length_filter_lt_length_iff_exists.mpr ⟨t, List.mem_filter.mpr ⟨mem_places_of_type? hstored, ?_⟩, ?_⟩
  · simpa using hnot
  · simpa using ht

/-- The search finds the first field of the name on the first level that has one. -/
theorem searchLevels_eq_some (name : String) (f : EntityId) {fuel : Nat} (hfuel : frontier = [] ∨ a.unseen seen < fuel)
    (htrims : Trims a seen types frontier) (hseen : ∀ t ∈ seen, a.ownField? name t = none)
    (hclosed : ∀ t ∈ seen, ∀ u ∈ a.exposedBy t, a.baseType u ∈ seen ∨ u ∈ frontier) :
    a.searchLevels name fuel frontier seen = some f ↔
      ∃ n, a.matchAt name types n = some f ∧ ∀ m < n, a.matchAt name types m = none := by
  induction fuel generalizing types frontier seen with
  | zero =>
    obtain rfl := hfuel.resolve_right (Nat.not_lt_zero _)
    have hnothing := matchAt_of_trims_nil htrims hseen (by simpa using hclosed)
    simp [searchLevels, hnothing]
  | succ fuel ih =>
    cases frontier with
    | nil =>
      have hnothing := matchAt_of_trims_nil htrims hseen (by simpa using hclosed)
      simp [searchLevels, hnothing]
    | cons t rest =>
      have hfirst : a.matchAt name types 0 = a.matchIn name (t :: rest) := htrims.matchIn_eq hseen
      rw [searchLevels]
      cases hmatch : a.matchIn name (t :: rest) with
      | some g =>
        rw [searchLevel_found hseen hmatch]
        rw [hmatch] at hfirst
        refine ⟨fun h => ⟨0, hfirst.trans h, by simp⟩, fun ⟨n, hn, hbefore⟩ => ?_⟩
        cases n with
        | zero => exact hfirst.symm.trans hn
        | succ n => simpa [hfirst] using hbefore 0 (Nat.succ_pos n)
      | none =>
        have hlater : ∀ u ∈ seen, ∀ v ∈ a.exposedBy u, a.baseType v ∈ seen ++ (t :: rest).map a.baseType := by
          intro u hu v hv
          exact List.mem_append.mpr ((hclosed u hu v hv).imp_right List.mem_map_of_mem)
        obtain ⟨seen', front, hrun, hnext, hmem, hexposed, hnew⟩ := searchLevel_onward name seen []
          (seen ++ (t :: rest).map a.baseType) htrims (fun _ => .rfl) hlater hmatch
        have hsub : seen ++ (t :: rest).map a.baseType ⊆ seen' := fun u hu => (hmem u).mpr (List.mem_append.mp hu)
        have hseen' : ∀ u ∈ seen', a.ownField? name u = none := by
          intro u hu
          rcases (hmem u).mp hu with hu | hu
          · exact hseen u hu
          · obtain ⟨v, hv, rfl⟩ := List.mem_map.mp hu
            exact List.findSome?_eq_none_iff.mp hmatch v hv
        have hclosed' : ∀ u ∈ seen', ∀ v ∈ a.exposedBy u, a.baseType v ∈ seen' ∨ v ∈ front := by
          intro u hu v hv
          exact (hexposed u hu).imp (fun hold => hsub (hlater u hold v hv)) fun hnew => hnew hv
        have hfuel' : front = [] ∨ a.unseen seen' < fuel := by
          cases front with
          | nil => exact .inl rfl
          | cons v _ =>
            obtain ⟨w, hw, hnot, hv⟩ := hnew v List.mem_cons_self
            have hless := unseen_lt (fun u hu => hsub (List.mem_append_left _ hu)) hw hnot hv
            have hfuel := hfuel.resolve_left (List.cons_ne_nil t rest)
            exact .inr (by omega)
        rw [hrun]
        refine (ih hfuel' (hnext.mono hsub) hseen' hclosed').trans ⟨fun ⟨n, hn, hbefore⟩ => ?_,
          fun ⟨n, hn, hbefore⟩ => ?_⟩
        · refine ⟨n + 1, (matchAt_succ types n).trans hn, fun m hm => ?_⟩
          cases m with
          | zero => exact hfirst.trans hmatch
          | succ m => exact (matchAt_succ types m).trans (hbefore m (by omega))
        · cases n with
          | zero => simp [hfirst, hmatch] at hn
          | succ n =>
            exact ⟨n, (matchAt_succ types n).symm.trans hn, fun m hm =>
              (matchAt_succ types m).symm.trans (hbefore (m + 1) (by omega))⟩

end Arena

/-- The field that is found for a name is the first of its name in breadth-first order. It is found exactly if a chain
of exposing fields leads from the record under a type, or under what it points to, to a record with such a field. The
chain is then as short as can be, and among the fields of the name at that distance it is the first in the order of
declaration. -/
theorem field_search_breadth_first (a : Arena) (t : TypeId) (name : String) :
    ((a.lookupField t name).isSome ↔ ∃ n f, a.HasField (a.pointee t) n name f) ∧
      ∀ f, a.lookupField t name = some f ↔
        ∃ n, a.matchAt name [a.pointee t] n = some f ∧ ∀ m < n, ∀ g, ¬ a.HasField (a.pointee t) m name g := by
  have hfuel : a.unseen [] < a.typeCount + 1 := by
    simp [Arena.unseen, Arena.length_places, Arena.typeCount]
  have hsearch (f : EntityId) := Arena.searchLevels_eq_some name f (.inr hfuel) (Arena.trims_self [] [a.pointee t])
    (by simp) (by simp)
  have hfound (f : EntityId) : a.lookupField t name = some f ↔
      ∃ n, a.matchAt name [a.pointee t] n = some f ∧ ∀ m < n, ∀ g, ¬ a.HasField (a.pointee t) m name g := by
    simp only [← Arena.matchAt_eq_none]
    exact hsearch f
  refine ⟨⟨fun h => ?_, fun ⟨n, f, hf⟩ => ?_⟩, hfound⟩
  · obtain ⟨f, hf⟩ := Option.isSome_iff_exists.mp h
    obtain ⟨n, hn, -⟩ := (hfound f).mp hf
    have hsome : ¬ ∀ g, ¬ a.HasField (a.pointee t) n name g := by simp [← Arena.matchAt_eq_none, hn]
    exact ⟨n, not_forall_not.mp hsome⟩
  · have hex : ∃ n, a.matchAt name [a.pointee t] n ≠ none := ⟨n, fun hnone => Arena.matchAt_eq_none.mp hnone f hf⟩
    obtain ⟨g, hg⟩ := Option.ne_none_iff_exists'.mp (Nat.find_spec hex)
    refine Option.isSome_iff_exists.mpr ⟨g, (hfound g).mpr ⟨Nat.find hex, hg, fun m hm => ?_⟩⟩
    exact Arena.matchAt_eq_none.mp (not_not.mp (Nat.find_min hex hm))

namespace Promoted

open Builder in
/-- One file with `type A struct {x: int}`, `type B struct {using a: A}` and `type C struct {x: int, using b: B}`. -/
def files : List File := single do
  let inner ← typeDecl "A" (← record .struct [← field ["x"] (← name "int") false])
  let middle ← typeDecl "B" (← record .struct [← field ["a"] (← name "A") true])
  let own ← field ["x"] (← name "int") false
  let outer ← typeDecl "C" (← record .struct [own, ← field ["b"] (← name "B") true])
  return [inner, middle, outer]

theorem spec : (checkFiles .standard files).Accepted ∧
    ⟨0, 23⟩ ∈ (checkFiles .standard files).arena.level [⟨0, 27⟩] 2 ∧
    (checkFiles .standard files).arena.fields? ((checkFiles .standard files).arena.baseType ⟨0, 27⟩) =
      some [⟨0, 34⟩, ⟨0, 35⟩] ∧
    (checkFiles .standard files).arena.fields? ((checkFiles .standard files).arena.baseType ⟨0, 23⟩) = some [⟨0, 32⟩] ∧
    ((checkFiles .standard files).arena.entity ⟨0, 34⟩).name = "x" ∧
    ((checkFiles .standard files).arena.entity ⟨0, 32⟩).name = "x" := by
  decide +kernel

end Promoted

/-- A program is accepted although a record in it has a field of its own and another one of the same name behind two
exposing fields. -/
theorem exposed_name_repeated :
    (checkFiles .standard Promoted.files).Accepted ∧ ∃ t f g, f ≠ g ∧
      (checkFiles .standard Promoted.files).arena.HasField t 0 "x" f ∧
      (checkFiles .standard Promoted.files).arena.HasField t 2 "x" g := by
  obtain ⟨haccepted, hlevel, houter, hinner, hown, hexposed⟩ := Promoted.spec
  refine ⟨haccepted, ⟨0, 27⟩, ⟨0, 34⟩, ⟨0, 32⟩, by decide, ⟨_, _, .here, houter, by simp, hown⟩, ?_⟩
  exact ⟨_, _, Arena.mem_level.mp hlevel, hinner, by simp, hexposed⟩

end Statics
