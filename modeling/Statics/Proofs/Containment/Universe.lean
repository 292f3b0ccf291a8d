import Statics.Proofs.Accepted
import Statics.Proofs.Containment.Statements

/-!
# The layout of the universe
-/

namespace Statics

namespace Universe

/-- The record of the implicit value, and its name. All other types are basic. -/
def contextRecord : TypeId := ⟨0, 21⟩

@[inherit_doc contextRecord]
def contextType : TypeId := ⟨0, 22⟩

/-- The types of the universe and what its type names stand for, read off it in one evaluation. -/
theorem types_spec :
    store.arena.type contextRecord = .record .struct [⟨0, 26⟩, ⟨0, 27⟩] ∧
      store.arena.parts contextRecord = [.basic .int, .basic .rawptr] ∧
      store.arena.type contextType = .named "Context" (some contextRecord) ⟨0, 25⟩ ∧
      (∀ i < store.current.types.size, (store.arena.type ⟨0, i⟩).isLight ∨
        (⟨0, i⟩ : TypeId) = contextRecord ∨ (⟨0, i⟩ : TypeId) = contextType) ∧
      (∀ i < store.current.entities.size, (store.arena.entity ⟨0, i⟩).kind = .typeName →
        (store.arena.entity ⟨0, i⟩).type.all fun t => (store.arena.type? t).isSome && t != contextRecord) ∧
      (∀ k ∈ Kind.all, store.arena.type? (.basic k) = some (.basic k)) ∧
      (∀ f ∈ ([⟨0, 26⟩, ⟨0, 27⟩] : List EntityId), (store.arena.entity f).type.isSome) ∧
      (store.arena.type? contextRecord).isSome := by
  decide +kernel

theorem type_contextRecord : store.arena.type contextRecord = .record .struct [⟨0, 26⟩, ⟨0, 27⟩] := types_spec.1

theorem parts_contextRecord : store.arena.parts contextRecord = [.basic .int, .basic .rawptr] := types_spec.2.1

theorem type_contextType : store.arena.type contextType = .named "Context" (some contextRecord) ⟨0, 25⟩ :=
  types_spec.2.2.1

theorem type?_basic (k : Kind) : store.arena.type? (.basic k) = some (.basic k) := by
  obtain ⟨-, -, -, -, -, hall, -⟩ := types_spec
  exact hall k (by cases k <;> decide)

theorem isLight_or {t : TypeId} (ht : (store.arena.type? t).isSome) :
    (store.arena.type t).isLight ∨ t = contextRecord ∨ t = contextType := by
  obtain ⟨-, -, -, hall, -⟩ := types_spec
  obtain ⟨slab, index⟩ := t
  rw [Store.type?_arena, Store.below, store_slabs.1, store_slabs.2] at ht
  split at ht
  case isTrue hslab =>
    cases hslab
    exact hall index (by simpa using ht)
  case isFalse => simp [Arena.type?, Arena.slab?] at ht

theorem names_spec {e : EntityId} {t : TypeId} (hk : (store.arena.entity e).kind = .typeName)
    (ht : (store.arena.entity e).type = some t) : (store.arena.type? t).isSome ∧ t ≠ contextRecord := by
  obtain ⟨-, -, -, -, hall, -⟩ := types_spec
  obtain ⟨slab, index⟩ := e
  cases hx : store.arena.entity? ⟨slab, index⟩ with
  | none => simp [Arena.entity, hx, Entity.blank] at ht
  | some x =>
    rw [Store.entity?_arena, Store.below, store_slabs.1, store_slabs.2] at hx
    split at hx
    case isTrue hslab =>
      cases hslab
      have hindex : index < store.current.entities.size := (Array.getElem?_eq_some_iff.mp hx).1
      simpa [ht] using hall index hindex hk
    case isFalse => simp [Arena.entity?, Arena.slab?] at hx

theorem isLight_basic (k : Kind) : (store.arena.type? (.basic k)).isSome ∧ (store.arena.type (.basic k)).isLight := by
  simp [Arena.type, type?_basic k, Ty.isLight]

theorem sound_contextRecord : store.arena.Sound [] 0 contextRecord := by
  have hrecord := type_contextRecord
  have hname : ¬ store.arena.IsName contextRecord := by
    rintro ⟨name, base, e, h⟩
    simp [hrecord] at h
  have hholds {u : TypeId} : ¬ store.arena.Holds contextRecord u := by
    intro hu
    cases hu with
    | self h => simp [hrecord] at h
    | @part _ p _ hp hu =>
      rw [parts_contextRecord] at hp
      simp only [List.mem_cons, List.not_mem_nil, or_false] at hp
      have hlight : (store.arena.type p).isLight := by
        rcases hp with rfl | rfl
        · exact (isLight_basic .int).2
        · exact (isLight_basic .rawptr).2
      have hself := hu.eq_of_parts (Arena.parts_of_light hlight)
      exact Arena.not_isName_of_light hlight (hself ▸ hu.isName)
  refine ⟨?_, ?_, ?_, fun hb => absurd hb.isName hname, fun ho => absurd ⟨_, _, _, ho⟩ hname,
    fun _ hu => absurd hu hholds, fun _ hu => absurd hu hholds⟩
  · intro form fields h
    rw [hrecord] at h
    cases h
    exact types_spec.2.2.2.2.2.2.1
  · rw [parts_contextRecord]
    simp only [List.mem_cons, List.not_mem_nil, or_false, forall_eq_or_imp, forall_eq]
    exact ⟨⟨(isLight_basic .int).1, by decide⟩, (isLight_basic .rawptr).1, by decide⟩
  · intro base members h
    simp [hrecord] at h

theorem sound_contextType : store.arena.Sound [] 0 contextType := by
  have hcontext := type_contextType
  have hname : store.arena.IsName contextType := ⟨_, _, _, hcontext⟩
  refine ⟨?_, by simp [hname.parts], ?_, ?_, ?_, fun hn => absurd hname hn, fun hn => absurd hname hn⟩
  · intro form fields h
    simp [hcontext] at h
  · intro base members h
    simp [hcontext] at h
  · rintro base ⟨name, e, h⟩
    rw [hcontext] at h
    cases h
    refine ⟨types_spec.2.2.2.2.2.2.2, ?_⟩
    rintro ⟨name, base, e, h⟩
    simp [type_contextRecord] at h
  · intro name e h
    simp [hcontext] at h

theorem layout : store.arena.Layout [] 0 where
  invalid := type?_basic .invalid
  names {e t} hk ht := by
    obtain ⟨hsome, hne⟩ := names_spec hk ht
    rcases isLight_or hsome with hlight | rfl | rfl
    · exact ⟨hsome, Arena.parts_of_light hlight, fun ho => absurd ⟨_, _, _, ho⟩ (Arena.not_isName_of_light hlight)⟩
    · exact absurd rfl hne
    · exact ⟨hsome, Arena.IsName.parts ⟨_, _, _, type_contextType⟩, fun ho => by simp [type_contextType] at ho⟩
  within := by simp
  types t ht := by
    rcases isLight_or ht with hlight | rfl | rfl
    · exact .of_light hlight
    · exact sound_contextRecord
    · exact sound_contextType

end Universe

end Statics
