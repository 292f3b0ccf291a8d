import Statics.Arena.Handle

/-!
# Bindings of a scope

Names with the entities they stand for, in the order in which they were bound. A name is bound at most once, because
`Bindings.insert` adds at the end and callers ask `Bindings.get?` first.
-/

namespace Statics

/-- Bound names in order. -/
structure Bindings where
  entries : List (String × EntityId)
deriving DecidableEq, Repr

namespace Bindings

/-- No bindings. -/
def empty : Bindings := ⟨[]⟩

/-- The entity that a name stands for. -/
def get? (b : Bindings) (name : String) : Option EntityId :=
  b.entries.lookup name

/-- Binds a name after all others. -/
def insert (b : Bindings) (name : String) (e : EntityId) : Bindings :=
  ⟨b.entries ++ [(name, e)]⟩

/-- The bound names. -/
def names (b : Bindings) : List String := b.entries.map Prod.fst

/-- The bound entities. -/
def entities (b : Bindings) : List EntityId := b.entries.map Prod.snd

/-- Number of bound names. -/
def size (b : Bindings) : Nat := b.entries.length

@[simp]
theorem get?_empty (name : String) : empty.get? name = none := rfl

/-- A new binding is found under its name, and an older one of the same name still wins. -/
theorem get?_insert (b : Bindings) (name other : String) (e : EntityId) :
    (b.insert name e).get? other = (b.get? other).or (if other = name then some e else none) := by
  obtain ⟨entries⟩ := b
  simp only [get?, insert]
  induction entries with
  | nil =>
    by_cases h : other = name
    · simp [h]
    · simp [h, List.lookup_cons, beq_eq_false_iff_ne.mpr h]
  | cons p rest ih =>
    obtain ⟨key, value⟩ := p
    by_cases h : other = key
    · simp [h]
    · simp only [List.cons_append, List.lookup_cons, beq_eq_false_iff_ne.mpr h]
      exact ih

@[simp]
theorem names_insert (b : Bindings) (name : String) (e : EntityId) :
    (b.insert name e).names = b.names ++ [name] := by
  simp [names, insert]

@[simp]
theorem entities_insert (b : Bindings) (name : String) (e : EntityId) :
    (b.insert name e).entities = b.entities ++ [e] := by
  simp [entities, insert]

/-- A name is bound exactly when it is among the names. -/
theorem get?_isSome_iff (b : Bindings) (name : String) : (b.get? name).isSome ↔ name ∈ b.names := by
  obtain ⟨entries⟩ := b
  simp only [get?, names]
  induction entries with
  | nil => simp
  | cons p rest ih =>
    obtain ⟨key, value⟩ := p
    by_cases h : name = key
    · simp [h]
    · simp only [List.lookup_cons, beq_eq_false_iff_ne.mpr h, List.map_cons, List.mem_cons, h, false_or]
      exact ih

end Bindings

end Statics
