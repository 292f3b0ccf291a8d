import Statics.Kind

/-!
# Handles

Scopes, entities and types refer to one another through handles: the number of a slab and an index in it. The pool
that a handle points into is part of its type.
-/

namespace Statics

/-- The three pools of a slab. -/
inductive Pool where
  | scope
  | entity
  | type
deriving DecidableEq, Repr

/-- A place in one pool of a slab. Both numbers stand for words of 32 bits, so this is right for fewer than `2 ^ 32` slabs
and places. -/
structure Handle (pool : Pool) where
  slab : Nat
  index : Nat
deriving DecidableEq, Repr, Inhabited

/-- A place of a scope. -/
abbrev ScopeId := Handle .scope

/-- A place of an entity. -/
abbrev EntityId := Handle .entity

/-- A place of a type. -/
abbrev TypeId := Handle .type

/-- Allocation order: by slab, then by index. -/
def Handle.before {pool : Pool} (a b : Handle pool) : Prop :=
  a.slab < b.slab ∨ (a.slab = b.slab ∧ a.index < b.index)

instance {pool : Pool} (a b : Handle pool) : Decidable (a.before b) :=
  inferInstanceAs (Decidable (_ ∨ _))

/-- The type of a basic kind: the kinds are the first types of slab 0. -/
def TypeId.basic (k : Kind) : TypeId := ⟨0, k.index⟩

/-- The type of everything that was already reported as wrong. -/
def TypeId.invalid : TypeId := TypeId.basic .invalid

/-- The outermost scope: the first scope of slab 0. -/
def ScopeId.global : ScopeId := ⟨0, 0⟩

end Statics
