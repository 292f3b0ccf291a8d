import Statics.Arena.Slab

/-!
# Reading an arena

An arena is a list of slabs, found by their numbers. Reading does not depend on which slab is being written, so
everything that only looks at scopes, entities and types is a function of an `Arena`.

A handle where nothing is allocated reads as a blank object. The rules never read there (`Statics.Proofs.Handles`).

`Arena.chain` lists a scope and the scopes around it. Looking a name up is taking the first scope of the chain that
binds it.
-/

namespace Statics

/-- Slabs, each found by its number. -/
structure Arena where
  slabs : List Slab
deriving DecidableEq, Repr

namespace Arena

/-- The slab with a given number. -/
def slab? (a : Arena) (id : Nat) : Option Slab :=
  a.slabs.find? fun s => s.id == id

/-- The scope at a handle. -/
def scope? (a : Arena) (h : ScopeId) : Option Scope :=
  (a.slab? h.slab).bind fun s => s.scopes[h.index]?

/-- The entity at a handle. -/
def entity? (a : Arena) (h : EntityId) : Option Entity :=
  (a.slab? h.slab).bind fun s => s.entities[h.index]?

/-- The type at a handle. -/
def type? (a : Arena) (h : TypeId) : Option Ty :=
  (a.slab? h.slab).bind fun s => s.types[h.index]?

/-- The scope at a handle, blank where there is none. -/
def scope (a : Arena) (h : ScopeId) : Scope := (a.scope? h).getD .blank

/-- The entity at a handle, blank where there is none. -/
def entity (a : Arena) (h : EntityId) : Entity := (a.entity? h).getD .blank

/-- The type at a handle, blank where there is none. -/
def type (a : Arena) (h : TypeId) : Ty := (a.type? h).getD .blank

/-- Number of scopes in all slabs. -/
def scopeCount (a : Arena) : Nat := (a.slabs.map fun s => s.scopes.size).foldr Nat.add 0

/-- Number of types in all slabs. -/
def typeCount (a : Arena) : Nat := (a.slabs.map fun s => s.types.size).foldr Nat.add 0

/-- A scope and those around it, innermost first, at most `fuel` of them. -/
def chainWithin (a : Arena) : Nat → Option ScopeId → List ScopeId
  | 0, _ => []
  | _, none => []
  | fuel + 1, some s => s :: chainWithin a fuel (a.scope s).parent

/-- A scope and those around it, innermost first. A parent is older than its child, so there are no more than the arena
has scopes. -/
def chain (a : Arena) (s : ScopeId) : List ScopeId :=
  chainWithin a a.scopeCount (some s)

/-- The entity that a name stands for in a scope itself. -/
def lookupLocal (a : Arena) (s : ScopeId) (name : String) : Option EntityId :=
  (a.scope s).bindings.get? name

/-- The entity that a name stands for, and the innermost scope that binds it. -/
def lookup (a : Arena) (s : ScopeId) (name : String) : Option (EntityId × ScopeId) :=
  (a.chain s).findSome? fun s => (a.lookupLocal s name).map fun e => (e, s)

/-- Whether going out from one scope to another leaves the signature of a procedure, when the other is not at file
level. Storage of such a scope belongs to a procedure around the current one. -/
def leavesProcedure (a : Arena) (inner outer : ScopeId) : Bool :=
  !(a.scope outer).kind.isFileLevel &&
    ((a.chain inner).takeWhile (· != outer)).any fun s => (a.scope s).kind == .signature

/-- Appends a child to a scope of one slab. -/
def adopt (slabs : List Slab) (parent child : ScopeId) : List Slab :=
  slabs.map fun s =>
    if s.id == parent.slab then
      match s.scopes[parent.index]? with
      | some scope =>
        let scope := { scope with children := scope.children ++ [child] }
        { s with scopes := s.scopes.setIfInBounds parent.index scope }
      | none => s
    else s

/-- Marks an entity of one slab as used. -/
def touch (slabs : List Slab) (e : EntityId) : List Slab :=
  slabs.map fun s =>
    if s.id == e.slab then
      match s.entities[e.index]? with
      | some entity => { s with entities := s.entities.setIfInBounds e.index { entity with used := true } }
      | none => s
    else s

/-- Adds a finished slab, and carries out what it recorded for the others. -/
def absorb (a : Arena) (s : Slab) : Arena :=
  let slabs := a.slabs ++ [{ s with adopted := [], touched := [] }]
  let slabs := s.adopted.foldl (fun slabs link => adopt slabs link.1 link.2) slabs
  ⟨s.touched.foldl touch slabs⟩

end Arena

end Statics
