import Statics.Arena.Store

/-!
# The universe

What every program can name without declaring it: the basic types, `true` and `false`, `nil`, the built-in procedures,
and the implicit value `context` with its record type. All of it lives in slab 0, in the global scope.
-/

namespace Statics.Universe

/-- A token outside every file. -/
def token (name : String) : Token := ⟨name, ⟨"<universe>", 0, 0⟩, ⟨0, 0⟩⟩

/-- Allocates an entity and binds it in the global scope. -/
def add (s : Store) (e : Entity) : Store :=
  let (h, s) := s.newEntity e
  (s.bind .global h).2

/-- A type name for each basic kind that programs can name. -/
def typeNames : List Entity :=
  (Kind.all.filter fun k => k != .invalid && !k.isUntyped).map fun k =>
    Entity.typed .typeName (token k.name) none (.basic k)

/-- The two truth values. -/
def truthValues : List Entity :=
  [("true", true), ("false", false)].map fun p =>
    Entity.typed (.constant (some (.bool p.2))) (token p.1) none (.basic .untypedBool)

/-- The null value. -/
def nilValue : Entity := Entity.typed .nil (token "nil") none (.basic .untypedNil)

/-- The built-in procedures. -/
def builtins : List Entity :=
  Builtin.all.map fun b => Entity.typed (.builtin b) (token b.name) none .invalid

/-- A field of the context record. -/
def contextField (name : String) (kind : Kind) (index : Nat) : Entity :=
  Entity.typed (.var ⟨false, false, true, false, index⟩) (token name) none (.basic kind)

/-- Declares the context record, then the implicit value of that type. -/
def addContext (s : Store) : Store :=
  let (typeEntity, s) := s.newEntity (Entity.fresh .typeName (token "Context") none)
  let (first, s) := s.newEntity (contextField "user_index" .int 0)
  let (second, s) := s.newEntity (contextField "user_data" .rawptr 1)
  let (record, s) := s.newType (.record .struct [first, second])
  let (named, s) := s.newType (.named "Context" (some record) typeEntity)
  let s := s.setType typeEntity named
  let (_, s) := s.bind .global typeEntity
  add s (Entity.typed .implicitValue (token "context") none named)

/-- The store of slab 0 before any file is read. -/
def store : Store :=
  let s : Store := ⟨.empty 0, []⟩
  let s := Kind.all.foldl (fun s k => (s.newType (.basic k)).2) s
  let s := (s.newScope none .global).2
  let s := (typeNames ++ truthValues ++ [nilValue] ++ builtins).foldl add s
  addContext s

end Statics.Universe
