import Statics.Types.Basic

/-!
# Fields by name

A field is found in the record itself, then in the records that its fields expose, then in those that these expose,
level by level. A record is searched once, so records that expose themselves through a pointer do no harm.
-/

namespace Statics.Arena

/-- The records that the exposing fields among `fields` lead to. -/
def exposed (a : Arena) (fields : List EntityId) : List TypeId :=
  fields.filterMap fun f =>
    let field := a.entity f
    if field.isAnonymous then field.type.map a.pointee else none

/-- The first field with a given name. -/
def fieldNamed? (a : Arena) (name : String) (fields : List EntityId) : Option EntityId :=
  fields.find? fun f => (a.entity f).name == name

/-- Result of searching one level: the field, or the records seen so far and those of the next level. -/
inductive LevelSearch where
  | found (field : EntityId)
  | onward (seen next : List TypeId)

/-- Searches the types of one level in order. -/
def searchLevel (a : Arena) (name : String) : List TypeId → List TypeId → List TypeId → LevelSearch
  | [], seen, next => .onward seen next
  | t :: rest, seen, next =>
    let t := a.baseType t
    if seen.contains t then searchLevel a name rest seen next
    else
      match a.fields? t with
      | none => searchLevel a name rest (t :: seen) next
      | some fields =>
        match a.fieldNamed? name fields with
        | some f => .found f
        | none => searchLevel a name rest (t :: seen) (next ++ a.exposed fields)

/-- Searches level after level, at most `fuel` of them. -/
def searchLevels (a : Arena) (name : String) : Nat → List TypeId → List TypeId → Option EntityId
  | 0, _, _ => none
  | _, [], _ => none
  | fuel + 1, t :: rest, seen =>
    match a.searchLevel name (t :: rest) seen [] with
    | .found f => some f
    | .onward seen next => searchLevels a name fuel next seen

/-- The field of a record, or of what a pointer points to. Every level but the last sees a new type, so there are no
more levels than types. -/
def lookupField (a : Arena) (t : TypeId) (name : String) : Option EntityId :=
  a.searchLevels name (a.typeCount + 1) [a.pointee t] []

end Statics.Arena
