import Statics.Arena.Basic

/-!
# Questions about types

`Arena.baseType` strips the names off a type, and nearly every question about a type is one about its base.
-/

namespace Statics.Arena

/-- The type under at most `fuel - 1` names; invalid when there are more. -/
def baseWithin (a : Arena) : Nat → TypeId → TypeId
  | 0, _ => .invalid
  | fuel + 1, t =>
    match a.type t with
    | .named _ (some base) _ => baseWithin a fuel base
    | _ => t

/-- The type under all names. A named type whose declaration is still being checked is its own base. -/
def baseType (a : Arena) (t : TypeId) : TypeId :=
  baseWithin a 1024 t

/-- The shape of a type under its names. -/
def base (a : Arena) (t : TypeId) : Ty :=
  a.type (a.baseType t)

/-- The kind of a basic type. -/
def kind? (a : Arena) (t : TypeId) : Option Kind :=
  match a.base t with
  | .basic k => some k
  | _ => none

/-- Whether a type is basic, of a kind with a given property. -/
def kindIs (a : Arena) (t : TypeId) (p : Kind → Bool) : Bool :=
  match a.kind? t with
  | some k => p k
  | none => false

/-- Types already reported as wrong. -/
def isInvalid (a : Arena) (t : TypeId) : Bool :=
  t == .invalid || a.kind? t == some .invalid

/-- Types of constants that have not settled. -/
def isUntyped (a : Arena) (t : TypeId) : Bool := a.kindIs t Kind.isUntyped

/-- The type of `nil`. -/
def isUntypedNil (a : Arena) (t : TypeId) : Bool := a.kind? t == some .untypedNil

/-- Truth values. -/
def isBoolean (a : Arena) (t : TypeId) : Bool := a.kindIs t Kind.isBoolean

/-- Numbers. -/
def isNumeric (a : Arena) (t : TypeId) : Bool := a.kindIs t Kind.isNumeric

/-- Strings. -/
def isString (a : Arena) (t : TypeId) : Bool := a.kindIs t Kind.isString

/-- Enums. -/
def isEnum (a : Arena) (t : TypeId) : Bool :=
  match a.base t with
  | .enum .. => true
  | _ => false

/-- Integers, enums included. -/
def isInteger (a : Arena) (t : TypeId) : Bool := a.kindIs t Kind.isInteger || a.isEnum t

/-- Unions. -/
def isUnion (a : Arena) (t : TypeId) : Bool :=
  match a.base t with
  | .record .union _ => true
  | _ => false

/-- Pointers, the untyped one included. -/
def isPointer (a : Arena) (t : TypeId) : Bool :=
  match a.base t with
  | .pointer _ => true
  | .basic k => k == .rawptr
  | _ => false

/-- Types that `nil` belongs to. -/
def isNillable (a : Arena) (t : TypeId) : Bool :=
  match a.base t with
  | .pointer _ | .slice _ | .proc .. => true
  | .basic k => k == .rawptr
  | _ => false

/-- What a pointer points to; other types stay as they are. -/
def pointee (a : Arena) (t : TypeId) : TypeId :=
  match a.base t with
  | .pointer elem => elem
  | _ => t

/-- Fields of a record. -/
def fields? (a : Arena) (t : TypeId) : Option (List EntityId) :=
  match a.base t with
  | .record _ fields => some fields
  | _ => none

/-- Members of an enum. -/
def members? (a : Arena) (t : TypeId) : Option (List EntityId) :=
  match a.base t with
  | .enum _ members => some members
  | _ => none

/-- The type that a constant settles on when nothing asks for another. -/
def settledType (a : Arena) (t : TypeId) : TypeId :=
  match a.type t with
  | .basic k => if k.isUntyped then .basic k.settled else t
  | _ => t

/-- Types with a name of their own. -/
def isNamed (a : Arena) (t : TypeId) : Bool :=
  match a.type t with
  | .named .. | .basic _ => true
  | _ => false

end Statics.Arena
