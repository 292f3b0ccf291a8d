import Statics.Check.Pass
import Statics.Constant.Represent
import Statics.Types.Identity

/-!
# Conversion and assignment

Untyped operands take the type that is wanted, if their value fits it. What is left must be assignable: identical types,
`nil` to what takes it, raw pointers to and from pointers, and types that differ only in a name that one side lacks.
-/

namespace Statics

/-- Whether an operand can be stored in a place of type `target` as it is. Whatever was reported as wrong is taken
without complaint. -/
def Arena.assignable (a : Arena) (x : Operand) (target : TypeId) : Bool :=
  if x.isInvalid || a.isInvalid x.type || a.isInvalid target then true
  else if a.identical x.type target then true
  else if a.isUntyped x.type then a.isUntypedNil x.type && a.isNillable target
  else if a.isPointer x.type && a.isPointer target && (x.type == .basic .rawptr || target == .basic .rawptr) then true
  else (!a.isNamed x.type || !a.isNamed target) && a.identical (a.baseType x.type) (a.baseType target)

namespace Check

/-- Gives a `nil` the type `target`, which must take it. -/
def convertNil (x : Operand) (target : TypeId) (token : Token) : Check Operand := do
  if (← arena).isNillable target then return { x with type := target }
  report token (.nilAs (← typeText target))
  return x.invalidated

/-- Gives an operand of an untyped kind the type `target`, whose kind is settled and of the same sort. -/
def convertTo (x : Operand) (kind : Kind) (target : TypeId) (token : Token) : Check Operand := do
  match x.constant? with
  | some v =>
    match v.represent? kind with
    | some v => return { x with constant? := some v, type := target }
    | none =>
      report token (.constantNotConvertible v (← typeText target))
      return x.invalidated
  | none => return { x with type := target }

/-- Gives an untyped operand the type `target` where the two go together. Others are left as they are. -/
def convertUntyped (x : Operand) (target : TypeId) (token : Token) : Check Operand := do
  let a ← arena
  if x.isInvalid || !a.isUntyped x.type || a.isInvalid target then return x
  match a.kind? x.type, a.kind? target with
  | some .untypedNil, _ => convertNil x target token
  | some source, some kind =>
    if kind.isUntyped then
      if source == .untypedInt && kind == .untypedFloat then
        return { x with constant? := x.constant?.bind (·.represent? .untypedFloat), type := target }
      else return x
    else if kind.accepts source then convertTo x kind target token
    else return x
  | _, _ => return x

/-- Remembers an operand that stands for the whole expression. -/
def annotateOwn (e : Expr) (x : Operand) : Check Unit :=
  if x.expr == e.id then annotate e.id x else pure ()

/-- Reports an operand that is no value. -/
def rejectMode (x : Operand) (e : Expr) (p : Problem) : Check Operand := do
  report e.token p
  return x.invalidated

/-- Lets a value settle on a type of its own. -/
def settle (x : Operand) (e : Expr) (purpose : Purpose) : Check Operand := do
  let a ← arena
  if a.isUntypedNil x.type then rejectMode x e (.nilWithoutType purpose)
  else if a.isUntyped x.type then
    let x ← convertUntyped x (a.settledType x.type) e.token
    annotateOwn e x
    return x
  else return x

/-- Stores a value that is not untyped any more, unless it is invalid. -/
def store (x : Operand) (e : Expr) (target : TypeId) (purpose : Purpose) : Check Operand := do
  let a ← arena
  if a.assignable x target then
    annotateOwn e x
    return x
  else
    rejectMode x e (.notAssignable e (a.typeText x.type) (a.typeText target) purpose)

/-- Stores a value in a place of type `target`, after conversion if it is untyped. -/
def storeIn (x : Operand) (e : Expr) (target : TypeId) (purpose : Purpose) : Check Operand := do
  let a ← arena
  if a.isInvalid target then return x
  if a.isUntyped x.type then
    let x ← convertUntyped x target e.token
    if x.isInvalid then return x else store x e target purpose
  else store x e target purpose

/-- Uses an operand for some purpose: stores it in a place of type `target`, or lets it settle when there is none. The
result is invalid if that was reported. -/
def assign (x : Operand) (e : Expr) (target : Option TypeId) (purpose : Purpose) : Check Operand :=
  match x.mode with
  | .invalid => return x
  | .noValue => rejectMode x e (.noValue e purpose)
  | .type => rejectMode x e (.typeAsValue e purpose)
  | .builtin _ => rejectMode x e (.builtinAsValue e purpose)
  | .value | .var | .constant =>
    match target with
    | none => settle x e purpose
    | some target => storeIn x e target purpose

end Check

end Statics
