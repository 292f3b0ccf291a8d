import Statics.Check.Assign
import Statics.Constant.Fold

/-!
# Operators and calls

What unary and binary operators, conversions and calls of built-in procedures make of operands that are already
evaluated.
-/

namespace Statics

/-- Whether a binary operator is defined on operands of a type. -/
def Arena.defines (a : Arena) (op : BinaryOp) (t : TypeId) : Bool :=
  match op with
  | .eq | .ne =>
    a.isNumeric t || a.isString t || a.isBoolean t || a.isPointer t || a.isEnum t || a.isNillable t
  | .lt | .le | .gt | .ge => a.isNumeric t || a.isString t || a.isEnum t
  | .and | .or => a.isBoolean t
  | .rem => a.isInteger t && !a.isEnum t
  | .add => a.isNumeric t || a.isString t
  | .sub | .mul | .div => a.isNumeric t

/-- Whether a type can be converted to another. -/
def Arena.convertible (a : Arena) (x : Operand) (target : TypeId) : Bool :=
  a.assignable x target || (a.isNumeric x.type && a.isNumeric target) || (a.isPointer x.type && a.isPointer target) ||
    a.identical (a.baseType x.type) (a.baseType target)

/-- A constant as a type stores it, where the type is basic and settled; anything else stores it as it is. -/
def Arena.stored? (a : Arena) (t : TypeId) (v : Constant) : Option Constant :=
  match a.kind? t with
  | some k => if k.isUntyped then some v else v.represent? k
  | none => some v

namespace Check

/-- Reports a problem; the expression is invalid. -/
def fail (token : Token) (p : Problem) (id : NodeId) : Check Operand := do
  report token p
  return .invalid id

/-! ## Unary operators -/

/-- A constant result of a unary operator on an operand of a type. -/
def unaryConstant (e : Expr) (t : TypeId) (folded : Except FoldError Constant) : Check Operand := do
  match folded with
  | .error _ => fail e.token (.negationOverflow e) e.id
  | .ok v =>
    match (← arena).stored? t v with
    | some v => return .constant t v e.id
    | none => fail e.token (.constantOverflows v (← typeText t)) e.id

/-- The address of an operand. -/
def addressOf (e operand : Expr) (x : Operand) : Check Operand := do
  if x.mode == .var then return .value (← newType (.pointer x.type)) e.id
  fail operand.token (.noAddress operand) e.id

/-- A number or truth value turned into its opposite. A constant without a value could not be. -/
def opposite (e : Expr) (op : UnaryOp) (x : Operand) (allowed : Bool)
    (fold : Constant → Except FoldError Constant) : Check Operand := do
  if allowed then
    match x.mode with
    | .constant => unaryConstant e x.type ((x.constant?.map fold).getD (.error .unsupported))
    | _ => return .value x.type e.id
  else fail e.token (.operatorUndefined op.symbol (← typeText x.type)) e.id

/-- A unary operator applied to an evaluated operand. -/
def unary (e : Expr) (op : UnaryOp) (operand : Expr) (x : Operand) : Check Operand := do
  if x.isInvalid then return { x with expr := e.id }
  if !x.mode.isValue then fail operand.token (.notAValue operand) e.id
  else
    let a ← arena
    match op with
    | .address => addressOf e operand x
    | .negate => opposite e op x (a.isNumeric x.type) Constant.negate
    | .complement => opposite e op x (a.isBoolean x.type) Constant.complement

/-! ## Binary operators -/

/-- Brings two operands to one type where one of them is untyped; among untyped numbers, floats win. -/
def balance (x y : Operand) (token : Token) : Check (Operand × Operand) := do
  let a ← arena
  match a.isUntyped x.type, a.isUntyped y.type with
  | false, true => return (x, ← convertUntyped y x.type token)
  | true, false => return (← convertUntyped x y.type token, y)
  | true, true =>
    if a.kind? y.type == some .untypedFloat then return (← convertUntyped x y.type token, y)
    else if a.kind? x.type == some .untypedFloat then return (x, ← convertUntyped y x.type token)
    else return (x, y)
  | false, false => return (x, y)

/-- The result of an operator defined on two operands of the type `t`: a constant if both are. -/
def fold (token : Token) (op : BinaryOp) (t : TypeId) (x y : Operand) (id : NodeId) : Check Operand := do
  let result := if op.isComparison then .basic .untypedBool else t
  match x.mode, y.mode, x.constant?, y.constant? with
  | .constant, .constant, some v, some w =>
    match v.binary op w with
    | .ok u =>
      match (← arena).stored? result u with
      | some u => return .constant result u id
      | none => fail token (.resultOverflows op (← typeText result)) id
    | .error .overflow => fail token (.foldOverflow op) id
    | .error _ => return .value result id
  | _, _, _, _ => return .value result id

/-- Whether an operand is the constant zero. -/
def isZero (x : Operand) : Bool := x.mode == .constant && x.constant?.any Constant.isZero

/-- A binary operator applied to two operands of one type. -/
def combine (token : Token) (op : BinaryOp) (x y : Operand) (id : NodeId) : Check Operand := do
  let a ← arena
  if !a.identical x.type y.type then
    fail token (.operandMismatch op (a.typeText x.type) (a.typeText y.type)) id
  else if !a.defines op x.type then
    fail token (.operatorUndefined op.symbol (a.typeText x.type)) id
  else if (op == .div || op == .rem) && isZero y then
    fail token .zeroDivisor id
  else
    fold token op x.type x y id

/-- A binary operator applied to two evaluated operands. -/
def binary (token : Token) (op : BinaryOp) (x y : Operand) (id : NodeId) : Check Operand := do
  if x.isInvalid || y.isInvalid then return .invalid id
  if !x.mode.isValue || !y.mode.isValue then fail token (.operandsNotValues op) id
  else
    let (x, y) ← balance x y token
    if x.isInvalid || y.isInvalid then return .invalid id
    else combine token op x y id

/-! ## Conversions -/

/-- The constant that a conversion of a constant to a settled basic kind yields, with `none` inside when the value does
not fit. Constants of another sort are not converted this way. -/
def constantConversion? (v : Constant) (kind : Option Kind) : Option (Option Constant) :=
  match kind with
  | some k =>
    if k.isUntyped then none
    else if (v.toFloat?.isSome && k.isNumeric) || (v.represent? k).isSome then some (v.represent? k)
    else none
  | none => none

/-- The conversion of an evaluated operand whose value is not converted while checking. -/
def convertValue (e : Expr) (target : TypeId) (arg : Expr) (x : Operand) : Check Operand := do
  let x ← convertUntyped x target arg.token
  if x.isInvalid then return .invalid e.id
  let a ← arena
  if a.convertible x target then return .value target e.id
  fail arg.token (.notConvertible arg (a.typeText x.type) (a.typeText target)) e.id

/-- The conversion of an evaluated operand to a type. -/
def convert (e : Expr) (target : TypeId) (arg : Expr) (x : Operand) : Check Operand := do
  let a ← arena
  if x.isInvalid || a.isInvalid target then return .invalid e.id
  if !x.mode.isValue then fail arg.token (.notAValue arg) e.id
  else
    match x.mode, x.constant? with
    | .constant, some v =>
      match constantConversion? v (a.kind? target) with
      | some (some w) => return .constant target w e.id
      | some none => fail arg.token (.constantNotConvertible v (a.typeText target)) e.id
      | none => convertValue e target arg x
    | _, _ => convertValue e target arg x

/-! ## Built-in procedures -/

/-- Whether a type has a length. -/
def hasLength (a : Arena) (t : TypeId) : Bool :=
  match a.base t with
  | .array .. | .slice _ => true
  | _ => a.isString t

/-- The length of an evaluated operand; that of a constant string is its number of bytes. -/
def lengthOf (e arg : Expr) (x : Operand) : Check Operand := do
  match x.mode, x.constant? with
  | .invalid, _ => return .invalid e.id
  | .constant, some (.str s) =>
    return .constant (.basic .untypedInt) (.int (Int128.clamp (Int.ofNat s.utf8ByteSize))) e.id
  | _, _ =>
    if x.mode.isValue && hasLength (← arena) x.type then return .value (.basic .int) e.id
    fail arg.token (.lenArgument arg) e.id

/-- The size or alignment of a type. -/
def measureOf (e : Expr) (t : TypeId) : Check Operand := do
  if (← arena).isInvalid t then return .invalid e.id
  return .value (.basic .int) e.id

/-- A pointer to a fresh place of a type. -/
def allocated (e : Expr) (t : TypeId) : Check Operand := do
  if (← arena).isInvalid t then return .invalid e.id
  return .value (← newType (.pointer t)) e.id

/-- Asserts an evaluated operand, which must be a truth value. -/
def asserted (e arg : Expr) (x : Operand) : Check Operand := do
  if !x.isInvalid && !(x.mode.isValue && (← arena).isBoolean x.type) then
    report arg.token (.assertArgument arg)
  return .noValue e.id

/-- The result of calling a procedure with given result types. -/
def resultOf (e : Expr) : List TypeId → Check Operand
  | [] => return .noValue e.id
  | [one] => return .value one e.id
  | many => return .value (← newType (.tuple many)) e.id

end Check

end Statics
