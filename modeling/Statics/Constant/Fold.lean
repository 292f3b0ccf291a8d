import Statics.Constant.Basic
import Statics.Source.Operator

/-!
# Folding constants

Operators applied to constants. Integer results are exact or an overflow; division truncates toward zero, and the
remainder has the sign of the dividend. As soon as one operand is a float, both are.
-/

namespace Statics.Constant

/-- An integer result, which must fit. -/
def ofInt (v : Int) : Except FoldError Constant :=
  match Int128.ofInt? v with
  | some w => .ok (int w)
  | none => .error .overflow

/-- The opposite number. -/
def negate : Constant → Except FoldError Constant
  | int v => ofInt (-v.toInt)
  | float v => .ok (float (-v))
  | _ => .error .unsupported

/-- The opposite truth value. -/
def complement : Constant → Except FoldError Constant
  | bool b => .ok (bool !b)
  | _ => .error .unsupported

/-- Order of two doubles; there is none when one of them is not a number. -/
def compareFloats (x y : Float) : Except FoldError Ordering :=
  if x < y then .ok .lt
  else if x == y then .ok .eq
  else if y < x then .ok .gt
  else .error .unsupported

/-- Order of two constants of one sort. Strings compare by code point. -/
def order : Constant → Constant → Except FoldError Ordering
  | str a, str b => .ok (compare a b)
  | int a, int b => .ok (compare a.toInt b.toInt)
  | a, b =>
    match a.toFloat?, b.toFloat? with
    | some x, some y => compareFloats x y
    | _, _ => .error .unsupported

/-- What a comparison says about an order. -/
def holdsOf (op : BinaryOp) (o : Ordering) : Except FoldError Bool :=
  match op with
  | .eq => .ok o.isEq
  | .ne => .ok !o.isEq
  | .lt => .ok o.isLT
  | .le => .ok !o.isGT
  | .gt => .ok o.isGT
  | .ge => .ok !o.isLT
  | _ => .error .unsupported

/-- A comparison. Truth values are only equal or not. -/
def comparison (op : BinaryOp) : Constant → Constant → Except FoldError Bool
  | bool a, bool b =>
    match op with
    | .eq => .ok (a == b)
    | .ne => .ok (a != b)
    | _ => .error .unsupported
  | a, b => do holdsOf op (← order a b)

/-- Arithmetic on integers. -/
def integers (op : BinaryOp) (a b : Int) : Except FoldError Constant :=
  match op with
  | .add => ofInt (a + b)
  | .sub => ofInt (a - b)
  | .mul => ofInt (a * b)
  | .div => if b == 0 then .error .divisionByZero else ofInt (a.tdiv b)
  | .rem =>
    if b == 0 then .error .divisionByZero
    else if a == -Int128.bound && b == -1 then .error .overflow
    else ofInt (a.tmod b)
  | _ => .error .unsupported

/-- Arithmetic on doubles. -/
def floats (op : BinaryOp) (x y : Float) : Except FoldError Constant :=
  match op with
  | .add => .ok (float (x + y))
  | .sub => .ok (float (x - y))
  | .mul => .ok (float (x * y))
  | .div => if y == 0.0 then .error .divisionByZero else .ok (float (x / y))
  | _ => .error .unsupported

/-- Operators other than comparisons. -/
def arithmetic (op : BinaryOp) : Constant → Constant → Except FoldError Constant
  | bool a, bool b =>
    match op with
    | .and => .ok (bool (a && b))
    | .or => .ok (bool (a || b))
    | _ => .error .unsupported
  | str a, str b =>
    match op with
    | .add => .ok (str (a ++ b))
    | _ => .error .unsupported
  | int a, int b => integers op a.toInt b.toInt
  | a, b =>
    match a.toFloat?, b.toFloat? with
    | some x, some y => floats op x y
    | _, _ => .error .unsupported

/-- A binary operator applied to two constants. -/
def binary (op : BinaryOp) (a b : Constant) : Except FoldError Constant :=
  if op.isComparison then (comparison op a b).map bool else arithmetic op a b

end Statics.Constant
