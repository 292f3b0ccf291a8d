import Statics.Constant.Int128
import Statics.Decimal.Layout
import Statics.Text.Quoted

/-!
# Constants

Values known while checking. Integers and floats are different constants that may have equal values.
-/

namespace Statics

/-- A value known while checking. -/
inductive Constant where
  | bool (value : Bool)
  | int (value : Int128)
  | float (value : Float)
  | str (value : String)
deriving DecidableEq, Repr

/-- Why an operation on constants has no result. -/
inductive FoldError where
  | divisionByZero
  | overflow
  | unsupported
deriving DecidableEq, Repr

/-- Wording of a folding error. -/
def FoldError.message : FoldError → String
  | .divisionByZero => "division by zero"
  | .overflow => "constant overflow"
  | .unsupported => "operator not defined on these constants"

/-- What constants are sorted by before they are compared. Numbers share a key when the doubles nearest to them are
equal, and the two zeros are one number. -/
inductive ConstantKey where
  | bool (value : Bool)
  | number (bits : UInt64)
  | str (value : String)
deriving DecidableEq, Repr

namespace Constant

/-- Text of a constant in diagnostics. -/
def text : Constant → String
  | bool b => if b then "true" else "false"
  | int v => toString v.toInt
  | float v => Decimal.Layout.rounded.text v
  | str s => Text.quoted s

/-- The double nearest to a number. -/
def toFloat? : Constant → Option Float
  | int v => some (Float.ofInt v.toInt)
  | float v => some v
  | _ => none

/-- Bits of a number's double, with one zero. -/
def numberKey (x : Float) : UInt64 :=
  if x == 0.0 then (0.0 : Float).toBits else x.toBits

/-- The key of a constant. -/
def key : Constant → ConstantKey
  | bool b => .bool b
  | int v => .number (numberKey (Float.ofInt v.toInt))
  | float v => .number (numberKey v)
  | str s => .str s

/-- Equality of values: exact between integers, between doubles once a float takes part. -/
def same : Constant → Constant → Bool
  | bool a, bool b => a == b
  | str a, str b => a == b
  | int a, int b => a == b
  | a, b =>
    match a.toFloat?, b.toFloat? with
    | some x, some y => x == y
    | _, _ => false

/-- Whether a constant is the number zero. -/
def isZero : Constant → Bool
  | int v => v.toInt == 0
  | float v => v == 0.0
  | _ => false

end Constant

end Statics
