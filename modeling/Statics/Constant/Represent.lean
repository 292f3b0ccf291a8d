import Statics.Constant.Basic
import Statics.Kind

/-!
# Constants of a kind

`Constant.represent?` turns a constant into the form that a kind of type stores, or says that it does not fit.
-/

namespace Statics.Constant

/-- The integer of a constant: an integer itself, or a float without fraction, brought into the 128-bit range. -/
def toInteger? : Constant → Option Int128
  | int v => some v
  | float v => (Decimal.Binary.ofFloat v).toInt?.map Int128.clamp
  | _ => none

/-- A double rounded to single precision, unless that makes a finite number infinite. -/
def single? (x : Float) : Option Float :=
  let narrow := x.toFloat32
  if narrow.isInf && x.isFinite then none else some narrow.toFloat

/-- The form of a constant in a kind, if it has one. -/
def represent? (c : Constant) (k : Kind) : Option Constant :=
  if k.isInteger then
    match c.toInteger? with
    | some v => if k.holds v.toInt then some (int v) else none
    | none => none
  else if k.isFloat then
    match c.toFloat? with
    | some x => if k = .f32 then (single? x).map float else some (float x)
    | none => none
  else
    match c with
    | bool _ => if k.isBoolean then some c else none
    | str _ => if k.isString then some c else none
    | _ => none

end Statics.Constant
