import Statics.Decimal.Binary

/-!
# The shortest decimal that reads back as a given double

Every real number strictly between the two midpoints around a double reads back as that double, and the midpoints do
so when its mantissa is even. `shortest` looks for the coarsest decimal grid with a point in this interval. On each
grid only the two points next to the value matter: if any point of the grid lies in the interval, one of these two
does.

All comparisons are between natural numbers. With `value = 4 * mantissa` in units of `2 ^ (exponent - 2)`, the
midpoints are the integers `value - 2` (or `value - 1` at a power of two) and `value + 2`.
-/

namespace Statics.Decimal

/-- The decimal number `digits * 10 ^ exponent`. -/
structure Scientific where
  digits : Nat
  exponent : Int
deriving DecidableEq, Repr

namespace Scientific

/-- Number of decimal digits of a natural number; one for zero. -/
def width (n : Nat) : Nat :=
  (Nat.toDigits 10 n).length

/-- Exponent of the leading digit. -/
def leading (s : Scientific) : Int :=
  s.exponent + width s.digits - 1

/-- Moves trailing zeros of the digits into the exponent, at most `fuel` of them. -/
def stripped : Nat → Scientific → Scientific
  | 0, s => s
  | fuel + 1, s =>
    if s.digits != 0 && s.digits % 10 == 0 then stripped fuel ⟨s.digits / 10, s.exponent + 1⟩ else s

end Scientific

/-- A positive binary fraction, written as `value / 4` units of `2 ^ (exponent - 2)` with the interval that reads back
as it. -/
structure Target where
  value : Nat
  below : Nat
  above : Nat
  closed : Bool
  exponent : Int
deriving DecidableEq, Repr

namespace Target

/-- The target of a double `mantissa * 2 ^ exponent`. -/
def of (mantissa : Nat) (exponent : Int) (halved : Bool) : Target :=
  { value := 4 * mantissa
    below := 4 * mantissa - (if halved then 1 else 2)
    above := 4 * mantissa + 2
    closed := mantissa % 2 == 0
    exponent := exponent - 2 }

/-- Factor of a count of binary units when it is compared with a count of steps `10 ^ grid`. -/
def unitFactor (t : Target) (grid : Int) : Nat :=
  Nat.pow 2 t.exponent.toNat * Nat.pow 10 (-grid).toNat

/-- Factor of a count of steps `10 ^ grid` when it is compared with a count of binary units. -/
def stepFactor (t : Target) (grid : Int) : Nat :=
  Nat.pow 2 (-t.exponent).toNat * Nat.pow 10 grid.toNat

/-- Whether `n * 10 ^ grid` reads back as the target. -/
def reads (t : Target) (grid : Int) (n : Nat) : Bool :=
  let point := n * t.stepFactor grid
  let low := t.below * t.unitFactor grid
  let high := t.above * t.unitFactor grid
  if t.closed then low ≤ point && point ≤ high else low < point && point < high

/-- The largest point of a grid that is not above the value. -/
def floor (t : Target) (grid : Int) : Nat :=
  t.value * t.unitFactor grid / t.stepFactor grid

/-- The nearer of the two points around the value among those that read back; a point half way goes up. -/
def onGrid (t : Target) (grid : Int) : Option Nat :=
  let low := t.floor grid
  let high := low + 1
  match t.reads grid low, t.reads grid high with
  | false, false => none
  | true, false => some low
  | false, true => some high
  | true, true =>
    if 2 * (t.value * t.unitFactor grid) < (low + high) * t.stepFactor grid then some low else some high

/-- A power of ten below every positive double, as its negated exponent. -/
def depth : Nat := 400

/-- Exponent of the leading decimal digit of the value. -/
def leading (t : Target) : Int :=
  Int.ofNat (Scientific.width (t.floor (-Int.ofNat depth))) - 1 - Int.ofNat depth

/-- The shortest decimal that reads back, nearest to the value among those of its length. Seventeen digits always
suffice. -/
def shortest (t : Target) : Scientific :=
  let lead := t.leading
  let grids := (List.range 17).map fun n => lead - Int.ofNat n
  let found := grids.findSome? fun grid => (t.onGrid grid).map fun n => Scientific.mk n grid
  (found.getD ⟨t.floor (lead - 16), lead - 16⟩).stripped 20

end Target

/-- Shortest digits of `mantissa * 2 ^ exponent`; zero has the digit zero. -/
def shortest (mantissa : Nat) (exponent : Int) (halved : Bool) : Scientific :=
  if mantissa == 0 then ⟨0, 0⟩ else (Target.of mantissa exponent halved).shortest

end Statics.Decimal
