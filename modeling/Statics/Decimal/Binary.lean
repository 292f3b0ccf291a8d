/-!
# Doubles as exact binary fractions

A finite double is `mantissa * 2 ^ exponent` with a sign. `Binary.ofFloat` reads these parts from the bits, so that
everything said about the value of a double afterwards is arithmetic on natural numbers.
-/

namespace Statics.Decimal

/-- The value of a double. In the finite case `halved` says that the neighbour below is only half as far away as the
neighbour above, which happens at the powers of two. -/
inductive Binary where
  | nan
  | infinite (negative : Bool)
  | finite (negative : Bool) (mantissa : Nat) (exponent : Int) (halved : Bool)
deriving DecidableEq, Repr

namespace Binary

/-- Splits 64 bits into the sign, eleven bits of exponent and 52 bits of fraction. A zero exponent field has no hidden
leading one. -/
def ofBits (bits : Nat) : Binary :=
  let negative := bits / Nat.pow 2 63 % 2 == 1
  let field := bits / Nat.pow 2 52 % Nat.pow 2 11
  let fraction := bits % Nat.pow 2 52
  if field == 2047 then
    if fraction == 0 then .infinite negative else .nan
  else if field == 0 then
    .finite negative fraction (-1074) false
  else
    .finite negative (Nat.pow 2 52 + fraction) (Int.ofNat field - 1075) (fraction == 0 && field != 1)

/-- The exact value of a double. -/
def ofFloat (x : Float) : Binary :=
  ofBits x.toBits.toNat

/-- The integer that a double is, if it is one. -/
def toInt? : Binary → Option Int
  | .finite negative mantissa exponent _ =>
    let signed : Nat → Int := fun n => if negative then -(Int.ofNat n) else Int.ofNat n
    if 0 ≤ exponent then
      some (signed (mantissa * Nat.pow 2 exponent.toNat))
    else
      let unit := Nat.pow 2 (-exponent).toNat
      if mantissa % unit == 0 then some (signed (mantissa / unit)) else none
  | _ => none

end Binary

end Statics.Decimal
