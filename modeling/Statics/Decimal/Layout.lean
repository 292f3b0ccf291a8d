import Statics.Decimal.Shortest

/-!
# Layouts of shortest decimals

A `Layout` decides which numbers are written positionally and whether a whole number keeps a point. The digits
themselves come from `Decimal.shortest`, so every layout reads back.
-/

namespace Statics.Decimal

/-- How the shortest digits of a double are laid out. `positional` is asked about the exponent of the leading digit, and
`whole` follows a positional number without fraction. -/
structure Layout where
  positional : Int → Bool
  whole : String

namespace Layout

/-- Positional from a ten-thousandth up to, and without, ten to the sixteenth; whole numbers keep a point. -/
def rounded : Layout where
  positional lead := -4 ≤ lead && lead < 16
  whole := ".0"

/-- Always positional, and whole numbers have no point. -/
def plain : Layout where
  positional _ := true
  whole := ""

/-- Digits of a natural number as text. -/
def digits (n : Nat) : String :=
  String.ofList (Nat.toDigits 10 n)

/-- `count` zeros. -/
def zeros (count : Nat) : String :=
  String.ofList (List.replicate count '0')

/-- The number without an exponent. -/
def written (l : Layout) (s : Scientific) : String :=
  if 0 ≤ s.exponent then
    digits s.digits ++ zeros (if s.digits == 0 then 0 else s.exponent.toNat) ++ l.whole
  else
    let text := Nat.toDigits 10 s.digits
    let places := (-s.exponent).toNat
    if places < text.length then
      String.ofList (text.take (text.length - places)) ++ "." ++ String.ofList (text.drop (text.length - places))
    else
      "0." ++ zeros (places - text.length) ++ String.ofList text

/-- One digit before the point, and the exponent of that digit after an `e`. -/
def scientific (s : Scientific) : String :=
  let mark := "e" ++ toString s.leading
  match Nat.toDigits 10 s.digits with
  | first :: second :: rest => String.ofList [first] ++ "." ++ String.ofList (second :: rest) ++ mark
  | text => String.ofList text ++ mark

/-- The text of a double. -/
def text (l : Layout) (x : Float) : String :=
  match Binary.ofFloat x with
  | .nan => "NaN"
  | .infinite negative => if negative then "-inf" else "inf"
  | .finite negative mantissa exponent halved =>
    let s := Decimal.shortest mantissa exponent halved
    let sign := if negative then "-" else ""
    sign ++ (if s.digits == 0 || l.positional s.leading then l.written s else scientific s)

end Layout

end Statics.Decimal
