/-!
# Signed 128-bit integers

Compile-time integers are bounded. `Int128.ofInt?` is the only way in, so an operation on constants is the exact
operation on `Int` followed by one range check.
-/

namespace Statics

/-- An integer from `-2 ^ 127` up to, and without, `2 ^ 127`. -/
structure Int128 where
  toInt : Int
  lower : -170141183460469231731687303715884105728 ≤ toInt
  upper : toInt < 170141183460469231731687303715884105728
deriving DecidableEq, Repr

namespace Int128

/-- The bound that every value stays below, and whose negation every value reaches at least. -/
def bound : Int := 170141183460469231731687303715884105728

/-- The 128-bit integer with a given value, if the value is in range. -/
def ofInt? (v : Int) : Option Int128 :=
  if h : -170141183460469231731687303715884105728 ≤ v ∧ v < 170141183460469231731687303715884105728 then
    some ⟨v, h.1, h.2⟩
  else none

/-- The value in range that is nearest to a given one. -/
def clamp (v : Int) : Int128 :=
  if low : v < -170141183460469231731687303715884105728 then
    ⟨-170141183460469231731687303715884105728, by decide, by decide⟩
  else if high : v < 170141183460469231731687303715884105728 then
    ⟨v, by omega, high⟩
  else
    ⟨170141183460469231731687303715884105727, by decide, by decide⟩

instance : Inhabited Int128 := ⟨⟨0, by decide, by decide⟩⟩

/-- Small natural numbers as 128-bit integers. -/
def zero : Int128 := ⟨0, by decide, by decide⟩

@[inherit_doc zero]
def one : Int128 := ⟨1, by decide, by decide⟩

@[ext]
theorem ext {a b : Int128} (h : a.toInt = b.toInt) : a = b := by
  cases a; cases b; simp_all

@[simp]
theorem ofInt?_toInt (a : Int128) : ofInt? a.toInt = some a := by
  simp [ofInt?, a.lower, a.upper]

/-- The range check accepts a value exactly when it is the value of a 128-bit integer. -/
theorem ofInt?_eq_some_iff {v : Int} {a : Int128} : ofInt? v = some a ↔ a.toInt = v := by
  constructor
  · intro h
    unfold ofInt? at h
    split at h
    · cases h; rfl
    · cases h
  · rintro rfl
    exact ofInt?_toInt a

/-- The range check refuses exactly the values that reach the bound on one side. -/
theorem ofInt?_eq_none_iff {v : Int} : ofInt? v = none ↔ v < -bound ∨ bound ≤ v := by
  unfold ofInt? bound
  split
  · rename_i h
    constructor
    · intro none
      cases none
    · intro out
      omega
  · rename_i h
    constructor
    · intro _
      omega
    · intro _
      rfl

end Int128

end Statics
