/-
The exact value of a finite double: a whole number times a power of two.
Both ways of writing a double in decimals start from it, so that they
compute in whole numbers only.
-/

namespace GoSurvey.Decimal

/-- A power of two. -/
def pow2 (n : Nat) : Nat := Nat.pow 2 n

/-- A power of ten. -/
def pow10 (n : Nat) : Nat := Nat.pow 10 n

/-- The value `mantissa * 2 ^ exponent`, or its negative. -/
structure Binary where
  negative : Bool
  mantissa : Nat
  exponent : Int
  deriving DecidableEq, Repr

namespace Binary

/-- The number of mantissa bits that are stored. -/
def storedBits : Nat := 52

/-- The exponent of the smallest doubles. -/
def minExponent : Int := -1074

/-- The exact value of a double; `none` if it is infinite or not a number. -/
def ofFloat? (x : Float) : Option Binary :=
  let bits := x.toBits.toNat
  let fraction := bits % pow2 storedBits
  let scale := bits / pow2 storedBits % pow2 11
  let negative := bits / pow2 63 == 1
  if scale = 2047 then none
  else if scale = 0 then some ⟨negative, fraction, minExponent⟩
  else some ⟨negative, fraction + pow2 storedBits, minExponent + (scale - 1 : Nat)⟩

/-- The absolute value as a fraction of whole numbers. -/
def fraction (b : Binary) : Nat × Nat :=
  if 0 ≤ b.exponent then (b.mantissa * pow2 b.exponent.toNat, 1)
  else (b.mantissa, pow2 (-b.exponent).toNat)

end Binary

/-- Division rounded to the nearest whole number, a half going to the even neighbour. -/
def roundDiv (num den : Nat) : Nat :=
  let quotient := num / den
  let remainder := num % den
  if 2 * remainder < den then quotient
  else if den < 2 * remainder then quotient + 1
  else quotient + quotient % 2

end GoSurvey.Decimal
