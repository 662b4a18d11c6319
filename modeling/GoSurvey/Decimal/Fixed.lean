/-
Doubles with a fixed number of decimal places: the exact value rounded
once, a half going to the even neighbour.
-/
import GoSurvey.Decimal.Binary
import GoSurvey.Text.Basic

namespace GoSurvey.Decimal

/-- A whole number of `10 ^ (-places)` as a decimal. -/
def placed (places n : Nat) : Text :=
  let whole := Text.ofNat (n / pow10 places)
  let fraction := Text.ofNat (n % pow10 places)
  if places = 0 then whole
  else whole ++ '.' :: List.replicate (places - fraction.length) '0' ++ fraction

/-- The text of a value that is no finite number. -/
def nonFinite (x : Float) : Text :=
  if x.isNaN then "nan" else if x < 0 then "-inf" else "inf"

/-- A double with the given number of decimal places. -/
def fixed (places : Nat) (x : Float) : Text :=
  match Binary.ofFloat? x with
  | none => nonFinite x
  | some b =>
    let (num, den) := b.fraction
    let text := placed places (roundDiv (num * pow10 places) den)
    if b.negative then '-' :: text else text

end GoSurvey.Decimal
