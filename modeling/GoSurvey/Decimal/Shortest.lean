/-
Doubles in the fewest decimal digits that read back as the same double.

The numbers that read back as a double form an interval around it, ends
included if and only if the mantissa is even. On the grid of decimals
with a given number of digits only the two neighbours of the value have
to be tested against the interval; the first grid with a hit wins, and of
two hits the nearer one. Seventeen digits always suffice.
-/
import GoSurvey.Decimal.Fixed

namespace GoSurvey.Decimal

/-- A positive decimal `digits * 10 ^ exponent`. -/
structure Scientific where
  digits : Nat
  exponent : Int
  deriving DecidableEq, Repr

/-- The two sides of `a * 10 ^ e ? num / den` as whole numbers. -/
def balance (a : Nat) (e : Int) (num den : Nat) : Nat × Nat :=
  if 0 ≤ e then (a * pow10 e.toNat * den, num) else (a * den, num * pow10 (-e).toNat)

/-- Whether a decimal reads back as the double. The interval is
`(4 m - below) / 4` to `(4 m + 2) / 4` in units of the last mantissa bit. -/
def readsBack (b : Binary) (d : Scientific) : Bool :=
  let atPower := b.mantissa = pow2 Binary.storedBits && b.exponent ≠ Binary.minExponent
  let below := if atPower then 1 else 2
  let quarter : Binary := ⟨false, 1, b.exponent - 2⟩
  let (unit, den) := quarter.fraction
  let (x, low) := balance d.digits d.exponent ((4 * b.mantissa - below) * unit) den
  let (y, high) := balance d.digits d.exponent ((4 * b.mantissa + 2) * unit) den
  if b.mantissa % 2 = 0 then low ≤ x && y ≤ high else low < x && y < high

/-- The exponent of the leading decimal digit of a positive fraction, found by going down from an
upper bound. -/
def leadingExponent (num den : Nat) : (fuel : Nat) → Int → Int
  | 0, e => e
  | fuel + 1, e =>
    let (x, y) := balance 1 e num den
    if x ≤ y then e else leadingExponent num den fuel (e - 1)

/-- The better of the two neighbours with a number of digits, if one of them reads back. -/
def onGrid? (b : Binary) (lead : Int) (count : Nat) : Option Scientific :=
  let (num, den) := b.fraction
  let e := lead - (count - 1 : Nat)
  let (unit, value) := balance 1 e num den
  let low : Scientific := ⟨value / unit, e⟩
  let high : Scientific := ⟨value / unit + 1, e⟩
  match readsBack b low, readsBack b high with
  | true, true => if 2 * (value % unit) ≤ unit then some low else some high
  | true, false => some low
  | false, true => some high
  | false, false => none

/-- The shortest decimal that reads back as a positive double. -/
def shortestDigits (b : Binary) : Scientific :=
  let (num, den) := b.fraction
  let lead := leadingExponent num den 700 310
  ((List.range 17).findSome? fun n => onGrid? b lead (n + 1)).getD ⟨b.mantissa, b.exponent⟩

/-- Digits without zeros at the end, and the exponent that makes up for them. -/
def dropZeros : (fuel : Nat) → Scientific → Scientific
  | 0, d => d
  | fuel + 1, d =>
    if d.digits % 10 = 0 ∧ d.digits ≠ 0 then dropZeros fuel ⟨d.digits / 10, d.exponent + 1⟩ else d

/-- A decimal in positional notation for leading exponents from -4 to 15, with an exponent of two
digits at least otherwise; a whole number keeps one decimal place. -/
def Scientific.text (d : Scientific) : Text :=
  let digits := Text.ofNat d.digits
  let lead := d.exponent + (digits.length - 1 : Nat)
  if -4 ≤ lead ∧ lead < 16 then
    if 0 ≤ d.exponent then digits ++ List.replicate d.exponent.toNat '0' ++ ".0"
    else placed (-d.exponent).toNat d.digits
  else
    let head := digits.take 1
    let tail := digits.drop 1
    let size := Text.ofNat lead.natAbs
    head ++ (if tail.isEmpty then [] else '.' :: tail)
      ++ (if lead < 0 then "e-" else "e+") ++ List.replicate (2 - size.length) '0' ++ size

/-- A double in the fewest digits that read back. -/
def shortest (x : Float) : Text :=
  match Binary.ofFloat? x with
  | none => nonFinite x
  | some b =>
    let text : Text :=
      if b.mantissa = 0 then "0.0" else (dropZeros 20 (shortestDigits b)).text
    if b.negative then '-' :: text else text

end GoSurvey.Decimal
