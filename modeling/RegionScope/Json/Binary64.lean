/-!
# Binary floating point numbers

Numbers of 53 significant bits, read from decimal text and written with the fewest digits
that read back. All of the arithmetic is exact: a number is a natural mantissa times a
power of two, and a comparison with a decimal is one between natural numbers.

Reading rounds to the nearest number, a tie to the even mantissa. Writing takes, among the
decimals that read back, the shortest, and of those the nearest; a tie goes to the even
last digit. The text is positional while the decimal exponent is at least -4 and below 16.
-/

namespace RegionScope

/-- A floating point number. A finite one stands for `mantissa * 2 ^ exponent`, its
mantissa below `2 ^ 53`, and not below `2 ^ 52` unless the exponent is the least. -/
inductive Binary64 where
  | nan
  | infinite (negative : Bool)
  | finite (negative : Bool) (mantissa : Nat) (exponent : Int)
deriving DecidableEq, Repr

namespace Binary64

/-- The least exponent. -/
def minExponent : Int := -1074

/-- The greatest exponent. -/
def maxExponent : Int := 971

/-- The quotient rounded to the nearest natural number, a tie to the even one. -/
def roundDiv (num den : Nat) : Nat :=
  let q := num / den
  let r := num % den
  if den < 2 * r ∨ (2 * r = den ∧ q % 2 = 1) then q + 1 else q

/-- The fraction `num / den` times `base ^ power`, as a fraction. -/
def scale (base : Nat) (power : Int) (num den : Nat) : Nat × Nat :=
  match power with
  | .ofNat n => (num * base.pow n, den)
  | .negSucc n => (num, den * base.pow (n + 1))

/-- The number nearest to the fraction `num / den`. -/
def ofFraction (negative : Bool) (num den : Nat) : Binary64 :=
  if num = 0 then finite negative 0 minExponent
  else
    let guess : Int := max ((num.log2 : Int) - den.log2 - 53) minExponent
    let atGuess := scale 2 (-guess) num den
    let exponent := if atGuess.1 / atGuess.2 < Nat.pow 2 53 then guess else guess + 1
    let scaled := scale 2 (-exponent) num den
    let mantissa := roundDiv scaled.1 scaled.2
    let rounded : Nat × Int :=
      if mantissa = Nat.pow 2 53 then (Nat.pow 2 52, exponent + 1) else (mantissa, exponent)
    if maxExponent < rounded.2 then infinite negative
    else finite negative rounded.1 rounded.2

/-- The number of decimal digits of a natural number, none for zero. -/
def digitCount (n : Nat) : Nat := if n = 0 then 0 else (Nat.toDigits 10 n).length

/-- The number nearest to `digits * 10 ^ power`. Beyond `10 ^ 310` every number is infinite
and below `10 ^ (-330)` it is zero, so no power outside these bounds is computed. -/
def ofDecimal (negative : Bool) (digits : Nat) (power : Int) : Binary64 :=
  if digits = 0 then finite negative 0 minExponent
  else if 310 < digitCount digits + power then infinite negative
  else if digitCount digits + power < -330 then finite negative 0 minExponent
  else
    let fraction := scale 10 power digits 1
    ofFraction negative fraction.1 fraction.2

/-! ## Shortest decimal -/

/-- The decimal exponent of the positive number `mantissa * 2 ^ exponent`, that of its first
digit. No number is below `10 ^ (-324)`, so shifted by 400 places it has an integral part
of the same first digits. -/
def decimalExponent (mantissa : Nat) (exponent : Int) : Int :=
  let shifted := scale 2 exponent (mantissa * Nat.pow 10 400) 1
  (digitCount (shifted.1 / shifted.2) : Int) - 401

/-- Whether the decimal `digits * 10 ^ power` reads back as `mantissa * 2 ^ exponent`: it lies
between the midpoints to the neighbours, which belong to an even mantissa. -/
def readsBack (mantissa : Nat) (exponent : Int) (digits : Nat) (power : Int) : Bool :=
  let lowGap := if mantissa = Nat.pow 2 52 ∧ exponent ≠ minExponent then 1 else 2
  let decimal := scale 10 power (4 * digits) 1
  let unit := scale 2 exponent 1 1
  let value := decimal.1 * unit.2
  let low := (4 * mantissa - lowGap) * unit.1 * decimal.2
  let high := (4 * mantissa + 2) * unit.1 * decimal.2
  if mantissa % 2 = 0 then low ≤ value ∧ value ≤ high else low < value ∧ value < high

/-- The shortest decimal, tried with `count` and more digits while fuel lasts: its digits
and the power of ten. -/
def shortestFrom (mantissa : Nat) (exponent : Int) (first : Int) : Nat → Nat → Nat × Int
  | 0, _ => (mantissa, 0)
  | fuel + 1, count =>
    let power : Int := first + 1 - count
    let unit := scale 10 (-power) mantissa 1
    let value := scale 2 exponent unit.1 unit.2
    let down := value.1 / value.2
    let rest := value.1 % value.2
    let fits := fun digits => readsBack mantissa exponent digits power
    if fits down && fits (down + 1) then
      if 2 * rest < value.2 ∨ (2 * rest = value.2 ∧ down % 2 = 0) then (down, power)
      else (down + 1, power)
    else if fits down then (down, power)
    else if fits (down + 1) then (down + 1, power)
    else shortestFrom mantissa exponent first fuel (count + 1)

/-- The shortest decimal of a positive number. Seventeen digits always read back. -/
def shortest (mantissa : Nat) (exponent : Int) : Nat × Int :=
  shortestFrom mantissa exponent (decimalExponent mantissa exponent) 17 1

/-! ## Text -/

/-- Digits without trailing zeros. -/
def stripZeros (digits : List Char) : List Char :=
  (digits.reverse.dropWhile (· == '0')).reverse

/-- The text of a positive decimal, given its significant digits and the exponent of the first. -/
def layout (digits : List Char) (first : Int) : List Char :=
  if first < -4 ∨ 16 ≤ first then
    let mantissa := digits.take 1 ++ if 1 < digits.length then '.' :: digits.drop 1 else []
    let size := Nat.toDigits 10 first.natAbs
    let padded := if size.length < 2 then '0' :: size else size
    mantissa ++ ['e', if first < 0 then '-' else '+'] ++ padded
  else if first < 0 then
    ['0', '.'] ++ List.replicate (first.natAbs - 1) '0' ++ digits
  else
    let whole := first.toNat + 1
    let front := digits.take whole ++ List.replicate (whole - digits.length) '0'
    front ++ '.' :: if digits.length ≤ whole then ['0'] else digits.drop whole

/-- The text of a number. -/
def toText : Binary64 → String
  | nan => "nan"
  | infinite negative => if negative then "-inf" else "inf"
  | finite negative mantissa exponent =>
    let sign := if negative then "-" else ""
    if mantissa = 0 then sign ++ "0.0"
    else
      let decimal := shortest mantissa exponent
      let digits := Nat.toDigits 10 decimal.1
      let first := decimal.2 + (digits.length : Int) - 1
      sign ++ String.ofList (layout (stripZeros digits) first)

/-- Whether the number is zero, of either sign. -/
def isZero : Binary64 → Bool
  | finite _ mantissa _ => mantissa == 0
  | _ => false

end Binary64

end RegionScope
