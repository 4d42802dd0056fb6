import ScriptAst.Number.Decimal

/-!
# Shortest decimals

The decimal shown for a double-precision number has the fewest digits that still read back as the
number; of several such decimals it is the nearest, and of two equally near ones the larger.

The reals that round to `m · 2^q` form an interval around it, which reaches half way to the
neighbours on both sides and contains its ends iff `m` is even.  `Spacing` holds the number and the
ends of the interval over one denominator, so all tests are on natural numbers.
-/
namespace ScriptAst

namespace Decimal

/-- The number of decimal digits of `n`. -/
def digitCount (n : Nat) : Nat := (Nat.toDigits 10 n).length

/-- The exponent of the leading digit of the positive fraction `n / d`. -/
def leadingDigit (n d : Nat) : Int :=
  if d ≤ n then (digitCount (n / d) : Int) - 1 else -(digitCount ((d - 1) / n) : Int)

/-- A fraction `value / denominator` with the ends `low` and `high` of the interval around it, all
over the same denominator; `closed` says whether the ends belong to the interval. -/
structure Spacing where
  low : Nat
  value : Nat
  high : Nat
  denominator : Nat
  closed : Bool

/-- The interval of the reals that round to `m · 2^q`.  Below a power of two the numbers lie twice
as dense, unless they are subnormal. -/
def Spacing.ofBinary (m : Nat) (q : Int) : Spacing :=
  let unit := Nat.pow 2 q.toNat
  let gap := if m = Nat.pow 2 52 ∧ Binary64.minExponent < q then 1 else 2
  ⟨(4 * m - gap) * unit, 4 * m * unit, (4 * m + 2) * unit, 4 * Nat.pow 2 (-q).toNat, m % 2 = 0⟩

/-- Whether `a` comes before `b`, or is `b` where ends count. -/
def Spacing.within (s : Spacing) (a b : Nat) : Bool := if s.closed then a ≤ b else a < b

/-- The better of the two multiples of `10^e` next to the value, if one lies in the interval. -/
def onGrid? (s : Spacing) (e : Int) : Option Decimal :=
  let up := Nat.pow 10 (-e).toNat
  let step := s.denominator * Nat.pow 10 e.toNat
  let c := s.value * up / step
  let rest := s.value * up % step
  let below := s.within (s.low * up) (c * step)
  let above := s.within ((c + 1) * step) (s.high * up)
  if below && (!above || 2 * rest < step) then some ⟨c, e⟩
  else if above then some ⟨c + 1, e⟩
  else none

/-- The shortest decimal that reads back as `m · 2^q`, for a positive `m`.  Seventeen digits are
always enough. -/
def shortest (m : Nat) (q : Int) : Decimal :=
  let s := Spacing.ofBinary m q
  let leading := leadingDigit s.value s.denominator
  ((List.range 17).findSome? (fun (n : Nat) => onGrid? s (leading - (n : Int)))).getD
    ⟨s.value / s.denominator, 0⟩

/-! ### Layout

A number is written with a point if its leading digit stands between the fourth place after the
point and the sixteenth before it, and then has at least one digit after the point.  Other numbers
have an exponent, without sign if it is positive and without padding. -/

/-- The digits of the decimal without trailing zeros. -/
def significant (d : Decimal) : List Char :=
  ((Nat.toDigits 10 d.digits).reverse.dropWhile (· = '0')).reverse

/-- The exponent of the leading digit. -/
def leadingExponent (d : Decimal) : Int := d.exponent + (digitCount d.digits : Int) - 1

/-- Digits with a point behind the place of exponent 0. -/
def positional (digits : List Char) (leading : Int) : List Char :=
  if leading < 0 then
    '0' :: '.' :: (List.replicate ((-leading).toNat - 1) '0' ++ digits)
  else
    let places := leading.toNat + 1
    let whole := digits.take places ++ List.replicate (places - digits.length) '0'
    let fractional := digits.drop places
    whole ++ '.' :: (if fractional = [] then ['0'] else fractional)

/-- Digits with a point behind the first and an exponent. -/
def scientific (digits : List Char) (leading : Int) : List Char :=
  digits.take 1 ++ (if digits.length ≤ 1 then [] else '.' :: digits.drop 1) ++
    'e' :: (toString leading).toList

/-- The text of a positive decimal. -/
def text (d : Decimal) : List Char :=
  let leading := d.leadingExponent
  if -4 ≤ leading ∧ leading ≤ 15 then positional d.significant leading
  else scientific d.significant leading

end Decimal

/-- The text of a number. -/
def Binary64.text : Binary64 → String
  | .nan => "NaN"
  | .infinity negative => if negative then "-inf" else "inf"
  | .finite negative m q =>
    (if negative then "-" else "") ++
      (if m = 0 then "0.0" else String.ofList (Decimal.shortest m q).text)

end ScriptAst
