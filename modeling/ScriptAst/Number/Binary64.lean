/-!
# Binary64 numbers

A double-precision number is a NaN, an infinity, or a sign with a significand and a power of two.
`Binary64.ofRatio` rounds a fraction of natural numbers to the nearest number of 53 significant
bits, a tie going to the even significand, with gradual underflow and overflow to infinity.
-/
namespace ScriptAst

/-- A double-precision number; `finite negative m q` stands for `± m · 2^q`. -/
inductive Binary64 where
  | nan
  | infinity (negative : Bool)
  | finite (negative : Bool) (significand : Nat) (exponent : Int)
  deriving DecidableEq

/-- The natural number nearest to `n / d`; of two equally near the even one. -/
def roundDiv (n d : Nat) : Nat :=
  if 2 * (n % d) > d ∨ (2 * (n % d) = d ∧ n / d % 2 = 1) then n / d + 1 else n / d

namespace Binary64

/-- The least exponent of a finite number, which is also that of zero. -/
def minExponent : Int := -1074

/-- The greatest exponent of a finite number. -/
def maxExponent : Int := 971

/-- Zero with the given sign. -/
def zero (negative : Bool) : Binary64 := .finite negative 0 minExponent

/-- The exponent of the leading bit of the positive fraction `n / d`. -/
def leadingBit (n d : Nat) : Int :=
  let k : Int := (n.log2 : Int) - d.log2
  if d * Nat.pow 2 k.toNat ≤ n * Nat.pow 2 (-k).toNat then k else k - 1

/-- The nearest natural number to `n / d / 2^q`, ties to even. -/
def scaledRound (n d : Nat) (q : Int) : Nat :=
  roundDiv (n * Nat.pow 2 (-q).toNat) (d * Nat.pow 2 q.toNat)

/-- A significand of at most 53 bits, or the carry out of one, as a number. -/
def ofSignificand (negative : Bool) (m : Nat) (q : Int) : Binary64 :=
  if m = Nat.pow 2 53 then
    if q < maxExponent then .finite negative (Nat.pow 2 52) (q + 1) else .infinity negative
  else if q ≤ maxExponent then .finite negative m q else .infinity negative

/-- The number nearest to the fraction `n / d`, ties to the even significand. -/
def ofRatio (negative : Bool) (n d : Nat) : Binary64 :=
  if n = 0 then zero negative
  else
    let q := max minExponent (leadingBit n d - 52)
    ofSignificand negative (scaledRound n d q) q

/-- Whether the number is neither an infinity nor a NaN. -/
def isFinite : Binary64 → Bool
  | .finite .. => true
  | _ => false

/-- The integer that the number is, if it is one. -/
def toInt? : Binary64 → Option Int
  | .finite negative m q =>
    if m % Nat.pow 2 (-q).toNat = 0 then
      let magnitude : Nat := m * Nat.pow 2 q.toNat / Nat.pow 2 (-q).toNat
      some (if negative then -(magnitude : Int) else magnitude)
    else none
  | _ => none

end Binary64
end ScriptAst
