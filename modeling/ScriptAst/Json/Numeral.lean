import ScriptAst.Json.Basic
import ScriptAst.Number.Decimal

/-!
# JSON numerals

Which numerals JSON has, and which of them can be read: those that stay finite when the number is
formed, in double precision, as a significand below `2^64` times a power of ten.  The power is
counted in 32 bits.
-/
namespace ScriptAst

namespace Binary64

/-- The product of two numbers without sign, rounded once. -/
def scale : Binary64 → Binary64 → Binary64
  | .finite _ m q, .finite _ m' q' =>
    .ofRatio false (m * m' * Nat.pow 2 (q + q').toNat) (Nat.pow 2 (-(q + q')).toNat)
  | .finite .., b => b
  | a, _ => a

end Binary64

namespace Json

/-- A significand with the power of ten that belongs to it; once it is `full` no digit fits. -/
structure Magnitude where
  significand : Nat
  exponent : Int
  full : Bool

namespace Magnitude

/-- Whether one more digit would take the significand past 64 bits. -/
def overflows (m : Magnitude) (c : Char) : Bool :=
  m.full || UInt64.size ≤ 10 * m.significand + Decimal.digitValue c

/-- One more digit before the point. -/
def whole (m : Magnitude) (c : Char) : Magnitude :=
  if m.overflows c then ⟨m.significand, m.exponent + 1, true⟩
  else ⟨10 * m.significand + Decimal.digitValue c, m.exponent, false⟩

/-- One more digit behind the point. -/
def fractional (m : Magnitude) (c : Char) : Magnitude :=
  if m.overflows c then ⟨m.significand, m.exponent, true⟩
  else ⟨10 * m.significand + Decimal.digitValue c, m.exponent - 1, false⟩

/-- Exponents are added up below this size. -/
def exponentLimit : Nat := Nat.pow 2 31

/-- The magnitude with an exponent behind it.  An exponent that reaches the limit stands alone:
where the digits have their point makes no difference next to it. -/
def scaled (m : Magnitude) (exponent : Int) : Magnitude :=
  if exponent.natAbs < exponentLimit then ⟨m.significand, m.exponent + exponent, m.full⟩
  else ⟨m.significand, exponent, m.full⟩

/-- The magnitude of the digits before and behind the point and of an exponent. -/
def ofParts (before behind : List Char) (exponent : Int) : Magnitude :=
  let m := before.foldl whole ⟨0, 0, false⟩
  scaled (behind.foldl fractional ⟨m.significand, m.exponent, false⟩) exponent

/-- Whether the number stays finite. -/
def inRange (m : Magnitude) : Bool :=
  m.significand = 0 || m.exponent ≤ 0 ||
    (m.exponent ≤ 308 &&
      (Binary64.scale (.ofRatio false m.significand 1)
        (.ofRatio false (Nat.pow 10 m.exponent.toNat) 1)).isFinite)

end Magnitude

/-- Whether digits may stand before the point: at least one, and no zero before another. -/
def isWhole : List Char → Bool
  | [] => false
  | ['0'] => true
  | c :: _ => c ≠ '0'

/-- The digits behind the point and what follows them; a point has at least one digit behind it. -/
def fraction? : List Char → Option (List Char × List Char)
  | '.' :: cs =>
    if cs.takeWhile Char.isDigit = [] then none
    else some (cs.takeWhile Char.isDigit, cs.dropWhile Char.isDigit)
  | cs => some ([], cs)

/-- The magnitude that the whole text denotes as a numeral without sign. -/
def magnitude? (cs : List Char) : Option Magnitude := do
  let before := cs.takeWhile Char.isDigit
  guard (isWhole before)
  let (behind, rest) ← fraction? (cs.dropWhile Char.isDigit)
  let exponent ← Decimal.exponent? Magnitude.exponentLimit rest
  return .ofParts before behind exponent

/-- The value that the whole text denotes as a numeral. -/
def ofNumeral? (cs : List Char) : Option Json := do
  let m ← magnitude? (if cs.head? = some '-' then cs.drop 1 else cs)
  guard m.inRange
  return if cs.all Char.isDigit then .natural (Decimal.natural cs) else .numeral (String.ofList cs)

end Json
end ScriptAst
