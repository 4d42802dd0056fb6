import ScriptAst.Number.Binary64

/-!
# Decimal numerals

A `Decimal` is a natural number times a power of ten.  A numeral is digits with an optional fraction
and an optional exponent; `Decimal.read?` reads one and uses up its whole text.  `Binary64.read?`
also takes a sign and the words for the infinities and for the number that is none, and rounds once,
from the exact value of the numeral.
-/
namespace ScriptAst

/-- The number `digits · 10^exponent`. -/
structure Decimal where
  digits : Nat
  exponent : Int
  deriving DecidableEq

namespace Decimal

/-- The value of a digit. -/
def digitValue (c : Char) : Nat := c.toNat - '0'.toNat

/-- The number that a run of digits denotes. -/
def natural (cs : List Char) : Nat := cs.foldl (fun n c => 10 * n + digitValue c) 0

/-- The size of an exponent.  Digits are taken in as long as the value is below a limit, which is
not the same for all that numerals are read for. -/
def exponentSize (limit : Nat) (cs : List Char) : Nat :=
  cs.foldl (fun n c => if n < limit then 10 * n + digitValue c else n) 0

/-- Digits that are all of the text, at least one. -/
def size? (limit : Nat) (cs : List Char) : Option Nat :=
  if cs ≠ [] ∧ cs.all Char.isDigit then some (exponentSize limit cs) else none

/-- The exponent behind its letter: an optional sign and digits. -/
def signed? (limit : Nat) : List Char → Option Int
  | '-' :: cs => (size? limit cs).map (fun n => -(n : Int))
  | '+' :: cs => (size? limit cs).map (fun n => (n : Int))
  | cs => (size? limit cs).map (fun n => (n : Int))

/-- What follows the digits: nothing, or an exponent. -/
def exponent? (limit : Nat) : List Char → Option Int
  | [] => some 0
  | c :: cs => if c = 'e' ∨ c = 'E' then signed? limit cs else none

/-- The fraction, without its point, and what follows it. -/
def fraction : List Char → List Char × List Char
  | '.' :: cs => (cs.takeWhile Char.isDigit, cs.dropWhile Char.isDigit)
  | cs => ([], cs)

/-- The number that the whole text denotes as a numeral without sign.  The digits of its exponent
are taken in up to sixteen bits, which is past all that a rounded number can have. -/
def read? (cs : List Char) : Option Decimal :=
  let whole := cs.takeWhile Char.isDigit
  let (fractional, rest) := fraction (cs.dropWhile Char.isDigit)
  if whole ++ fractional = [] then none
  else
    (exponent? 65536 rest).map fun e =>
      ⟨natural (whole ++ fractional), e - (fractional.length : Int)⟩

/-- The double-precision number nearest to the decimal. -/
def toBinary64 (negative : Bool) (d : Decimal) : Binary64 :=
  .ofRatio negative (d.digits * Nat.pow 10 d.exponent.toNat) (Nat.pow 10 (-d.exponent).toNat)

end Decimal

namespace Binary64

/-- The words for the numbers that no numeral denotes, in any case. -/
def ofWord? (negative : Bool) (cs : List Char) : Option Binary64 :=
  let word := cs.map Char.toLower
  if word = "inf".toList ∨ word = "infinity".toList then some (.infinity negative)
  else if word = "nan".toList then some .nan
  else none

/-- The number written behind a sign. -/
def unsigned? (negative : Bool) (cs : List Char) : Option Binary64 :=
  match Decimal.read? cs with
  | some d => some (d.toBinary64 negative)
  | none => ofWord? negative cs

/-- The number that the whole text denotes. -/
def read? : List Char → Option Binary64
  | '-' :: cs => unsigned? true cs
  | '+' :: cs => unsigned? false cs
  | cs => unsigned? false cs

end Binary64
end ScriptAst
