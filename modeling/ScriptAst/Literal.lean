import ScriptAst.Node.Basic
import ScriptAst.Number.Decimal

/-!
# Literals

What the text of a literal token denotes.  `Literal.decimal` never fails and picks between an
integer and a float, `Literal.radix?` reads whole numbers of a given base modulo `2^64`, and
`Literal.string` strips the quotes of a string and decodes its escapes.
-/
namespace ScriptAst.Literal

/-! ### Decimal numbers -/

/-- The number that the longest beginning of the text denotes, or none. -/
def ofLongestStart (cs : List Char) : Binary64 :=
  ((List.range cs.length).reverse.findSome? (fun n => Binary64.read? (cs.take n))).getD .nan

/-- The node for a number: a whole one that fits 64 bits is an integer. -/
def ofBinary64 {α : Type} (value : Binary64) : Kind α :=
  match value.toInt? with
  | some n =>
    if Int64.minValue.toInt ≤ n ∧ n ≤ Int64.maxValue.toInt then .int (Int64.ofInt n)
    else .float value
  | none => .float value

/-- The node for the text of a decimal literal.  Text that is no numeral as a whole stands for the
float that its longest beginning denotes. -/
def decimal {α : Type} (text : String) : Kind α :=
  match Binary64.read? text.toList with
  | some value => ofBinary64 value
  | none => .float (ofLongestStart text.toList)

/-- A decimal number is an integer or a float. -/
theorem decimal_eq (text : String) :
    (∃ value, ∀ α : Type, (decimal text : Kind α) = .int value) ∨
      (∃ value, ∀ α : Type, (decimal text : Kind α) = .float value) := by
  unfold decimal ofBinary64
  split
  · split
    · split
      · exact .inl ⟨_, fun _ => rfl⟩
      · exact .inr ⟨_, fun _ => rfl⟩
    · exact .inr ⟨_, fun _ => rfl⟩
  · exact .inr ⟨_, fun _ => rfl⟩

/-! ### Integers in a base -/

/-- The value of a digit in the given base; letters count on from ten in either case. -/
def digit? (radix : Nat) (c : Char) : Option Nat :=
  let value? :=
    if c.isDigit then some (c.toNat - '0'.toNat)
    else if c.isLower then some (c.toNat - 'a'.toNat + 10)
    else if c.isUpper then some (c.toNat - 'A'.toNat + 10)
    else none
  value?.filter (· < radix)

/-- The text behind the mark of its base: `0x` for sixteen, `0o` for eight. -/
def unmarked (radix : Nat) : List Char → List Char
  | '0' :: c :: cs =>
    if (radix = 16 ∧ (c = 'x' ∨ c = 'X')) ∨ (radix = 8 ∧ (c = 'o' ∨ c = 'O')) then cs
    else '0' :: c :: cs
  | cs => cs

/-- One more digit behind those read, in 64-bit arithmetic. -/
def shiftIn (radix : Nat) (value : Int64) (c : Char) : Option Int64 :=
  (digit? radix c).map fun d => value * Int64.ofNat radix + Int64.ofNat d

/-- The value of an integer literal, which wraps around at 64 bits; none if there are no digits or
something else is among them. -/
def radix? (text : String) (radix : Nat) : Option Int64 :=
  let digits := unmarked radix text.toList
  if digits = [] then none else digits.foldlM (shiftIn radix) 0

/-! ### Strings -/

/-- The text between two equal quotes; other text as it is. -/
def unquoted : List Char → List Char
  | [] => []
  | quote :: cs =>
    if (quote = '"' ∨ quote = '\'') ∧ cs.getLast? = some quote then cs.dropLast else quote :: cs

/-- The number that hexadecimal digits denote. -/
def hexValue (cs : List Char) : Nat :=
  cs.foldl (fun n c => 16 * n + (digit? 16 c).getD 0) 0

/-- What an escape by code point denotes, and how many characters it takes from its marker on.  With
too few digits, or for a code point that is no character, the backslash is dropped. -/
def codePoint (marker : Char) (width : Nat) (cs : List Char) : List Char × Nat :=
  let digits := (cs.take width).takeWhile (fun c => (digit? 16 c).isSome)
  if digits.length = width ∧ (hexValue digits).isValidChar then
    ([Char.ofNat (hexValue digits)], 1 + width)
  else (marker :: digits, 1 + digits.length)

/-- What the escape behind a backslash denotes, and how many characters it takes. -/
def escape : List Char → List Char × Nat
  | [] => (['\\'], 0)
  | 'n' :: _ => (['\n'], 1)
  | 'r' :: _ => (['\r'], 1)
  | 't' :: _ => (['\t'], 1)
  | 'b' :: _ => (['\x08'], 1)
  | 'f' :: _ => (['\x0c'], 1)
  | 'v' :: _ => (['\x0b'], 1)
  | '0' :: cs => (if (cs.head?.map Char.isDigit).getD false then ['0'] else ['\x00'], 1)
  | 'x' :: cs => codePoint 'x' 2 cs
  | 'u' :: cs => codePoint 'u' 4 cs
  | '\n' :: _ => ([], 1)
  | '\r' :: '\n' :: _ => ([], 2)
  | '\r' :: _ => ([], 1)
  | c :: _ => ([c], 1)

/-- The text with its escapes decoded, after `skip` characters that belong to an escape already
decoded. -/
def decodeFrom : Nat → List Char → List Char
  | _, [] => []
  | skip + 1, _ :: cs => decodeFrom skip cs
  | 0, c :: cs =>
    if c = '\\' then (escape cs).1 ++ decodeFrom (escape cs).2 cs else c :: decodeFrom 0 cs

/-- The text with its escapes decoded. -/
def decode (cs : List Char) : List Char := decodeFrom 0 cs

/-- Skipping characters is the same as leaving them out. -/
theorem decodeFrom_eq (skip : Nat) (cs : List Char) :
    decodeFrom skip cs = decode (cs.drop skip) := by
  induction cs generalizing skip with
  | nil => cases skip <;> rfl
  | cons c cs ih =>
    cases skip with
    | zero => rfl
    | succ skip => rw [decodeFrom, ih, List.drop_succ_cons]

@[simp] theorem decode_nil : decode [] = [] := rfl

/-- Behind a backslash the escape is decoded, then what it leaves over. -/
theorem decode_backslash (cs : List Char) :
    decode ('\\' :: cs) = (escape cs).1 ++ decode (cs.drop (escape cs).2) := by
  rw [← decodeFrom_eq]
  rfl

/-- A character other than a backslash denotes itself. -/
theorem decode_cons {c : Char} (h : c ≠ '\\') (cs : List Char) :
    decode (c :: cs) = c :: decode cs := by
  simp [decode, decodeFrom, h]

/-- The value of a string literal. -/
def string (text : String) : String := String.ofList (decode (unquoted text.toList))

end ScriptAst.Literal
