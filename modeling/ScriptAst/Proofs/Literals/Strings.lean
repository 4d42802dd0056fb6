import Mathlib.Data.List.TakeWhile
import ScriptAst.Proofs.Literals.Digits

/-! # Strings in pieces

The text between the quotes of a string literal is read piece by piece.  A piece is a character that
stands for itself, or a backslash and an escape.  Where a piece ends can depend on the character
behind it in two cases only: a digit behind `\0`, and the second half of a line ending.  In pieces
that keep `Apart` none of these occurs, and then each is decoded by itself (`Piece.decode_append`),
whatever its neighbours are.

A string in which backslashes and quotes have a backslash before them is made of such pieces, so it
is read back (`decode_guarded`).
-/
namespace ScriptAst.Literal

/-! ## Pieces -/

/-- The characters with a letter of their own, each behind its letter. -/
def controls : List (Char × Char) :=
  [('n', '\n'), ('r', '\r'), ('t', '\t'), ('b', '\x08'), ('f', '\x0c'), ('v', '\x0b')]

/-- The characters that do not stand for themselves behind a backslash. -/
def escapeMarks : List Char := controls.map Prod.fst ++ ['0', 'x', 'u', '\n', '\r']

/-- The ends of a line. -/
inductive LineEnd where
  | lf
  | crlf
  | cr

/-- The characters at the end of the line. -/
def LineEnd.chars : LineEnd → List Char
  | lf => ['\n']
  | crlf => ['\r', '\n']
  | cr => ['\r']

/-- Digits of base sixteen, as many as asked for. -/
structure HexDigits (width : Nat) where
  chars : List Char
  length_eq : chars.length = width
  all_isDigitOf : chars.all (fun c => IsDigitOf 16 c)

theorem HexDigits.isDigitOf {width : Nat} (digits : HexDigits width) :
    ∀ c ∈ digits.chars, IsDigitOf 16 c := by
  intro c hc
  exact of_decide_eq_true (List.all_eq_true.mp digits.all_isDigitOf c hc)

/-- The number that the digits denote. -/
def HexDigits.value {width : Nat} (digits : HexDigits width) : Nat := positional 16 digits.chars

/-- A piece of a string literal. -/
inductive Piece where
  /-- A character that stands for itself. -/
  | plain (c : Char) (h : c ≠ '\\')
  /-- A control character by its letter. -/
  | control (letter c : Char) (h : (letter, c) ∈ controls)
  /-- The character of code point zero. -/
  | null
  /-- A character by two digits. -/
  | byte (digits : HexDigits 2)
  /-- A character by four digits, which are no half of a surrogate pair. -/
  | unit (digits : HexDigits 4) (h : digits.value < 0xD800 ∨ 0xDFFF < digits.value)
  /-- A line that goes on behind its end. -/
  | continuation (ending : LineEnd)
  /-- A character that stands for itself in spite of the backslash. -/
  | escaped (c : Char) (h : c ∉ escapeMarks)

namespace Piece

/-- The characters of the piece. -/
def text : Piece → List Char
  | plain c _ => [c]
  | control letter _ _ => ['\\', letter]
  | null => ['\\', '0']
  | byte digits => '\\' :: 'x' :: digits.chars
  | unit digits _ => '\\' :: 'u' :: digits.chars
  | continuation ending => '\\' :: ending.chars
  | escaped c _ => ['\\', c]

/-- What the piece denotes. -/
def value : Piece → List Char
  | plain c _ | control _ c _ | escaped c _ => [c]
  | null => ['\x00']
  | byte digits | unit digits _ => [Char.ofNat digits.value]
  | continuation _ => []

/-- The piece is not longer than it seems, with the rest behind it: there is no digit behind `\0`,
and a line does not end with two characters instead of one. -/
def EndsBefore (rest : List Char) : Piece → Prop
  | null => ∀ c ∈ rest.head?, c.isDigit = false
  | continuation .cr => rest.head? ≠ some '\n'
  | _ => True

end Piece

/-- Each of the pieces ends where the next one begins. -/
def Apart : List Piece → Prop
  | [] => True
  | piece :: pieces => piece.EndsBefore (pieces.flatMap Piece.text) ∧ Apart pieces

/-! ## Decoding -/

/-- An escape that takes just the characters it is made of leaves the rest to be decoded. -/
theorem decode_escape {marked value rest : List Char}
    (h : escape (marked ++ rest) = (value, marked.length)) :
    decode ('\\' :: (marked ++ rest)) = value ++ decode rest := by
  rw [decode_backslash, h, List.drop_left]

/-- Digits are taken in as many as there should be, and no more.  If they denote no character they
stay behind the marker. -/
theorem HexDigits.codePoint_append_eq {width : Nat} (digits : HexDigits width) (marker : Char)
    (rest : List Char) :
    codePoint marker width (digits.chars ++ rest) =
      (if digits.value.isValidChar then [Char.ofNat digits.value] else marker :: digits.chars,
        1 + width) := by
  have hdigit {c : Char} (hc : c ∈ digits.chars) : digit? 16 c = some (digitValue c) :=
    (digits.isDigitOf c hc).digit?
  have htake : (digits.chars ++ rest).take width = digits.chars :=
    List.take_left' digits.length_eq
  have hall : digits.chars.takeWhile (fun c => (digit? 16 c).isSome) = digits.chars := by
    refine List.takeWhile_eq_self_iff.mpr fun c hc => ?_
    rw [hdigit hc]
    rfl
  have hvalue : hexValue digits.chars = digits.value := by
    refine foldl_eq_positional fun c hc n => ?_
    rw [hdigit hc]
    rfl
  simp only [codePoint, htake, hall, hvalue, digits.length_eq, true_and]
  split <;> rfl

theorem HexDigits.codePoint_append {width : Nat} (digits : HexDigits width)
    (h : digits.value.isValidChar) (marker : Char) (rest : List Char) :
    codePoint marker width (digits.chars ++ rest) =
      ([Char.ofNat digits.value], 1 + width) := by
  rw [digits.codePoint_append_eq, if_pos h]

theorem HexDigits.value_lt {width : Nat} (digits : HexDigits width) :
    digits.value < 16 ^ width := by
  have hlt : positional 16 digits.chars < 16 ^ digits.chars.length := positional_lt digits.isDigitOf
  rwa [digits.length_eq] at hlt

/-- What does not stand in the table of escapes is an escape of one character. -/
theorem escape_of_notMem {c : Char} (h : c ∉ escapeMarks) (rest : List Char) :
    escape (c :: rest) = ([c], 1) := by
  simp only [escapeMarks, controls, List.map_cons, List.map_nil, List.cons_append, List.nil_append,
    List.mem_cons, List.not_mem_nil, or_false, not_or] at h
  simp [escape, h]

theorem escape_of_mem_controls {letter c : Char} (h : (letter, c) ∈ controls) (rest : List Char) :
    escape (letter :: rest) = ([c], 1) := by
  simp only [controls, List.mem_cons, List.not_mem_nil, or_false, Prod.mk.injEq] at h
  rcases h with ⟨rfl, rfl⟩ | ⟨rfl, rfl⟩ | ⟨rfl, rfl⟩ | ⟨rfl, rfl⟩ | ⟨rfl, rfl⟩ | ⟨rfl, rfl⟩ <;> rfl

theorem escape_zero {rest : List Char} (h : Piece.null.EndsBefore rest) :
    escape ('0' :: rest) = (['\x00'], 1) := by
  cases rest with
  | nil => rfl
  | cons c rest =>
    have hc : c.isDigit = false := h c rfl
    simp [escape, hc]

theorem escape_lineEnd {ending : LineEnd} {rest : List Char}
    (h : (Piece.continuation ending).EndsBefore rest) :
    escape (ending.chars ++ rest) = ([], ending.chars.length) := by
  cases ending with
  | lf | crlf => rfl
  | cr =>
    cases rest with
    | nil => rfl
    | cons c rest =>
      have hc : c ≠ '\n' := fun heq => h (congrArg some heq)
      simp [escape, LineEnd.chars, hc]

/-- **A piece is decoded by itself**, if it ends where the rest begins. -/
theorem Piece.decode_append (piece : Piece) {rest : List Char} (h : piece.EndsBefore rest) :
    decode (piece.text ++ rest) = piece.value ++ decode rest := by
  cases piece with
  | plain c hc => exact decode_cons hc rest
  | control letter c hc => exact decode_escape (escape_of_mem_controls hc rest)
  | null => exact decode_escape (escape_zero h)
  | byte digits =>
    have hvalid : digits.value.isValidChar := .inl (Nat.lt_trans digits.value_lt (by decide))
    refine decode_escape ?_
    rw [List.length_cons, digits.length_eq, Nat.add_comm]
    exact digits.codePoint_append hvalid 'x' rest
  | unit digits hscalar =>
    have hlt : digits.value < 16 ^ 4 := digits.value_lt
    have hvalid : digits.value.isValidChar := hscalar.imp_right fun h => ⟨h, by omega⟩
    refine decode_escape ?_
    rw [List.length_cons, digits.length_eq, Nat.add_comm]
    exact digits.codePoint_append hvalid 'u' rest
  | continuation ending => exact decode_escape (escape_lineEnd h)
  | escaped c hc => exact decode_escape (escape_of_notMem hc rest)

/-- Pieces that keep apart are decoded one by one. -/
theorem decode_flatMap_text {pieces : List Piece} (h : Apart pieces) :
    decode (pieces.flatMap Piece.text) = pieces.flatMap Piece.value := by
  induction pieces with
  | nil => rfl
  | cons piece pieces ih =>
    obtain ⟨hends, hrest⟩ := h
    rw [List.flatMap_cons, piece.decode_append hends, ih hrest, List.flatMap_cons]

/-! ## Quotes -/

theorem unquoted_of_quotes {quote : Char} (hquote : quote = '"' ∨ quote = '\'')
    (chars : List Char) : unquoted (quote :: (chars ++ [quote])) = chars := by
  rw [unquoted, if_pos ⟨hquote, List.getLast?_concat⟩, List.dropLast_concat]

/-- A character with a backslash before it if it is a backslash or the quote. -/
def guarded (quote c : Char) : List Char := if c = '\\' ∨ c = quote then ['\\', c] else [c]

theorem decode_guarded {quote : Char} (hquote : quote = '"' ∨ quote = '\'') (c : Char)
    (rest : List Char) : decode (guarded quote c ++ rest) = c :: decode rest := by
  by_cases hc : c = '\\' ∨ c = quote
  · have hmark : c ∉ escapeMarks := by
      rcases hc with rfl | rfl
      · decide
      · rcases hquote with rfl | rfl <;> decide
    rw [guarded, if_pos hc]
    exact (Piece.escaped c hmark).decode_append trivial
  · rw [guarded, if_neg hc]
    exact decode_cons (fun heq => hc (.inl heq)) rest

theorem decode_flatMap_guarded {quote : Char} (hquote : quote = '"' ∨ quote = '\'')
    (chars : List Char) : decode (chars.flatMap (guarded quote)) = chars := by
  induction chars with
  | nil => rfl
  | cons c chars ih => rw [List.flatMap_cons, decode_guarded hquote, ih]

/-- **A string literal is decoded piece by piece.**  Between either quotes, pieces that keep apart
denote what each of them denotes, one after the other; in particular any string is read back if
backslashes and quotes in it have a backslash before them. -/
theorem string_pieces {quote : Char} (hquote : quote = '"' ∨ quote = '\'') :
    (∀ pieces, Apart pieces →
      string (String.ofList (quote :: (pieces.flatMap Piece.text ++ [quote]))) =
        String.ofList (pieces.flatMap Piece.value)) ∧
    ∀ s : String,
      string (String.ofList (quote :: (s.toList.flatMap (guarded quote) ++ [quote]))) = s := by
  have hstring (chars : List Char) :
      string (String.ofList (quote :: (chars ++ [quote]))) = String.ofList (decode chars) := by
    rw [string, String.toList_ofList, unquoted_of_quotes hquote]
  constructor
  · intro pieces h
    rw [hstring, decode_flatMap_text h]
  · intro s
    rw [hstring, decode_flatMap_guarded hquote, String.ofList_toList]

/-- Pieces that their neighbours could be taken for a part of: letters and digits behind escapes,
quotes, and the two halves of a line ending apart and together. -/
def neighbourSample : List Piece :=
  [.null, .plain 'x' (by decide), .plain '4' (by decide), .byte ⟨['4', '1'], rfl, by decide⟩,
    .plain '1' (by decide), .continuation .cr, .control 'n' '\n' (by decide), .continuation .crlf,
    .plain '\n' (by decide), .unit ⟨['2', '0', 'a', 'C'], rfl, by decide⟩ (by decide),
    .plain 'f' (by decide), .escaped '\\' (by decide), .plain '"' (by decide), .null]

theorem string_pieces_neighbours :
    Apart neighbourSample ∧
    neighbourSample.flatMap Piece.text =
      "\\0x4\\x411\\\x0d\\n\\\x0d\n\n\\u20aCf\\\\\"\\0".toList ∧
    string (String.ofList ('"' :: (neighbourSample.flatMap Piece.text ++ ['"']))) =
      "\x00x4A1\n\n€f\\\"\x00" ∧
    "it's".toList.flatMap (guarded '\'') = "it\\'s".toList ∧
    string (String.ofList ('\'' :: ("it's".toList.flatMap (guarded '\'') ++ ['\'']))) = "it's" := by
  have hapart : Apart neighbourSample := by
    simp [neighbourSample, Apart, Piece.EndsBefore, Piece.text]
  obtain ⟨hpieces, -⟩ := string_pieces (.inl rfl)
  obtain ⟨-, hguarded⟩ := string_pieces (.inr rfl)
  refine ⟨hapart, by decide, ?_, by decide, hguarded "it's"⟩
  rw [hpieces _ hapart]
  decide

end ScriptAst.Literal
