import ScriptAst.Proofs.Literals.Strings

/-! # Strings in code units

The four digits of an escape name a code unit of sixteen bits.  A character of the basic plane is
one unit, any other character is a pair of them (`codeUnits`).  Each escape is decoded by itself,
and the halves of a pair denote no character, so what is left of them is their text without the
backslash (`decode_unitEscapes`).  A string that is written in escapes is therefore read back just
if all of it lies in the basic plane (`string_codeUnits`).
-/
namespace ScriptAst.Literal

/-- The code units of a character. -/
def codeUnits (c : Char) : List Nat :=
  if c.toNat < 0x10000 then [c.toNat]
  else [0xD800 + (c.toNat - 0x10000) / 0x400, 0xDC00 + (c.toNat - 0x10000) % 0x400]

/-- The escape for a code unit. -/
def unitEscape (digits : HexDigits 4) : List Char := '\\' :: 'u' :: digits.chars

/-- What the escape for a code unit is read as. -/
def unitText (digits : HexDigits 4) : List Char :=
  if digits.value.isValidChar then [Char.ofNat digits.value] else 'u' :: digits.chars

theorem codeUnits_of_lt {c : Char} (h : c.toNat < 0x10000) : codeUnits c = [c.toNat] := if_pos h

/-- Outside the basic plane a character begins with a unit that is none. -/
theorem codeUnits_of_not_lt {c : Char} (h : ¬ c.toNat < 0x10000) :
    ∃ high low, codeUnits c = [high, low] ∧ ¬ high.isValidChar := by
  refine ⟨_, _, if_neg h, ?_⟩
  have hlt : c.toNat < 0x110000 := by
    rcases c.valid with hlow | ⟨-, hhigh⟩
    · exact Nat.lt_trans hlow (by decide)
    · exact hhigh
  have hhalf : (c.toNat - 0x10000) / 0x400 < 0x400 := by omega
  rintro (hlow | ⟨hhigh, -⟩) <;> omega

/-- **An escape is decoded by itself**, also next to the other half of a pair. -/
theorem decode_unitEscape (digits : HexDigits 4) (rest : List Char) :
    decode (unitEscape digits ++ rest) = unitText digits ++ decode rest := by
  refine decode_escape ?_
  rw [List.length_cons, digits.length_eq, Nat.add_comm]
  exact digits.codePoint_append_eq 'u' rest

theorem decode_unitEscapes (units : List (HexDigits 4)) :
    decode (units.flatMap unitEscape) = units.flatMap unitText := by
  induction units with
  | nil => rfl
  | cons digits units ih =>
    rw [List.flatMap_cons, decode_unitEscape, ih, List.flatMap_cons]

theorem unitText_of_value_eq {digits : HexDigits 4} {c : Char} (h : digits.value = c.toNat) :
    unitText digits = [c] := by
  have hvalid : c.toNat.isValidChar := c.valid
  rw [unitText, h, if_pos hvalid, Char.ofNat_toNat]

/-- The units of characters denote the characters just if none of them is half of a pair. -/
theorem flatMap_unitText_eq_iff {units : List (HexDigits 4)} {chars : List Char}
    (h : units.map HexDigits.value = chars.flatMap codeUnits) :
    units.flatMap unitText = chars ↔ ∀ c ∈ chars, c.toNat < 0x10000 := by
  induction chars generalizing units with
  | nil =>
    obtain rfl : units = [] := List.map_eq_nil_iff.mp h
    simp
  | cons c chars ih =>
    rw [List.flatMap_cons] at h
    by_cases hc : c.toNat < 0x10000
    · rw [codeUnits_of_lt hc] at h
      obtain ⟨digits, units, rfl, hvalue, hunits⟩ := List.map_eq_cons_iff.mp h
      rw [List.flatMap_cons, unitText_of_value_eq hvalue, List.singleton_append,
        List.cons_inj_right, ih hunits, List.forall_mem_cons]
      exact (and_iff_right hc).symm
    · obtain ⟨high, low, hpair, hhigh⟩ := codeUnits_of_not_lt hc
      rw [hpair] at h
      obtain ⟨digits, units, rfl, rfl, -⟩ := List.map_eq_cons_iff.mp h
      -- What is left of the first half begins with the marker, which lies in the basic plane.
      refine iff_of_false (fun heq => ?_) fun hall => hc (hall c (.head _))
      rw [List.flatMap_cons, unitText, if_neg hhigh] at heq
      obtain ⟨rfl, -⟩ := List.cons_eq_cons.mp heq
      exact hc (by decide)

/-- **Strings in escapes for their code units.**  Every escape is decoded by itself: it denotes a
character, or its text stays without the backslash if the unit is half of a pair.  So the string is
read back just if all its characters lie in the basic plane. -/
theorem string_codeUnits {quote : Char} (hquote : quote = '"' ∨ quote = '\'') {s : String}
    {units : List (HexDigits 4)} (h : units.map HexDigits.value = s.toList.flatMap codeUnits) :
    string (String.ofList (quote :: (units.flatMap unitEscape ++ [quote]))) =
      String.ofList (units.flatMap unitText) ∧
    (string (String.ofList (quote :: (units.flatMap unitEscape ++ [quote]))) = s ↔
      ∀ c ∈ s.toList, c.toNat < 0x10000) := by
  have hstring : string (String.ofList (quote :: (units.flatMap unitEscape ++ [quote]))) =
      String.ofList (units.flatMap unitText) := by
    rw [string, String.toList_ofList, unquoted_of_quotes hquote, decode_unitEscapes]
  refine ⟨hstring, ?_⟩
  rw [hstring, ← flatMap_unitText_eq_iff h, ← String.toList_inj, String.toList_ofList]

/-- The units of `k€` in digits of either case. -/
def basicSample : List (HexDigits 4) :=
  [⟨['0', '0', '6', 'b'], rfl, by decide⟩, ⟨['2', '0', 'A', 'c'], rfl, by decide⟩]

theorem string_codeUnits_basic :
    basicSample.flatMap unitEscape = "\\u006b\\u20Ac".toList ∧
    string (String.ofList ('"' :: (basicSample.flatMap unitEscape ++ ['"']))) = "k€" := by
  have hunits : basicSample.map HexDigits.value = "k€".toList.flatMap codeUnits := by decide
  obtain ⟨htext, -⟩ := string_codeUnits (.inl rfl) hunits
  refine ⟨by decide, ?_⟩
  rw [htext]
  decide

/-- The pair of units for a face. -/
def pairSample : List (HexDigits 4) :=
  [⟨['d', '8', '3', 'd'], rfl, by decide⟩, ⟨['d', 'e', '0', '0'], rfl, by decide⟩]

/-- The two halves of a pair are not put together. -/
theorem string_pair_apart :
    pairSample.map HexDigits.value = "😀".toList.flatMap codeUnits ∧
    String.ofList ('"' :: (pairSample.flatMap unitEscape ++ ['"'])) = "\"\\ud83d\\ude00\"" ∧
    string "\"\\ud83d\\ude00\"" = "ud83dude00" ∧
    string "\"\\ud83d\\ude00\"" ≠ "😀" := by
  decide

end ScriptAst.Literal
