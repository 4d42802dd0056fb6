import Mathlib.Data.List.Basic
import Mathlib.Data.List.Induction
import Mathlib.Data.Nat.Digits.Defs
import ScriptAst.Literal

/-! # Digits of a base

The digits of a base are the first characters of one alphabet, letters in either case, and the value
of a digit is its place there (`digit?_eq`).  What a run of digits denotes is the sum of the values
times the powers of the base, `Nat.ofDigits`.  The literals take the digits in one by one from the
left, which comes to the same (`positional_append_singleton`).
-/
namespace ScriptAst.Literal

/-- The digits of all bases, each at the place of its value. -/
def alphabet : List Char :=
  ['0', '1', '2', '3', '4', '5', '6', '7', '8', '9', 'a', 'b', 'c', 'd', 'e', 'f', 'g', 'h', 'i',
    'j', 'k', 'l', 'm', 'n', 'o', 'p', 'q', 'r', 's', 't', 'u', 'v', 'w', 'x', 'y', 'z']

/-- The character is a digit of the base. -/
def IsDigitOf (radix : Nat) (c : Char) : Prop := c.toLower ∈ alphabet.take radix

instance (radix : Nat) : DecidablePred (IsDigitOf radix) :=
  fun c => inferInstanceAs (Decidable (c.toLower ∈ alphabet.take radix))

/-- The value of a digit. -/
def digitValue (c : Char) : Nat := alphabet.idxOf c.toLower

/-- What the digits denote, the last of them counting the units. -/
def positional (radix : Nat) (digits : List Char) : Nat :=
  Nat.ofDigits radix (digits.reverse.map digitValue)

variable {radix : Nat}

/-! ## Single digits -/

/-- What is true of the first 128 characters and of all behind them is true of every character. -/
theorem forall_char {p : Char → Prop} (hascii : ∀ n < 128, p (Char.ofNat n))
    (hrest : ∀ c : Char, 128 ≤ c.toNat → p c) (c : Char) : p c := by
  by_cases hc : c.toNat < 128
  · rw [← Char.ofNat_toNat c]
    exact hascii _ hc
  · exact hrest c (Nat.le_of_not_lt hc)

/-- No character behind the first 128 is a digit or a letter of the alphabet. -/
theorem not_alphabetic {c : Char} (h : 128 ≤ c.toNat) :
    c.isDigit = false ∧ c.isLower = false ∧ c.isUpper = false ∧ c.toLower ∉ alphabet := by
  have hbeyond {last : UInt32} (hlast : last.toNat < 128) : ¬ c.val ≤ last := by
    rw [UInt32.le_iff_toNat_le, Nat.not_le]
    exact Nat.lt_of_lt_of_le hlast h
  have h9 : ¬ c.val ≤ '9'.val := hbeyond (by decide)
  have hz : ¬ c.val ≤ 'z'.val := hbeyond (by decide)
  have hZ : ¬ c.val ≤ 'Z'.val := hbeyond (by decide)
  refine ⟨?_, ?_, ?_, ?_⟩
  · rw [Char.isDigit, decide_eq_false h9, Bool.and_false]
  · exact Bool.eq_false_iff.mpr fun hc => hz (of_decide_eq_true (Bool.and_eq_true_iff.mp hc).2)
  · exact decide_eq_false fun hc => hZ hc.2
  · have hlower : c.toLower = c := dif_neg fun hc => hZ hc.2
    have hascii : alphabet.all (fun d => d.toNat < 128) = true := by decide
    rw [hlower]
    intro hc
    have hlt : c.toNat < 128 := by simpa using List.all_eq_true.mp hascii c hc
    omega

/-- The value of the character as a digit of the largest base. -/
theorem digit?_eq_filter (radix : Nat) (c : Char) :
    digit? radix c =
      (if c.toLower ∈ alphabet then some (digitValue c) else none).filter (· < radix) := by
  unfold digit?
  refine congrArg (Option.filter _) ?_
  induction c using forall_char with
  | hascii n hn =>
    revert n
    decide +kernel
  | hrest c hc =>
    obtain ⟨hdigit, hlower, hupper, hmem⟩ := not_alphabetic hc
    simp [hdigit, hlower, hupper, hmem]

theorem isDigitOf_iff {c : Char} :
    IsDigitOf radix c ↔ c.toLower ∈ alphabet ∧ digitValue c < radix := by
  constructor
  · intro h
    have hmem := List.mem_of_mem_take h
    exact ⟨hmem, (List.mem_take_iff_idxOf_lt hmem).mp h⟩
  · intro ⟨hmem, hlt⟩
    exact (List.mem_take_iff_idxOf_lt hmem).mpr hlt

/-- The digits of a base are read as their places in the alphabet, and nothing else is read. -/
theorem digit?_eq (radix : Nat) (c : Char) :
    digit? radix c = if IsDigitOf radix c then some (digitValue c) else none := by
  rw [digit?_eq_filter]
  by_cases hmem : c.toLower ∈ alphabet
  · by_cases hlt : digitValue c < radix
    · rw [if_pos hmem, if_pos (isDigitOf_iff.mpr ⟨hmem, hlt⟩)]
      simp [hlt]
    · rw [if_pos hmem, if_neg fun h => hlt (isDigitOf_iff.mp h).2]
      simpa using hlt
  · rw [if_neg hmem, if_neg fun h => hmem (isDigitOf_iff.mp h).1]
    rfl

theorem IsDigitOf.digit? {c : Char} (h : IsDigitOf radix c) :
    digit? radix c = some (digitValue c) := by
  rw [digit?_eq, if_pos h]

/-! ## Runs of digits -/

@[simp] theorem positional_nil : positional radix [] = 0 := rfl

/-- One more digit shifts those before it by one place. -/
theorem positional_append_singleton (digits : List Char) (c : Char) :
    positional radix (digits ++ [c]) = radix * positional radix digits + digitValue c := by
  rw [positional, List.reverse_append, List.map_append, List.reverse_singleton, List.map_singleton,
    List.singleton_append, Nat.ofDigits_cons, Nat.add_comm]
  rfl

/-- Digits shift those before them by as many places as they are. -/
theorem positional_append (before behind : List Char) :
    positional radix (before ++ behind) =
      positional radix before * radix ^ behind.length + positional radix behind := by
  rw [positional, List.reverse_append, List.map_append, Nat.ofDigits_append, List.length_map,
    List.length_reverse, Nat.add_comm, Nat.mul_comm]
  rfl

/-- Digits that are taken in from the left one by one denote the sum over their places. -/
theorem foldl_eq_positional {step : Nat → Char → Nat} {digits : List Char}
    (h : ∀ c ∈ digits, ∀ n, step n c = radix * n + digitValue c) :
    digits.foldl step 0 = positional radix digits := by
  induction digits using List.reverseRecOn with
  | nil => rfl
  | append_singleton digits c ih =>
    obtain ⟨hdigits, hc⟩ := List.forall_mem_append.mp h
    rw [List.foldl_append, ih hdigits, List.foldl_cons, List.foldl_nil, hc c (.head _),
      positional_append_singleton]

/-- So many digits denote less than the power of the base. -/
theorem positional_lt {digits : List Char} (h : ∀ c ∈ digits, IsDigitOf radix c) :
    positional radix digits < radix ^ digits.length := by
  induction digits using List.reverseRecOn with
  | nil => simp
  | append_singleton digits c ih =>
    obtain ⟨hdigits, hc⟩ := List.forall_mem_append.mp h
    have hlt : digitValue c < radix := (isDigitOf_iff.mp (hc c (.head _))).2
    rw [positional_append_singleton, List.length_append, List.length_singleton, Nat.pow_succ]
    calc radix * positional radix digits + digitValue c
        < radix * positional radix digits + radix := Nat.add_lt_add_left hlt _
      _ = radix * (positional radix digits + 1) := (Nat.mul_succ ..).symm
      _ ≤ radix * radix ^ digits.length := Nat.mul_le_mul_left _ (ih hdigits)
      _ = radix ^ digits.length * radix := Nat.mul_comm ..

end ScriptAst.Literal
