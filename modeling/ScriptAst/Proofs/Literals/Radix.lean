import Mathlib.Data.Int.ModEq
import ScriptAst.Proofs.Grammar.Acceptance
import ScriptAst.Proofs.Literals.Digits

/-! # Integers in a base

An integer literal is taken in digit by digit, in arithmetic that wraps around at 64 bits.  Wherever
that happens, and however often, the value stays congruent to what the digits read so far denote
(`foldlM_shiftIn_eq_some_iff`), and only one number of 64 bits is.
-/
namespace ScriptAst.Literal

variable {radix : Nat}

/-! ## Marks -/

/-- The digits are the text without its mark, if the text has one. -/
def Unmarks (radix : Nat) (text digits : List Char) : Prop :=
  (∃ c, IsMark radix c ∧ text = '0' :: c :: digits) ∨
    (digits = text ∧ ∀ c rest, IsMark radix c → text ≠ '0' :: c :: rest)

theorem unmarked_eq_iff {text digits : List Char} :
    unmarked radix text = digits ↔ Unmarks radix text digits := by
  constructor
  · rintro rfl
    unfold unmarked
    split
    · next c cs =>
      split
      · next hmark => exact .inl ⟨c, hmark, rfl⟩
      · next hmark =>
        refine .inr ⟨rfl, ?_⟩
        rintro c rest hc ⟨⟩
        exact hmark hc
    · next h => exact .inr ⟨rfl, fun c rest _ heq => h c rest heq⟩
  · rintro (⟨c, hmark, rfl⟩ | ⟨rfl, h⟩)
    · exact unmarked_mark hmark digits
    · unfold unmarked
      split
      · next c cs => exact if_neg fun hmark => h c cs hmark rfl
      · rfl

/-! ## Wrapping around -/

theorem bmod_size_modEq (n : Int) : n.bmod Int64.size ≡ n [ZMOD 2 ^ 64] := Int.bmod_emod

/-- The integers modulo `2^64` have one number of 64 bits each. -/
theorem eq_of_toInt_modEq {a b : Int64} (h : a.toInt ≡ b.toInt [ZMOD 2 ^ 64]) : a = b := by
  rw [← Int64.toInt_inj]
  have hdvd : (2 ^ 64 : Int) ∣ b.toInt - a.toInt := h.dvd
  have ha := a.toInt_lt
  have ha' := a.le_toInt
  have hb := b.toInt_lt
  have hb' := b.le_toInt
  omega

/-- Arithmetic of 64 bits is arithmetic modulo `2^64`. -/
theorem toInt_shift (radix : Nat) (value : Int64) (d : Nat) :
    (value * Int64.ofNat radix + Int64.ofNat d).toInt ≡ value.toInt * radix + d
      [ZMOD 2 ^ 64] := by
  have hofNat (n : Nat) : (Int64.ofNat n).toInt ≡ n [ZMOD 2 ^ 64] := by
    rw [Int64.toInt_ofNat']
    exact bmod_size_modEq n
  have hmul : (value * Int64.ofNat radix).toInt ≡ value.toInt * radix [ZMOD 2 ^ 64] := by
    rw [Int64.toInt_mul]
    exact (bmod_size_modEq _).trans ((hofNat radix).mul_left _)
  rw [Int64.toInt_add]
  exact (bmod_size_modEq _).trans (hmul.add (hofNat d))

/-- A digit is taken in modulo `2^64`. -/
theorem shiftIn_eq_some_iff {value next : Int64} {c : Char} :
    shiftIn radix value c = some next ↔ IsDigitOf radix c ∧
      next.toInt ≡ value.toInt * radix + digitValue c [ZMOD 2 ^ 64] := by
  have hshift := toInt_shift radix value (digitValue c)
  rw [shiftIn, digit?_eq]
  by_cases hc : IsDigitOf radix c
  · rw [if_pos hc, Option.map_some, Option.some_inj]
    constructor
    · rintro rfl
      exact ⟨hc, hshift⟩
    · exact fun h => eq_of_toInt_modEq (hshift.trans h.2.symm)
  · rw [if_neg hc, Option.map_none]
    exact iff_of_false (Option.some_ne_none next).symm fun h => hc h.1

/-- The digits are taken in modulo `2^64`, however often their value passes that. -/
theorem foldlM_shiftIn_eq_some_iff {digits : List Char} {value : Int64} :
    digits.foldlM (shiftIn radix) 0 = some value ↔
      (∀ c ∈ digits, IsDigitOf radix c) ∧
        value.toInt ≡ positional radix digits [ZMOD 2 ^ 64] := by
  induction digits using List.reverseRecOn generalizing value with
  | nil =>
    rw [List.foldlM_nil]
    constructor
    · rintro ⟨⟩
      exact ⟨nofun, rfl⟩
    · intro ⟨_, hvalue⟩
      exact congrArg some (eq_of_toInt_modEq hvalue.symm)
  | append_singleton digits c ih =>
    have hstep {before : Int64} (hbefore : before.toInt ≡ positional radix digits [ZMOD 2 ^ 64]) :
        before.toInt * radix + digitValue c ≡ positional radix (digits ++ [c]) [ZMOD 2 ^ 64] := by
      rw [positional_append_singleton, Nat.cast_add, Nat.cast_mul, mul_comm (radix : Int)]
      exact (hbefore.mul_right _).add_right _
    have hlast (before : Int64) : [c].foldlM (shiftIn radix) before = shiftIn radix before c :=
      Option.bind_fun_some _
    simp only [List.foldlM_append, Option.bind_eq_bind, Option.bind_eq_some_iff, hlast,
      List.forall_mem_append, List.forall_mem_singleton]
    constructor
    · rintro ⟨before, hbefore, hnext⟩
      obtain ⟨hdigits, hbefore⟩ := ih.mp hbefore
      obtain ⟨hc, hvalue⟩ := shiftIn_eq_some_iff.mp hnext
      exact ⟨⟨hdigits, hc⟩, hvalue.trans (hstep hbefore)⟩
    · rintro ⟨⟨hdigits, hc⟩, hvalue⟩
      let before : Int64 := Int64.ofInt (positional radix digits)
      have hbefore : before.toInt ≡ positional radix digits [ZMOD 2 ^ 64] := by
        rw [Int64.toInt_ofInt]
        exact bmod_size_modEq _
      exact ⟨before, ih.mpr ⟨hdigits, hbefore⟩,
        shiftIn_eq_some_iff.mpr ⟨hc, hvalue.trans (hstep hbefore).symm⟩⟩

/-- The one number of 64 bits that is congruent to `n`. -/
theorem toInt_modEq_iff {value : Int64} {n : Int} :
    value.toInt ≡ n [ZMOD 2 ^ 64] ↔
      ∀ m : Int, m = value.toInt ↔ (-2 ^ 63 ≤ m ∧ m < 2 ^ 63) ∧ m ≡ n [ZMOD 2 ^ 64] := by
  constructor
  · intro h m
    constructor
    · rintro rfl
      exact ⟨⟨value.le_toInt, value.toInt_lt⟩, h⟩
    · intro ⟨⟨hle, hlt⟩, hm⟩
      have hdvd : (2 ^ 64 : Int) ∣ m - value.toInt := (h.trans hm.symm).dvd
      have hle' := value.le_toInt
      have hlt' := value.toInt_lt
      omega
  · intro h
    exact ((h _).mp rfl).2

/-- The number of 64 bits that `n` is, if it is one. -/
def fit? (n : Int) : Option Int64 :=
  if -2 ^ 63 ≤ n ∧ n < 2 ^ 63 then some (Int64.ofInt n) else none

theorem toInt_of_fit? {n : Int} {value : Int64} (h : fit? n = some value) : value.toInt = n := by
  obtain ⟨⟨hle, hlt⟩, h⟩ := Option.ite_none_right_eq_some.mp h
  rw [← Option.some.inj h, Int64.toInt_ofInt]
  exact Int.bmod_eq_of_le hle hlt

/-- To check product and sum for overflow, and to wrap around only where one of them does not fit,
comes to the same as to wrap around always. -/
theorem shiftIn_eq_checked (radix : Nat) (value : Int64) (c : Char) :
    shiftIn radix value c = (digit? radix c).map fun (d : Nat) =>
      ((fit? (value.toInt * radix)).bind fun product => fit? (product.toInt + d)).getD
        (value * Int64.ofNat radix + Int64.ofNat d) := by
  rw [shiftIn]
  congr
  funext d
  cases hsum : (fit? (value.toInt * radix)).bind fun product => fit? (product.toInt + d) with
  | none => rfl
  | some sum =>
    obtain ⟨product, hproduct, hsum⟩ := Option.bind_eq_some_iff.mp hsum
    have hexact : sum.toInt = value.toInt * radix + d := by
      rw [toInt_of_fit? hsum, toInt_of_fit? hproduct]
    apply eq_of_toInt_modEq
    rw [Option.getD_some, hexact]
    exact toInt_shift radix value d

/-- **An integer literal is exact modulo `2^64`.**  Its text has a value just when there are digits
of the base and nothing else behind the mark, and then the value is the one number of 64 bits that
is congruent to what the digits denote. -/
theorem radix?_eq_some_iff (text : String) (radix : Nat) (value : Int64) :
    radix? text radix = some value ↔
      ∃ digits, Unmarks radix text.toList digits ∧ digits ≠ [] ∧
        (∀ c ∈ digits, IsDigitOf radix c) ∧
        ∀ n : Int, n = value.toInt ↔
          (-2 ^ 63 ≤ n ∧ n < 2 ^ 63) ∧ n ≡ positional radix digits [ZMOD 2 ^ 64] := by
  have hread (digits : List Char) (hne : digits ≠ []) :
      (if digits = [] then none else digits.foldlM (shiftIn radix) 0) = some value ↔
        (∀ c ∈ digits, IsDigitOf radix c) ∧ ∀ n : Int, n = value.toInt ↔
          (-2 ^ 63 ≤ n ∧ n < 2 ^ 63) ∧ n ≡ positional radix digits [ZMOD 2 ^ 64] := by
    rw [if_neg hne, foldlM_shiftIn_eq_some_iff, toInt_modEq_iff]
  constructor
  · intro h
    have hne : unmarked radix text.toList ≠ [] := by
      intro hempty
      rw [radix?, hempty] at h
      cases h
    exact ⟨_, unmarked_eq_iff.mp rfl, hne, (hread _ hne).mp h⟩
  · rintro ⟨digits, hmark, hne, h⟩
    obtain rfl := unmarked_eq_iff.mpr hmark
    exact (hread _ hne).mpr h

/-- A number of 68 bits, of which the last 64 count; its last digits are taken in behind an
accumulation that has become negative. -/
example : radix? "0xaFFFFFFFFFFFFFFfe" 16 = some (-2) := by decide

end ScriptAst.Literal
