import Mathlib.Algebra.Order.Field.Rat
import Mathlib.Data.List.TakeWhile
import Mathlib.Tactic.FieldSimp
import ScriptAst.Proofs.Literals.Digits
import ScriptAst.Proofs.Literals.Rounding

/-! # Decimal literals

A decimal literal for a whole number is an integer as long as the rounded number is one of 64 bits,
so the range of integers ends at `2^63 - 512`, in the middle of the gap below `2^63`.  Up to `2^53`
nothing is rounded away.  How the number is spelled makes no difference: digits alone, with a
fraction, or with an exponent of either sign (`decimal_whole`).
-/
namespace ScriptAst.Literal

/-! ## Spelled numerals -/

/-- Decimal digits, at least one. -/
structure Digits where
  chars : List Char
  ne_nil : chars ≠ []
  all_isDigit : chars.all Char.isDigit

/-- The number that the digits denote. -/
def Digits.value (digits : Digits) : Nat := positional 10 digits.chars

/-- The sign of an exponent, which may be left out. -/
inductive ExponentSign where
  | absent
  | plus
  | minus

def ExponentSign.chars : ExponentSign → List Char
  | absent => []
  | plus => ['+']
  | minus => ['-']

/-- An exponent as it is written. -/
structure SpelledExponent where
  letter : Char
  isLetter : letter = 'e' ∨ letter = 'E'
  sign : ExponentSign
  size : Digits

namespace SpelledExponent

def chars (e : SpelledExponent) : List Char := e.letter :: (e.sign.chars ++ e.size.chars)

/-- The number that the exponent is. -/
def value (e : SpelledExponent) : Int :=
  match e.sign with
  | .minus => -(e.size.value : Int)
  | _ => e.size.value

end SpelledExponent

/-- A numeral as it is written: digits, and perhaps a fraction and an exponent. -/
structure Spelling where
  whole : Digits
  fraction : Option Digits
  exponent : Option SpelledExponent

namespace Spelling

/-- The digits behind the point. -/
def decimals (s : Spelling) : List Char := (s.fraction.map Digits.chars).getD []

/-- The power of ten that the exponent names. -/
def power (s : Spelling) : Int := (s.exponent.map SpelledExponent.value).getD 0

def exponentChars (s : Spelling) : List Char := (s.exponent.map SpelledExponent.chars).getD []

def fractionChars (s : Spelling) : List Char :=
  (s.fraction.map fun digits => '.' :: digits.chars).getD []

/-- The characters of the numeral. -/
def chars (s : Spelling) : List Char := s.whole.chars ++ (s.fractionChars ++ s.exponentChars)

/-- The number that the numeral denotes. -/
def value (s : Spelling) : ℚ :=
  (s.whole.value + positional 10 s.decimals / 10 ^ s.decimals.length) * 10 ^ s.power

end Spelling

/-! ## Reading a numeral -/

/-- The two readings of a digit agree. -/
theorem digitValue_of_isDigit {c : Char} (h : c.isDigit) : Decimal.digitValue c = digitValue c := by
  induction c using forall_char with
  | hascii n hn =>
    revert n
    decide +kernel
  | hrest c hc => exact absurd h (by rw [(not_alphabetic hc).1]; decide)

theorem ne_sign_of_isDigit {c : Char} (h : c.isDigit) : c ≠ '+' ∧ c ≠ '-' := by
  constructor
  · rintro rfl
    exact absurd h (by decide)
  · rintro rfl
    exact absurd h (by decide)

/-- The digits of an exponent are all taken in if what they denote is below the limit. -/
theorem exponentSize_eq {limit : Nat} {chars : List Char} (hdigit : ∀ c ∈ chars, c.isDigit)
    (h : positional 10 chars < limit) :
    Decimal.exponentSize limit chars = positional 10 chars := by
  induction chars using List.reverseRecOn with
  | nil => rfl
  | append_singleton chars c ih =>
    obtain ⟨hchars, hc⟩ := List.forall_mem_append.mp hdigit
    rw [positional_append_singleton] at h ⊢
    have hbefore : positional 10 chars < limit := by omega
    have hstep := ih hchars hbefore
    rw [Decimal.exponentSize] at hstep ⊢
    rw [List.foldl_append, hstep, List.foldl_cons, List.foldl_nil, if_pos hbefore,
      digitValue_of_isDigit (hc c (.head _))]

namespace Digits

variable (digits : Digits)

theorem isDigit : ∀ c ∈ digits.chars, c.isDigit := List.all_eq_true.mp digits.all_isDigit

theorem exists_cons : ∃ c cs, digits.chars = c :: cs ∧ c.isDigit := by
  obtain ⟨c, cs, hcs⟩ := List.exists_cons_of_ne_nil digits.ne_nil
  exact ⟨c, cs, hcs, digits.isDigit c (hcs ▸ .head _)⟩

/-- Digits are told from a rest that does not go on with them. -/
theorem span_append {rest : List Char} (h : ∀ c ∈ rest.head?, c.isDigit = false) :
    (digits.chars ++ rest).takeWhile Char.isDigit = digits.chars ∧
      (digits.chars ++ rest).dropWhile Char.isDigit = rest := by
  rw [List.takeWhile_append_of_pos digits.isDigit, List.dropWhile_append_of_pos digits.isDigit]
  cases rest with
  | nil => simp
  | cons c rest => simp [h c rfl]

theorem size?_eq {limit : Nat} (h : digits.value < limit) :
    Decimal.size? limit digits.chars = some digits.value := by
  rw [Decimal.size?, if_pos ⟨digits.ne_nil, digits.all_isDigit⟩,
    exponentSize_eq digits.isDigit h, value]

/-- Digits do not begin with a sign. -/
theorem signed?_eq {limit : Nat} (h : digits.value < limit) :
    Decimal.signed? limit digits.chars = some (digits.value : Int) := by
  have hsize := digits.size?_eq h
  obtain ⟨c, cs, hcs, hc⟩ := digits.exists_cons
  obtain ⟨hplus, hminus⟩ := ne_sign_of_isDigit hc
  rw [hcs] at hsize ⊢
  simp [Decimal.signed?, hplus, hminus, hsize]

end Digits

theorem SpelledExponent.signed?_eq (e : SpelledExponent) {limit : Nat}
    (h : e.value.natAbs < limit) :
    Decimal.signed? limit (e.sign.chars ++ e.size.chars) = some e.value := by
  obtain ⟨letter, hletter, sign, size⟩ := e
  cases sign with
  | absent => exact size.signed?_eq h
  | plus =>
    have hsize := size.size?_eq h
    simp [ExponentSign.chars, Decimal.signed?, hsize, value]
  | minus =>
    have hsize := size.size?_eq (by simpa [value] using h)
    simp [ExponentSign.chars, Decimal.signed?, hsize, value]

namespace Spelling

variable (s : Spelling)

theorem exponent?_eq {limit : Nat} (h : s.power.natAbs < limit) :
    Decimal.exponent? limit s.exponentChars = some s.power := by
  obtain ⟨whole, fraction, exponent⟩ := s
  cases exponent with
  | none => rfl
  | some e =>
    have hsigned := e.signed?_eq h
    rw [exponentChars, Option.map_some, Option.getD_some, SpelledExponent.chars,
      Decimal.exponent?, if_pos e.isLetter]
    exact hsigned

/-- An exponent goes on neither with a digit nor with a point. -/
theorem exponentChars_head (p : Char → Bool) (he : p 'e' = false) (hE : p 'E' = false) :
    ∀ c ∈ s.exponentChars.head?, p c = false := by
  obtain ⟨whole, fraction, exponent⟩ := s
  cases exponent with
  | none => exact nofun
  | some e =>
    rintro c ⟨⟩
    rcases e.isLetter with h | h
    · rwa [h]
    · rwa [h]

theorem fraction_eq : Decimal.fraction (s.fractionChars ++ s.exponentChars) =
    (s.decimals, s.exponentChars) := by
  have hdigit := s.exponentChars_head Char.isDigit rfl rfl
  have hpoint := s.exponentChars_head (· == '.') rfl rfl
  obtain ⟨whole, fraction, exponent⟩ := s
  cases fraction with
  | none =>
    have habsent {cs : List Char} (h : ∀ c ∈ cs.head?, (c == '.') = false) :
        Decimal.fraction cs = ([], cs) := by
      cases cs with
      | nil => rfl
      | cons c cs =>
        have hc : c ≠ '.' := ne_of_beq_false (h c rfl)
        simp [Decimal.fraction, hc]
    exact habsent hpoint
  | some digits =>
    obtain ⟨htake, hdrop⟩ := digits.span_append hdigit
    exact Prod.ext htake hdrop

theorem isDigit_decimals : ∀ c ∈ s.decimals, c.isDigit := by
  obtain ⟨whole, fraction, exponent⟩ := s
  cases fraction with
  | none => exact nofun
  | some digits => exact digits.isDigit

/-- What follows the digits of a numeral is no digit. -/
theorem fractionChars_head :
    ∀ c ∈ (s.fractionChars ++ s.exponentChars).head?, c.isDigit = false := by
  have hdigit := s.exponentChars_head Char.isDigit rfl rfl
  obtain ⟨whole, fraction, exponent⟩ := s
  cases fraction with
  | none => exact hdigit
  | some digits =>
    rintro c ⟨⟩
    rfl

/-- A spelled numeral is read as the digits it has, shifted by as many places as it says. -/
theorem decimalRead?_eq (h : s.power.natAbs < 65536) :
    Decimal.read? s.chars = some ⟨positional 10 (s.whole.chars ++ s.decimals),
      s.power - (s.decimals.length : Int)⟩ := by
  obtain ⟨htake, hdrop⟩ := s.whole.span_append s.fractionChars_head
  have hne : s.whole.chars ++ s.decimals ≠ [] := fun hempty =>
    s.whole.ne_nil (List.append_eq_nil_iff.mp hempty).1
  have hnatural : Decimal.natural (s.whole.chars ++ s.decimals) =
      positional 10 (s.whole.chars ++ s.decimals) := by
    refine foldl_eq_positional fun c hc n => ?_
    rcases List.mem_append.mp hc with hc | hc
    · rw [digitValue_of_isDigit (s.whole.isDigit c hc)]
    · rw [digitValue_of_isDigit (s.isDigit_decimals c hc)]
  rw [chars, Decimal.read?, htake, hdrop, s.fraction_eq]
  simp only [if_neg hne, s.exponent?_eq h, hnatural]
  rfl

theorem read?_eq (h : s.power.natAbs < 65536) :
    Binary64.read? s.chars = some (Decimal.toBinary64 false
      ⟨positional 10 (s.whole.chars ++ s.decimals), s.power - (s.decimals.length : Int)⟩) := by
  have hread := s.decimalRead?_eq h
  obtain ⟨c, cs, hcs, hc⟩ := s.whole.exists_cons
  rw [chars, hcs, List.cons_append] at hread ⊢
  obtain ⟨hplus, hminus⟩ := ne_sign_of_isDigit hc
  simp [Binary64.read?, hplus, hminus, Binary64.unsigned?, hread]

/-- The digits of a numeral that denotes a whole number are the number shifted by some places. -/
theorem digits_mul_eq {n : Nat} (h : s.value = n) :
    positional 10 (s.whole.chars ++ s.decimals) *
        10 ^ (s.power - (s.decimals.length : Int)).toNat =
      n * 10 ^ (-(s.power - (s.decimals.length : Int))).toNat := by
  generalize hplaces : s.power - (s.decimals.length : Int) = places
  have hpower : s.power =
      (places.toNat : Int) - ((-places).toNat : Int) + (s.decimals.length : Int) := by omega
  have hten : (10 : ℚ) ≠ 0 := by decide
  rw [value, Digits.value, hpower, zpow_add₀ hten, zpow_sub₀ hten, zpow_natCast, zpow_natCast,
    zpow_natCast] at h
  rw [positional_append, Nat.mul_comm n]
  field_simp at h
  exact_mod_cast h

/-- A numeral that denotes a whole number is read as that number over a common denominator. -/
theorem toBinary64_eq {n : Nat} (h : s.value = n) : ∃ k, Decimal.toBinary64 false
      ⟨positional 10 (s.whole.chars ++ s.decimals), s.power - (s.decimals.length : Int)⟩ =
    .ofRatio false (n * 10 ^ k) (10 ^ k) := by
  refine ⟨(-(s.power - (s.decimals.length : Int))).toNat, ?_⟩
  rw [← s.digits_mul_eq h]
  rfl

end Spelling

/-! ## Integers and floats -/

/-- What the literal of a whole number is: an integer as long as the rounded number is less than
`2^63`, and then that number, which up to `2^53` is the number itself. -/
structure ReadsWhole (text : String) (n : Nat) : Prop where
  int : n < 2 ^ 63 - 512 → ∃ r, (∀ s, IsRounded n s ↔ s = r) ∧ r < 2 ^ 63 ∧
    ∀ α : Type, (decimal text : Kind α) = .int (Int64.ofNat r)
  exact : n ≤ 2 ^ 53 → ∀ α : Type, (decimal text : Kind α) = .int (Int64.ofNat n)
  float : 2 ^ 63 - 512 ≤ n → ∃ value, ∀ α : Type, (decimal text : Kind α) = .float value

variable {α : Type}

theorem ofBinary64_int {value : Binary64} {r : Nat} (h : value.toInt? = some (r : Int))
    (hr : r < 2 ^ 63) : (ofBinary64 value : Kind α) = .int (Int64.ofNat r) := by
  have hfits : Int64.minValue.toInt ≤ (r : Int) ∧ (r : Int) ≤ Int64.maxValue.toInt := by
    have hmin : Int64.minValue.toInt = -2 ^ 63 := rfl
    have hmax : Int64.maxValue.toInt = 2 ^ 63 - 1 := rfl
    omega
  rw [ofBinary64, h]
  exact (if_pos hfits).trans (congrArg Kind.int Int64.ofInt_eq_ofNat)

theorem ofBinary64_float {value : Binary64} {r : Nat}
    (h : value.toInt? = some (r : Int) ∨ value = .infinity false) (hr : 2 ^ 63 ≤ r) :
    (ofBinary64 value : Kind α) = .float value := by
  rcases h with h | rfl
  · have hfits : ¬ (Int64.minValue.toInt ≤ (r : Int) ∧ (r : Int) ≤ Int64.maxValue.toInt) := by
      have hmax : Int64.maxValue.toInt = 2 ^ 63 - 1 := rfl
      omega
    rw [ofBinary64, h]
    exact if_neg hfits
  · rfl

/-- The literal of a whole number depends on the number only. -/
theorem Spelling.readsWhole (s : Spelling) (hpower : s.power.natAbs < 65536) {n : Nat}
    (h : s.value = n) : ReadsWhole (String.ofList s.chars) n := by
  obtain ⟨k, hk⟩ := s.toBinary64_eq h
  have hdecimal (α : Type) : (decimal (String.ofList s.chars) : Kind α) =
      ofBinary64 (.ofRatio false (n * 10 ^ k) (10 ^ k)) := by
    rw [decimal, String.toList_ofList, s.read?_eq hpower, hk]
  have hscale : 0 < 10 ^ k := Nat.pow_pos (by decide)
  obtain ⟨r, hrounded, hread⟩ := Binary64.exists_isRounded n hscale
  have hbound : r < 2 ^ 63 ↔ n < 2 ^ 63 - 512 := by
    have := hrounded.lt_iff 9
    omega
  have hint (hr : r < 2 ^ 63) (α : Type) :
      (decimal (String.ofList s.chars) : Kind α) = .int (Int64.ofNat r) := by
    rw [hdecimal]
    refine ofBinary64_int (hread.resolve_right fun hinfinite => ?_) hr
    exact absurd hr (Nat.not_lt.mpr hinfinite.1)
  refine ⟨fun hn => ⟨r, ?_, hbound.mpr hn, hint (hbound.mpr hn)⟩, fun hn => ?_, fun hn => ?_⟩
  · intro s
    constructor
    · exact fun hs => hs.unique hrounded
    · rintro rfl
      exact hrounded
  · have hexact : IsRounded n n := by
      have := isRepresentable_mul hn 0
      rw [Nat.pow_zero, Nat.mul_one] at this
      exact this.isRounded
    obtain rfl := hrounded.unique hexact
    exact hint (hbound.mpr (by omega))
  · refine ⟨_, fun α => (hdecimal α).trans (ofBinary64_float (hread.imp_right And.right) ?_)⟩
    have := hbound.not.mpr (by omega)
    omega

/-- **A decimal literal is an integer up to the exact middle of the last gap below `2^63`.** -/
theorem decimal_whole :
    (∀ digits : Digits, ReadsWhole (String.ofList digits.chars) digits.value) ∧
    ∀ s : Spelling, s.power.natAbs < 65536 → ∀ n : Nat, s.value = n →
      ReadsWhole (String.ofList s.chars) n := by
  refine ⟨fun digits => ?_, fun s hpower n h => s.readsWhole hpower h⟩
  let s : Spelling := ⟨digits, none, none⟩
  have hchars : s.chars = digits.chars := List.append_nil _
  have hvalue : s.value = digits.value := by
    simp [s, Spelling.value, Spelling.decimals, Spelling.power]
  have hpower : s.power.natAbs < 65536 := by
    simp [s, Spelling.power]
  rw [← hchars]
  exact s.readsWhole hpower hvalue

/-- The whole number before the middle of the gap, and the one in the middle. -/
def gapSample : Digits × Digits :=
  (⟨"9223372036854775295".toList, by decide, by decide⟩,
    ⟨"9223372036854775296".toList, by decide, by decide⟩)

/-- The numeral `0120.50e+1`. -/
def shiftedSample : Spelling where
  whole := ⟨['0', '1', '2', '0'], by decide, by decide⟩
  fraction := some ⟨['5', '0'], by decide, by decide⟩
  exponent := some ⟨'e', .inl rfl, .plus, ⟨['1'], by decide, by decide⟩⟩

theorem decimal_whole_gap :
    (gapSample.1.value < 2 ^ 63 - 512 ∧ ∃ r, (∀ s, IsRounded gapSample.1.value s ↔ s = r) ∧
      (decimal (String.ofList gapSample.1.chars) : Kind Node) = .int (Int64.ofNat r)) ∧
    (2 ^ 63 - 512 ≤ gapSample.2.value ∧ ∃ value,
      (decimal (String.ofList gapSample.2.chars) : Kind Node) = .float value) ∧
    shiftedSample.power.natAbs < 65536 ∧ shiftedSample.value = (1205 : Nat) ∧
      (decimal (String.ofList shiftedSample.chars) : Kind Node) = .int 1205 := by
  obtain ⟨hdigits, hspelling⟩ := decimal_whole
  have hbefore : gapSample.1.value < 2 ^ 63 - 512 := by decide
  have hmiddle : 2 ^ 63 - 512 ≤ gapSample.2.value := by decide
  have hpower : shiftedSample.power.natAbs < 65536 := by decide
  have hvalue : shiftedSample.value = (1205 : Nat) := by
    have hwhole : shiftedSample.whole.value = 120 := by decide
    have hdecimals : positional 10 shiftedSample.decimals = 50 := by decide
    have hplaces : shiftedSample.decimals.length = 2 := rfl
    have htens : shiftedSample.power = 1 := by decide
    rw [Spelling.value, hwhole, hdecimals, hplaces, htens]
    norm_num
  obtain ⟨r, hr, _, hint⟩ := (hdigits gapSample.1).int hbefore
  obtain ⟨value, hfloat⟩ := (hdigits gapSample.2).float hmiddle
  refine ⟨⟨hbefore, r, hr, hint Node⟩, ⟨hmiddle, value, hfloat Node⟩, hpower, hvalue, ?_⟩
  exact (hspelling _ hpower _ hvalue).exact (by decide) Node

end ScriptAst.Literal
