import Mathlib.Data.List.Induction
import Mathlib.Data.List.TakeWhile
import Mathlib.Data.Option.Basic
import ScriptAst.Json.Reader

/-! # Numerals

What is read as a number has nothing but characters of numerals in it and begins with a digit or a
minus sign (`isNumeral_of_ofNumeral?`, `exists_cons_of_ofNumeral?`), so the reader takes in all of
it and nothing behind.

Natural numbers are written and read without needless zeros, so their digits are the same in both
directions (`natural_toDigits`, `toDigits_natural`).
-/
namespace ScriptAst
namespace Json

open Reader (isNumeral)

/-- What is read of a numeral.  Its magnitude has to be in range, and if it has nothing but digits
it is a natural number. -/
theorem ofNumeral?_eq_some_iff {cs : List Char} {value : Json} :
    ofNumeral? cs = some value ↔
      (∃ m, magnitude? (if cs.head? = some '-' then cs.drop 1 else cs) = some m ∧ m.inRange) ∧
      (if cs.all Char.isDigit then .natural (Decimal.natural cs)
        else .numeral (String.ofList cs)) = value := by
  constructor
  · intro h
    obtain ⟨m, hm, h⟩ := Option.bind_eq_some_iff.mp h
    obtain ⟨_, hrange, h⟩ := Option.bind_eq_some_iff.mp h
    exact ⟨⟨m, hm, (Option.guard_eq_some' _).mp hrange⟩, Option.some.inj h⟩
  · rintro ⟨⟨m, hm, hrange⟩, rfl⟩
    refine Option.bind_eq_some_iff.mpr ⟨m, hm, ?_⟩
    exact Option.bind_eq_some_iff.mpr ⟨(), (Option.guard_eq_some' _).mpr hrange, rfl⟩

/-! ## Natural numbers -/

theorem natural_toDigits (n : Nat) : Decimal.natural (Nat.toDigits 10 n) = n :=
  Nat.ofDigitChars_toDigits (by omega) (by omega)

theorem all_isDigit_toDigits (n : Nat) : ∀ c ∈ Nat.toDigits 10 n, c.isDigit = true :=
  fun _ hc => Nat.isDigit_of_mem_toDigits (by omega) (by omega) hc

/-- A number begins with a zero only if it is zero. -/
theorem head?_toDigits {n : Nat} (h : 0 < n) : (Nat.toDigits 10 n).head? ≠ some '0' := by
  induction n using Nat.strongRecOn with
  | ind n ih =>
    rw [Nat.toDigits_eq_if (by omega)]
    split
    · have hdigit : ∀ d < 10, 0 < d → Nat.digitChar d ≠ '0' := by decide
      simpa using hdigit n ‹_› h
    · have hrest := ih (n / 10) (by omega) (by omega)
      have hne : Nat.toDigits 10 (n / 10) ≠ [] := Nat.toDigits_ne_nil
      cases hdigits : Nat.toDigits 10 (n / 10) with
      | nil => exact absurd hdigits hne
      | cons c cs =>
        rw [hdigits] at hrest
        simpa using hrest

theorem isWhole_toDigits (n : Nat) : isWhole (Nat.toDigits 10 n) = true := by
  rcases Nat.eq_zero_or_pos n with rfl | hpos
  · rfl
  · have hhead := head?_toDigits hpos
    have hne : Nat.toDigits 10 n ≠ [] := Nat.toDigits_ne_nil
    cases hdigits : Nat.toDigits 10 n with
    | nil => exact absurd hdigits hne
    | cons c cs =>
      rw [hdigits] at hhead
      have hc : c ≠ '0' := fun h => hhead (by rw [h]; rfl)
      cases cs <;> simp [isWhole, hc]

/-- Further digits make no number smaller. -/
theorem le_foldl_digits (cs : List Char) (n : Nat) :
    n ≤ cs.foldl (fun n c => 10 * n + Decimal.digitValue c) n := by
  induction cs generalizing n with
  | nil => exact Nat.le_refl n
  | cons c cs ih =>
    have := ih (10 * n + Decimal.digitValue c)
    rw [List.foldl_cons]
    omega

/-- Digits that denote a number of 64 bits are all taken in. -/
theorem foldl_whole {cs : List Char} {known : Nat}
    (h : cs.foldl (fun n c => 10 * n + Decimal.digitValue c) known < UInt64.size) :
    cs.foldl Magnitude.whole ⟨known, 0, false⟩ =
      ⟨cs.foldl (fun n c => 10 * n + Decimal.digitValue c) known, 0, false⟩ := by
  induction cs generalizing known with
  | nil => rfl
  | cons c cs ih =>
    rw [List.foldl_cons] at h ⊢
    have hfits : 10 * known + Decimal.digitValue c < UInt64.size :=
      Nat.lt_of_le_of_lt (le_foldl_digits cs _) h
    have hstep : Magnitude.whole ⟨known, 0, false⟩ c =
        ⟨10 * known + Decimal.digitValue c, 0, false⟩ := by
      simp [Magnitude.whole, Magnitude.overflows, Nat.not_le_of_lt hfits]
    rw [hstep, ih h, List.foldl_cons]

theorem Magnitude.scaled_zero (m : Magnitude) : m.scaled 0 = m := by
  rw [scaled, if_pos (by decide), Int.add_zero]

theorem magnitude?_toDigits {n : Nat} (h : n < UInt64.size) :
    magnitude? (Nat.toDigits 10 n) = some ⟨n, 0, false⟩ := by
  have htake : (Nat.toDigits 10 n).takeWhile Char.isDigit = Nat.toDigits 10 n :=
    List.takeWhile_eq_self_iff.mpr (all_isDigit_toDigits n)
  have hdrop : (Nat.toDigits 10 n).dropWhile Char.isDigit = [] :=
    List.dropWhile_eq_nil_iff.mpr (all_isDigit_toDigits n)
  have hnatural : (Nat.toDigits 10 n).foldl (fun n c => 10 * n + Decimal.digitValue c) 0 = n :=
    natural_toDigits n
  have hwhole : (Nat.toDigits 10 n).foldl Magnitude.whole ⟨0, 0, false⟩ = ⟨n, 0, false⟩ := by
    rw [foldl_whole (hnatural.symm ▸ h), hnatural]
  unfold magnitude?
  dsimp only
  rw [htake, hdrop, (Option.guard_eq_some' ()).mpr (isWhole_toDigits n)]
  simp [fraction?, Decimal.exponent?, Magnitude.ofParts, Magnitude.scaled_zero, hwhole]

theorem ofNumeral?_toDigits {n : Nat} (h : n < UInt64.size) :
    ofNumeral? (Nat.toDigits 10 n) = some (.natural n) := by
  have hall := all_isDigit_toDigits n
  have hunsigned : (Nat.toDigits 10 n).head? ≠ some '-' := by
    intro hhead
    exact absurd (hall '-' (List.mem_of_mem_head? hhead)) (by decide)
  refine ofNumeral?_eq_some_iff.mpr ⟨⟨⟨n, 0, false⟩, ?_, ?_⟩, ?_⟩
  · rw [if_neg hunsigned]
    exact magnitude?_toDigits h
  · simp [Magnitude.inRange]
  · rw [if_pos (List.all_eq_true.mpr hall), natural_toDigits]

theorem digitChar_digitValue {c : Char} (h : c.isDigit = true) :
    Decimal.digitValue c < 10 ∧ Nat.digitChar (Decimal.digitValue c) = c := by
  have hbounds : 48 ≤ c.toNat ∧ c.toNat ≤ 57 := by
    simpa [Char.isDigit, UInt32.le_iff_toNat_le] using h
  have hvalue : Decimal.digitValue c = c.toNat - 48 := rfl
  have hlt : Decimal.digitValue c < 10 := by omega
  refine ⟨hlt, Char.toNat_inj.mp ?_⟩
  rw [Nat.toNat_digitChar_of_lt_ten hlt]
  omega

theorem natural_append_singleton (cs : List Char) (c : Char) :
    Decimal.natural (cs ++ [c]) = 10 * Decimal.natural cs + Decimal.digitValue c := by
  rw [Decimal.natural, List.foldl_append]
  rfl

theorem natural_cons_pos {c : Char} (hdigit : c.isDigit = true) (hzero : c ≠ '0')
    (cs : List Char) : 0 < Decimal.natural (c :: cs) := by
  obtain ⟨-, hchar⟩ := digitChar_digitValue hdigit
  have hpos : Decimal.digitValue c ≠ 0 := by
    intro h
    rw [h] at hchar
    exact hzero hchar.symm
  have hle := le_foldl_digits cs (10 * 0 + Decimal.digitValue c)
  exact Nat.lt_of_lt_of_le (by omega) hle

/-- Digits without a needless zero are the digits of the number that they denote. -/
theorem toDigits_natural {cs : List Char} (hwhole : isWhole cs = true)
    (hdigits : ∀ c ∈ cs, c.isDigit = true) : Nat.toDigits 10 (Decimal.natural cs) = cs := by
  induction cs using List.reverseRecOn with
  | nil => exact nomatch hwhole
  | append_singleton cs c ih =>
    obtain ⟨hcs, hc⟩ := List.forall_mem_append.mp hdigits
    obtain ⟨hlt, hchar⟩ := digitChar_digitValue (hc c (.head _))
    have hlast : Nat.toDigits 10 (Decimal.digitValue c) = [c] := by
      rw [Nat.toDigits_of_lt_base hlt, hchar]
    rw [natural_append_singleton]
    cases cs with
    | nil =>
      rw [Decimal.natural, List.foldl_nil, Nat.mul_zero, Nat.zero_add]
      exact hlast
    | cons d cs =>
      have hd : d ≠ '0' := by simpa [isWhole] using hwhole
      have hwhole : isWhole (d :: cs) = true := by
        cases cs <;> simp [isWhole, hd]
      have hpos := natural_cons_pos (hcs d (.head _)) hd cs
      rw [← Nat.toDigits_append_toDigits (by decide) hpos hlt, ih hwhole hcs, hlast]

/-! ## Characters of numerals -/

theorem isNumeral_of_isDigit {c : Char} (h : c.isDigit = true) : isNumeral c = true := by
  simp [isNumeral, h]

theorem isNumeral_of_size? {limit : Nat} {cs : List Char} {n : Nat}
    (h : Decimal.size? limit cs = some n) : ∀ c ∈ cs, isNumeral c = true := by
  intro c hc
  rw [Decimal.size?] at h
  split at h
  · next hall => exact isNumeral_of_isDigit (List.all_eq_true.mp hall.2 c hc)
  · exact nomatch h

theorem isNumeral_of_signed? {limit : Nat} {cs : List Char} {e : Int}
    (h : Decimal.signed? limit cs = some e) : ∀ c ∈ cs, isNumeral c = true := by
  unfold Decimal.signed? at h
  split at h <;>
    obtain ⟨_, hsize, -⟩ := Option.map_eq_some_iff.mp h <;>
    obtain ⟨n, hn, -⟩ := Option.bind_eq_some_iff.mp hsize
  · exact List.forall_mem_cons.mpr ⟨rfl, isNumeral_of_size? hn⟩
  · exact List.forall_mem_cons.mpr ⟨rfl, isNumeral_of_size? hn⟩
  · exact isNumeral_of_size? hn

theorem isNumeral_of_exponent? {limit : Nat} {cs : List Char} {e : Int}
    (h : Decimal.exponent? limit cs = some e) : ∀ c ∈ cs, isNumeral c = true := by
  cases cs with
  | nil => exact List.forall_mem_nil _
  | cons c cs =>
    rw [Decimal.exponent?] at h
    split at h
    · next hc =>
      refine List.forall_mem_cons.mpr ⟨?_, isNumeral_of_signed? h⟩
      rcases hc with rfl | rfl <;> rfl
    · exact nomatch h

theorem isNumeral_of_takeWhile {cs : List Char}
    (h : ∀ c ∈ cs.dropWhile Char.isDigit, isNumeral c = true) : ∀ c ∈ cs, isNumeral c = true := by
  intro c hc
  rw [← List.takeWhile_append_dropWhile (p := Char.isDigit) (l := cs)] at hc
  rcases List.mem_append.mp hc with hc | hc
  · exact isNumeral_of_isDigit (List.mem_takeWhile_imp hc)
  · exact h c hc

theorem isNumeral_of_fraction? {cs behind rest : List Char}
    (h : fraction? cs = some (behind, rest)) (hrest : ∀ c ∈ rest, isNumeral c = true) :
    ∀ c ∈ cs, isNumeral c = true := by
  unfold fraction? at h
  split at h
  · next cs =>
    split at h
    · exact nomatch h
    · obtain ⟨-, rfl⟩ := Prod.mk.inj (Option.some.inj h)
      exact List.forall_mem_cons.mpr ⟨rfl, isNumeral_of_takeWhile hrest⟩
  · obtain ⟨-, rfl⟩ := Prod.mk.inj (Option.some.inj h)
    exact hrest

/-- A numeral without sign is of characters of numerals and begins with digits. -/
theorem isNumeral_of_magnitude? {cs : List Char} {m : Magnitude} (h : magnitude? cs = some m) :
    isWhole (cs.takeWhile Char.isDigit) = true ∧ ∀ c ∈ cs, isNumeral c = true := by
  obtain ⟨_, hwhole, h⟩ := Option.bind_eq_some_iff.mp h
  obtain ⟨⟨behind, rest⟩, hfraction, h⟩ := Option.bind_eq_some_iff.mp h
  obtain ⟨exponent, hexponent, -⟩ := Option.bind_eq_some_iff.mp h
  refine ⟨(Option.guard_eq_some' _).mp hwhole, isNumeral_of_takeWhile ?_⟩
  exact isNumeral_of_fraction? hfraction (isNumeral_of_exponent? hexponent)

/-- A numeral begins with a digit or with a minus sign. -/
theorem exists_cons_of_ofNumeral? {cs : List Char} {value : Json}
    (h : ofNumeral? cs = some value) :
    ∃ c rest, cs = c :: rest ∧ (c = '-' ∨ c.isDigit = true) := by
  obtain ⟨⟨m, hm, -⟩, -⟩ := ofNumeral?_eq_some_iff.mp h
  obtain ⟨hwhole, -⟩ := isNumeral_of_magnitude? hm
  cases cs with
  | nil => exact nomatch hwhole
  | cons c cs =>
    refine ⟨c, cs, rfl, ?_⟩
    by_cases hc : c = '-'
    · exact .inl hc
    · rw [List.head?_cons, if_neg (fun heq => hc (Option.some.inj heq)), List.takeWhile_cons]
        at hwhole
      split at hwhole
      · next hdigit => exact .inr hdigit
      · exact nomatch hwhole

/-- A numeral is of characters of numerals only. -/
theorem isNumeral_of_ofNumeral? {cs : List Char} {value : Json} (h : ofNumeral? cs = some value) :
    ∀ c ∈ cs, isNumeral c = true := by
  obtain ⟨⟨m, hm, -⟩, -⟩ := ofNumeral?_eq_some_iff.mp h
  obtain ⟨-, hall⟩ := isNumeral_of_magnitude? hm
  obtain ⟨c, rest, rfl, -⟩ := exists_cons_of_ofNumeral? h
  by_cases hc : c = '-'
  · subst hc
    exact List.forall_mem_cons.mpr ⟨rfl, hall⟩
  · rwa [List.head?_cons, if_neg (fun heq => hc (Option.some.inj heq))] at hall

end Json
end ScriptAst
