import Mathlib.Data.Nat.Dist
import Mathlib.Tactic.Ring
import ScriptAst.Number.Binary64

/-! # Rounding to 53 bits

A whole number is representable if it has at most 53 significant bits.  The number that `v` is
rounded to is the nearest representable one, and the one with an even significand if two are equally
near (`IsRounded`).  There is exactly one such number (`IsRounded.unique`, `exists_isRounded`), and
it reaches a power of two just when `v` reaches the middle of the last gap below the power
(`IsRounded.lt_iff`).

The numbers from `2^52 * 2^q` on are multiples of `2^q`, so rounding is a division there
(`isRounded_roundDiv`), and a number of the other kind lies below all of them.
-/
namespace ScriptAst

/-! ## Rounded quotients -/

/-- A number is at most half a step from the multiple that it is rounded to, and if it is just that
far then from an even one. -/
theorem roundDiv_near (n : Nat) {d : Nat} (hd : 0 < d) :
    2 * Nat.dist n (roundDiv n d * d) ≤ d ∧
      (2 * Nat.dist n (roundDiv n d * d) = d → roundDiv n d % 2 = 0) := by
  have hn : n / d * d + n % d = n := Nat.div_add_mod' n d
  have hrest : n % d < d := Nat.mod_lt n hd
  unfold Nat.dist roundDiv
  split
  · have hnext : (n / d + 1) * d = n / d * d + d := Nat.succ_mul ..
    omega
  · omega

/-- Nothing is near to two multiples. -/
theorem le_dist_add_dist {k m : Nat} (hne : k ≠ m) (n u : Nat) :
    u ≤ Nat.dist n (m * u) + Nat.dist n (k * u) := by
  unfold Nat.dist
  rcases Nat.lt_or_gt_of_ne hne with hlt | hlt
  · have hstep : (k + 1) * u ≤ m * u := Nat.mul_le_mul_right u hlt
    rw [Nat.succ_mul] at hstep
    omega
  · have hstep : (m + 1) * u ≤ k * u := Nat.mul_le_mul_right u hlt
    rw [Nat.succ_mul] at hstep
    omega

theorem roundDiv_mul_mul_right (n d : Nat) {c : Nat} (hc : 0 < c) :
    roundDiv (n * c) (d * c) = roundDiv n d := by
  have hscale (a b : Nat) : 2 * (a * c) > b * c ↔ 2 * a > b := by
    rw [← Nat.mul_assoc]
    exact Nat.mul_lt_mul_right hc
  have hscale' (a b : Nat) : 2 * (a * c) = b * c ↔ 2 * a = b := by
    rw [← Nat.mul_assoc]
    exact Nat.mul_left_inj (Nat.pos_iff_ne_zero.mp hc)
  simp only [roundDiv, Nat.mul_mod_mul_right, Nat.mul_div_mul_right _ _ hc, hscale, hscale']

theorem roundDiv_mul_self (n : Nat) {d : Nat} (hd : 0 < d) : roundDiv (n * d) d = n := by
  have hstay : ¬ (2 * (n * d % d) > d ∨ 2 * (n * d % d) = d ∧ n * d / d % 2 = 1) := by
    rw [Nat.mul_mod_left]
    omega
  rw [roundDiv, if_neg hstay, Nat.mul_div_cancel _ hd]

/-! ## Representable numbers -/

/-- A number of at most 53 significant bits. -/
def IsRepresentable (n : Nat) : Prop := ∃ m q, m < 2 ^ 53 ∧ n = m * 2 ^ q

/-- A number of at least 53 significant bits of which all behind the 52nd are zero. -/
def HasEvenSignificand (n : Nat) : Prop :=
  ∃ m q, 2 ^ 52 ≤ m ∧ m < 2 ^ 53 ∧ m % 2 = 0 ∧ n = m * 2 ^ q

theorem isRepresentable_mul {m : Nat} (h : m ≤ 2 ^ 53) (q : Nat) :
    IsRepresentable (m * 2 ^ q) := by
  rcases Nat.lt_or_eq_of_le h with hlt | rfl
  · exact ⟨m, q, hlt, rfl⟩
  · exact ⟨1, 53 + q, by decide, by rw [Nat.one_mul, Nat.pow_add]⟩

/-- Significands of 53 bits stay below those of larger numbers. -/
theorem mul_two_pow_lt {m p q : Nat} (hm : m < 2 ^ 53) (h : p < q) :
    m * 2 ^ p < 2 ^ 52 * 2 ^ q :=
  calc m * 2 ^ p < 2 ^ 53 * 2 ^ p := Nat.mul_lt_mul_of_pos_right hm (Nat.two_pow_pos p)
    _ = 2 ^ 52 * 2 ^ (p + 1) := by ring
    _ ≤ 2 ^ 52 * 2 ^ q := Nat.mul_le_mul_left _ (Nat.pow_le_pow_right (by decide) h)

/-- A representable number is a multiple of the power, unless it is small. -/
theorem IsRepresentable.eq_mul_or_lt {n : Nat} (h : IsRepresentable n) (q : Nat) :
    (∃ k, n = k * 2 ^ q) ∨ n < 2 ^ 52 * 2 ^ q := by
  obtain ⟨m, p, hm, rfl⟩ := h
  rcases Nat.lt_or_ge p q with hlt | hle
  · exact .inr (mul_two_pow_lt hm hlt)
  · refine .inl ⟨m * 2 ^ (p - q), ?_⟩
    rw [Nat.mul_assoc, ← Nat.pow_add, Nat.sub_add_cancel hle]

/-- The significand of 53 bits can be told from the number. -/
theorem significand_unique {m k p q : Nat} (hm : 2 ^ 52 ≤ m) (hm' : m < 2 ^ 53) (hk : 2 ^ 52 ≤ k)
    (hk' : k < 2 ^ 53) (h : m * 2 ^ p = k * 2 ^ q) : m = k := by
  rcases Nat.lt_trichotomy p q with hlt | rfl | hlt
  · have hbelow : m * 2 ^ p < k * 2 ^ q :=
      Nat.lt_of_lt_of_le (mul_two_pow_lt hm' hlt) (Nat.mul_le_mul_right _ hk)
    exact absurd h (Nat.ne_of_lt hbelow)
  · exact Nat.eq_of_mul_eq_mul_right (Nat.two_pow_pos p) h
  · have hbelow : k * 2 ^ q < m * 2 ^ p :=
      Nat.lt_of_lt_of_le (mul_two_pow_lt hk' hlt) (Nat.mul_le_mul_right _ hm)
    exact absurd h (Nat.ne_of_gt hbelow)

theorem HasEvenSignificand.mod_two {m q : Nat} (h : HasEvenSignificand (m * 2 ^ q))
    (hm : 2 ^ 52 ≤ m) (hm' : m < 2 ^ 53) : m % 2 = 0 := by
  obtain ⟨k, p, hk, hk', heven, heq⟩ := h
  rwa [significand_unique hm hm' hk hk' heq]

/-! ## The nearest representable number -/

/-- What `v` is rounded to: the nearest representable number, and of two equally near ones the one
with an even significand. -/
structure IsRounded (v r : Nat) : Prop where
  representable : IsRepresentable r
  nearest : ∀ s, IsRepresentable s → Nat.dist v r ≤ Nat.dist v s
  even : ∀ s, IsRepresentable s → s ≠ r → Nat.dist v s = Nat.dist v r → HasEvenSignificand r

/-- A representable number is left as it is. -/
theorem IsRepresentable.isRounded {n : Nat} (h : IsRepresentable n) : IsRounded n n where
  representable := h
  nearest s _ := by
    rw [Nat.dist_self]
    exact Nat.zero_le _
  even s _ hne hdist := by
    rw [Nat.dist_self] at hdist
    exact absurd (Nat.eq_of_dist_eq_zero hdist).symm hne

/-- Two numbers that `v` is rounded to would have it in the middle between them, and their
significands would follow each other without both being even. -/
theorem IsRounded.not_lt {v r s : Nat} (hr : IsRounded v r) (hs : IsRounded v s) : ¬ r < s := by
  intro hlt
  have hdist : Nat.dist v r = Nat.dist v s :=
    Nat.le_antisymm (hr.nearest s hs.representable) (hs.nearest r hr.representable)
  obtain ⟨m, p, hm, hm', heven, rfl⟩ :=
    hr.even s hs.representable (Nat.ne_of_gt hlt) hdist.symm
  have heven' := hs.even _ hr.representable (Nat.ne_of_lt hlt) hdist
  have hnext : (m + 1) * 2 ^ p = m * 2 ^ p + 2 ^ p := Nat.succ_mul ..
  have hpos : 0 < 2 ^ p := Nat.two_pow_pos p
  have hfar := hr.nearest _ (isRepresentable_mul (m := m + 1) (by omega) p)
  have hle : s ≤ (m + 1) * 2 ^ p := by
    unfold Nat.dist at hdist hfar
    omega
  rcases hs.representable.eq_mul_or_lt p with ⟨k, rfl⟩ | hsmall
  · have hkm : m < k := Nat.lt_of_mul_lt_mul_right hlt
    have hk : k ≤ m + 1 := Nat.le_of_mul_le_mul_right hle hpos
    have hmod := heven'.mod_two (by omega) (by omega)
    omega
  · have hlow : 2 ^ 52 * 2 ^ p ≤ m * 2 ^ p := Nat.mul_le_mul_right _ hm
    omega

/-- **A number is rounded to one number only.** -/
theorem IsRounded.unique {v r s : Nat} (hr : IsRounded v r) (hs : IsRounded v s) : r = s :=
  Nat.le_antisymm (Nat.le_of_not_lt (hs.not_lt hr)) (Nat.le_of_not_lt (hr.not_lt hs))

/-- From `2^52 * 2^q` on, and up to twice as much, a number is rounded to the nearest multiple of
`2^q`. -/
theorem isRounded_roundDiv {v q : Nat} (hle : 2 ^ 52 * 2 ^ q ≤ v) (hlt : v < 2 ^ 53 * 2 ^ q) :
    (2 ^ 52 ≤ roundDiv v (2 ^ q) ∧ roundDiv v (2 ^ q) ≤ 2 ^ 53) ∧
      IsRounded v (roundDiv v (2 ^ q) * 2 ^ q) := by
  obtain ⟨hnear, htie⟩ := roundDiv_near v (Nat.two_pow_pos q)
  generalize roundDiv v (2 ^ q) = m at hnear htie ⊢
  have hpos : 0 < 2 ^ q := Nat.two_pow_pos q
  have hlow : 2 ^ 52 ≤ m := by
    by_contra h
    have hstep : (m + 1) * 2 ^ q ≤ 2 ^ 52 * 2 ^ q := Nat.mul_le_mul_right _ (by omega)
    rw [Nat.succ_mul] at hstep
    unfold Nat.dist at hnear
    omega
  have hhigh : m ≤ 2 ^ 53 := by
    by_contra h
    have hstep : (2 ^ 53 + 1) * 2 ^ q ≤ m * 2 ^ q := Nat.mul_le_mul_right _ (by omega)
    rw [Nat.succ_mul] at hstep
    unfold Nat.dist at hnear
    omega
  -- A representable number below the multiples is farther off than the first of them.
  have hsmall (s : Nat) (hs : s < 2 ^ 52 * 2 ^ q) : Nat.dist v (m * 2 ^ q) < Nat.dist v s := by
    have hfirst : Nat.dist v (m * 2 ^ q) ≤ Nat.dist v (2 ^ 52 * 2 ^ q) := by
      rcases Nat.eq_or_lt_of_le hlow with rfl | hne
      · exact Nat.le_refl _
      · have := le_dist_add_dist (Nat.ne_of_lt hne) v (2 ^ q)
        omega
    unfold Nat.dist at hfirst ⊢
    omega
  refine ⟨⟨hlow, hhigh⟩, isRepresentable_mul hhigh q, fun s hs => ?_, fun s hs hne hdist => ?_⟩
  · rcases hs.eq_mul_or_lt q with ⟨k, rfl⟩ | hlt
    · by_cases hk : k = m
      · rw [hk]
      · have := le_dist_add_dist hk v (2 ^ q)
        omega
    · exact Nat.le_of_lt (hsmall s hlt)
  · rcases hs.eq_mul_or_lt q with ⟨k, rfl⟩ | hlt
    · have hk : k ≠ m := fun h => hne (by rw [h])
      have := le_dist_add_dist hk v (2 ^ q)
      have heven : m % 2 = 0 := htie (by omega)
      rcases Nat.lt_or_eq_of_le hhigh with hm | rfl
      · exact ⟨m, q, hlow, hm, heven, rfl⟩
      · exact ⟨2 ^ 52, q + 1, Nat.le_refl _, by decide, by decide, by ring⟩
    · exact absurd hdist (Nat.ne_of_gt (hsmall s hlt))

/-- **Where the rounded numbers reach a power of two.**  The last gap below the power has the
length `2 * 2^q`, and its middle goes to the power, whose significand is even. -/
theorem IsRounded.lt_iff {v r : Nat} (h : IsRounded v r) (q : Nat) :
    r < 2 ^ 53 * 2 ^ (q + 1) ↔ v + 2 ^ q < 2 ^ 53 * 2 ^ (q + 1) := by
  have hpos : 0 < 2 ^ q := Nat.two_pow_pos q
  have hgap : 2 ^ (q + 1) = 2 * 2 ^ q := Nat.pow_succ' ..
  have hlast : (2 ^ 53 - 1) * 2 ^ (q + 1) + 2 ^ (q + 1) = 2 ^ 53 * 2 ^ (q + 1) := by
    rw [← Nat.succ_mul]
    rfl
  have htop := h.nearest _ (isRepresentable_mul (Nat.le_refl _) (q + 1))
  have hbelow := h.nearest _ (isRepresentable_mul (m := 2 ^ 53 - 1) (by decide) (q + 1))
  constructor
  · intro hr
    by_contra hv
    -- No representable number lies in the gap.
    have hle : r ≤ (2 ^ 53 - 1) * 2 ^ (q + 1) := by
      rcases h.representable.eq_mul_or_lt (q + 1) with ⟨k, rfl⟩ | hsmall
      · have hk : k < 2 ^ 53 := Nat.lt_of_mul_lt_mul_right hr
        exact Nat.mul_le_mul_right _ (by omega)
      · have hhalf : 2 ^ 52 * 2 ^ (q + 1) ≤ (2 ^ 53 - 1) * 2 ^ (q + 1) :=
          Nat.mul_le_mul_right _ (by decide)
        omega
    obtain rfl : r = (2 ^ 53 - 1) * 2 ^ (q + 1) := by
      unfold Nat.dist at htop
      omega
    have htie : Nat.dist v (2 ^ 53 * 2 ^ (q + 1)) = Nat.dist v ((2 ^ 53 - 1) * 2 ^ (q + 1)) := by
      unfold Nat.dist at htop ⊢
      omega
    have heven := h.even _ (isRepresentable_mul (Nat.le_refl _) (q + 1)) (Nat.ne_of_gt hr) htie
    exact absurd (heven.mod_two (by decide) (by decide)) (by decide)
  · intro hv
    by_contra hr
    unfold Nat.dist at hbelow
    omega

/-! ## Fractions that are whole -/

namespace Binary64

theorem toInt?_zero : (zero false).toInt? = some 0 := by
  simp only [zero, toInt?, Nat.zero_mod, Nat.zero_mul, Nat.zero_div, if_true]
  rfl

theorem toInt?_finite (m q : Nat) : (finite false m q).toInt? = some ((m * 2 ^ q : Nat) : Int) := by
  simp [toInt?, Nat.mod_one]

theorem toInt?_finite_neg (n t : Nat) :
    (finite false (n * 2 ^ t) (-t)).toInt? = some (n : Int) := by
  simp [toInt?]

theorem ofSignificand_of_lt {m : Nat} {q : Int} (hm : m < 2 ^ 53) (hq : q ≤ maxExponent) :
    ofSignificand false m q = finite false m q := by
  have hcarry : m ≠ Nat.pow 2 53 := Nat.ne_of_lt hm
  rw [ofSignificand, if_neg hcarry, if_pos hq]

/-- A significand with zeros behind it denotes its number, unless that is too large. -/
theorem toInt?_ofSignificand {m : Nat} (hlow : 2 ^ 52 ≤ m) (hhigh : m ≤ 2 ^ 53) (q : Nat) :
    (ofSignificand false m q).toInt? = some ((m * 2 ^ q : Nat) : Int) ∨
      (2 ^ 63 ≤ m * 2 ^ q ∧ ofSignificand false m q = .infinity false) := by
  have hlarge (hq : maxExponent ≤ q) : 2 ^ 63 ≤ m * 2 ^ q := by
    have hq' : 11 ≤ q := by
      unfold maxExponent at hq
      omega
    calc 2 ^ 63 = 2 ^ 52 * 2 ^ 11 := rfl
      _ ≤ m * 2 ^ q := Nat.mul_le_mul hlow (Nat.pow_le_pow_right (by decide) hq')
  rcases Nat.lt_or_eq_of_le hhigh with hm | rfl
  · by_cases hq : (q : Int) ≤ maxExponent
    · rw [ofSignificand_of_lt hm hq]
      exact .inl (toInt?_finite m q)
    · have hcarry : m ≠ Nat.pow 2 53 := Nat.ne_of_lt hm
      rw [ofSignificand, if_neg hcarry, if_neg hq]
      exact .inr ⟨hlarge (Int.le_of_lt (Int.not_le.mp hq)), rfl⟩
  · have hcarry : 2 ^ 53 = Nat.pow 2 53 := rfl
    rw [ofSignificand, if_pos hcarry]
    by_cases hq : (q : Int) < maxExponent
    · have hshift : 2 ^ 53 * 2 ^ q = 2 ^ 52 * 2 ^ (q + 1) := by ring
      rw [if_pos hq, hshift]
      exact .inl (toInt?_finite _ (q + 1))
    · rw [if_neg hq]
      exact .inr ⟨hlarge (Int.not_lt.mp hq), rfl⟩

/-- The leading bit of a fraction that is a whole number. -/
theorem leadingBit_mul {n d : Nat} (hn : 0 < n) (hd : 0 < d) : leadingBit (n * d) d = n.log2 := by
  have hn' : n ≠ 0 := Nat.ne_of_gt hn
  have hd' : d ≠ 0 := Nat.ne_of_gt hd
  have hlow : n.log2 + d.log2 ≤ (n * d).log2 := by
    rw [Nat.le_log2 (Nat.mul_ne_zero hn' hd'), Nat.pow_add]
    exact Nat.mul_le_mul (Nat.log2_self_le hn') (Nat.log2_self_le hd')
  have hhigh : (n * d).log2 < n.log2 + 1 + (d.log2 + 1) := by
    rw [Nat.log2_lt (Nat.mul_ne_zero hn' hd'), Nat.pow_add]
    exact Nat.mul_lt_mul'' Nat.lt_log2_self Nat.lt_log2_self
  have hreached : d * 2 ^ n.log2 ≤ n * d := by
    rw [Nat.mul_comm n]
    exact Nat.mul_le_mul_left d (Nat.log2_self_le hn')
  have hnext : ¬ d * 2 ^ (n.log2 + 1) ≤ n * d := by
    rw [Nat.mul_comm n, Nat.not_le]
    exact Nat.mul_lt_mul_of_pos_left Nat.lt_log2_self hd
  rcases Nat.lt_or_ge (n.log2 + d.log2) (n * d).log2 with hlt | hge
  · have hk : ((n * d).log2 : Int) - d.log2 = (n.log2 + 1 : Nat) := by omega
    simp only [leadingBit, hk, Int.toNat_natCast, Int.toNat_neg_natCast, Nat.pow_eq, Nat.pow_zero,
      Nat.mul_one]
    rw [if_neg hnext]
    omega
  · have hk : ((n * d).log2 : Int) - d.log2 = n.log2 := by omega
    simp only [leadingBit, hk, Int.toNat_natCast, Int.toNat_neg_natCast, Nat.pow_eq, Nat.pow_zero,
      Nat.mul_one]
    rw [if_pos hreached]

/-- A whole number is rounded where its leading bit has 52 bits behind it. -/
theorem ofRatio_mul {n d : Nat} (hn : 0 < n) (hd : 0 < d) :
    ofRatio false (n * d) d =
      ofSignificand false (scaledRound (n * d) d (n.log2 - 52)) (n.log2 - 52) := by
  have hq : max minExponent ((n.log2 : Int) - 52) = n.log2 - 52 := by
    unfold minExponent
    omega
  rw [ofRatio, if_neg (Nat.ne_of_gt (Nat.mul_pos hn hd)), leadingBit_mul hn hd, hq]

/-- Below the unit there is nothing to round. -/
theorem scaledRound_mul_neg (n t : Nat) {d : Nat} (hd : 0 < d) :
    scaledRound (n * d) d (-t) = n * 2 ^ t := by
  rw [scaledRound, neg_neg, Int.toNat_natCast, Int.toNat_neg_natCast, Nat.pow_eq, Nat.pow_eq,
    Nat.pow_zero, Nat.mul_one, Nat.mul_right_comm, roundDiv_mul_self _ hd]

/-- The denominator of a whole number does not matter. -/
theorem scaledRound_mul (n q : Nat) {d : Nat} (hd : 0 < d) :
    scaledRound (n * d) d q = roundDiv n (2 ^ q) := by
  rw [scaledRound, Int.toNat_natCast, Int.toNat_neg_natCast, Nat.pow_eq, Nat.pow_eq, Nat.pow_zero,
    Nat.mul_one, Nat.mul_comm d, roundDiv_mul_mul_right n (2 ^ q) hd]

/-- **A fraction that is a whole number is rounded to 53 bits**, or to infinity. -/
theorem exists_isRounded (n : Nat) {d : Nat} (hd : 0 < d) :
    ∃ r, IsRounded n r ∧ ((ofRatio false (n * d) d).toInt? = some (r : Int) ∨
      (2 ^ 63 ≤ r ∧ ofRatio false (n * d) d = .infinity false)) := by
  rcases Nat.eq_zero_or_pos n with rfl | hn
  · refine ⟨0, IsRepresentable.isRounded ⟨0, 0, by decide, rfl⟩, .inl ?_⟩
    rw [ofRatio, if_pos (Nat.zero_mul d)]
    exact toInt?_zero
  have hn' : n ≠ 0 := Nat.ne_of_gt hn
  rw [ofRatio_mul hn hd]
  rcases Nat.lt_or_ge n.log2 52 with hlt | hge
  · -- All bits of the number fit the significand, with zeros behind them.
    obtain ⟨t, ht⟩ := Nat.exists_eq_add_of_lt hlt
    have hexp : (n.log2 : Int) - 52 = -(t + 1 : Nat) := by omega
    have hsmall : n * 2 ^ (t + 1) < 2 ^ 53 := by
      calc n * 2 ^ (t + 1) < 2 ^ (n.log2 + 1) * 2 ^ (t + 1) :=
            Nat.mul_lt_mul_of_pos_right Nat.lt_log2_self (Nat.two_pow_pos _)
        _ = 2 ^ 53 := by rw [← Nat.pow_add, show n.log2 + 1 + (t + 1) = 53 by omega]
    have hshort : n < 2 ^ 53 :=
      Nat.lt_of_le_of_lt (Nat.le_mul_of_pos_right n (Nat.two_pow_pos _)) hsmall
    refine ⟨n, IsRepresentable.isRounded ⟨n, 0, hshort, (Nat.mul_one n).symm⟩, .inl ?_⟩
    have hfits : -((t + 1 : Nat) : Int) ≤ maxExponent := by
      unfold maxExponent
      omega
    rw [hexp, scaledRound_mul_neg n (t + 1) hd, ofSignificand_of_lt hsmall hfits]
    exact toInt?_finite_neg n (t + 1)
  · obtain ⟨q, hq⟩ := Nat.exists_eq_add_of_le hge
    have hexp : (n.log2 : Int) - 52 = q := by omega
    have hle : 2 ^ 52 * 2 ^ q ≤ n := by
      rw [← Nat.pow_add, ← hq]
      exact Nat.log2_self_le hn'
    have hlt : n < 2 ^ 53 * 2 ^ q := by
      rw [← Nat.pow_add, show 53 + q = n.log2 + 1 by omega]
      exact Nat.lt_log2_self
    obtain ⟨⟨hlow, hhigh⟩, hrounded⟩ := isRounded_roundDiv hle hlt
    refine ⟨_, hrounded, ?_⟩
    rw [hexp, scaledRound_mul n q hd]
    exact toInt?_ofSignificand hlow hhigh q

end Binary64

end ScriptAst
