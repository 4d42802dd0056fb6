import ScriptAst.Proofs.Printing.Atoms

/-! # Quotes

A quoted string may hold anything, spaces and brackets among it, but it shows its own end
(`quoted_append_inj`): no way to write a character is the beginning of another one, nor does one
begin with a quote.
-/
namespace ScriptAst

/-- The characters that are written with a letter, each with its letter. -/
def escapes : List (Char × Char) :=
  [('"', '"'), ('\\', '\\'), ('\x00', '0'), ('\n', 'n'), ('\r', 'r'), ('\t', 't')]

/-- The three ways to write a character: with a letter, with its code point, and as itself. -/
inductive QuotedAs (c : Char) : List Char → Prop
  | letter {x : Char} : (c, x) ∈ escapes → QuotedAs c ['\\', x]
  | code : QuotedAs c ('\\' :: 'u' :: '\x7b' :: (hexDigits c.toNat ++ ['\x7d']))
  | self : c ≠ '"' → c ≠ '\\' → QuotedAs c [c]

theorem quotedAs_quotedChar (c : Char) : QuotedAs c (quotedChar c) := by
  by_cases hquote : c = '"'
  · subst hquote
    exact .letter (by decide)
  by_cases hbackslash : c = '\\'
  · subst hbackslash
    exact .letter (by decide)
  rw [quotedChar, if_neg hquote, if_neg hbackslash]
  split
  · next h => exact h ▸ .letter (by decide)
  split
  · next h => exact h ▸ .letter (by decide)
  split
  · next h => exact h ▸ .letter (by decide)
  split
  · next h => exact h ▸ .letter (by decide)
  split
  · exact .code
  · exact .self hquote hbackslash

/-- What is no digit is not among the digits of a number. -/
theorem ne_of_mem_hexDigits {x : Char} (hx : ∀ d < 16, Nat.digitChar d ≠ x) {n : Nat} {c : Char}
    (hc : c ∈ hexDigits n) : c ≠ x := by
  obtain ⟨d, hd, rfl⟩ := mem_toDigits (by decide) hc
  exact hx d hd

theorem letter_injective {c c' x : Char} (h : (c, x) ∈ escapes) (h' : (c', x) ∈ escapes) :
    c = c' := by
  have hall : ∀ e ∈ escapes, ∀ e' ∈ escapes, e.2 = e'.2 → e.1 = e'.1 := by decide
  exact hall _ h _ h' rfl

theorem letter_ne_code {c x : Char} (h : (c, x) ∈ escapes) : x ≠ 'u' := by
  have hall : ∀ e ∈ escapes, e.2 ≠ 'u' := by decide
  exact hall _ h

/-- No way to write a character is the beginning of a way to write another. -/
theorem QuotedAs.append_inj {c c' : Char} {w w' rest rest' : List Char} (h : QuotedAs c w)
    (h' : QuotedAs c' w') (heq : w ++ rest = w' ++ rest') : c = c' ∧ rest = rest' := by
  cases h with
  | letter hx =>
    cases h' with
    | letter hx' =>
      obtain ⟨-, hx_eq, rfl⟩ := List.cons_eq_cons.mp heq |>.imp_right List.cons_eq_cons.mp
      exact ⟨letter_injective hx (hx_eq ▸ hx'), rfl⟩
    | code =>
      obtain ⟨-, hx_eq, -⟩ := List.cons_eq_cons.mp heq |>.imp_right List.cons_eq_cons.mp
      exact absurd hx_eq (letter_ne_code hx)
    | self _ hbackslash => exact absurd (List.cons_eq_cons.mp heq).1.symm hbackslash
  | code =>
    cases h' with
    | letter hx' =>
      obtain ⟨-, hx_eq, -⟩ := List.cons_eq_cons.mp heq |>.imp_right List.cons_eq_cons.mp
      exact absurd hx_eq.symm (letter_ne_code hx')
    | code =>
      simp only [List.cons_append, List.append_assoc, List.cons.injEq, true_and,
        List.nil_append] at heq
      have hbrace {n : Nat} : ∀ d ∈ hexDigits n, decide (d ≠ '\x7d') := fun d hd =>
        decide_eq_true (ne_of_mem_hexDigits (by decide) hd)
      obtain ⟨hcode, rfl⟩ := append_cons_inj hbrace hbrace rfl rfl heq
      have hvalue : c.toNat = c'.toNat := toDigits_injective (by decide) (by decide) hcode
      exact ⟨Char.toNat_inj.mp hvalue, rfl⟩
    | self _ hbackslash => exact absurd (List.cons_eq_cons.mp heq).1.symm hbackslash
  | self _ hbackslash =>
    cases h' with
    | letter => exact absurd (List.cons_eq_cons.mp heq).1 hbackslash
    | code => exact absurd (List.cons_eq_cons.mp heq).1 hbackslash
    | self => exact List.cons_eq_cons.mp heq

/-- Nothing in a string is written like the quote behind it. -/
theorem QuotedAs.ne_quote {c : Char} {w rest rest' : List Char} (h : QuotedAs c w) :
    w ++ rest ≠ '"' :: rest' := by
  intro heq
  cases h with
  | letter | code => exact absurd (List.cons_eq_cons.mp heq).1 (by decide)
  | self hquote => exact hquote (List.cons_eq_cons.mp heq).1

theorem flatMap_quotedChar_inj {cs cs' rest rest' : List Char}
    (h : cs.flatMap quotedChar ++ '"' :: rest = cs'.flatMap quotedChar ++ '"' :: rest') :
    cs = cs' ∧ rest = rest' := by
  induction cs generalizing cs' with
  | nil =>
    cases cs' with
    | nil => exact ⟨rfl, (List.cons_eq_cons.mp h).2⟩
    | cons c cs' =>
      rw [List.flatMap_cons, List.append_assoc] at h
      exact absurd h.symm (quotedAs_quotedChar c).ne_quote
  | cons c cs ih =>
    cases cs' with
    | nil =>
      rw [List.flatMap_cons, List.append_assoc] at h
      exact absurd h (quotedAs_quotedChar c).ne_quote
    | cons c' cs' =>
      rw [List.flatMap_cons, List.flatMap_cons, List.append_assoc, List.append_assoc] at h
      obtain ⟨rfl, htail⟩ := (quotedAs_quotedChar c).append_inj (quotedAs_quotedChar c') h
      obtain ⟨rfl, hrest⟩ := ih htail
      exact ⟨rfl, hrest⟩

/-- **A quoted string shows its own end**, whatever follows. -/
theorem quoted_append_inj {a a' : String} {rest rest' : List Char}
    (h : (quoted a).toList ++ rest = (quoted a').toList ++ rest') : a = a' ∧ rest = rest' := by
  have hchars (a : String) (rest : List Char) : (quoted a).toList ++ rest =
      '"' :: (a.toList.flatMap quotedChar ++ '"' :: rest) := by
    rw [quoted, String.toList_ofList, List.cons_append, List.append_assoc]
    rfl
  rw [hchars, hchars] at h
  obtain ⟨htext, hrest⟩ := flatMap_quotedChar_inj (List.cons_eq_cons.mp h).2
  exact ⟨String.toList_inj.mp htext, hrest⟩

theorem quoted_injective {a a' : String} (h : quoted a = quoted a') : a = a' := by
  have hchars : (quoted a).toList ++ [] = (quoted a').toList ++ [] := by rw [h]
  exact (quoted_append_inj hchars).1

end ScriptAst
