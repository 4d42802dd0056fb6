import ScriptAst.Node.Printer

/-! # Atoms

An atom of a printed tree is read up to the next space or bracket, so it has to be `Plain`: not
empty, and without these.  The atoms that the printer makes up itself are plain, numbers and
headings among them; of the names in a tree it has to be asked.
-/
namespace ScriptAst

/-! ## Where a text stops -/

section Stops

variable {p : Char → Bool} {rest rest' : List Char}

/-- The text does not go on with a character of the given sort. -/
def Stops (p : Char → Bool) (rest : List Char) : Prop := ∀ c ∈ rest.head?, p c = false

theorem stops_cons {c : Char} (h : p c = false) (rest : List Char) : Stops p (c :: rest) := by
  intro d hd
  cases hd
  exact h

/-- Characters of one sort are told from what follows if that does not go on with the sort. -/
theorem append_inj_of_stops {a a' : List Char} (ha : ∀ c ∈ a, p c) (ha' : ∀ c ∈ a', p c)
    (h : Stops p rest) (h' : Stops p rest') (heq : a ++ rest = a' ++ rest') :
    a = a' ∧ rest = rest' := by
  have differs {c : Char} {a rest rest' : List Char} (hc : p c) (h : Stops p rest) :
      rest ≠ c :: a ++ rest' := by
    rintro rfl
    exact Bool.noConfusion (hc.symm.trans (h c rfl))
  induction a generalizing a' with
  | nil =>
    cases a' with
    | nil => exact ⟨rfl, heq⟩
    | cons c a' => exact absurd heq (differs (ha' c (.head _)) h)
  | cons c a ih =>
    cases a' with
    | nil => exact absurd heq.symm (differs (ha c (.head _)) h')
    | cons c' a' =>
      obtain ⟨rfl, htail⟩ := List.cons_eq_cons.mp heq
      obtain ⟨rfl, hrest⟩ :=
        ih (fun d hd => ha d (.tail _ hd)) (fun d hd => ha' d (.tail _ hd)) htail
      exact ⟨rfl, hrest⟩

/-- The same for texts with the characters that stop them. -/
theorem append_cons_inj {c c' : Char} {a a' : List Char} (ha : ∀ d ∈ a, p d) (ha' : ∀ d ∈ a', p d)
    (hc : p c = false) (hc' : p c' = false) (heq : a ++ c :: rest = a' ++ c' :: rest') :
    a = a' ∧ rest = rest' := by
  obtain ⟨ha, hrest⟩ :=
    append_inj_of_stops ha ha' (stops_cons hc rest) (stops_cons hc' rest') heq
  exact ⟨ha, (List.cons_eq_cons.mp hrest).2⟩

end Stops

/-! ## Plain atoms -/

/-- Whether the character may stand in an atom without quotes. -/
def isPlainChar (c : Char) : Bool := c ≠ ' ' && c ≠ '(' && c ≠ ')'

/-- The text is not empty and free of spaces and brackets. -/
def Plain (text : String) : Prop := text ≠ "" ∧ ∀ c ∈ text.toList, isPlainChar c

instance : DecidablePred Plain := fun text =>
  decidable_of_iff (text ≠ "" ∧ text.toList.all isPlainChar) (by rw [Plain, List.all_eq_true])

theorem plain_ofList {chars : List Char} (hne : chars ≠ []) (h : ∀ c ∈ chars, isPlainChar c) :
    Plain (String.ofList chars) := by
  refine ⟨fun hempty => hne ?_, ?_⟩
  · rw [← String.toList_ofList (l := chars), hempty]
    rfl
  · rwa [String.toList_ofList]

theorem Plain.append {a b : String} (h : Plain a) (hb : ∀ c ∈ b.toList, isPlainChar c) :
    Plain (a ++ b) := by
  refine ⟨fun hempty => h.1 (String.append_eq_empty_iff.mp hempty).1, fun c hc => ?_⟩
  rw [String.toList_append] at hc
  rcases List.mem_append.mp hc with hc | hc
  · exact h.2 c hc
  · exact hb c hc

/-- Plain text is told from what follows if that does not go on with it. -/
theorem Plain.append_inj {a a' : String} {rest rest' : List Char} (h : Plain a) (h' : Plain a')
    (hrest : Stops isPlainChar rest) (hrest' : Stops isPlainChar rest')
    (heq : a.toList ++ rest = a'.toList ++ rest') : a = a' ∧ rest = rest' := by
  obtain ⟨htext, hrest⟩ := append_inj_of_stops h.2 h'.2 hrest hrest' heq
  exact ⟨String.toList_inj.mp htext, hrest⟩

/-- Plain text does not begin with a bracket. -/
theorem Plain.ne_bracket {a : String} {rest rest' : List Char} (h : Plain a) :
    a.toList ++ rest ≠ '(' :: rest' := by
  intro heq
  cases hchars : a.toList with
  | nil => exact h.1 (String.toList_inj.mp hchars)
  | cons c cs =>
    rw [hchars] at heq
    obtain ⟨rfl, -⟩ := List.cons_eq_cons.mp heq
    have hplain : isPlainChar '(' := h.2 _ (hchars ▸ .head _)
    exact absurd hplain (by decide)

/-- Characters of a sort without spaces and brackets are plain. -/
theorem isPlainChar_of {p : Char → Bool} (hspace : p ' ' = false) (hopen : p '(' = false)
    (hclose : p ')' = false) {c : Char} (h : p c) : isPlainChar c := by
  have differs {d : Char} (hd : p d = false) : c ≠ d := by
    rintro rfl
    exact Bool.noConfusion (h.symm.trans hd)
  simp [isPlainChar, differs hspace, differs hopen, differs hclose]

theorem isPlainChar_of_isDigit {c : Char} (h : c.isDigit) : isPlainChar c :=
  isPlainChar_of rfl rfl rfl h

theorem isPlainChar_of_isAlpha {c : Char} (h : c.isAlpha) : isPlainChar c :=
  isPlainChar_of rfl rfl rfl h

/-! ### Numbers -/

theorem digitChar_injective {d d' : Nat} (hd : d < 16) (hd' : d' < 16)
    (h : Nat.digitChar d = Nat.digitChar d') : d = d' := by
  have hall : ∀ d < 16, ∀ d' < 16, Nat.digitChar d = Nat.digitChar d' → d = d' := by decide
  exact hall d hd d' hd' h

theorem mem_toDigits {b n : Nat} {c : Char} (hb : 1 < b) (h : c ∈ Nat.toDigits b n) :
    ∃ d < b, c = Nat.digitChar d := by
  induction n using Nat.strongRecOn with
  | ind n ih =>
    rw [Nat.toDigits_eq_if hb] at h
    by_cases hn : n < b
    · rw [if_pos hn] at h
      exact ⟨n, hn, List.mem_singleton.mp h⟩
    · rw [if_neg hn] at h
      rcases List.mem_append.mp h with h | h
      · exact ih (n / b) (Nat.div_lt_self (by omega) hb) h
      · exact ⟨n % b, Nat.mod_lt n (by omega), List.mem_singleton.mp h⟩

/-- A number can be told from its digits, in any base that has letters for them. -/
theorem toDigits_injective {b m n : Nat} (hb : 1 < b) (hb' : b ≤ 16)
    (h : Nat.toDigits b m = Nat.toDigits b n) : m = n := by
  have single {x y : Char} {k : Nat} : [x] ≠ Nat.toDigits b k ++ [y] := by
    intro heq
    have heq : [] ++ [x] = Nat.toDigits b k ++ [y] := heq
    exact Nat.toDigits_ne_nil (List.append_inj' heq rfl).1.symm
  induction m using Nat.strongRecOn generalizing n with
  | ind m ih =>
    rw [Nat.toDigits_eq_if hb, Nat.toDigits_eq_if (n := n) hb] at h
    by_cases hm : m < b
    · by_cases hn : n < b
      · rw [if_pos hm, if_pos hn] at h
        exact digitChar_injective (by omega) (by omega) (List.singleton_inj.mp h)
      · rw [if_pos hm, if_neg hn] at h
        exact absurd h single
    · by_cases hn : n < b
      · rw [if_neg hm, if_pos hn] at h
        exact absurd h.symm single
      · rw [if_neg hm, if_neg hn] at h
        obtain ⟨hmore, hlast⟩ := List.append_inj' h rfl
        have hdiv : m / b = n / b := ih (m / b) (Nat.div_lt_self (by omega) hb) hmore
        have hmod : m % b = n % b := by
          have hm16 : m % b < 16 := Nat.lt_of_lt_of_le (Nat.mod_lt m (by omega)) hb'
          have hn16 : n % b < 16 := Nat.lt_of_lt_of_le (Nat.mod_lt n (by omega)) hb'
          exact digitChar_injective hm16 hn16 (List.singleton_inj.mp hlast)
        rw [← Nat.div_add_mod m b, ← Nat.div_add_mod n b, hdiv, hmod]

theorem isDigit_natural {n : Nat} {c : Char} (h : c ∈ (toString n).toList) : c.isDigit := by
  rw [Nat.toString_eq_ofList_toDigits, String.toList_ofList] at h
  exact Nat.isDigit_of_mem_toDigits (by decide) (by decide) h

theorem natural_injective {m n : Nat} (h : toString m = toString n) : m = n := by
  rw [Nat.toString_eq_ofList_toDigits, Nat.toString_eq_ofList_toDigits, ← String.toList_inj,
    String.toList_ofList, String.toList_ofList] at h
  exact toDigits_injective (by decide) (by decide) h

theorem integer_injective {m n : Int} (h : toString m = toString n) : m = n := by
  have hnegative (k : Nat) : toString (Int.negSucc k) = "-" ++ toString (k + 1) := rfl
  have hsign (k l : Nat) : toString (Int.ofNat k) ≠ toString (Int.negSucc l) := by
    intro heq
    have hmem : '-' ∈ (toString (Int.ofNat k)).toList := by
      rw [heq, hnegative, String.toList_append]
      exact List.mem_append_left _ (by decide)
    exact absurd (isDigit_natural hmem) (by decide)
  cases m with
  | ofNat m =>
    cases n with
    | ofNat n => exact congrArg Int.ofNat (natural_injective h)
    | negSucc n => exact absurd h (hsign m n)
  | negSucc m =>
    cases n with
    | ofNat n => exact absurd h.symm (hsign n m)
    | negSucc n =>
      rw [hnegative, hnegative] at h
      have hdigits : toString (m + 1) = toString (n + 1) := (String.append_right_inj "-").mp h
      exact congrArg Int.negSucc (Nat.succ.inj (natural_injective hdigits))

theorem plain_natural (n : Nat) : Plain (toString n) :=
  ⟨Nat.repr_ne_empty, fun _ hc => isPlainChar_of_isDigit (isDigit_natural hc)⟩

theorem plain_integer (n : Int) : Plain (toString n) := by
  cases n with
  | ofNat n => exact plain_natural n
  | negSucc n =>
    have hsign : Plain "-" := by decide
    exact hsign.append (plain_natural (n + 1)).2

theorem Decimal.isDigit_significant {d : Decimal} {c : Char} (h : c ∈ d.significant) :
    c.isDigit := by
  have hmem : c ∈ Nat.toDigits 10 d.digits := by
    rw [significant, List.mem_reverse] at h
    exact List.mem_reverse.mp ((List.dropWhile_sublist _).subset h)
  exact Nat.isDigit_of_mem_toDigits (by decide) (by decide) hmem

theorem isPlainChar_replicate (n : Nat) : ∀ c ∈ List.replicate n '0', isPlainChar c := by
  intro c hc
  rw [List.eq_of_mem_replicate hc]
  decide

theorem Decimal.isPlainChar_positional {digits : List Char} (h : ∀ c ∈ digits, isPlainChar c)
    (leading : Int) : ∀ c ∈ positional digits leading, isPlainChar c := by
  rw [positional]
  split
  · simp only [List.forall_mem_cons, List.forall_mem_append]
    exact ⟨by decide, by decide, isPlainChar_replicate _, h⟩
  · simp only [List.forall_mem_cons, List.forall_mem_append]
    refine ⟨⟨fun c hc => h c (List.mem_of_mem_take hc), isPlainChar_replicate _⟩, by decide, ?_⟩
    split
    · exact isPlainChar_replicate 1
    · exact fun c hc => h c (List.mem_of_mem_drop hc)

theorem Decimal.isPlainChar_scientific {digits : List Char} (h : ∀ c ∈ digits, isPlainChar c)
    (leading : Int) : ∀ c ∈ scientific digits leading, isPlainChar c := by
  rw [scientific]
  simp only [List.forall_mem_cons, List.forall_mem_append]
  refine ⟨⟨fun c hc => h c (List.mem_of_mem_take hc), ?_⟩, by decide, (plain_integer leading).2⟩
  split
  · nofun
  · simp only [List.forall_mem_cons]
    exact ⟨by decide, fun c hc => h c (List.mem_of_mem_drop hc)⟩

theorem Decimal.plain_text (d : Decimal) : Plain (String.ofList d.text) := by
  have hdigits (c : Char) (h : c ∈ d.significant) : isPlainChar c :=
    isPlainChar_of_isDigit (isDigit_significant h)
  rw [text]
  split
  · refine plain_ofList ?_ (isPlainChar_positional hdigits _)
    rw [positional]
    split <;> simp
  · refine plain_ofList ?_ (isPlainChar_scientific hdigits _)
    simp [scientific]

/-- The text of a number is plain. -/
theorem Binary64.plain_text (x : Binary64) : Plain x.text := by
  have signed {a : String} (ha : Plain a) (negative : Bool) :
      Plain ((if negative then "-" else "") ++ a) := by
    cases negative with
    | false => rwa [if_neg Bool.false_ne_true, String.empty_append]
    | true =>
      have hsign : Plain "-" := by decide
      exact hsign.append ha.2
  cases x with
  | nan => decide
  | infinity negative => cases negative <;> decide
  | finite negative m q =>
    refine signed ?_ negative
    split
    · decide
    · exact Decimal.plain_text _

/-! ### Spans and headings -/

theorem Position.isPlainChar_span (pos : Position) : ∀ c ∈ pos.span.toList, isPlainChar c := by
  have hdigits (n : UInt32) : ∀ c ∈ (toString n).toList, isPlainChar c :=
    (plain_natural n.toNat).2
  simp only [span, String.toList_append, List.forall_mem_append]
  have hcolon : Plain ":" := by decide
  have hdots : Plain ".." := by decide
  exact ⟨⟨⟨⟨hdigits _, hcolon.2⟩, hdigits _⟩, hdots.2⟩, hdigits _⟩

/-- A span shows its position. -/
theorem Position.span_injective {pos pos' : Position} (h : pos.span = pos'.span) : pos = pos' := by
  have hdigits (n : UInt32) : ∀ c ∈ (toString n).toList, c.isDigit := fun _ hc =>
    isDigit_natural (n := n.toNat) hc
  have hinj {n n' : UInt32} (h : (toString n).toList = (toString n').toList) : n = n' :=
    UInt32.toNat_inj.mp (natural_injective (String.toList_inj.mp h))
  have hchars (pos : Position) : pos.span.toList = (toString pos.line).toList ++
      ':' :: ((toString pos.columnStart).toList ++
        '.' :: '.' :: (toString pos.columnEnd).toList) := by
    simp only [span, String.toList_append, List.append_assoc]
    rfl
  rw [← String.toList_inj, hchars, hchars] at h
  obtain ⟨hline, h⟩ := append_cons_inj (hdigits _) (hdigits _) rfl rfl h
  obtain ⟨hstart, h⟩ := append_cons_inj (hdigits _) (hdigits _) rfl rfl h
  obtain ⟨-, hend⟩ := List.cons_eq_cons.mp h
  obtain ⟨line, columnStart, columnEnd⟩ := pos
  obtain ⟨line', columnStart', columnEnd'⟩ := pos'
  obtain rfl := hinj hline
  obtain rfl := hinj hstart
  obtain rfl := hinj hend
  rfl

/-- The names of kinds are words of letters. -/
theorem Kind.isAlpha_name {α : Type} (kind : Kind α) :
    kind.name ≠ "" ∧ ∀ c ∈ kind.name.toList, c.isAlpha := by
  rw [← List.all_eq_true]
  cases kind with
  | binary op => cases op <;> simp only [name, BinaryOp.name] <;> decide
  | unary op => cases op <;> simp only [name, UnaryOp.name] <;> decide
  | _ => simp only [name]; decide

namespace Node

variable {α : Type} (positions : Bool) (pos : Position) (kind : Kind α)

theorem plain_heading : Plain (heading positions pos kind.name) := by
  obtain ⟨hne, halpha⟩ := kind.isAlpha_name
  have hname : Plain kind.name := ⟨hne, fun c hc => isPlainChar_of_isAlpha (halpha c hc)⟩
  rw [heading]
  split
  · have hat : Plain "@" := by decide
    exact (hname.append hat.2).append pos.isPlainChar_span
  · exact hname

/-- The name that a heading begins with. -/
def headName (heading : String) : List Char := heading.toList.takeWhile (·.isAlpha)

@[simp] theorem headName_heading :
    headName (heading positions pos kind.name) = kind.name.toList := by
  have hname (rest : List Char) (hrest : rest.takeWhile (·.isAlpha) = []) :
      (kind.name.toList ++ rest).takeWhile (·.isAlpha) = kind.name.toList := by
    rw [List.takeWhile_append_of_pos kind.isAlpha_name.2, hrest, List.append_nil]
  rw [headName, heading]
  split
  · rw [String.toList_append, String.toList_append, List.append_assoc]
    exact hname _ rfl
  · have hwhole := hname [] rfl
    rwa [List.append_nil] at hwhole

/-- A heading shows the name, and the position if it is there. -/
theorem heading_injective {positions : Bool} {pos pos' : Position} {kind kind' : Kind α}
    (h : heading positions pos kind.name = heading positions pos' kind'.name) :
    kind.name = kind'.name ∧ (positions → pos = pos') := by
  have hname : kind.name = kind'.name := by
    rw [← String.toList_inj, ← headName_heading positions pos, h, headName_heading]
  refine ⟨hname, fun hpositions => ?_⟩
  rw [heading, heading, if_pos hpositions, if_pos hpositions, hname] at h
  exact Position.span_injective ((String.append_right_inj _).mp h)

end Node

end ScriptAst
