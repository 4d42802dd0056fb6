import ScriptAst.Json.Writer
import ScriptAst.Proofs.Json.Numerals

/-! # Reading back what was written

`Reader.readFrom r cs` is what is read of the text `cs` from the state `r` on.  A value is
`Readable` if what is written for it is read as the value, which is handed to the container it
stands in, and the reader then goes on with the rest.  Of the rest nothing has to be known but that
it does not go on with a numeral (`Ends`).

A numeral that is kept as it is spelled can be spelled in ways that nobody reads, and a number can
be too large.  `Json.Legible` leaves these out.  Legible values are readable (`Legible.readable`, by
induction on the value), so reading inverts writing on them (`Legible.read?_write`).  `Json.Plain`
leaves out all numbers but natural ones of 64 bits, which are legible.
-/
namespace ScriptAst
namespace Json

/-- A value without numerals, but for natural numbers of 64 bits. -/
inductive Plain : Json → Prop
  | null : Plain .null
  | boolean (value : Bool) : Plain (.boolean value)
  | natural {value : Nat} : value < UInt64.size → Plain (.natural value)
  | string (value : String) : Plain (.string value)
  | array {items : List Json} : (∀ item ∈ items, Plain item) → Plain (.array items)
  | object {members : List (String × Json)} : (∀ member ∈ members, Plain member.2) →
      Plain (.object members)

/-- A value that can be read: its numbers are spelled as numerals and stay finite. -/
inductive Legible : Json → Prop
  | null : Legible .null
  | boolean (value : Bool) : Legible (.boolean value)
  | natural {value : Nat} : ofNumeral? (Nat.toDigits 10 value) = some (.natural value) →
      Legible (.natural value)
  | numeral {text : String} : ofNumeral? text.toList = some (.numeral text) →
      Legible (.numeral text)
  | string (value : String) : Legible (.string value)
  | array {items : List Json} : (∀ item ∈ items, Legible item) → Legible (.array items)
  | object {members : List (String × Json)} : (∀ member ∈ members, Legible member.2) →
      Legible (.object members)

theorem Plain.legible {value : Json} (h : value.Plain) : value.Legible := by
  induction h with
  | null => exact .null
  | boolean value => exact .boolean value
  | natural hn => exact .natural (ofNumeral?_toDigits hn)
  | string value => exact .string value
  | array _ ih => exact .array ih
  | object _ ih => exact .object ih

/-! ## Reading from a state on -/

namespace Reader

/-- What is read of a text from the state on. -/
def readFrom (r : Reader) (cs : List Char) : Option Json := (cs.foldlM step r).bind result?

@[simp] theorem readFrom_nil (r : Reader) : r.readFrom [] = r.result? := rfl

theorem readFrom_cons (r : Reader) (c : Char) (cs : List Char) :
    r.readFrom (c :: cs) = (r.step c).bind fun r => r.readFrom cs := by
  rw [readFrom, List.foldlM_cons]
  cases r.step c <;> rfl

theorem readFrom_append {r r' : Reader} {cs : List Char} (h : cs.foldlM step r = some r')
    (rest : List Char) : r.readFrom (cs ++ rest) = r'.readFrom rest := by
  rw [readFrom, List.foldlM_append, h]
  rfl

end Reader

/-! ## Strings -/

open Reader

variable {stack : List Container}

theorem hexDigit?_hexDigit (n : Nat) : hexDigit? (hexDigit n) = some (n % 16) := by
  have hdigit : ∀ d < 16, hexDigit? (Nat.digitChar d) = some d := by decide
  exact hdigit (n % 16) (Nat.mod_lt _ (by omega))

/-- The characters that are written for one are read as it. -/
theorem foldlM_textChar (isName : Bool) (done : List Char) (c : Char) :
    (textChar c).foldlM step ⟨stack, .text isName done .plain⟩ =
      some ⟨stack, .text isName (c :: done) .plain⟩ := by
  unfold textChar
  split
  · subst c; rfl
  split
  · subst c; rfl
  split
  · subst c; rfl
  split
  · subst c; rfl
  split
  · subst c; rfl
  split
  · subst c; rfl
  split
  · subst c; rfl
  split
  · next hcontrol =>
    have hvalue : 16 * (c.toNat / 16 % 16) + c.toNat % 16 = c.toNat := by omega
    have hplain : ¬ (0xD800 ≤ c.toNat ∧ c.toNat < 0xDC00) := by omega
    have hplain' : ¬ (0xDC00 ≤ c.toNat ∧ c.toNat < 0xE000) := by omega
    have hzero : hexDigit? '0' = some 0 := rfl
    simp [step, stepText, hexDigit?_hexDigit, endHex, hzero, hvalue, hplain, hplain']
  · next hquote hbackslash _ _ _ _ _ hcontrol =>
    simp [step, stepText, hquote, hbackslash, hcontrol]

theorem foldlM_text (isName : Bool) (done cs : List Char) :
    (cs.flatMap textChar).foldlM step ⟨stack, .text isName done .plain⟩ =
      some ⟨stack, .text isName (cs.reverse ++ done) .plain⟩ := by
  induction cs generalizing done with
  | nil => rfl
  | cons c cs ih =>
    rw [List.flatMap_cons, List.foldlM_append, foldlM_textChar, List.reverse_cons,
      List.append_assoc]
    exact ih (c :: done)

/-- A string that is written is read up to its closing quote. -/
theorem readFrom_text (isName : Bool) (text : String) (rest : List Char) :
    readFrom ⟨stack, .text isName [] .plain⟩ (text.toList.flatMap textChar ++ '"' :: rest) =
      (endText stack isName text.toList.reverse).bind fun r => r.readFrom rest := by
  rw [readFrom_append (foldlM_text isName [] text.toList), List.append_nil, readFrom_cons]
  rfl

/-- A string where a value may stand is handed over. -/
theorem readFrom_string (text : String) (rest : List Char) :
    readFrom ⟨stack, .value⟩ (textThen rest text) =
      (deliver (.string text) stack).bind fun r => r.readFrom rest := by
  rw [textThen, readFrom_cons]
  refine (readFrom_text false text rest).trans ?_
  have htext : String.ofList text.toList.reverse.reverse = text := by
    rw [List.reverse_reverse, String.ofList_toList]
  simp only [endText, htext, Bool.false_eq_true, if_false]

/-- A string where a name may stand is the name of the next member. -/
theorem readFrom_name {members : List (String × Json)} {mode : Mode}
    (hmode : mode = .firstName ∨ mode = .name) (name : String) (rest : List Char) :
    readFrom ⟨.object members :: stack, mode⟩ (textThen (':' :: rest) name) =
      readFrom ⟨.member members name :: stack, .value⟩ rest := by
  have hquote : step ⟨.object members :: stack, mode⟩ '"' =
      some ⟨.object members :: stack, .text true [] .plain⟩ := by
    rcases hmode with rfl | rfl <;> rfl
  rw [textThen, readFrom_cons, hquote]
  refine (readFrom_text true name (':' :: rest)).trans ?_
  rw [endText, List.reverse_reverse, String.ofList_toList]
  rfl

/-! ## Numbers -/

/-- The text does not go on with a numeral. -/
def Ends (rest : List Char) : Prop := ∀ c ∈ rest.head?, isNumeral c = false

/-- A value that has been handed over is followed by what may follow any value. -/
theorem step_deliver {value : Json} {r : Reader} (h : deliver value stack = some r) (c : Char) :
    r.step c = r.stepAfter c := by
  cases stack with
  | nil => cases h; rfl
  | cons container stack =>
    cases container with
    | array | member => cases h; rfl
    | object => exact nomatch h

/-- A numeral ends where the text does not go on with it. -/
theorem readFrom_digits {done rest : List Char} {value : Json}
    (hvalue : ofNumeral? done.reverse = some value) (hrest : Ends rest) :
    readFrom ⟨stack, .digits done⟩ rest =
      (deliver value stack).bind fun r => r.readFrom rest := by
  cases rest with
  | nil =>
    cases stack with
    | nil => exact hvalue
    | cons container stack => cases container <;> rfl
  | cons c cs =>
    have hc : isNumeral c = false := hrest c rfl
    have hstep : step ⟨stack, .digits done⟩ c =
        (deliver value stack).bind fun r => r.stepAfter c := by
      simp [step, hc, hvalue]
    rw [readFrom_cons, hstep]
    cases hdeliver : deliver value stack with
    | none => rfl
    | some r =>
      rw [Option.bind_some, Option.bind_some, readFrom_cons, step_deliver hdeliver]

theorem foldlM_digits {cs : List Char} (h : ∀ c ∈ cs, isNumeral c = true) (done : List Char) :
    cs.foldlM step ⟨stack, .digits done⟩ = some ⟨stack, .digits (cs.reverse ++ done)⟩ := by
  induction cs generalizing done with
  | nil => rfl
  | cons c cs ih =>
    obtain ⟨hc, hcs⟩ := List.forall_mem_cons.mp h
    have hstep : step ⟨stack, .digits done⟩ c = some ⟨stack, .digits (c :: done)⟩ := by
      simp [step, hc]
    rw [List.foldlM_cons, hstep, List.reverse_cons, List.append_assoc]
    exact ih hcs (c :: done)

/-- A numeral begins with none of the characters that other values begin with. -/
theorem numeral_ne {c : Char} (h : c = '-' ∨ c.isDigit = true) (other : Char)
    (hminus : other ≠ '-') (hother : other.isDigit = false) : c ≠ other := by
  rintro rfl
  rcases h with rfl | h
  · exact hminus rfl
  · rw [h] at hother
    exact nomatch hother

theorem step_numeral {c : Char} (h : c = '-' ∨ c.isDigit = true) :
    step ⟨stack, .value⟩ c = some ⟨stack, .digits [c]⟩ := by
  have hne := numeral_ne h
  have hstart : (c = '-' || c.isDigit) = true := by simpa using h
  simp [step, isBlank, startValue, hstart, hne ' ', hne '\t', hne '\n', hne '\r', hne '"', hne '[',
    hne '\x7b', hne 't', hne 'f', hne 'n']

/-- A numeral is handed over where it ends. -/
theorem readFrom_numeral {cs : List Char} {value : Json} (h : ofNumeral? cs = some value)
    {rest : List Char} (hrest : Ends rest) :
    readFrom ⟨stack, .value⟩ (cs ++ rest) =
      (deliver value stack).bind fun r => r.readFrom rest := by
  have hall := isNumeral_of_ofNumeral? h
  obtain ⟨c, cs, rfl, hc⟩ := exists_cons_of_ofNumeral? h
  obtain ⟨-, hcs⟩ := List.forall_mem_cons.mp hall
  rw [List.cons_append, readFrom_cons, step_numeral hc, Option.bind_some,
    readFrom_append (foldlM_digits hcs [c])]
  refine readFrom_digits ?_ hrest
  rw [List.reverse_append, List.reverse_reverse]
  exact h

/-! ## Values -/

/-- A numeral begins with a character of a value. -/
theorem exists_cons_of_numeral {cs : List Char} {value : Json} (h : ofNumeral? cs = some value)
    (rest : List Char) : ∃ c cs', cs ++ rest = c :: cs' ∧ isBlank c = false ∧ c ≠ ']' := by
  obtain ⟨c, cs, rfl, hc⟩ := exists_cons_of_ofNumeral? h
  have hne := numeral_ne hc
  refine ⟨c, cs ++ rest, rfl, ?_, hne ']' (by decide) rfl⟩
  simp [isBlank, hne ' ', hne '\t', hne '\n', hne '\r']

/-- What is written for a value begins with a character of it. -/
theorem Legible.exists_cons {value : Json} (h : value.Legible) (rest : List Char) :
    ∃ c cs, value.charsThen rest = c :: cs ∧ isBlank c = false ∧ c ≠ ']' := by
  cases h with
  | null => exact ⟨_, _, rfl, rfl, by decide⟩
  | boolean value => cases value <;> exact ⟨_, _, rfl, rfl, by decide⟩
  | natural hn | numeral hn => exact exists_cons_of_numeral hn rest
  | string text => exact ⟨_, _, rfl, rfl, by decide⟩
  | @array items => cases items <;> exact ⟨_, _, rfl, rfl, by decide⟩
  | @object members => cases members <;> exact ⟨_, _, rfl, rfl, by decide⟩

/-- The first item of an array is read like any value. -/
theorem Legible.readFrom_first {value : Json} (h : value.Legible) (rest : List Char) :
    readFrom ⟨stack, .first⟩ (value.charsThen rest) =
      readFrom ⟨stack, .value⟩ (value.charsThen rest) := by
  obtain ⟨c, cs, hcs, hblank, hbracket⟩ := h.exists_cons rest
  have hstep : step ⟨stack, .first⟩ c = step ⟨stack, .value⟩ c := by
    simp [step, hblank, hbracket]
  rw [hcs, readFrom_cons, readFrom_cons, hstep]

/-- A value is read as it was written and handed to the innermost container. -/
def Readable (value : Json) : Prop :=
  ∀ (stack : List Container) (rest : List Char), Ends rest →
    readFrom ⟨stack, .value⟩ (value.charsThen rest) =
      (deliver value stack).bind fun r => r.readFrom rest

theorem ends_of_not_isNumeral {c : Char} (h : isNumeral c = false) (cs : List Char) :
    Ends (c :: cs) := by
  intro d hd
  cases hd
  exact h

theorem ends_itemsThen (items : List Json) (rest : List Char) :
    Ends (itemsThen (']' :: rest) items) := by
  cases items <;> exact ends_of_not_isNumeral rfl _

theorem ends_membersThen (members : List (String × Json)) (rest : List Char) :
    Ends (membersThen ('\x7d' :: rest) members) := by
  cases members <;> exact ends_of_not_isNumeral rfl _

/-- Further items are read behind their commas, and the array is handed over at its bracket. -/
theorem readFrom_items {items : List Json} (h : ∀ item ∈ items, Readable item)
    (done : List Json) (rest : List Char) :
    readFrom ⟨.array done :: stack, .next⟩ (itemsThen (']' :: rest) items) =
      (deliver (.array (done.reverse ++ items)) stack).bind fun r => r.readFrom rest := by
  induction items generalizing done with
  | nil =>
    rw [itemsThen, readFrom_cons, List.append_nil]
    rfl
  | cons item items ih =>
    obtain ⟨hitem, hitems⟩ := List.forall_mem_cons.mp h
    have hcomma :
        step ⟨.array done :: stack, .next⟩ ',' = some ⟨.array done :: stack, .value⟩ := rfl
    rw [itemsThen, readFrom_cons, hcomma, Option.bind_some,
      hitem _ _ (ends_itemsThen items rest)]
    have hrest := ih hitems (item :: done)
    rw [List.reverse_cons, List.append_assoc] at hrest
    exact hrest

/-- Further members are read behind their commas, and the object is handed over at its brace. -/
theorem readFrom_members {members : List (String × Json)} (h : ∀ m ∈ members, Readable m.2)
    (done : List (String × Json)) (rest : List Char) :
    readFrom ⟨.object done :: stack, .next⟩ (membersThen ('\x7d' :: rest) members) =
      (deliver (.object (done.reverse ++ members)) stack).bind fun r => r.readFrom rest := by
  induction members generalizing done with
  | nil =>
    rw [membersThen, readFrom_cons, List.append_nil]
    rfl
  | cons member members ih =>
    obtain ⟨name, value⟩ := member
    obtain ⟨hvalue, hmembers⟩ := List.forall_mem_cons.mp h
    have hcomma :
        step ⟨.object done :: stack, .next⟩ ',' = some ⟨.object done :: stack, .name⟩ := rfl
    rw [membersThen, readFrom_cons, hcomma, Option.bind_some, readFrom_name (.inr rfl),
      hvalue _ _ (ends_membersThen members rest)]
    have hrest := ih hmembers ((name, value) :: done)
    rw [List.reverse_cons, List.append_assoc] at hrest
    exact hrest

/-- **A legible value is read as it was written**, wherever a value may stand. -/
theorem Legible.readable {value : Json} (h : value.Legible) : value.Readable := by
  induction h with
  | null =>
    intro stack rest _
    simp [charsThen, readFrom_cons, step, startValue, isBlank]
  | boolean value =>
    intro stack rest _
    cases value <;> simp [charsThen, readFrom_cons, step, startValue, isBlank]
  | natural hn | numeral hn => exact fun stack rest hrest => readFrom_numeral hn hrest
  | string text => exact fun stack rest _ => readFrom_string text rest
  | @array items hitems ih =>
    intro stack rest _
    have hopen : step ⟨stack, .value⟩ '[' = some ⟨.array [] :: stack, .first⟩ := rfl
    cases items with
    | nil =>
      rw [charsThen, readFrom_cons, hopen, Option.bind_some, readFrom_cons]
      rfl
    | cons item items =>
      obtain ⟨hitem, hrest⟩ := List.forall_mem_cons.mp ih
      rw [charsThen, readFrom_cons, hopen, Option.bind_some,
        (hitems item (.head _)).readFrom_first, hitem _ _ (ends_itemsThen items rest)]
      exact readFrom_items hrest [item] rest
  | @object members _ ih =>
    intro stack rest _
    have hopen : step ⟨stack, .value⟩ '\x7b' = some ⟨.object [] :: stack, .firstName⟩ := rfl
    cases members with
    | nil =>
      rw [charsThen, readFrom_cons, hopen, Option.bind_some, readFrom_cons]
      rfl
    | cons member members =>
      obtain ⟨name, value⟩ := member
      obtain ⟨hvalue, hrest⟩ := List.forall_mem_cons.mp ih
      rw [charsThen, readFrom_cons, hopen, Option.bind_some, readFrom_name (.inl rfl),
        hvalue _ _ (ends_membersThen members rest)]
      exact readFrom_members hrest [(name, value)] rest

/-- **Reading inverts writing** on legible values. -/
theorem Legible.read?_write {value : Json} (h : value.Legible) :
    read? value.write = some value := by
  have hread := h.readable [] [] nofun
  rw [read?, write, String.toList_ofList]
  exact hread

theorem read?_write {value : Json} (h : value.Plain) : read? value.write = some value :=
  h.legible.read?_write

end Json
end ScriptAst
