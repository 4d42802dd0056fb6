import ScriptAst.Proofs.Printing.Atoms
import ScriptAst.Proofs.Renderings

/-! # Templates

Arguments are put into a template one after the other, and each is looked for in all of the text,
earlier arguments included.  For a template in which braces open nothing but places, and arguments
without opening braces, this is the same as reading the template once and putting every argument
into its places on the way (`fill_at_once`).

Such a template is a list of `Part`s, and the invariant is that the text is at any time the template
with the arguments so far filled in at once.  The next place can begin only where a brace opens, so
it is found just where a part is the place of that number (`replaceFrom_filled`).
-/
namespace ScriptAst.Message

/-- A part of a template: a character that opens nothing, or the place for an argument. -/
inductive Part where
  | plain (c : Char) (h : c ≠ '\x7b')
  | place (i : Nat)

namespace Part

/-- How the part is written. -/
def text : Part → List Char
  | plain c _ => [c]
  | place i => Message.place i

/-- The part with all arguments at hand.  A place without an argument stays as it is. -/
def filled (args : List String) : Part → List Char
  | plain c _ => [c]
  | place i => (args[i]?).elim (Message.place i) String.toList

theorem filled_nil (part : Part) : part.filled [] = part.text := by
  cases part <;> rfl

end Part

/-- Every opening brace begins a place. -/
def BracesOpenPlaces (text : List Char) : Prop :=
  ∀ before after, text = before ++ '\x7b' :: after → ∃ i, place i <+: '\x7b' :: after

/-! ## Places -/

theorem isDigit_of_mem_place {i : Nat} {c : Char} (h : c ∈ Nat.toDigits 10 i) : c.isDigit :=
  Nat.isDigit_of_mem_toDigits (by decide) (by decide) h

theorem brace_notMem_place_tail (i : Nat) : '\x7b' ∉ Nat.toDigits 10 i ++ ['\x7d'] := by
  intro h
  rcases List.mem_append.mp h with h | h
  · exact absurd (isDigit_of_mem_place h) (by decide)
  · exact absurd h (by decide)

/-- No place begins with another one, as its number ends at the closing brace. -/
theorem eq_of_place_begins {i j : Nat} {rest : List Char} (h : place i <+: place j ++ rest) :
    i = j := by
  obtain ⟨further, heq⟩ := h
  have hnumbers : Nat.toDigits 10 i ++ '\x7d' :: further =
      Nat.toDigits 10 j ++ '\x7d' :: rest := by
    simpa only [place, List.cons_append, List.append_assoc, List.nil_append, List.cons.injEq,
      true_and] using heq
  obtain ⟨hdigits, -⟩ := append_cons_inj (p := Char.isDigit) (fun _ => isDigit_of_mem_place)
    (fun _ => isDigit_of_mem_place) (by decide) (by decide) hnumbers
  exact toDigits_injective (by decide) (by decide) hdigits

/-! ## Templates in parts -/

theorem BracesOpenPlaces.of_append {before text : List Char}
    (h : BracesOpenPlaces (before ++ text)) : BracesOpenPlaces text := by
  intro further after heq
  refine h (before ++ further) after ?_
  rw [heq, List.append_assoc]

/-- A template in which braces open nothing but places is made of parts. -/
theorem BracesOpenPlaces.exists_parts {text : List Char} (h : BracesOpenPlaces text) :
    ∃ parts : List Part, parts.flatMap Part.text = text := by
  induction hlength : text.length using Nat.strongRecOn generalizing text with
  | ind n ih =>
    -- The part that the text begins with, and what is behind it.
    have hfirst : text = [] ∨ ∃ (part : Part) (rest : List Char),
        text = part.text ++ rest ∧ rest.length < text.length := by
      cases text with
      | nil => exact .inl rfl
      | cons c rest =>
        refine .inr ?_
        by_cases hc : c = '\x7b'
        · subst hc
          obtain ⟨i, rest, hplace⟩ := h [] rest rfl
          refine ⟨.place i, rest, hplace.symm, ?_⟩
          rw [← hplace, List.length_append]
          exact Nat.lt_add_of_pos_left (Nat.succ_pos _)
        · exact ⟨.plain c hc, rest, rfl, Nat.lt_succ_self _⟩
    rcases hfirst with rfl | ⟨part, rest, rfl, hlt⟩
    · exact ⟨[], rfl⟩
    · obtain ⟨parts, hparts⟩ := ih rest.length (hlength ▸ hlt) h.of_append rfl
      exact ⟨part :: parts, by rw [List.flatMap_cons, hparts]⟩

theorem BracesOpenPlaces.cons {c : Char} {text : List Char} (h : BracesOpenPlaces text)
    (hopen : c = '\x7b' → ∃ i, place i <+: c :: text) : BracesOpenPlaces (c :: text) := by
  intro before after heq
  cases before with
  | nil =>
    obtain ⟨rfl, rfl⟩ := List.cons_eq_cons.mp heq
    exact hopen rfl
  | cons d before => exact h before after (List.cons_eq_cons.mp heq).2

theorem BracesOpenPlaces.append {before text : List Char} (h : BracesOpenPlaces text)
    (hbefore : '\x7b' ∉ before) : BracesOpenPlaces (before ++ text) := by
  induction before with
  | nil => exact h
  | cons c before ih =>
    obtain ⟨hc, hbefore⟩ := not_or.mp (mt List.mem_cons.mpr hbefore)
    exact (ih hbefore).cons fun heq => absurd heq.symm hc

/-- In what is made of parts braces open nothing but places. -/
theorem bracesOpenPlaces_parts (parts : List Part) :
    BracesOpenPlaces (parts.flatMap Part.text) := by
  induction parts with
  | nil => exact fun before after heq => absurd heq (by simp)
  | cons part parts ih =>
    rw [List.flatMap_cons]
    cases part with
    | plain c hc => exact ih.cons fun heq => absurd heq hc
    | place i =>
      exact (ih.append (brace_notMem_place_tail i)).cons fun _ => ⟨i, List.prefix_append _ _⟩

/-! ## Filling -/

variable {value : List Char}

/-- Text without opening braces is left as it is. -/
theorem replaceFrom_place_append {i : Nat} {before : List Char} (h : '\x7b' ∉ before)
    (after : List Char) :
    replaceFrom (place i) value 0 (before ++ after) =
      before ++ replaceFrom (place i) value 0 after := by
  induction before with
  | nil => rfl
  | cons c before ih =>
    obtain ⟨hc, hbefore⟩ := not_or.mp (mt List.mem_cons.mpr h)
    have hnot : ¬ place i <+: c :: (before ++ after) :=
      fun hp => hc (List.cons_prefix_cons.mp hp).1
    rw [List.cons_append, replaceFrom_cons_neg hnot, ih hbefore, List.cons_append]

/-- Skipping characters is the same as leaving them out. -/
theorem replaceFrom_append_left (pattern before after : List Char) :
    replaceFrom pattern value before.length (before ++ after) =
      replaceFrom pattern value 0 after := by
  induction before with
  | nil => rfl
  | cons c before ih => exact ih

/-- A place is replaced by its argument. -/
theorem replaceFrom_place_self (i : Nat) (after : List Char) :
    replaceFrom (place i) value 0 (place i ++ after) =
      value ++ replaceFrom (place i) value 0 after := by
  refine (replaceFrom_cons_pos (List.prefix_append (place i) after)).trans ?_
  exact congrArg (value ++ ·) (replaceFrom_append_left (place i) (place i).tail after)

/-- A place is left as it is when another one is filled. -/
theorem replaceFrom_place_of_ne {i j : Nat} (h : i ≠ j) (after : List Char) :
    replaceFrom (place i) value 0 (place j ++ after) =
      place j ++ replaceFrom (place i) value 0 after := by
  have hnot : ¬ place i <+: place j ++ after := fun hp => h (eq_of_place_begins hp)
  refine (replaceFrom_cons_neg hnot).trans ?_
  exact congrArg (List.cons _) (replaceFrom_place_append (brace_notMem_place_tail j) after)

/-- **One more argument.**  Where the arguments so far are filled in at once, putting in the next
one gives the template with this one filled in as well. -/
theorem replaceFrom_filled {done : List String} (hdone : ∀ arg ∈ done, '\x7b' ∉ arg.toList)
    (arg : String) (parts : List Part) :
    replaceFrom (place done.length) arg.toList 0 (parts.flatMap (Part.filled done)) =
      parts.flatMap (Part.filled (done ++ [arg])) := by
  induction parts with
  | nil => rfl
  | cons part parts ih =>
    rw [List.flatMap_cons, List.flatMap_cons, ← ih]
    cases part with
    | plain c hc => exact replaceFrom_place_append (mt List.mem_singleton.mp hc.symm) _
    | place i =>
      rcases Nat.lt_trichotomy i done.length with hi | rfl | hi
      · have hbrace : '\x7b' ∉ (done[i]).toList := hdone _ (List.getElem_mem hi)
        simp only [Part.filled, List.getElem?_append_left hi, List.getElem?_eq_getElem hi,
          Option.elim_some]
        exact replaceFrom_place_append hbrace _
      · have hnone : done[done.length]? = none := List.getElem?_eq_none (Nat.le_refl _)
        simp only [Part.filled, List.getElem?_concat_length, hnone, Option.elim_none,
          Option.elim_some]
        exact replaceFrom_place_self _ _
      · have hnone : done[i]? = none := List.getElem?_eq_none (Nat.le_of_lt hi)
        have hnone' : (done ++ [arg])[i]? = none := by
          refine List.getElem?_eq_none ?_
          rw [List.length_append, List.length_singleton]
          exact hi
        simp only [Part.filled, hnone, hnone', Option.elim_none]
        exact replaceFrom_place_of_ne (Nat.ne_of_lt hi) _

/-- The arguments that are left are filled in beside those that are done. -/
theorem fillFrom_filled {done args : List String} (h : ∀ arg ∈ done ++ args, '\x7b' ∉ arg.toList)
    (parts : List Part) :
    fillFrom done.length (parts.flatMap (Part.filled done)) args =
      parts.flatMap (Part.filled (done ++ args)) := by
  induction args generalizing done with
  | nil => rw [fillFrom, List.append_nil]
  | cons arg args ih =>
    have hdone : ∀ arg ∈ done, '\x7b' ∉ arg.toList := fun a ha => h a (List.mem_append_left _ ha)
    rw [List.append_cons] at h
    have hrest := ih h
    rw [List.length_append, List.length_singleton] at hrest
    rw [fillFrom, replaceFrom_filled hdone, hrest, List.append_assoc, List.singleton_append]

/-- **A template is filled at once.**  If every opening brace of it begins a place and no argument
has an opening brace, the template is made of parts, and its text with the arguments is that of the
parts, each place by itself replaced by its argument, if there is one. -/
theorem fill_at_once {template : String} (htemplate : BracesOpenPlaces template.toList)
    {args : List String} (hargs : ∀ arg ∈ args, '\x7b' ∉ arg.toList) :
    (∃ parts : List Part, parts.flatMap Part.text = template.toList) ∧
    ∀ parts : List Part, parts.flatMap Part.text = template.toList →
      fill template args = String.ofList (parts.flatMap (Part.filled args)) := by
  refine ⟨htemplate.exists_parts, fun parts hparts => ?_⟩
  have hstart : parts.flatMap (Part.filled []) = template.toList := by
    rw [← hparts]
    exact congrArg (parts.flatMap ·) (funext Part.filled_nil)
  have hfilled : fillFrom 0 (parts.flatMap (Part.filled [])) args =
      parts.flatMap (Part.filled args) := @fillFrom_filled [] args hargs parts
  rw [fill, ← hstart, hfilled]

/-- Places of one and of two digits side by side, one without an argument, and a brace that closes
nothing. -/
def mixedSample : List Part :=
  [.place 1, .place 10, .place 1, .plain '0' (by decide), .place 0, .plain '\x7d' (by decide),
    .place 11]

theorem fill_at_once_mixed :
    "\x7b1\x7d\x7b10\x7d\x7b1\x7d0\x7b0\x7d\x7d\x7b11\x7d".toList =
      mixedSample.flatMap Part.text ∧
    fill "\x7b1\x7d\x7b10\x7d\x7b1\x7d0\x7b0\x7d\x7d\x7b11\x7d"
        ["11\x7d", "b", "c", "d", "e", "f", "g", "h", "i", "j", "k"] =
      "bkb011\x7d\x7d\x7b11\x7d" := by
  have htext : mixedSample.flatMap Part.text =
      "\x7b1\x7d\x7b10\x7d\x7b1\x7d0\x7b0\x7d\x7d\x7b11\x7d".toList := by decide
  have htemplate := bracesOpenPlaces_parts mixedSample
  rw [htext] at htemplate
  have hargs : ∀ arg ∈ ["11\x7d", "b", "c", "d", "e", "f", "g", "h", "i", "j", "k"],
      '\x7b' ∉ arg.toList := by decide
  obtain ⟨-, hfill⟩ := fill_at_once htemplate hargs
  exact ⟨htext.symm, hfill mixedSample htext⟩

end ScriptAst.Message
