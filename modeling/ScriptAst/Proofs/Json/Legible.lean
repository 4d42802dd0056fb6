import Mathlib.Tactic.SplitIfs
import ScriptAst.Proofs.Json.RoundTrip

/-! # Which values are read

Just the legible values have a text (`legible_iff_exists_read?`).  That they have one is the round
trip.  For the converse, everything that the reader keeps on its way is legible: a value is handed
over only when it is finished, and a number only as the numeral it was read from.
-/
namespace ScriptAst
namespace Json

open Reader

/-- What is read from a numeral is legible. -/
theorem legible_of_ofNumeral? {cs : List Char} {value : Json} (h : ofNumeral? cs = some value) :
    value.Legible := by
  obtain ⟨⟨m, hm, -⟩, hvalue⟩ := ofNumeral?_eq_some_iff.mp h
  by_cases hall : cs.all Char.isDigit = true
  · rw [if_pos hall] at hvalue
    subst hvalue
    have hdigits : ∀ c ∈ cs, c.isDigit = true := List.all_eq_true.mp hall
    have hunsigned : cs.head? ≠ some '-' := by
      intro hhead
      exact absurd (hdigits '-' (List.mem_of_mem_head? hhead)) (by decide)
    obtain ⟨hwhole, -⟩ := isNumeral_of_magnitude? hm
    rw [if_neg hunsigned, List.takeWhile_eq_self_iff.mpr hdigits] at hwhole
    refine .natural ?_
    rw [toDigits_natural hwhole hdigits]
    exact h
  · rw [if_neg hall] at hvalue
    subst hvalue
    refine .numeral ?_
    rw [String.toList_ofList]
    exact h

/-! ## What the reader keeps -/

/-- Everything in the container is legible. -/
def Container.Legible : Container → Prop
  | .array items => ∀ item ∈ items, item.Legible
  | .object members | .member members _ => ∀ member ∈ members, member.2.Legible

/-- What has been read, or is going to be, is legible. -/
def Mode.Legible : Mode → Prop
  | .finished result | .word _ result => result.Legible
  | _ => True

namespace Reader

/-- Everything that the reader keeps is legible. -/
structure Legible (r : Reader) : Prop where
  stack : ∀ container ∈ r.stack, container.Legible
  mode : r.mode.Legible

variable {stack : List Container} {r : Reader}

theorem legible_of_deliver (hstack : ∀ container ∈ stack, container.Legible) {value : Json}
    (hvalue : value.Legible) (h : deliver value stack = some r) : r.Legible := by
  cases stack with
  | nil =>
    cases h
    exact ⟨hstack, hvalue⟩
  | cons container stack =>
    obtain ⟨hcontainer, houter⟩ := List.forall_mem_cons.mp hstack
    cases container with
    | array items =>
      cases h
      have hitems : Container.Legible (.array (value :: items)) :=
        List.forall_mem_cons.mpr ⟨hvalue, hcontainer⟩
      exact ⟨List.forall_mem_cons.mpr ⟨hitems, houter⟩, trivial⟩
    | member members name =>
      cases h
      have hmembers : Container.Legible (.object ((name, value) :: members)) :=
        List.forall_mem_cons.mpr ⟨hvalue, hcontainer⟩
      exact ⟨List.forall_mem_cons.mpr ⟨hmembers, houter⟩, trivial⟩
    | object members => exact nomatch h

theorem legible_of_startValue (hstack : ∀ container ∈ stack, container.Legible) {c : Char}
    (h : startValue stack c = some r) : r.Legible := by
  have hopen {container : Container} {mode : Mode} (hcontainer : container.Legible)
      (hmode : mode.Legible) : Legible ⟨container :: stack, mode⟩ :=
    ⟨List.forall_mem_cons.mpr ⟨hcontainer, hstack⟩, hmode⟩
  unfold startValue at h
  split_ifs at h <;> cases h
  · exact ⟨hstack, trivial⟩
  · exact hopen (List.forall_mem_nil _) trivial
  · exact hopen (List.forall_mem_nil _) trivial
  · exact ⟨hstack, .boolean true⟩
  · exact ⟨hstack, .boolean false⟩
  · exact ⟨hstack, .null⟩
  · exact ⟨hstack, trivial⟩

theorem legible_of_close (hstack : ∀ container ∈ stack, container.Legible) {c : Char}
    (h : close c stack = some r) : r.Legible := by
  cases stack with
  | nil => exact nomatch h
  | cons container stack =>
    obtain ⟨hcontainer, houter⟩ := List.forall_mem_cons.mp hstack
    cases container with
    | array items =>
      rw [close] at h
      split_ifs at h
      refine legible_of_deliver houter (.array fun item hitem => ?_) h
      exact hcontainer item (List.mem_reverse.mp hitem)
    | object members =>
      rw [close] at h
      split_ifs at h
      refine legible_of_deliver houter (.object fun member hmember => ?_) h
      exact hcontainer member (List.mem_reverse.mp hmember)
    | member members name => exact nomatch h

theorem legible_of_startName (hstack : ∀ container ∈ stack, container.Legible) {c : Char}
    (h : startName stack c = some r) : r.Legible := by
  rw [startName] at h
  split_ifs at h
  cases h
  exact ⟨hstack, trivial⟩

theorem legible_of_endText (hstack : ∀ container ∈ stack, container.Legible) {isName : Bool}
    {done : List Char} (h : endText stack isName done = some r) : r.Legible := by
  cases isName with
  | false => exact legible_of_deliver hstack (.string _) h
  | true =>
    cases stack with
    | nil => exact nomatch h
    | cons container stack =>
      cases container with
      | object members =>
        cases h
        obtain ⟨hmembers, houter⟩ := List.forall_mem_cons.mp hstack
        exact ⟨List.forall_mem_cons.mpr ⟨hmembers, houter⟩, trivial⟩
      | array | member => exact nomatch h

theorem legible_of_separate (hstack : ∀ container ∈ stack, container.Legible)
    (h : separate stack = some r) : r.Legible := by
  unfold separate at h
  split at h <;> cases h <;> exact ⟨hstack, trivial⟩

theorem Legible.stepAfter (hr : r.Legible) {c : Char} {r' : Reader}
    (h : r.stepAfter c = some r') : r'.Legible := by
  unfold Reader.stepAfter at h
  split at h
  · cases h
    exact hr
  split at h
  · split at h
    · exact legible_of_separate hr.stack h
    · exact legible_of_close hr.stack h
  · exact nomatch h

/-- **One character** leaves what the reader keeps legible. -/
theorem Legible.step (hr : r.Legible) {c : Char} {r' : Reader} (h : r.step c = some r') :
    r'.Legible := by
  obtain ⟨stack, mode⟩ := r
  obtain ⟨hstack, hmode⟩ := hr
  -- Most characters leave the containers as they are and are the beginning or a part of something.
  have hstay {mode : Mode} (h : some ⟨stack, mode⟩ = some r') (hmode : mode.Legible) :
      r'.Legible := by
    cases h
    exact ⟨hstack, hmode⟩
  cases mode with
  | value =>
    simp only [Reader.step] at h
    split_ifs at h
    · exact hstay h trivial
    · exact legible_of_startValue hstack h
  | first =>
    simp only [Reader.step] at h
    split_ifs at h
    · exact hstay h trivial
    · exact legible_of_close hstack h
    · exact legible_of_startValue hstack h
  | firstName =>
    simp only [Reader.step] at h
    split_ifs at h
    · exact hstay h trivial
    · exact legible_of_close hstack h
    · exact legible_of_startName hstack h
  | name =>
    simp only [Reader.step] at h
    split_ifs at h
    · exact hstay h trivial
    · exact legible_of_startName hstack h
  | colon =>
    simp only [Reader.step] at h
    split_ifs at h
    · exact hstay h trivial
    · exact hstay h trivial
  | next | finished => exact Legible.stepAfter ⟨hstack, hmode⟩ h
  | text isName done place =>
    have hmore {step? : Option (List Char × Place)}
        (h : (step?.map fun next => Reader.mk stack (.text isName next.1 next.2)) = some r') :
        r'.Legible := by
      obtain ⟨_, -, rfl⟩ := Option.map_eq_some_iff.mp h
      exact ⟨hstack, trivial⟩
    cases place with
    | plain =>
      simp only [Reader.step] at h
      split_ifs at h
      · exact legible_of_endText hstack h
      · exact hmore h
    | _ => exact hmore h
  | digits done =>
    simp only [Reader.step] at h
    split_ifs at h
    · exact hstay h trivial
    · obtain ⟨value, hvalue, h⟩ := Option.bind_eq_some_iff.mp h
      obtain ⟨r, hr, h⟩ := Option.bind_eq_some_iff.mp h
      exact (legible_of_deliver hstack (legible_of_ofNumeral? hvalue) hr).stepAfter h
  | word left result =>
    cases left with
    | nil => cases h
    | cons expected left =>
      cases left with
      | nil =>
        simp only [Reader.step] at h
        split_ifs at h
        exact legible_of_deliver hstack hmode h
      | cons =>
        simp only [Reader.step] at h
        split_ifs at h
        exact hstay h hmode

theorem Legible.foldlM (hr : r.Legible) {cs : List Char} {r' : Reader}
    (h : cs.foldlM Reader.step r = some r') : r'.Legible := by
  induction cs generalizing r with
  | nil =>
    cases h
    exact hr
  | cons c cs ih =>
    obtain ⟨next, hnext, h⟩ := Option.bind_eq_some_iff.mp h
    exact ih (hr.step hnext) h

theorem Legible.result? (hr : r.Legible) {value : Json} (h : r.result? = some value) :
    value.Legible := by
  unfold Reader.result? at h
  split at h
  · next hmode =>
    cases h
    have := hr.mode
    rwa [hmode] at this
  · exact legible_of_ofNumeral? h
  · exact nomatch h

end Reader

/-! ## Texts of values -/

/-- **What is read is legible.** -/
theorem legible_of_read? {text : String} {value : Json} (h : read? text = some value) :
    value.Legible := by
  obtain ⟨r, hr, hresult⟩ := Option.bind_eq_some_iff.mp h
  have hstart : start.Legible := ⟨List.forall_mem_nil _, trivial⟩
  exact (hstart.foldlM hr).result? hresult

/-- Just the legible values have a text that they are read from. -/
theorem legible_iff_exists_read? {value : Json} :
    value.Legible ↔ ∃ text, read? text = some value :=
  ⟨fun h => ⟨value.write, h.read?_write⟩, fun ⟨_, h⟩ => legible_of_read? h⟩

end Json
end ScriptAst
