import ScriptAst.ParseTree.Interchange
import ScriptAst.Proofs.Json.Numerals

/-! # One tree in a text

The reader goes through a text once, from left to right, so what it has read of a text does not
depend on what stands behind (`Json.read?_append`).  Once a value is finished only blanks may
follow.  A number is never finished before the text ends, as more digits may follow; but a tree is
no number.
-/
namespace ScriptAst

namespace Json

/-- The value is a number. -/
def IsNumber : Json → Prop
  | .natural _ | .numeral _ => True
  | _ => False

theorem isNumber_of_ofNumeral? {cs : List Char} {value : Json} (h : ofNumeral? cs = some value) :
    value.IsNumber := by
  obtain ⟨-, rfl⟩ := ofNumeral?_eq_some_iff.mp h
  split <;> trivial

namespace Reader

/-- A value other than a number is finished when the reader gives it. -/
theorem mode_of_result? {r : Reader} {value : Json} (h : r.result? = some value)
    (hvalue : ¬ value.IsNumber) : r.mode = .finished value := by
  obtain ⟨stack, mode⟩ := r
  cases mode with
  | finished result =>
    obtain rfl : result = value := Option.some.inj h
    rfl
  | digits done =>
    cases stack with
    | nil => exact absurd (isNumber_of_ofNumeral? h) hvalue
    | cons => exact nomatch h
  | _ => exact nomatch h

theorem step_finished {r : Reader} {value : Json} (h : r.mode = .finished value) (c : Char) :
    r.step c = if isBlank c then some r else none := by
  rw [step, h, stepAfter, h]

/-- Behind a finished value there is nothing but blanks. -/
theorem foldlM_finished {r : Reader} {value : Json} (h : r.mode = .finished value)
    (cs : List Char) : cs.foldlM step r = if cs.all isBlank then some r else none := by
  induction cs with
  | nil => rfl
  | cons c cs ih =>
    rw [List.foldlM_cons, step_finished h, List.all_cons]
    cases isBlank c with
    | false => rfl
    | true => exact ih

theorem isBlank_iff (c : Char) : isBlank c ↔ c = ' ' ∨ c = '\t' ∨ c = '\n' ∨ c = '\r' := by
  simp [isBlank, or_assoc]

end Reader

/-- **What follows a value does not change it.**  A text with a value other than a number still has
this value if blanks follow, and has none if anything else does. -/
theorem read?_append {text : String} {value : Json} (h : read? text = some value)
    (hvalue : ¬ value.IsNumber) (rest : String) :
    read? (text ++ rest) = if rest.toList.all Reader.isBlank then some value else none := by
  obtain ⟨r, hr, hresult⟩ := Option.bind_eq_some_iff.mp h
  have hmode := Reader.mode_of_result? hresult hvalue
  rw [read?, String.toList_append, List.foldlM_append, hr]
  refine (congrArg (·.bind Reader.result?) (Reader.foldlM_finished hmode _)).trans ?_
  split
  · exact hresult
  · rfl

end Json

namespace ParseTree

theorem not_isNumber_of_ofJson? {isRoot : Bool} {value : Json} {tree : ParseTree}
    (h : ofJson? isRoot value = some tree) : ¬ value.IsNumber := by
  cases value with
  | natural | numeral => exact absurd h (by simp [ofJson?])
  | _ => exact not_false

/-- **A text holds one tree and nothing else.**  Behind a text that a tree is read from only blanks
may be added, and then the same tree is read. -/
theorem ofJsonText?_append {text : String} {tree : ParseTree} (h : ofJsonText? text = some tree)
    (rest : String) (tree' : ParseTree) :
    ofJsonText? (text ++ rest) = some tree' ↔
      tree' = tree ∧ ∀ c ∈ rest.toList, c = ' ' ∨ c = '\t' ∨ c = '\n' ∨ c = '\r' := by
  obtain ⟨value, hvalue, htree⟩ := Option.bind_eq_some_iff.mp h
  have hread := Json.read?_append hvalue (not_isNumber_of_ofJson? htree) rest
  have hblank : rest.toList.all Json.Reader.isBlank ↔
      ∀ c ∈ rest.toList, c = ' ' ∨ c = '\t' ∨ c = '\n' ∨ c = '\r' := by
    simp only [List.all_eq_true, Json.Reader.isBlank_iff]
  rw [ofJsonText?, hread, ← hblank]
  split
  · next hall =>
    rw [Option.bind_some, htree, Option.some_inj]
    exact ⟨fun heq => ⟨heq.symm, hall⟩, fun heq => heq.1.symm⟩
  · next hall => exact iff_of_false (Option.some_ne_none _).symm fun heq => hall heq.2

/-- Blanks behind a block, and a comma. -/
theorem ofJsonText?_append_block :
    ofJsonText? ("\x7b\"kind\":\"nonterminal\",\"symbol\":\"block\"\x7d" ++ "\t\n") =
      some (.node "block" []) ∧
    ofJsonText? ("\x7b\"kind\":\"nonterminal\",\"symbol\":\"block\"\x7d" ++ ",") ≠
      some (.node "block" []) := by
  have hblock : ofJsonText? "\x7b\"kind\":\"nonterminal\",\"symbol\":\"block\"\x7d" =
      some (.node "block" []) := by
    cbv
  constructor
  · refine (ofJsonText?_append hblock _ _).mpr ⟨rfl, fun c hc => ?_⟩
    have hmem : c ∈ ['\t', '\n'] := hc
    simp only [List.mem_cons, List.not_mem_nil, or_false] at hmem
    rcases hmem with rfl | rfl <;> decide
  · intro h
    obtain ⟨-, hblank⟩ := (ofJsonText?_append hblock _ _).mp h
    exact absurd (hblank ',' (.head _)) (by decide)

end ParseTree
end ScriptAst
