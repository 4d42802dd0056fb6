import ScriptAst.Proofs.Binding
import ScriptAst.Proofs.Discipline
import ScriptAst.Proofs.Nesting
import ScriptAst.Proofs.Soundness

/-! # Builders that are used again

A builder keeps its frames and its count of levels from one tree to the next.  Whatever it is given,
and whether it succeeds or fails, the count is as before, the frames that were open are still open,
and only the innermost of them has taken in names (`dispatch_keeps_state`).  A builder without open
frames has none again after a success, so nothing is left over for the next tree.
-/
namespace ScriptAst

/-! ## No frame is found closed -/

theorem head?_append_text {a : String} {c : Char} (h : a.toList.head? = some c) (b : String) :
    (a ++ b).toList.head? = some c := by
  rw [String.toList_append, List.head?_append, h]
  rfl

/-- No other defect is put in the words for a closed frame: they differ in the first letter. -/
theorem Defect.Occurs.text_ne {defect : Defect} (h : defect.Occurs) :
    defect.text ≠ frameClosed.text := by
  intro heq
  have hfirst : defect.text.toList.head? = some 's' := heq ▸ rfl
  have differs (c : Char) (hc : defect.text.toList.head? = some c) (hne : c ≠ 's') : False :=
    hne (Option.some.inj (hc.symm.trans hfirst))
  cases defect with
  | frameClosed | described => exact h
  | missingChild => exact differs 'm' (head?_append_text (by decide) _) (by decide)
  | notAnInteger text =>
    have hquoted : (inQuotes text).toList.head? = some (Char.ofNat 39) :=
      head?_append_text (head?_append_text (by decide) text) _
    exact differs (Char.ofNat 39)
      (head?_append_text (head?_append_text (head?_append_text hquoted _) _) _) (by decide)
  | unknownLiteral | unknownLoopKeyword | unknownBinaryOperator | unknownUnaryOperator
  | unknownPostfixOperator | unknownAssignmentOperator =>
    exact differs 'u' (head?_append_text (by decide) _) (by decide)
  | expectedOperator => exact differs 'e' (head?_append_text (by decide) _) (by decide)
  | expectedToken | expectedName | expectedParameterList =>
    exact differs 'e' (by decide) (by decide)
  | declarationAsValue => exact differs 'd' (by decide) (by decide)
  | unnamedDeclaration | functionOutsideBody => exact differs 'f' (by decide) (by decide)
  | variableOutsideBody => exact differs 'v' (by decide) (by decide)

/-! ## What a dispatch leaves -/

namespace Builder

variable (b : Builder)

theorem dispatch_scopes (tree : ParseTree) :
    ∃ unfinished grown, (b.dispatch tree).2.scopes = unfinished ++ grown ∧
      grown.length = b.scopes.length ∧ b.scopes.Grows grown ∧
      ((b.dispatch tree).1.isOk → unfinished = []) := by
  have hdisciplined := dispatch_disciplined b.options (maxNesting - b.depth) tree b.scopes
  rw [dispatch_on]
  generalize ScriptAst.dispatch b.options (maxNesting - b.depth) tree b.scopes = outcome
    at hdisciplined ⊢
  obtain ⟨_ | _, scopes⟩ := outcome
  · obtain ⟨unfinished, grown, hscopes, hgrows⟩ := hdisciplined
    exact ⟨unfinished, grown, hscopes, hgrows.length_eq, hgrows, nofun⟩
  · exact ⟨[], scopes, rfl, hdisciplined.length_eq, hdisciplined, fun _ => rfl⟩

theorem dispatch_error_text (tree : ParseTree) {symbol : String} {pos : Position} {defect : Defect}
    (h : (b.dispatch tree).1 = .error (.malformed symbol pos defect)) :
    defect.text ≠ Defect.frameClosed.text := by
  have hsound := @dispatch_sound (fun _ => True) (fun _ _ _ _ => trivial) b.options
    (maxNesting - b.depth) tree trivial b.scopes
  rw [dispatch_on] at h
  generalize ScriptAst.dispatch b.options (maxNesting - b.depth) tree b.scopes = outcome at hsound h
  obtain ⟨_ | _, scopes⟩ := outcome
  · cases h
    exact Defect.Occurs.text_ne hsound.2
  · exact nomatch h

/-- The answers to trees that are dispatched one after the other. -/
def answers (b : Builder) : List ParseTree → List (Except BuildError (Option Node))
  | [] => []
  | tree :: trees => (b.dispatch tree).1 :: answers (b.dispatch tree).2 trees

variable {b}

/-- Where no frame is open, a success leaves the builder as it was. -/
theorem dispatch_unchanged (hscopes : b.scopes = []) {tree : ParseTree}
    (hok : (b.dispatch tree).1.isOk) : (b.dispatch tree).2 = b := by
  obtain ⟨unfinished, grown, hafter, _, hgrows, hnone⟩ := b.dispatch_scopes tree
  rw [hscopes] at hgrows
  cases hgrows
  rw [hnone hok] at hafter
  rw [dispatch_on] at hafter ⊢
  obtain ⟨options, scopes, depth⟩ := b
  cases hscopes
  exact congrArg (Builder.mk options · depth) hafter

/-- A builder without open frames that succeeds gives the answer of a new builder, which has all
levels left. -/
theorem dispatch_fresh (hscopes : b.scopes = []) {tree : ParseTree}
    (hok : (b.dispatch tree).1.isOk) :
    (b.dispatch tree).1 = ((ofOptions b.options).dispatch tree).1 := by
  have hroom := dispatch_room b.options (Nat.sub_le maxNesting b.depth) tree []
  rw [dispatch_on, hscopes] at hok ⊢
  rw [dispatch_on]
  rcases hroom with ⟨symbol, pos, limit, herror⟩ | hsame
  · rw [Outcome.on, herror] at hok
    exact nomatch hok
  · exact congrArg Outcome.result hsame.symm

theorem answers_fresh (hscopes : b.scopes = []) {trees : List ParseTree}
    (hok : ∀ answer ∈ b.answers trees, answer.isOk) :
    b.answers trees = trees.map fun tree => ((ofOptions b.options).dispatch tree).1 := by
  induction trees with
  | nil => rfl
  | cons tree trees ih =>
    rw [answers] at hok ⊢
    obtain ⟨hfirst, hrest⟩ := List.forall_mem_cons.mp hok
    rw [dispatch_unchanged hscopes hfirst] at hrest ⊢
    rw [List.map_cons, ih hrest, ← dispatch_fresh hscopes hfirst]

end Builder

/-- **A dispatch keeps what it finds.**  On any builder and for any tree, the levels are counted up
and down again, the frames that were open stay open and only the innermost takes in names, frames of
unfinished bodies are left on top of them after an error only, and no error says that a frame is
closed.  So a builder without open frames answers, as long as it succeeds, like a new one each
time. -/
theorem dispatch_keeps_state (b : Builder) (tree : ParseTree) (trees : List ParseTree) :
    (b.dispatch tree = b.enter (fun tree b => b.dispatch tree) tree ∧
      (b.dispatch tree).2.depth = b.depth) ∧
    (∃ unfinished grown, (b.dispatch tree).2.scopes = unfinished ++ grown ∧
      grown.length = b.scopes.length ∧ b.scopes.Grows grown ∧
      ((b.dispatch tree).1.isOk → unfinished = [])) ∧
    (∀ symbol pos defect, (b.dispatch tree).1 = .error (.malformed symbol pos defect) →
      defect.text ≠ "scope frame already closed") ∧
    (b.scopes = [] → (∀ answer ∈ b.answers trees, answer.isOk) →
      b.answers trees = trees.map fun tree => ((Builder.ofOptions b.options).dispatch tree).1) :=
  ⟨⟨b.dispatch_eq tree, congrArg (fun result => result.2.depth) (b.dispatch_on tree)⟩,
    b.dispatch_scopes tree, fun _ _ _ h => b.dispatch_error_text tree h,
    fun hscopes hok => Builder.answers_fresh hscopes hok⟩

/-- Two times the same tree: the variable of the first is not left over for the second. -/
theorem dispatch_keeps_state_closure :
    (Builder.ofOptions ⟨"", true⟩).scopes = [] ∧
      (∀ answer ∈ (Builder.ofOptions ⟨"", true⟩).answers [closureSample, closureSample],
        answer = .ok (some closureNode)) ∧
      (Builder.ofOptions ⟨"", true⟩).answers [closureSample, closureSample] =
        [closureSample, closureSample].map fun tree =>
          ((Builder.ofOptions ⟨"", true⟩).dispatch tree).1 := by
  have hbuild : dispatch ⟨"", true⟩ maxNesting closureSample [] =
    ⟨.ok (some closureNode), []⟩ := rfl
  have hdispatch : (Builder.ofOptions ⟨"", true⟩).dispatch closureSample =
      (.ok (some closureNode), .ofOptions ⟨"", true⟩) :=
    (Builder.dispatch_on _ _).trans (congrArg (Outcome.on · (.ofOptions ⟨"", true⟩)) hbuild)
  have hanswers : (Builder.ofOptions ⟨"", true⟩).answers [closureSample, closureSample] =
      [.ok (some closureNode), .ok (some closureNode)] := by
    simp only [Builder.answers, hdispatch]
  have hok : ∀ answer ∈ (Builder.ofOptions ⟨"", true⟩).answers [closureSample, closureSample],
      answer = .ok (some closureNode) := by
    rw [hanswers]
    exact List.forall_mem_cons.mpr ⟨rfl, List.forall_mem_singleton.mpr rfl⟩
  obtain ⟨_, _, _, hfresh⟩ :=
    dispatch_keeps_state (Builder.ofOptions ⟨"", true⟩) closureSample [closureSample, closureSample]
  exact ⟨rfl, hok, hfresh rfl fun answer hanswer => hok answer hanswer ▸ rfl⟩

end ScriptAst
