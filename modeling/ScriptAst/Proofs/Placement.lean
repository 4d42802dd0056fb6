import ScriptAst.Proofs.Nesting
import ScriptAst.Proofs.Subtrees
import ScriptAst.Proofs.WellFormed

/-! # Where nodes and errors are placed

A position in an answer is never made up: it is the position of the tree that was dispatched or of
one inside it (`dispatch_position`).  If no node of the tree is without children, that is the span
of a token of the tree, and of the first token of the part that it is the position of.

Which part it is differs from production to production: an update stands at its operator, a list at
its opening token, a call at the whole chain.  That it is always one of the tree is read off
`dispatch_sound`, with the parts of the tree for the places.
-/
namespace ScriptAst

/-- The position is that of a node in the answer, or of the error that it is. -/
inductive ShowsPosition : Except BuildError (Option Node) → Position → Prop
  | node {root node : Node} : node ∈ root.preorder → ShowsPosition (.ok (some root)) node.pos
  | error (error : BuildError) : ShowsPosition (.error error) error.position

/-- The position is the span of the token: its line and first column, and as many columns as its
text has bytes, up to the last column there is. -/
structure Position.Spans (pos : Position) (token : String × SourcePos) : Prop where
  line : pos.line = token.2.line
  columnStart : pos.columnStart = token.2.column
  columnEnd : pos.columnEnd.toNat = min (token.2.column.toNat + token.1.utf8ByteSize) 4294967295

theorem Position.ofToken_spans (text : String) (start : SourcePos) :
    (Position.ofToken start text.utf8ByteSize).Spans (text, start) where
  line := rfl
  columnStart := rfl
  columnEnd := toNat_advance start.column text.utf8ByteSize

/-- A filled tree spans its first token. -/
theorem ParseTree.Filled.spans_head {tree : ParseTree} (h : tree.Filled) :
    ∃ token, tree.tokens.head? = some token ∧ tree.position.Spans token := by
  obtain ⟨text, start, hhead, hposition⟩ := h.exists_head
  refine ⟨(text, start), hhead, ?_⟩
  rw [hposition]
  exact Position.ofToken_spans text start

/-- What an answer shows is placed at a part of the tree. -/
theorem dispatch_position (b : Builder) (tree : ParseTree) {pos : Position}
    (h : ShowsPosition (b.dispatch tree).1 pos) :
    ∃ depth part, tree.Nests depth part ∧ pos = part.position := by
  let place (part : ParseTree) : Prop := ∃ depth, tree.Nests depth part
  have hbelow (part child : ParseTree) (hpart : place part) (hchild : child ∈ part.children) :
      place child := by
    obtain ⟨depth, hpart⟩ := hpart
    exact ⟨depth + 1, hpart.trans (.of_mem hchild)⟩
  have hroot : place tree := ⟨0, .self tree⟩
  have hsound := dispatch_sound hbelow b.options (maxNesting - b.depth) hroot b.scopes
  rw [Builder.dispatch_on] at h
  generalize dispatch b.options (maxNesting - b.depth) tree b.scopes = outcome at h hsound
  obtain ⟨error | answer, scopes⟩ := outcome
  · cases h
    obtain ⟨⟨part, ⟨depth, hpart⟩, hpos⟩, _⟩ := hsound
    exact ⟨depth, part, hpart, hpos⟩
  · cases h with
    | @node root node hnode =>
      obtain ⟨part, ⟨depth, hpart⟩, hpos⟩ := (hsound root rfl node hnode).placed
      exact ⟨depth, part, hpart, hpos⟩

/-- **Every position is derived from the tree.**  On any builder, the nodes of an answer and the
error that it may be are placed at parts of the tree.  In a filled tree these are spans of its
tokens, and every part is placed at the first of its own. -/
theorem positions_derived (b : Builder) (tree : ParseTree) :
    (∀ pos, ShowsPosition (b.dispatch tree).1 pos →
      ∃ depth part, tree.Nests depth part ∧ pos = part.position) ∧
    (tree.Filled →
      (∀ pos, ShowsPosition (b.dispatch tree).1 pos → ∃ token ∈ tree.tokens, pos.Spans token) ∧
      ∀ depth part, tree.Nests depth part →
        ∃ token, part.tokens.head? = some token ∧ part.position.Spans token) := by
  refine ⟨fun pos h => dispatch_position b tree h, fun hfilled => ⟨fun pos h => ?_, ?_⟩⟩
  · obtain ⟨depth, part, hpart, rfl⟩ := dispatch_position b tree h
    obtain ⟨token, hhead, hspans⟩ := (hfilled.part hpart).spans_head
    exact ⟨token, hpart.tokens_subset (List.mem_of_mem_head? hhead), hspans⟩
  · intro depth part hpart
    exact (hfilled.part hpart).spans_head

/-- Two levels down in an open body: the call is placed at its first token, and the update behind
it at the operator. -/
theorem positions_derived_strayUpdate :
    strayUpdateSample.Filled ∧
      ShowsPosition ((⟨⟨"", true⟩, [.empty], 2⟩ : Builder).dispatch strayUpdateSample).1
        ⟨1, 19, 21⟩ ∧
      (∃ token ∈ strayUpdateSample.tokens, Position.Spans ⟨1, 19, 21⟩ token) ∧
      ∃ depth part, strayUpdateSample.Nests depth part ∧ part.position = ⟨1, 19, 21⟩ := by
  let b : Builder := ⟨⟨"", true⟩, [.empty], 2⟩
  have hfilled : strayUpdateSample.Filled := by simp [strayUpdateSample]
  have hshown : ShowsPosition (b.dispatch strayUpdateSample).1 ⟨1, 19, 21⟩ := by
    let call : Node := ⟨⟨1, 16, 17⟩, .call ⟨⟨1, 16, 17⟩, .identifier "f"⟩
      ⟨⟨1, 17, 18⟩, .argumentList []⟩⟩
    let update : Node := ⟨⟨1, 19, 21⟩, .simpleIncrement call .increment⟩
    let function : Node := ⟨⟨1, 9, 10⟩, .functionStatement ⟨some "f", [], none⟩⟩
    let root : Node := ⟨⟨1, 9, 10⟩, .sourceElements ⟨[], [("f", function)], [update], ""⟩⟩
    have hanswer : (b.dispatch strayUpdateSample).1 = .ok (some root) := rfl
    have hupdate : update ∈ root.preorder :=
      Node.mem_preorder_iff.mpr (.inr ⟨update, .tail _ (.head _), update.mem_preorder_self⟩)
    rw [hanswer]
    exact .node hupdate
  obtain ⟨hparts, htokens⟩ := positions_derived b strayUpdateSample
  obtain ⟨depth, part, hpart, hpos⟩ := hparts _ hshown
  exact ⟨hfilled, hshown, (htokens hfilled).1 _ hshown, depth, part, hpart, hpos.symm⟩

end ScriptAst
