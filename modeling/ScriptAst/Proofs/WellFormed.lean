import ScriptAst.Proofs.Soundness

/-! # Every tree that is built is well-formed

The type of syntax trees allows much that no program means: an update with a value, a call without
a list of arguments, a `try` without any clause.  `Kind.WellFormed` says, kind by kind, what those
who read a tree rely on.  Every node of every tree that is built is so, whatever parse tree it is
built of (`nodes_well_formed`).

The productions are looked at once for all, for `Node.Sound`; what is left is to read it off.
-/
namespace ScriptAst

namespace Kind

/-- A name, with or without its depth. -/
def IsName {α : Type} (kind : Kind α) : Prop :=
  (∃ name, kind = identifier name) ∨ ∃ depth name, kind = variableIdentifier depth name

/-- A member of an object, by key or by name. -/
def IsMember {α : Type} (kind : Kind α) : Prop :=
  (∃ object index, kind = member object index) ∨ ∃ object name, kind = memberDot object name

end Kind

/-- An update stands on a side of its target and has no value; any other write has a value and
stands on no side. -/
def AssignOp.Completed (op : AssignOp) (value : Option Node) (side : Option Side) : Prop :=
  (value = none ↔ op = .increment ∨ op = .decrement) ∧
    (side ≠ none ↔ op = .increment ∨ op = .decrement)

/-- What can be relied on in a node of this kind. -/
def Kind.WellFormed : Kind Node → Prop
  | simpleAssignment target value op side => op.Completed value side ∧ target.kind.IsName
  | memberAssignment _ _ value op side | memberDotAssignment _ _ value op side =>
    op.Completed value side
  | simpleIncrement target op =>
    (op = .increment ∨ op = .decrement) ∧ ¬ target.kind.IsName ∧ ¬ target.kind.IsMember
  | call _ arguments | newWithArgs _ arguments => ∃ items, arguments.kind = .argumentList items
  | variableDeclaration target _ => target.kind.IsName
  | tryStatement _ catchParam catchBlock finallyBlock =>
    (catchParam ≠ none ↔ catchBlock ≠ none) ∧ (catchBlock ≠ none ∨ finallyBlock ≠ none)
  | sourceElements body =>
    ∀ entry ∈ body.funcDecls, ∃ function,
      entry.2.kind = .functionStatement function ∧ function.name = some entry.1
  | _ => True

theorem AssignOp.isUpdate_iff {op : AssignOp} :
    op.isUpdate = true ↔ op = .increment ∨ op = .decrement := by
  cases op <;> simp [isUpdate]

theorem AssignOp.Fits.completed {op : AssignOp} {value : Option Node} {side : Option Side}
    (h : op.Fits value side) : op.Completed value side := by
  obtain ⟨hvalue, hside⟩ := h
  constructor
  · rw [← isUpdate_iff, ← Option.isNone_iff_eq_none, ← Option.not_isSome, hvalue, Bool.not_not]
  · rw [← isUpdate_iff, ← Option.isSome_iff_ne_none, hside]

theorem Kind.isName_of_literalName? {α : Type} {kind : Kind α} (h : kind.literalName?.isSome) :
    kind.IsName := by
  cases kind with
  | identifier name => exact .inl ⟨name, rfl⟩
  | variableIdentifier depth name => exact .inr ⟨depth, name, rfl⟩
  | _ => exact nomatch h

/-- A kind of which a production sees no more than a list of arguments is neither a name nor a
member. -/
theorem Kind.not_isName_of_view {α : Type} {kind : Kind α}
    (h : kind.view = .other ∨ ∃ items, kind.view = .argumentList items) :
    ¬ kind.IsName ∧ ¬ kind.IsMember := by
  constructor
  · rintro (⟨name, rfl⟩ | ⟨depth, name, rfl⟩) <;> simp [view] at h
  · rintro (⟨object, index, rfl⟩ | ⟨object, name, rfl⟩) <;> simp [view] at h

theorem Kind.Sound.wellFormed {kind : Kind Node} (h : kind.Sound) : kind.WellFormed := by
  cases kind with
  | simpleAssignment target value op side =>
    exact ⟨h.1.completed, isName_of_literalName? h.2⟩
  | memberAssignment | memberDotAssignment => exact AssignOp.Fits.completed h
  | simpleIncrement target op =>
    exact ⟨AssignOp.isUpdate_iff.mp h.1, not_isName_of_view h.2⟩
  | variableDeclaration target init => exact isName_of_literalName? h
  | tryStatement body catchParam catchBlock finallyBlock =>
    obtain ⟨hcatch, hclause⟩ := h
    simp only [Option.isSome_iff_ne_none] at hclause
    refine ⟨?_, hclause⟩
    rw [← Option.isSome_iff_ne_none, ← Option.isSome_iff_ne_none, hcatch]
  | call | newWithArgs | sourceElements => exact h
  | _ => trivial

/-- **Every node that is built is well-formed**, whatever the parse tree and the options. -/
theorem nodes_well_formed {options : Options} {tree : ParseTree} {root : Node}
    (h : build options tree = .ok root) {node : Node} (hnode : node ∈ root.preorder) :
    node.kind.WellFormed := by
  have hsound : root.AllSound options.sourceName fun _ => True :=
    build_sound (fun _ _ _ _ => trivial) trivial h
  exact (hsound node hnode).kind.wellFormed

/-- A body with an update of a call where a statement belongs:
`f()++` next to the empty function `f`. -/
def strayUpdateSample : ParseTree :=
  .node "sourceelements" [
    .node "functiondeclaration" [
      .token "IDENTIFIERNAME" "f" ⟨9, 1, 9⟩, .token "(" "(" ⟨10, 1, 10⟩,
      .token ")" ")" ⟨11, 1, 11⟩, .token "\x7d" "\x7d" ⟨14, 1, 14⟩],
    .node "postfixexpression" [
      .node "callexpression" [
        .token "IDENTIFIERNAME" "f" ⟨16, 1, 16⟩,
        .node "arguments" [.token "(" "(" ⟨17, 1, 17⟩]],
      .token "++" "++" ⟨19, 1, 19⟩]]

/-- The call is no place to write to, so it stays whole below the update. -/
theorem nodes_well_formed_strayUpdate : ∃ root update call body target args,
    build ⟨"", true⟩ strayUpdateSample = .ok root ∧
      root.kind = .sourceElements body ∧ body.funcDecls.map Prod.fst = ["f"] ∧
      root.kind.WellFormed ∧
      update ∈ root.preorder ∧ update.kind = .simpleIncrement call .increment ∧
      update.kind.WellFormed ∧
      call ∈ root.preorder ∧ call.kind = .call target args ∧ call.kind.WellFormed := by
  let target : Node := ⟨⟨1, 16, 17⟩, .identifier "f"⟩
  let args : Node := ⟨⟨1, 17, 18⟩, .argumentList []⟩
  let call : Node := ⟨⟨1, 16, 17⟩, .call target args⟩
  let update : Node := ⟨⟨1, 19, 21⟩, .simpleIncrement call .increment⟩
  let function : Node := ⟨⟨1, 9, 10⟩, .functionStatement ⟨some "f", [], none⟩⟩
  let body : Body Node := ⟨[], [("f", function)], [update], ""⟩
  let root : Node := ⟨⟨1, 9, 10⟩, .sourceElements body⟩
  have hbuild : build ⟨"", true⟩ strayUpdateSample = .ok root := rfl
  have hupdate : update ∈ root.preorder :=
    Node.mem_preorder_iff.mpr (.inr ⟨update, .tail _ (.head _), update.mem_preorder_self⟩)
  have hcall : call ∈ root.preorder :=
    Node.preorder_trans hupdate
      (Node.mem_preorder_iff.mpr (.inr ⟨call, .head _, call.mem_preorder_self⟩))
  exact ⟨root, update, call, body, target, args, hbuild, rfl, rfl,
    nodes_well_formed hbuild root.mem_preorder_self, hupdate, rfl,
    nodes_well_formed hbuild hupdate, hcall, rfl, nodes_well_formed hbuild hcall⟩

end ScriptAst
