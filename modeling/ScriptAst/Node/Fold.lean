import ScriptAst.Node.Basic

/-!
# Folding a tree

`Node.fold` evaluates a tree from its leaves up: a step sees the position and the kind of a node
with the values of the children in place of the children.  `Node.fold_mk` is the equation to reason
with, `Node.induction` the principle.  `Node.preorder` lists every node of a tree, parents before
their children.
-/
namespace ScriptAst
namespace Node

variable {β : Type} (step : Position → Kind β → β)

mutual

/-- The value of the tree under `step`, which combines the values of a node's children. -/
def fold : Node → β
  | ⟨pos, kind⟩ => step pos (foldKind kind)

/-- The kind with every child replaced by its value. -/
def foldKind : Kind Node → Kind β
  | .int value => .int value
  | .float value => .float value
  | .string value => .string value
  | .boolean value => .boolean value
  | .null => .null
  | .identifier name => .identifier name
  | .variableIdentifier depth name => .variableIdentifier depth name
  | .thisValue => .thisValue
  | .binary op left right => .binary op (fold left) (fold right)
  | .unary op operand => .unary op (fold operand)
  | .member object index => .member (fold object) (fold index)
  | .memberDot object name => .memberDot (fold object) name
  | .call callee arguments => .call (fold callee) (fold arguments)
  | .new callee => .new (fold callee)
  | .newWithArgs callee arguments => .newWithArgs (fold callee) (fold arguments)
  | .array items => .array (foldList items)
  | .objectInit items => .objectInit (foldList items)
  | .propertyInit key value => .propertyInit (fold key) (fold value)
  | .argumentList items => .argumentList (foldList items)
  | .variableDeclList items => .variableDeclList (foldList items)
  | .simpleAssignment target value op side =>
    .simpleAssignment (fold target) (foldOption value) op side
  | .memberAssignment object index value op side =>
    .memberAssignment (fold object) (fold index) (foldOption value) op side
  | .memberDotAssignment object name value op side =>
    .memberDotAssignment (fold object) name (foldOption value) op side
  | .simpleIncrement target op => .simpleIncrement (fold target) op
  | .program body => .program (fold body)
  | .sourceElements ⟨varNames, funcDecls, statements, sourceName⟩ =>
    .sourceElements ⟨varNames, foldDecls funcDecls, foldList statements, sourceName⟩
  | .block statements => .block (foldList statements)
  | .conditional condition thenBranch elseBranch =>
    .conditional (fold condition) (fold thenBranch) (foldOption elseBranch)
  | .whileLoop condition body => .whileLoop (fold condition) (fold body)
  | .doLoop body condition => .doLoop (fold body) (fold condition)
  | .forLoop init condition update body =>
    .forLoop (foldOption init) (fold condition) (foldOption update) (fold body)
  | .forIn name iterable body => .forIn name (fold iterable) (fold body)
  | .forVarIn target iterable body => .forVarIn (fold target) (fold iterable) (fold body)
  | .variableDeclaration target init => .variableDeclaration (fold target) (foldOption init)
  | .varStatement list => .varStatement (fold list)
  | .exprStatement expression => .exprStatement (fold expression)
  | .returnStatement value => .returnStatement (foldOption value)
  | .breakStatement label => .breakStatement label
  | .continueStatement label => .continueStatement label
  | .throwStatement value => .throwStatement (fold value)
  | .tryStatement body catchParam catchBlock finallyBlock =>
    .tryStatement (fold body) (foldOption catchParam) (foldOption catchBlock)
      (foldOption finallyBlock)
  | .withStatement object body => .withStatement (fold object) (fold body)
  | .empty => .empty
  | .functionStatement ⟨name, params, body⟩ =>
    .functionStatement ⟨name, params, foldOption body⟩

/-- The values of a list of trees. -/
def foldList : List Node → List β
  | [] => []
  | node :: rest => fold node :: foldList rest

/-- The value of an optional tree. -/
def foldOption : Option Node → Option β
  | none => none
  | some node => some (fold node)

/-- The values of declared functions under their names. -/
def foldDecls : List (String × Node) → List (String × β)
  | [] => []
  | (name, node) :: rest => (name, fold node) :: foldDecls rest

end

theorem foldList_eq (nodes : List Node) : foldList step nodes = nodes.map (fold step) := by
  induction nodes with
  | nil => rfl
  | cons node rest ih => simp [foldList, ih]

theorem foldOption_eq (node : Option Node) : foldOption step node = node.map (fold step) := by
  cases node <;> rfl

theorem foldDecls_eq (decls : List (String × Node)) :
    foldDecls step decls = decls.map (fun (name, node) => (name, fold step node)) := by
  induction decls with
  | nil => rfl
  | cons decl rest ih => simp [foldDecls, ih]

theorem foldKind_eq (kind : Kind Node) : foldKind step kind = kind.map (fold step) := by
  cases kind with
  | sourceElements body =>
    obtain ⟨varNames, funcDecls, statements, sourceName⟩ := body
    simp [foldKind, Kind.map, foldList_eq, foldDecls_eq]
  | functionStatement function =>
    obtain ⟨name, params, body⟩ := function
    simp [foldKind, Kind.map, foldOption_eq]
  | _ => simp [foldKind, Kind.map, foldList_eq, foldOption_eq]

/-- The value of a node is the step applied to the values of its children. -/
theorem fold_mk (pos : Position) (kind : Kind Node) :
    fold step ⟨pos, kind⟩ = step pos (kind.map (fold step)) := by
  rw [fold, foldKind_eq]

/-- A child is a smaller tree. -/
theorem sizeOf_lt_of_mem_children {child : Node} {kind : Kind Node} (h : child ∈ kind.children) :
    sizeOf child < sizeOf kind := by
  have ofList (nodes : List Node) (h : child ∈ nodes) : sizeOf child < sizeOf nodes :=
    List.sizeOf_lt_of_mem h
  have ofOption (node : Option Node) (h : child ∈ node.toList) : sizeOf child < sizeOf node := by
    cases node with
    | none => simp at h
    | some node => simp at h; subst h; simp
  cases kind with
  | sourceElements body =>
    obtain ⟨varNames, funcDecls, statements, sourceName⟩ := body
    simp only [Kind.children, List.mem_append, List.mem_map] at h
    rcases h with ⟨⟨name, node⟩, hmem, rfl⟩ | hmem
    · have := List.sizeOf_lt_of_mem hmem
      simp at this ⊢
      omega
    · have := ofList _ hmem
      simp
      omega
  | functionStatement function =>
    obtain ⟨name, params, body⟩ := function
    have : sizeOf child < sizeOf body := ofOption _ h
    simp
    omega
  | _ =>
    simp only [Kind.children, List.mem_cons, List.mem_append, List.not_mem_nil, or_false] at h <;>
      simp <;> grind

/-- What holds of a node whenever it holds of its children holds of every node. -/
theorem induction {motive : Node → Prop}
    (step : ∀ pos kind, (∀ child ∈ kind.children, motive child) → motive ⟨pos, kind⟩)
    (node : Node) : motive node :=
  match node with
  | ⟨pos, kind⟩ => step pos kind fun child _ => induction step child
termination_by sizeOf node
decreasing_by
  have := sizeOf_lt_of_mem_children (by assumption)
  simp
  omega

/-- Folding with the node constructor rebuilds the tree. -/
theorem fold_node (node : Node) : fold Node.mk node = node := by
  induction node using induction with
  | step pos kind ih => rw [fold_mk, Kind.map_congr kind ih, Kind.map_id']

/-- The value of the tree under a step that sees the children beside their values. -/
def para (step : Position → Kind (Node × β) → β) (node : Node) : β :=
  (fold (fun pos kind => (⟨pos, kind.map Prod.fst⟩, step pos kind)) node).2

theorem fold_para (step : Position → Kind (Node × β) → β) (node : Node) :
    fold (fun pos kind => (⟨pos, kind.map Prod.fst⟩, step pos kind)) node =
      (node, para step node) := by
  refine Prod.ext ?_ rfl
  induction node using induction with
  | step pos kind ih =>
    simp only [fold_mk, Kind.map_map]
    rw [Kind.map_congr kind ih, Kind.map_id']

/-- The value of a node is the step applied to the children with their values. -/
theorem para_mk (step : Position → Kind (Node × β) → β) (pos : Position) (kind : Kind Node) :
    para step ⟨pos, kind⟩ = step pos (kind.map fun node => (node, para step node)) := by
  rw [para, fold_mk, Kind.map_congr kind fun node _ => fold_para step node]

/-- The step of `preorder`: the node itself, and the list of the nodes from it on down. -/
def preorderStep (pos : Position) (kind : Kind (Node × List Node)) : Node × List Node :=
  let node : Node := ⟨pos, kind.map Prod.fst⟩
  (node, node :: kind.children.flatMap Prod.snd)

/-- The nodes of the tree, each before the nodes below it, children in source order. -/
def preorder (node : Node) : List Node := (fold preorderStep node).2

theorem fold_preorderStep (node : Node) : fold preorderStep node = (node, node.preorder) :=
  fold_para _ node

/-- A tree in preorder is its root followed by the trees of the children in turn. -/
theorem preorder_eq (node : Node) :
    node.preorder = node :: node.children.flatMap preorder := by
  obtain ⟨pos, kind⟩ := node
  rw [preorder, fold_mk, preorderStep]
  simp only [Kind.map_map, fold_preorderStep, Kind.map_id', Kind.children_map, children,
    List.flatMap_map]

theorem mem_preorder_self (node : Node) : node ∈ node.preorder := by
  rw [preorder_eq]
  exact List.mem_cons_self ..

/-- The nodes of a tree are its root and those of its children. -/
theorem mem_preorder_iff {node root : Node} :
    node ∈ root.preorder ↔ node = root ∨ ∃ child ∈ root.children, node ∈ child.preorder := by
  rw [preorder_eq, List.mem_cons, List.mem_flatMap]

theorem preorder_trans {a b c : Node} (hb : b ∈ a.preorder) (hc : c ∈ b.preorder) :
    c ∈ a.preorder := by
  induction a using induction with
  | step pos kind ih =>
    rcases mem_preorder_iff.mp hb with rfl | ⟨child, hchild, hb⟩
    · exact hc
    · exact mem_preorder_iff.mpr (.inr ⟨child, hchild, ih child hchild hb⟩)

end Node
end ScriptAst
