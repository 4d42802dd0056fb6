import ScriptAst.Proofs.Grammar.Inside

/-! # Other names

`ParseTree.rename r` is the tree with other names: `r` is applied to the text of every token of the
class of names, and nothing else is touched.  `Kind.rename r` does the same to a kind of node, and
`Defect.map` to the texts that a defect quotes.

Productions tell tokens apart by a fixed list of texts (`comparedTexts`).  If no other text is
renamed to one of these, none of the comparisons comes out differently (`KeepsWords`).  What remains
is that a text is taken for a name only where it has been renamed as one: behind a dot and as the
label of a jump stands a token of the class of names (`ParseTree.Labelled`).
-/
namespace ScriptAst

/-- The text of a token of the class `symbol`, with `r` applied to it if it is a name. -/
def spelled (r : String → String) (symbol text : String) : String :=
  if symbol = Symbol.identifierName.name then r text else text

section Texts

variable (r : String → String) (text : String)

@[simp] theorem spelled_name : spelled r Symbol.identifierName.name text = r text := if_pos rfl

theorem spelled_of_ne {symbol : String} (h : symbol ≠ Symbol.identifierName.name) :
    spelled r symbol text = text := if_neg h

@[simp] theorem spelled_id (symbol : String) : spelled id symbol text = text := ite_self _

end Texts

/-! ## Texts that are compared with -/

/-- The texts that productions compare the text of a token with.  The word `finally` is not among
them: a clause is a `finally` if it is no `catch`. -/
def comparedTexts : List String :=
  Production.emptySlots ++
    ["new", "catch", "while", "do", "true", "false", "null", ".", "["] ++
      (BinaryOp.all.map BinaryOp.token ++ UnaryOp.all.map UnaryOp.token ++
        AssignOp.all.map AssignOp.token)

/-- Each of the texts compared with is what it itself is renamed to, and nothing else is. -/
def KeepsWords (r : String → String) : Prop :=
  ∀ word ∈ comparedTexts, ∀ text, r text = word ↔ text = word

theorem KeepsWords.id : KeepsWords id := fun _ _ _ => Iff.rfl

/-- An injective renaming keeps the words that it fixes. -/
theorem KeepsWords.of_injective {r : String → String} (hr : Function.Injective r)
    (hfixed : ∀ word ∈ comparedTexts, r word = word) : KeepsWords r := by
  intro word hword text
  rw [← hfixed word hword, hr.eq_iff, hfixed word hword]

theorem BinaryOp.token_mem_comparedTexts (op : BinaryOp) : op.token ∈ comparedTexts := by
  cases op <;> decide

theorem UnaryOp.token_mem_comparedTexts (op : UnaryOp) : op.token ∈ comparedTexts := by
  cases op <;> decide

theorem AssignOp.token_mem_comparedTexts (op : AssignOp) : op.token ∈ comparedTexts := by
  cases op <;> decide

namespace KeepsWords

variable {r : String → String} (h : KeepsWords r) (symbol text : String)
include h

theorem spelled_eq_iff {word : String} (hword : word ∈ comparedTexts) :
    spelled r symbol text = word ↔ text = word := by
  unfold spelled
  split
  · exact h word hword text
  · exact Iff.rfl

theorem binaryOp_spelled : BinaryOp.ofToken? (spelled r symbol text) = BinaryOp.ofToken? text := by
  refine Option.ext fun op => ?_
  rw [BinaryOp.ofToken?_eq_some_iff, BinaryOp.ofToken?_eq_some_iff, eq_comm,
    h.spelled_eq_iff symbol text op.token_mem_comparedTexts, eq_comm]

theorem unaryOp_spelled : UnaryOp.ofToken? (spelled r symbol text) = UnaryOp.ofToken? text := by
  refine Option.ext fun op => ?_
  rw [UnaryOp.ofToken?_eq_some_iff, UnaryOp.ofToken?_eq_some_iff, eq_comm,
    h.spelled_eq_iff symbol text op.token_mem_comparedTexts, eq_comm]

theorem assignOp_spelled : AssignOp.ofToken? (spelled r symbol text) = AssignOp.ofToken? text := by
  refine Option.ext fun op => ?_
  rw [AssignOp.ofToken?_eq_some_iff, AssignOp.ofToken?_eq_some_iff, eq_comm,
    h.spelled_eq_iff symbol text op.token_mem_comparedTexts, eq_comm]

theorem update_spelled :
    AssignOp.updateOfToken? (spelled r symbol text) = AssignOp.updateOfToken? text := by
  rw [AssignOp.updateOfToken?, AssignOp.updateOfToken?, h.assignOp_spelled]

theorem assignment_spelled :
    AssignOp.assignmentOfToken? (spelled r symbol text) = AssignOp.assignmentOfToken? text := by
  rw [AssignOp.assignmentOfToken?, AssignOp.assignmentOfToken?, h.assignOp_spelled]

theorem mem_emptySlots_spelled :
    spelled r symbol text ∈ Production.emptySlots ↔ text ∈ Production.emptySlots := by
  have hcompared : ∀ word ∈ Production.emptySlots, word ∈ comparedTexts := by decide
  constructor
  · intro hmem
    rwa [← (h.spelled_eq_iff symbol text (hcompared _ hmem)).mp rfl] at hmem
  · intro hmem
    rwa [(h.spelled_eq_iff symbol text (hcompared _ hmem)).mpr rfl]

end KeepsWords

/-! ## Trees -/

namespace ParseTree

variable (r : String → String)

mutual

/-- The tree with `r` applied to the text of every token of the class of names. -/
def rename : ParseTree → ParseTree
  | .token symbol text pos => .token symbol (spelled r symbol text) pos
  | .node symbol children => .node symbol (renameAll children)

/-- The trees with `r` applied to the text of every token of the class of names. -/
def renameAll : List ParseTree → List ParseTree
  | [] => []
  | tree :: trees => tree.rename :: renameAll trees

end

theorem renameAll_eq (trees : List ParseTree) : renameAll r trees = trees.map (rename r) := by
  induction trees with
  | nil => rfl
  | cons tree trees ih => rw [renameAll, ih, List.map_cons]

theorem rename_token (symbol text : String) (pos : SourcePos) :
    rename r (.token symbol text pos) = .token symbol (spelled r symbol text) pos := by
  rw [rename]

theorem rename_node (symbol : String) (children : List ParseTree) :
    rename r (.node symbol children) = .node symbol (children.map (rename r)) := by
  rw [rename, renameAll_eq]

variable (tree : ParseTree)

@[simp] theorem symbol_rename : (tree.rename r).symbol = tree.symbol := by
  cases tree <;> simp only [rename_token, rename_node, symbol]

@[simp] theorem isTerminal_rename : (tree.rename r).isTerminal = tree.isTerminal := by
  cases tree <;> simp only [rename_token, rename_node, isTerminal]

@[simp] theorem children_rename : (tree.rename r).children = tree.children.map (rename r) := by
  cases tree <;> simp only [rename_token, rename_node, children, List.map_nil]

@[simp] theorem child?_rename (i : Nat) :
    (tree.rename r).child? i = (tree.child? i).map (rename r) := by
  rw [child?, child?, children_rename, List.getElem?_map]

@[simp] theorem text?_rename :
    (tree.rename r).text? = tree.text?.map (spelled r tree.symbol) := by
  cases tree <;> simp only [rename_token, rename_node, text?, symbol, Option.map_some,
    Option.map_none]

@[simp] theorem isArguments_rename :
    Production.isArguments (tree.rename r) = Production.isArguments tree := by
  rw [Production.isArguments, Production.isArguments, isTerminal_rename, symbol_rename]

@[simp] theorem rename_id : tree.rename id = tree := by
  induction tree using ParseTree.induction with
  | token symbol text pos => rw [rename_token, spelled_id]
  | node symbol children ih =>
    rw [rename_node, List.map_congr_left ih, List.map_id']

theorem isToken_rename {r : String → String} (h : KeepsWords r) {word : String}
    (hword : word ∈ comparedTexts) (tree : ParseTree) :
    (tree.rename r).isToken word = tree.isToken word := by
  rw [isToken, isToken, text?_rename, decide_eq_decide]
  cases tree.text? with
  | none => exact Iff.rfl
  | some text => simpa using h.spelled_eq_iff tree.symbol text hword

/-! ## Texts that become names -/

/-- The text, if there is one, is renamed as a name is. -/
def Named (tree : ParseTree) : Prop := ∀ text ∈ tree.text?, spelled r tree.symbol text = r text

end ParseTree

/-- A row of links onto a first operand. -/
def Symbol.isChain (symbol : Symbol) : Bool :=
  symbol.isOperation || symbol = callExpression || symbol = memberExpression

/-- What is read as a name by the node for the tree is renamed as one. -/
structure ParseTree.Labelled (r : String → String) (tree : ParseTree) : Prop where
  access {symbol : Symbol} {op name : ParseTree} {links : List ParseTree} :
    tree.symbol = symbol.name → symbol.isChain → op :: name :: links <:+ tree.children →
    op.isToken "." → name.Named r
  jump {symbol : Symbol} {label : ParseTree} : tree.symbol = symbol.name → symbol.isJump →
    tree.child? 0 = some label → label.Named r

theorem ParseTree.labelled_id (tree : ParseTree) : tree.Labelled id where
  access _ _ _ _ := fun _ _ => spelled_id ..
  jump _ _ _ := fun _ _ => spelled_id ..

/-! ## Nodes, defects -/

namespace Kind

variable {α β : Type} (r : String → String)

/-- The kind with `r` applied to every name it bears. -/
def rename : Kind α → Kind α
  | identifier name => identifier (r name)
  | variableIdentifier depth name => variableIdentifier depth (r name)
  | memberDot object name => memberDot object (r name)
  | memberDotAssignment object name value op side =>
    memberDotAssignment object (r name) value op side
  | sourceElements body =>
    sourceElements ⟨body.varNames.map r, body.funcDecls.map fun (name, decl) => (r name, decl),
      body.statements, body.sourceName⟩
  | forIn name iterable body => forIn (r name) iterable body
  | breakStatement label => breakStatement (label.map r)
  | continueStatement label => continueStatement (label.map r)
  | functionStatement function =>
    functionStatement ⟨function.name.map r, function.params.map r, function.body⟩
  | kind => kind

@[simp] theorem rename_id (kind : Kind α) : kind.rename id = kind := by
  cases kind <;> simp [rename]

/-- Renaming does not look at the children. -/
theorem map_rename (f : α → β) (kind : Kind α) : (kind.rename r).map f = (kind.map f).rename r := by
  cases kind <;> simp [rename, map]

end Kind

/-- The defect with the texts of tokens it quotes replaced by their images. -/
def Defect.map (f : String → String) : Defect → Defect
  | notAnInteger text radix => notAnInteger (f text) radix
  | unknownLiteral text => unknownLiteral (f text)
  | unknownLoopKeyword text => unknownLoopKeyword (f text)
  | unknownBinaryOperator text => unknownBinaryOperator (f text)
  | unknownUnaryOperator text => unknownUnaryOperator (f text)
  | unknownPostfixOperator text => unknownPostfixOperator (f text)
  | unknownAssignmentOperator text => unknownAssignmentOperator (f text)
  | defect => defect

@[simp] theorem Defect.map_spelled_id (symbol : String) (defect : Defect) :
    defect.map (spelled id symbol) = defect := by
  cases defect <;> simp only [map, spelled_id]

end ScriptAst
