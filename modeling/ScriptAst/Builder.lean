import ScriptAst.Production.Statement

/-!
# Building

`dispatch` finds the production of a tree by its symbol and carries out its plan; the plan
dispatches the trees below in the same way, down to `maxNesting` levels.  `build` builds one tree on
its own, and a `Builder` keeps its frames between trees.
-/
namespace ScriptAst

/-- What a build can be told. -/
structure Options where
  /-- The name that bodies are given. -/
  sourceName : String
  /-- Whether names are resolved to the bodies that declare them. -/
  staticResolution : Bool

/-- The number of levels that a parse tree may nest. -/
def maxNesting : Nat := 1000

/-- The plan for a tree with a symbol.  Only the declaration of a function has no node. -/
def Symbol.plan (sourceName : String) (tree : ParseTree) : Symbol → Plan (Option Node)
  | decimalLiteral => node (Production.decimalLiteral tree)
  | hexIntegerLiteral => node (Production.radixLiteral 16 tree)
  | octalLiteral => node (Production.radixLiteral 8 tree)
  | doubleString | singleString => node (Production.stringLiteral tree)
  | identifierName => node (Production.identifier tree)
  | program => node (Production.program sourceName tree)
  | sourceElements => node (Production.sourceElements sourceName tree)
  | functionDeclaration => Production.functionDeclaration tree
  | functionExpression => node (Production.functionExpression tree)
  | formalParameterList => node (Production.formalParameterList tree)
  | variableStatement => node (Production.variableStatement tree)
  | variableDeclarationList | variableDeclarationListNoIn =>
    node (Production.variableDeclarationList tree)
  | variableDeclaration | variableDeclarationNoIn => node (Production.variableDeclaration tree)
  | expressionStatement => node (Production.expressionStatement tree)
  | emptyStatement => node (Production.emptyStatement tree)
  | block => node (Production.block tree)
  | ifStatement => node (Production.ifStatement tree)
  | iterationStatement => node (Production.childValue tree 0)
  | whiles => node (Production.whiles tree)
  | regularFor | regularVarFor => node (Production.regularFor tree)
  | inFor => node (Production.inFor tree)
  | inVarFor => node (Production.inVarFor tree)
  | continueStatement => node (Production.continueStatement tree)
  | breakStatement => node (Production.breakStatement tree)
  | returnStatement => node (Production.returnStatement tree)
  | withStatement => node (Production.withStatement tree)
  | throwStatement => node (Production.throwStatement tree)
  | tryStatement => node (Production.tryStatement tree)
  | expression | expressionNoIn | logicalOrExpression | logicalAndExpression
  | bitwiseOrExpression | bitwiseXorExpression | bitwiseAndExpression | equalityExpression
  | relationalExpression | shiftExpression | additiveExpression | multiplicativeExpression
  | callExpression => node (Production.chainFromHead tree)
  | assignmentExpression | assignmentExpressionNoIn => node (Production.assignmentExpression tree)
  | conditionalExpression => node (Production.conditionalExpression tree)
  | unaryExpression => node (Production.unaryExpression tree)
  | postfixExpression => node (Production.postfixExpression tree)
  | newExpression => node (Production.newExpression tree)
  | memberExpression => node (Production.memberExpression tree)
  | arguments => node (Production.arguments tree)
  | primaryExpression => node (Production.primaryExpression tree)
  | arrayLiteral => node (Production.arrayLiteral tree)
  | objectLiteral => node (Production.objectLiteral tree)
  | propertyNameAndValue => node (Production.propertyNameAndValue tree)
  | nullLiteral | booleanLiteral => node (Production.keywordLiteral tree)
where
  /-- A plan that always has a node. -/
  node (plan : Plan Node) : Plan (Option Node) := do return some (← plan)

/-- Builds a tree over the open frames, where `room` levels of nesting are left. -/
def dispatch (options : Options) : Nat → ParseTree → Scopes → Outcome (Option Node)
  | 0, tree, scopes =>
    match Symbol.ofName? tree.symbol with
    | none => ⟨.error (.unknownSymbol tree.symbol tree.position), scopes⟩
    | some _ => ⟨.error (.nestingTooDeep tree.symbol tree.position maxNesting), scopes⟩
  | room + 1, tree, scopes =>
    match Symbol.ofName? tree.symbol with
    | none => ⟨.error (.unknownSymbol tree.symbol tree.position), scopes⟩
    | some symbol =>
      (symbol.plan options.sourceName tree).run options.staticResolution
        (dispatch options room) scopes

/-- A build under way: the open frames, and the number of levels it is nested already. -/
structure Builder where
  options : Options
  scopes : Scopes
  depth : Nat

namespace Builder

/-- A build that has not begun. -/
def ofOptions (options : Options) : Builder := ⟨options, [], 0⟩

/-- Carries out a plan one level below the present one. -/
def carryOut {α : Type} (b : Builder) (plan : Plan α) : Except BuildError α × Builder :=
  let outcome :=
    plan.run b.options.staticResolution (ScriptAst.dispatch b.options (maxNesting - b.depth))
      b.scopes
  (outcome.result, { b with scopes := outcome.scopes })

/-- Builds a tree; the declaration of a function has no node. -/
def dispatch (b : Builder) (tree : ParseTree) : Except BuildError (Option Node) × Builder :=
  b.carryOut (.visit tree .done)

/-- Builds a part of a tree that may be absent, and gives the place behind it. -/
def nextSlot (b : Builder) (tree : ParseTree) (i : Nat) :
    Except BuildError (Option Node × Nat) × Builder :=
  b.carryOut (Production.slot tree i)

/-- Builds a tree that has to have a node. -/
def node (b : Builder) (tree : ParseTree) : Except BuildError Node × Builder :=
  b.carryOut (Production.value tree)

end Builder

/-- The syntax tree of a parse tree on its own. -/
def build (options : Options) (tree : ParseTree) : Except BuildError Node :=
  ((Builder.ofOptions options).node tree).1

theorem build_eq (options : Options) (tree : ParseTree) :
    build options tree =
      match (dispatch options maxNesting tree []).result with
      | .ok (some node) => .ok node
      | .ok none => .error (.malformed tree.symbol tree.position .declarationAsValue)
      | .error error => .error error := by
  show ((dispatch options maxNesting tree []).andThen _).result = _
  obtain ⟨_ | _ | _, _⟩ := dispatch options maxNesting tree [] <;> rfl

/-- A build succeeds when the dispatch of its tree over no frames answers with a node. -/
theorem build_eq_ok_iff {options : Options} {tree : ParseTree} {node : Node} :
    build options tree = .ok node ↔
      ∃ scopes, dispatch options maxNesting tree [] = ⟨.ok (some node), scopes⟩ := by
  rw [build_eq]
  obtain ⟨_ | _ | _, _⟩ := dispatch options maxNesting tree [] <;> simp

/-- The syntax trees of parse trees that have nothing to do with each other. -/
def buildAll (options : Options) (trees : List ParseTree) : List (Except BuildError Node) :=
  trees.map (build options)

end ScriptAst
