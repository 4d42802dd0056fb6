import ScriptAst.Production.Slot
import ScriptAst.Symbol

/-!
# Chains

The grammar leaves operators of one rank in a row, and so accesses and calls.  A chain is folded
strictly from the left: each link takes what has been built so far as its first operand.
-/
namespace ScriptAst.Production

/-- Whether the tree is a list of arguments. -/
def isArguments (tree : ParseTree) : Bool :=
  !tree.isTerminal && tree.symbol = Symbol.arguments.name

/-- The kind of the link made of an operator and its operand, in the chain `tree`. -/
def link (tree op : ParseTree) (token : String) (left : Node) (operand : ParseTree) :
    Plan (Kind Node) :=
  if token = "." then do return .memberDot left (← text operand)
  else if token = "[" then do return .member left (← value operand)
  else
    match BinaryOp.ofToken? token with
    | some binary => do return .binary binary left (← value operand)
    | none => .fail (.malformed tree.symbol op.position (.unknownBinaryOperator token))

/-- Folds the children of `tree` from place `i` on, which are `links`, onto `left`.  A link is
positioned at its operator and a call at the whole chain. -/
def chain (tree : ParseTree) (left : Node) (i : Nat) : List ParseTree → Plan Node
  | [] => .done left
  | [.token _ _ _] => malformed tree (.missingChild (i + 1))
  | .token symbol token pos :: operand :: links => do
    let op := ParseTree.token symbol token pos
    let kind ← link tree op token left operand
    chain tree ⟨op.position, kind⟩ (i + 2) links
  | .node symbol children :: links =>
    let arguments := ParseTree.node symbol children
    if isArguments arguments then do
      chain tree ⟨tree.position, .call left (← value arguments)⟩ (i + 1) links
    else
      .fail (.malformed tree.symbol arguments.position (.expectedOperator symbol))

/-- A chain whose head is its first child. -/
def chainFromHead (tree : ParseTree) : Plan Node := do
  chain tree (← childValue tree 0) 1 (tree.children.drop 1)

/-- A chain of accesses.  If it begins with the word `new`, its head is a new object, made with the
arguments that follow the callee if there are any. -/
def memberExpression (tree : ParseTree) : Plan Node := do
  if (← child tree 0).isToken "new" then
    let callee ← childValue tree 1
    match (tree.child? 2).filter isArguments with
    | some arguments =>
      let kind := .newWithArgs callee (← value arguments)
      chain tree ⟨tree.position, kind⟩ 3 (tree.children.drop 3)
    | none => chain tree ⟨tree.position, .new callee⟩ 2 (tree.children.drop 2)
  else chainFromHead tree

end ScriptAst.Production
