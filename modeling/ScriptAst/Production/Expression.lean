import ScriptAst.Assignment
import ScriptAst.Literal
import ScriptAst.Production.Chain

/-!
# Expressions

The plans for literals, names, operators other than chains, and lists of expressions.
-/
namespace ScriptAst.Production

/-- A node of the given kind at the position of the tree. -/
def nodeAt (tree : ParseTree) (kind : Kind Node) : Node := ⟨tree.position, kind⟩

/-! ### Literals and names -/

/-- A decimal number. -/
def decimalLiteral (tree : ParseTree) : Plan Node := do
  return nodeAt tree (Literal.decimal (← text tree))

/-- An integer in the given base. -/
def radixLiteral (radix : Nat) (tree : ParseTree) : Plan Node := do
  let token ← text tree
  match Literal.radix? token radix with
  | some value => return nodeAt tree (.int value)
  | none => malformed tree (.notAnInteger token radix)

/-- A string. -/
def stringLiteral (tree : ParseTree) : Plan Node := do
  return nodeAt tree (.string (Literal.string (← text tree)))

/-- The literals that are words. -/
def keywordLiteral (tree : ParseTree) : Plan Node := do
  let word ← childText tree 0
  if word = "true" then return nodeAt tree (.boolean true)
  else if word = "false" then return nodeAt tree (.boolean false)
  else if word = "null" then return nodeAt tree .null
  else malformed tree (.unknownLiteral word)

/-- A name, with the distance to the body that declares it if there is one. -/
def identifier (tree : ParseTree) : Plan Node := do
  let name ← text tree
  .lookup name fun
    | some depth => .done (nodeAt tree (.variableIdentifier depth name))
    | none => .done (nodeAt tree (.identifier name))

/-- The object a function is called on. -/
def primaryExpression (tree : ParseTree) : Plan Node := .done (nodeAt tree .thisValue)

/-! ### Operators -/

/-- An operator before its operand. -/
def unaryExpression (tree : ParseTree) : Plan Node := do
  let op ← child tree 0
  let token ← text op
  let operand ← childValue tree 1
  match AssignOp.updateOfToken? token with
  | some update => .ofExcept (Node.write op.position operand update none (some .pre))
  | none =>
    match UnaryOp.ofToken? token with
    | some unary => return nodeAt op (.unary unary operand)
    | none => .fail (.malformed tree.symbol op.position (.unknownUnaryOperator token))

/-- An update behind its operand. -/
def postfixExpression (tree : ParseTree) : Plan Node := do
  let op ← child tree 1
  let token ← text op
  let operand ← childValue tree 0
  match AssignOp.updateOfToken? token with
  | some update => .ofExcept (Node.write op.position operand update none (some .post))
  | none => .fail (.malformed tree.symbol op.position (.unknownPostfixOperator token))

/-- A plain or compound assignment. -/
def assignmentExpression (tree : ParseTree) : Plan Node := do
  let target ← childValue tree 0
  let token ← childText tree 1
  match AssignOp.assignmentOfToken? token with
  | some op =>
    let value ← childValue tree 2
    .ofExcept (Node.write tree.position target op (some value) none)
  | none => malformed tree (.unknownAssignmentOperator token)

/-- A choice between two expressions. -/
def conditionalExpression (tree : ParseTree) : Plan Node := do
  let condition ← childValue tree 0
  let thenBranch ← childValue tree 2
  let elseBranch ← childValue tree 3
  return nodeAt tree (.conditional condition thenBranch (some elseBranch))

/-- A new object without arguments, or the operand alone. -/
def newExpression (tree : ParseTree) : Plan Node := do
  if tree.children.length = 1 then childValue tree 0
  else return nodeAt tree (.new (← childValue tree 1))

/-! ### Lists -/

/-- The arguments of a call, behind an opening token. -/
def arguments (tree : ParseTree) : Plan Node := do
  return nodeAt tree (.argumentList (← values (tree.children.drop 1)))

/-- The parameters of a function. -/
def formalParameterList (tree : ParseTree) : Plan Node := do
  return nodeAt tree (.argumentList (← values tree.children))

/-- The items of an array, behind the token that positions it. -/
def arrayLiteral (tree : ParseTree) : Plan Node := do
  let opening ← child tree 0
  return nodeAt opening (.array (← values (tree.children.drop 1)))

/-- The properties of an object, behind the token that positions it. -/
def objectLiteral (tree : ParseTree) : Plan Node := do
  let opening ← child tree 0
  return nodeAt opening (.objectInit (← values (tree.children.drop 1)))

/-- The key of a property; a bare name is no reference to a variable. -/
def propertyKey (key : ParseTree) : Plan Node := do
  if key.symbol = Symbol.identifierName.name then
    return nodeAt key (.identifier (← text key))
  else value key

/-- A property of an object. -/
def propertyNameAndValue (tree : ParseTree) : Plan Node := do
  let key ← propertyKey (← child tree 0)
  let value ← childValue tree 1
  return nodeAt tree (.propertyInit key value)

end ScriptAst.Production
