import ScriptAst.Node.Fold
import ScriptAst.Number.Shortest
import ScriptAst.SExpr
import ScriptAst.Text.Quoted

/-!
# Printing a tree

A node prints as a list under the name of its kind, with the position behind the name if asked for.
Names stand as they are, an absent part is an underscore, and a body lists its `var` names and its
functions before the statements.
-/
namespace ScriptAst

namespace Kind

open SExpr (atom)

/-- The sign for an absent part. -/
def absent : SExpr := atom "_"

/-- A part that may be absent. -/
def part (item : Option SExpr) : SExpr := item.getD absent

/-- A name that may be absent. -/
def namePart (name : Option String) : SExpr := part (name.map atom)

/-- The operator of an assignment, and the side of an update. -/
def writeHead (op : AssignOp) (side : Option Side) : List SExpr :=
  atom op.token :: (side.map (fun s => atom s.word)).toList

/-- What stands behind the name of a kind whose children are printed. -/
def items : Kind SExpr → List SExpr
  | int value => [atom (toString value.toInt)]
  | float value => [atom value.text]
  | string value => [atom (quoted value)]
  | boolean value => [atom (if value then "true" else "false")]
  | null | thisValue | empty => []
  | identifier name => [atom name]
  | variableIdentifier depth name => [atom (toString depth), atom name]
  | binary _ left right => [left, right]
  | unary _ operand => [operand]
  | member object index => [object, index]
  | memberDot object name => [object, atom name]
  | call callee arguments | newWithArgs callee arguments => [callee, arguments]
  | new callee => [callee]
  | array items | objectInit items | argumentList items | variableDeclList items | block items =>
    items
  | propertyInit key value => [key, value]
  | simpleAssignment target value op side => writeHead op side ++ [target, part value]
  | memberAssignment object index value op side =>
    writeHead op side ++ [object, index, part value]
  | memberDotAssignment object name value op side =>
    writeHead op side ++ [object, atom name, part value]
  | simpleIncrement target op => [atom op.token, target]
  | program body => [body]
  | sourceElements body =>
    .list "vars" (body.varNames.map atom) :: .list "funcs" (body.funcDecls.map Prod.snd) ::
      body.statements
  | conditional condition thenBranch elseBranch => [condition, thenBranch, part elseBranch]
  | whileLoop condition body => [condition, body]
  | doLoop body condition => [body, condition]
  | forLoop init condition update body => [part init, condition, part update, body]
  | forIn name iterable body => [atom name, iterable, body]
  | forVarIn target iterable body => [target, iterable, body]
  | variableDeclaration target init => [target, part init]
  | varStatement inner | exprStatement inner | throwStatement inner => [inner]
  | returnStatement value => [part value]
  | breakStatement label | continueStatement label => [namePart label]
  | tryStatement body catchParam catchBlock finallyBlock =>
    [body, part catchParam, part catchBlock, part finallyBlock]
  | withStatement object body => [object, body]
  | functionStatement function =>
    [namePart function.name, .list "params" (function.params.map atom), part function.body]

end Kind

namespace Node

/-- The name at the head of a printed node. -/
def heading (positions : Bool) (pos : Position) (name : String) : String :=
  if positions then name ++ "@" ++ pos.span else name

/-- The printed node over its printed children. -/
def printStep (positions : Bool) (pos : Position) (kind : Kind SExpr) : SExpr :=
  .list (heading positions pos kind.name) kind.items

/-- The tree as an S-expression, with or without positions. -/
def toSExpr (positions : Bool) (node : Node) : SExpr := node.fold (printStep positions)

/-- The printed text of the tree. -/
def print (positions : Bool) (node : Node) : String := (node.toSExpr positions).render

/-- A printed node is a list of the node's own items around the printed children. -/
theorem toSExpr_mk (positions : Bool) (pos : Position) (kind : Kind Node) :
    toSExpr positions ⟨pos, kind⟩ =
      .list (heading positions pos kind.name) (kind.map (toSExpr positions)).items := by
  rw [toSExpr, fold_mk, printStep, Kind.name_map]
  rfl

end Node
end ScriptAst
