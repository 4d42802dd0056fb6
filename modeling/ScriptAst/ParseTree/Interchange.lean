import ScriptAst.ParseTree.Basic
import ScriptAst.Json.Reader
import ScriptAst.Json.Writer

/-!
# Interchange form of parse trees

Trees travel as JSON objects.  The member `kind` tells tokens (`terminal`) from nodes
(`nonterminal`) and may stand anywhere in the object; members that the kind does not have are
skipped, and members that it has may not be repeated.  Short forms as arrays, with the parts in
order behind the kind, are read as well but never written.
-/
namespace ScriptAst

/-- The two kinds of trees. -/
inductive ParseTree.Form where
  | terminal
  | nonterminal
  deriving DecidableEq

namespace SourcePos

/-- The position in JSON. -/
def toJson (pos : SourcePos) : Json :=
  .object [("index", .natural pos.index.toNat), ("line", .natural pos.line.toNat),
    ("column", .natural pos.column.toNat)]

/-- The position that a JSON value writes down.  An object may leave out the index. -/
def ofJson? : Json → Option SourcePos
  | .object members => do
    let index ← Json.optional? "index" (.natural 0) members
    let line ← Json.required? "line" members
    let column ← Json.required? "column" members
    return ⟨← index.word?, ← line.word?, ← column.word?⟩
  | .array [index, line, column] => return ⟨← index.word?, ← line.word?, ← column.word?⟩
  | _ => none

end SourcePos

namespace ParseTree

/-! ### Writing -/

mutual

/-- The tree in JSON. -/
def toJson : ParseTree → Json
  | .token symbol text pos =>
    .object [("kind", .string "terminal"), ("symbol", .string symbol), ("text", .string text),
      ("pos", pos.toJson)]
  | .node symbol children =>
    .object [("kind", .string "nonterminal"), ("symbol", .string symbol),
      ("children", .array (listToJson children))]

/-- A list of trees in JSON. -/
def listToJson : List ParseTree → List Json
  | [] => []
  | tree :: trees => toJson tree :: listToJson trees

end

theorem listToJson_eq (trees : List ParseTree) : listToJson trees = trees.map toJson := by
  induction trees with
  | nil => rfl
  | cons tree trees ih => rw [listToJson, ih, List.map_cons]

/-- The text of the tree in JSON. -/
def toJsonText (tree : ParseTree) : String := tree.toJson.write

/-! ### Reading -/

/-- The kind that a JSON value names.  Below the root it may also be given by its number. -/
def form? (isRoot : Bool) : Json → Option Form
  | .string "terminal" => some .terminal
  | .string "nonterminal" => some .nonterminal
  | .natural 0 => if isRoot then none else some .terminal
  | .natural 1 => if isRoot then none else some .nonterminal
  | _ => none

/-- The token with the given members. -/
def tokenOfMembers? (members : List (String × Json)) : Option ParseTree := do
  let symbol ← Json.required? "symbol" members
  let text ← Json.required? "text" members
  let pos ← Json.required? "pos" members
  return .token (← symbol.string?) (← text.string?) (← SourcePos.ofJson? pos)

/-- The node with the given members; `children` holds what its members of that name were read as. -/
def nodeOfMembers? (members : List (String × Json)) (children : List (Option (List ParseTree))) :
    Option ParseTree := do
  let symbol ← Json.required? "symbol" members
  match children with
  | [] => return .node (← symbol.string?) []
  | [children] => return .node (← symbol.string?) (← children)
  | _ => none

mutual

/-- The tree that a JSON value writes down. -/
def ofJson? (isRoot : Bool) : Json → Option ParseTree
  | .object members => do
    match ← form? isRoot (← Json.required? "kind" members) with
    | .terminal => tokenOfMembers? members
    | .nonterminal => nodeOfMembers? members (childLists members)
  | .array [kind, symbol] => do
    match ← form? isRoot kind with
    | .terminal => none
    | .nonterminal => return .node (← symbol.string?) []
  | .array [kind, symbol, children] => do
    match ← form? isRoot kind with
    | .terminal => none
    | .nonterminal => return .node (← symbol.string?) (← children? children)
  | .array [kind, symbol, text, pos] => do
    match ← form? isRoot kind with
    | .terminal => return .token (← symbol.string?) (← text.string?) (← SourcePos.ofJson? pos)
    | .nonterminal => none
  | _ => none

/-- What the members named `children` are read as. -/
def childLists : List (String × Json) → List (Option (List ParseTree))
  | [] => []
  | (name, value) :: members =>
    if name = "children" then children? value :: childLists members else childLists members

/-- The trees that a JSON value lists. -/
def children? : Json → Option (List ParseTree)
  | .array items => list? items
  | _ => none

/-- The trees that JSON values write down one by one. -/
def list? : List Json → Option (List ParseTree)
  | [] => some []
  | item :: items => do return (← ofJson? false item) :: (← list? items)

end

/-- The tree that a JSON text writes down. -/
def ofJsonText? (text : String) : Option ParseTree := (Json.read? text).bind (ofJson? true)

end ParseTree
end ScriptAst
