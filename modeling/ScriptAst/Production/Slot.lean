import ScriptAst.Plan

/-!
# Reading the children of a node

The plans of productions take the children of a node by place.  A child that is missing, or a node
where a token is expected, makes the parse tree malformed, and the error says which node is at
fault.
-/
namespace ScriptAst.Production

/-- The node does not have the shape of its symbol. -/
def malformed {α : Type} (tree : ParseTree) (defect : Defect) : Plan α :=
  .fail (.malformed tree.symbol tree.position defect)

/-- The child at a place, which has to be there. -/
def child (tree : ParseTree) (i : Nat) : Plan ParseTree :=
  match tree.child? i with
  | some child => .done child
  | none => malformed tree (.missingChild i)

/-- The text of a tree that has to be a token. -/
def text (tree : ParseTree) : Plan String :=
  match tree.text? with
  | some text => .done text
  | none => malformed tree .expectedToken

/-- The text of the token at a place. -/
def childText (tree : ParseTree) (i : Nat) : Plan String := do text (← child tree i)

/-- The node for a tree that has to have one. -/
def value (tree : ParseTree) : Plan Node :=
  .visit tree fun
    | some node => .done node
    | none => malformed tree .declarationAsValue

/-- The node for the child at a place, which has to be there. -/
def childValue (tree : ParseTree) (i : Nat) : Plan Node := do value (← child tree i)

/-- The node for the child at a place, if there is one. -/
def childValue? (tree : ParseTree) (i : Nat) : Plan (Option Node) :=
  match tree.child? i with
  | some child => do return some (← value child)
  | none => .done none

/-- The nodes for trees in turn; declarations have none. -/
def values : List ParseTree → Plan (List Node)
  | [] => .done []
  | tree :: trees => .visit tree fun node => do return node.toList ++ (← values trees)

/-- The texts that stand for an absent part. -/
def emptySlots : List String := [";", ")", "(", "\x7d"]

/-- A part that may be absent, and the place behind it.  A token for an absent part takes one place;
a part takes one and another for the token that ends it. -/
def slot (tree : ParseTree) (i : Nat) : Plan (Option Node × Nat) := do
  let part ← child tree i
  if part.text?.any (· ∈ emptySlots) then return (none, i + 1)
  return (some (← value part), i + 2)

/-- The name that a node built below `tree` has to be. -/
def nameOf (tree : ParseTree) (node : Node) : Except BuildError String :=
  match node.literalName? with
  | some name => .ok name
  | none => .error (.malformed tree.symbol node.pos .expectedName)

end ScriptAst.Production
