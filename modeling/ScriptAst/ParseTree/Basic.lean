import ScriptAst.Position

/-!
# Parse trees

The input of a build: tokens with their text and position, and nodes over them.  Both bear the name
of a grammar symbol.
-/
namespace ScriptAst

/-- A token, or a node with its children in source order. -/
inductive ParseTree where
  | token (symbol text : String) (pos : SourcePos)
  | node (symbol : String) (children : List ParseTree)

namespace ParseTree

/-- The name of the symbol of a tree. -/
def symbol : ParseTree → String
  | .token symbol _ _ => symbol
  | .node symbol _ => symbol

/-- The children of a node; a token has none. -/
def children : ParseTree → List ParseTree
  | .token _ _ _ => []
  | .node _ children => children

/-- The child at a place, counted from zero. -/
def child? (tree : ParseTree) (i : Nat) : Option ParseTree := tree.children[i]?

/-- The text of a token. -/
def text? : ParseTree → Option String
  | .token _ text _ => some text
  | .node _ _ => none

/-- Where a token starts. -/
def start? : ParseTree → Option SourcePos
  | .token _ _ pos => some pos
  | .node _ _ => none

/-- Whether the tree is a token. -/
def isTerminal : ParseTree → Bool
  | .token _ _ _ => true
  | .node _ _ => false

/-- Whether the tree is a token with the given text. -/
def isToken (tree : ParseTree) (text : String) : Bool := tree.text? = some text

/-- The span of the first token on the way down through first children. -/
def position : ParseTree → Position
  | .token _ text pos => .ofToken pos text.utf8ByteSize
  | .node _ [] => .unknown
  | .node _ (first :: _) => first.position

/-- What holds of tokens, and of a node whenever it holds of its children, holds of every tree. -/
theorem induction {motive : ParseTree → Prop}
    (token : ∀ symbol text pos, motive (.token symbol text pos))
    (node : ∀ symbol children, (∀ child ∈ children, motive child) →
      motive (.node symbol children)) :
    ∀ tree, motive tree
  | .token symbol text pos => token symbol text pos
  | .node symbol children => node symbol children fun child _ => induction token node child

end ParseTree
end ScriptAst
