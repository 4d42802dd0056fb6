import ScriptAst.Proofs.Grammar.Contents

/-! # No token is lost

The names and literals that a program is made of are tokens of a parse tree, and what they denote is
in the syntax tree: names as such, numbers and strings as values.  Both can be read from left to
right, and for a conforming tree without declared functions the two readings are the same
(`tokens_kept`): no production drops a token, takes one twice, or puts one in front of another.

A token of these classes could also stand where the grammar has a mark, or below a statement without
parts, and then nothing is built of it.  `Dialect.tidy` rules this out: in the shapes it admits, all
that is beside the parts has no such tokens (`Split`).
-/
namespace ScriptAst

/-! ## The words of a parse tree -/

namespace ParseTree

mutual

/-- The names and literals of the tree in source order, each with its class. -/
def words : ParseTree → List (Symbol × String)
  | .token symbol text _ =>
    ((Symbol.ofName? symbol).filter Symbol.isToken).toList.map fun symbol => (symbol, text)
  | .node _ children => wordsOf children

/-- The names and literals of trees in a row. -/
def wordsOf : List ParseTree → List (Symbol × String)
  | [] => []
  | tree :: trees => tree.words ++ wordsOf trees

end

theorem words_token {symbol : Symbol} (h : symbol.isToken) (text : String) (pos : SourcePos) :
    words (.token symbol.name text pos) = [(symbol, text)] := by
  rw [words, Symbol.ofName?_name, Option.filter_some_pos h]
  rfl

theorem words_node (symbol : String) (children : List ParseTree) :
    words (.node symbol children) = children.flatMap words := by
  have wordsOf_eq (trees : List ParseTree) : wordsOf trees = trees.flatMap words := by
    induction trees with
    | nil => rfl
    | cons tree trees ih => rw [wordsOf, ih, List.flatMap_cons]
  rw [words, wordsOf_eq]

end ParseTree

/-- The names and literals of parts in a row. -/
def wordsIn (parts : List Part) : List (Symbol × String) := parts.flatMap fun part => part.2.words

theorem wordsIn_each (slot : Slot) (trees : List ParseTree) :
    wordsIn (slot.each trees) = trees.flatMap ParseTree.words :=
  List.flatMap_map ..

/-- The trees are the parts in order, some of them in clauses, and trees without names and literals
between them. -/
inductive Split : List ParseTree → List Part → Prop
  | nil : Split [] []
  | part {trees : List ParseTree} {parts : List Part} (slot : Slot) (tree : ParseTree) :
      Split trees parts → Split (tree :: trees) ((slot, tree) :: parts)
  | mark {tree : ParseTree} {trees : List ParseTree} {parts : List Part} : tree.words = [] →
      Split trees parts → Split (tree :: trees) parts
  | clause {inner trees : List ParseTree} {innerParts parts : List Part} (symbol : String) :
      Split inner innerParts → Split trees parts →
      Split (.node symbol inner :: trees) (innerParts ++ parts)

theorem Split.words_eq {trees : List ParseTree} {parts : List Part} (h : Split trees parts) :
    trees.flatMap ParseTree.words = wordsIn parts := by
  induction h with
  | nil => rfl
  | part slot tree _ ih => rw [List.flatMap_cons, ih, wordsIn, wordsIn, List.flatMap_cons]
  | mark hnone _ ih => rw [List.flatMap_cons, hnone, ih, List.nil_append]
  | clause symbol _ _ ihInner ih =>
    rw [List.flatMap_cons, ParseTree.words_node, ihInner, ih, wordsIn, wordsIn, wordsIn,
      List.flatMap_append]

/-- The shapes in which names and literals are parts, or in parts. -/
def Dialect.tidy (g : Dialect) : Table := fun symbol children parts =>
  Shape g symbol children parts ∧ Split children parts

theorem Dialect.tidy_within (g : Dialect) : g.tidy.Within g := fun h => h.1

/-! ## The words of a syntax tree -/

/-- What a name or a literal denotes. -/
inductive Lexeme where
  | name (text : String)
  | int (value : Int64)
  | float (value : Binary64)
  | string (value : String)

namespace Kind

/-- The value that a literal with one is. -/
def value? {α : Type} : Kind α → Option Lexeme
  | int value => some (.int value)
  | float value => some (.float value)
  | string value => some (.string value)
  | _ => none

/-- What a kind denotes from left to right, given what its children do. -/
def lexemes : Kind (List Lexeme) → List Lexeme
  | int value => [.int value]
  | float value => [.float value]
  | string value => [.string value]
  | identifier name | variableIdentifier _ name => [.name name]
  | memberDot object name => object ++ [.name name]
  | memberDotAssignment object name value _ _ => object ++ .name name :: value.getD []
  | breakStatement label | continueStatement label => label.toList.map .name
  | forIn name iterable body => .name name :: (iterable ++ body)
  | functionStatement function =>
    function.name.toList.map .name ++ (function.params.map .name ++ function.body.getD [])
  | kind => kind.children.flatten

end Kind

/-- The names and values met on the way through the tree, from left to right. -/
def Node.lexemes (node : Node) : List Lexeme := node.fold fun _ kind => kind.lexemes

/-- What the token denotes. -/
def lexeme? : Symbol × String → Option Lexeme
  | (.identifierName, text) => some (.name text)
  | (symbol, text) => (symbol.literal? text).bind Kind.value?

namespace Node

theorem lexemes_mk (pos : Position) (kind : Kind Node) :
    lexemes ⟨pos, kind⟩ = (kind.map lexemes).lexemes := fold_mk ..

theorem lexemes_children {pos : Position} {kind : Kind Node}
    (h : (kind.map lexemes).lexemes = (kind.map lexemes).children.flatten) :
    lexemes ⟨pos, kind⟩ = kind.children.flatMap lexemes := by
  rw [lexemes_mk, h, Kind.children_map, List.flatMap_def]

theorem flatten_toList (node : Option Node) :
    (node.map lexemes).getD [] = node.toList.flatMap lexemes := by
  cases node with
  | none => rfl
  | some node => exact (List.append_nil _).symm

theorem lexemes_leftToRight : LeftToRight lexemes fun name => [.name name] where
  contents {pos kind} hkind := by
    have hchildren (h : (kind.map lexemes).lexemes = (kind.map lexemes).children.flatten)
        (hcontents : kind.contents = kind.children.map .node) :
        lexemes ⟨pos, kind⟩ =
          kind.contents.flatMap (Item.read lexemes fun name => [.name name]) := by
      rw [lexemes_children h, hcontents, LeftToRight.flatMap_nodes]
    have hnames (names : List String) :
        (names.map Item.text).flatMap (Item.read lexemes fun name => [.name name]) =
          names.map .name := by
      rw [LeftToRight.flatMap_texts]
      exact (List.map_eq_flatMap ..).symm
    cases kind with
    | int | float | string | variableDeclaration | sourceElements => exact False.elim hkind
    | identifier | variableIdentifier => rfl
    | memberDot object name => simp [lexemes_mk, Kind.map, Kind.lexemes, Kind.contents, Item.read]
    | memberDotAssignment object name value =>
      rw [lexemes_mk]
      simp [Kind.map, Kind.lexemes, Kind.contents, Item.read, flatten_toList,
        LeftToRight.flatMap_nodes]
    | breakStatement label | continueStatement label =>
      rw [lexemes_mk]
      exact (hnames _).symm
    | forIn => simp [lexemes_mk, Kind.map, Kind.lexemes, Kind.contents, Item.read]
    | functionStatement function =>
      rw [lexemes_mk]
      simp [Kind.map, Kind.lexemes, Kind.contents, hnames, flatten_toList,
        LeftToRight.flatMap_nodes]
    | _ => exact hchildren rfl rfl
  emptyBody {pos source} := by rw [lexemes_mk]; rfl

end Node

/-- A literal denotes what is built of it. -/
theorem Symbol.lexeme?_literal {symbol : Symbol} {text : String} {kind : Kind Node}
    (h : symbol.literal? text = some kind) (pos : Position) :
    symbol.isToken ∧ [lexeme? (symbol, text)] = (Node.lexemes ⟨pos, kind⟩).map some := by
  rw [Node.lexemes_mk]
  cases symbol with
  | decimalLiteral =>
    cases h
    have hlexeme : lexeme? (.decimalLiteral, text) =
      (Literal.decimal text).value? (α := Node) := rfl
    rw [hlexeme]
    obtain ⟨value, hvalue⟩ | ⟨value, hvalue⟩ := Literal.decimal_eq text <;> rw [hvalue] <;>
      exact ⟨rfl, rfl⟩
  | hexIntegerLiteral | octalLiteral =>
    obtain ⟨value, _, rfl⟩ := Option.map_eq_some_iff.mp h
    refine ⟨rfl, ?_⟩
    rw [lexeme?, h]
    · rfl
    · exact nofun
  | doubleString | singleString =>
    cases h
    exact ⟨rfl, rfl⟩
  | _ => exact nomatch h

/-! ## The build -/

/-- **What is built reads like the tokens it is built of.** -/
theorem Built.lexemes_eq {g : Dialect} (hg : ¬ g.declarations) {options : Options}
    {parts : List Part} {before after : Scopes} {items : List Item}
    (h : Built g.tidy options parts before items after) :
    (wordsIn parts).map lexeme? =
      (items.flatMap (Item.read Node.lexemes fun name => [.name name])).map some := by
  have single (part : Part) : wordsIn [part] = part.2.words := List.append_nil _
  have singleItem (node : Node) : [Item.node node].flatMap
      (Item.read Node.lexemes fun name => [.name name]) = node.lexemes := List.append_nil _
  have hword (word : Word) : word.tree.words.map lexeme? = [some (.name word.text)] := by
    rw [ParseTree.words_token rfl]
    rfl
  induction h with
  | nil => rfl
  | @cons part parts _ _ _ items rest _ _ ih ihRest =>
    rw [single] at ih
    rw [List.flatMap_append, List.map_append, ← ih, ← ihRest, ← List.map_append]
    rfl
  | label word => rw [single, hword]; rfl
  | @reference _ scopes word =>
    rw [single, hword, singleItem,
      Node.lexemes_leftToRight.reference (word.literalName?_node options scopes)]
    rfl
  | literal pos hliteral =>
    obtain ⟨htoken, hlexeme⟩ := Symbol.lexeme?_literal hliteral _
    rw [single, ParseTree.words_token htoken, singleItem]
    exact hlexeme
  | made _ hrow _ hmade ih =>
    rw [single, singleItem, hmade.read_eq Node.lexemes_leftToRight, ← ih, ParseTree.words_node,
      hrow.2.words_eq]
  | @declaration _ _ name init before _ initNode _ _ ih =>
    have hname := Node.lexemes_leftToRight.reference (name.literalName?_node options before)
    rw [wordsIn_each, LeftToRight.flatMap_nodes] at ih
    rw [single, singleItem, ParseTree.words_node, List.flatMap_cons, List.map_append, hword, ih,
      Node.lexemes_children rfl]
    show _ = List.map some (List.flatMap _ (name.node options before :: initNode.toList))
    rw [List.flatMap_cons, hname]
    rfl
  | @body _ _ scopes frame statements hbuilt ih =>
    have hnone : frame.funcs = [] :=
      (List.cons.inj (hbuilt.funcs_eq g.tidy_within hg)).1
    rw [wordsIn_each, LeftToRight.flatMap_nodes] at ih
    rw [single, singleItem, ParseTree.words_node, ih, Node.lexemes_children rfl]
    show _ = List.map some (List.flatMap _ (frame.funcs.map Prod.snd ++ statements))
    rw [hnone]
    rfl
  | functionDeclaration hrow => exact absurd hrow.1.of_functionDeclaration.1 hg

/-- The contract with tokens as they come, where no functions are declared and nothing follows a
`finally` clause. -/
def Dialect.plain : Dialect := .unreserved False False

/-- **No token is lost, doubled or moved.**  If a conforming tree is built that declares no
functions and has names and literals in their slots only, then what they denote from left to right
is what the result denotes from left to right. -/
theorem tokens_kept {slot : Slot} {tree : ParseTree}
    (h : Follows Dialect.plain.tidy Dialect.plain.spelling slot tree) {options : Options}
    {root : Node} (hbuild : build options tree = .ok root) :
    tree.words.map lexeme? = root.lexemes.map some := by
  have hg := Dialect.unreserved_supported False False
  obtain ⟨_, after, hbuilt⟩ := Follows.built_of_ok hg (Dialect.tidy_within _) h hbuild
  have hlexemes := hbuilt.lexemes_eq id
  simp only [wordsIn, List.flatMap_cons, List.flatMap_nil, List.append_nil] at hlexemes
  exact hlexemes

/-- A write to a member: `a.b = 0x2A`. -/
def memberWriteSample : ParseTree :=
  .node "assignmentexpression" [
    .node "memberexpression" [
      .token "IDENTIFIERNAME" "a" ⟨0, 1, 0⟩, .token "." "." ⟨1, 1, 1⟩,
      .token "IDENTIFIERNAME" "b" ⟨2, 1, 2⟩],
    .token "=" "=" ⟨4, 1, 4⟩, .token "HEXINTEGERLITERAL" "0x2A" ⟨6, 1, 6⟩]

theorem memberWriteSample_follows :
    Follows Dialect.plain.tidy Dialect.plain.spelling .expression memberWriteSample := by
  have hobjectName : Follows Dialect.plain.tidy Dialect.plain.spelling .expression
      (.token Symbol.identifierName.name "a" ⟨0, 1, 0⟩) :=
    .token _ rfl rfl (show "a" ∉ reservedTexts by decide)
  have hmemberName : Follows Dialect.plain.tidy Dialect.plain.spelling .label
      (.token Symbol.identifierName.name "b" ⟨2, 1, 2⟩) :=
    .token _ rfl rfl (show "b" ∉ reservedTexts by decide)
  have hvalue : Follows Dialect.plain.tidy Dialect.plain.spelling .expression
      (.token Symbol.hexIntegerLiteral.name "0x2A" ⟨6, 1, 6⟩) :=
    .token _ rfl rfl (show "0x2A" ∉ reservedTexts by decide)
  have hmember : Follows Dialect.plain.tidy Dialect.plain.spelling .expression
      (.node Symbol.memberExpression.name [_, _, _]) :=
    .node rfl ⟨.memberExpression _ (.dot ⟨".", 1, 1, 1⟩ ⟨"b", 2, 1, 2⟩ (.nil _)),
      .part _ _ (.mark rfl (.part _ _ .nil))⟩
      (List.forall_mem_cons.mpr ⟨hobjectName, List.forall_mem_singleton.mpr hmemberName⟩)
  have hshape (target value : ParseTree) (mark : Mark AssignOp.assign.token) :
      Shape Dialect.plain .assignmentExpression [target, mark.tree, value]
        [(.expression, target), (.expression, value)] := .assignment target mark value rfl rfl
  have hwrite : Follows Dialect.plain.tidy Dialect.plain.spelling .expression
      (.node Symbol.assignmentExpression.name [_, _, _]) :=
    .node rfl ⟨hshape _ _ ⟨"=", 4, 1, 4⟩, .part _ _ (.mark rfl (.part _ _ .nil))⟩
      (List.forall_mem_cons.mpr ⟨hmember, List.forall_mem_singleton.mpr hvalue⟩)
  exact hwrite

theorem tokens_kept_memberWrite :
    Follows Dialect.plain.tidy Dialect.plain.spelling .expression memberWriteSample ∧
      ∃ root, build ⟨"", true⟩ memberWriteSample = .ok root ∧
        root.lexemes = [.name "a", .name "b", .int 42] ∧
        memberWriteSample.words.map lexeme? = root.lexemes.map some := by
  let root : Node :=
    ⟨⟨1, 0, 1⟩, .memberDotAssignment ⟨⟨1, 0, 1⟩, .identifier "a"⟩ "b"
      (some ⟨⟨1, 6, 10⟩, .int 42⟩) .assign none⟩
  have hbuild : build ⟨"", true⟩ memberWriteSample = .ok root := rfl
  exact ⟨memberWriteSample_follows, root, hbuild, rfl,
    tokens_kept memberWriteSample_follows hbuild⟩

end ScriptAst
