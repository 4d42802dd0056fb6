import ScriptAst.Builder

/-! # The grammar contract

Which parse trees a build is made for.  `Shape` is the table of the grammar: for each symbol, what
its children are, and the parts among them with the slot that each part stands in.  A tree conforms
to a slot (`Conforms`) if the slot admits its symbol, its children have a shape of that symbol, and
its parts conform to their slots.

Punctuation is written into the shapes (`Mark`).  A name is a part like any other, also where it is
only read and never built (`Slot.label`).  What is left open in the table is a `Dialect`: how tokens
are spelled, whether functions are declared, and whether a second clause may follow a `finally`.
-/
namespace ScriptAst

/-! ## Slots -/

/-- Where a tree can stand. -/
inductive Slot where
  | program
  /-- The statements of a program or a function. -/
  | body
  | parameters
  /-- A name that is built. -/
  | name
  /-- A name that is only read. -/
  | label
  /-- A statement or the declaration of a function. -/
  | item
  | statement
  | block
  | loop
  | declarations
  | declaration
  /-- What is set up before a loop, or what the keys of an object are put into. -/
  | header
  | expression
  /-- A key of a property that is no name. -/
  | literal
  | property
  | arguments
  deriving DecidableEq

namespace Symbol

def isLiteral : Symbol → Bool
  | decimalLiteral | hexIntegerLiteral | octalLiteral | doubleString | singleString | nullLiteral
  | booleanLiteral => true
  | _ => false

/-- A row of operators between operands. -/
def isOperation : Symbol → Bool
  | expression | expressionNoIn | logicalOrExpression | logicalAndExpression | bitwiseOrExpression
  | bitwiseXorExpression | bitwiseAndExpression | equalityExpression | relationalExpression
  | shiftExpression | additiveExpression | multiplicativeExpression => true
  | _ => false

def isAssignment : Symbol → Bool
  | assignmentExpression | assignmentExpressionNoIn => true
  | _ => false

def isExpression (symbol : Symbol) : Bool :=
  symbol.isLiteral || symbol.isOperation || symbol.isAssignment ||
    symbol ∈ [identifierName, functionExpression, conditionalExpression, unaryExpression,
      postfixExpression, newExpression, callExpression, memberExpression, primaryExpression,
      arrayLiteral, objectLiteral]

def isDeclarations : Symbol → Bool
  | variableDeclarationList | variableDeclarationListNoIn => true
  | _ => false

def isDeclaration : Symbol → Bool
  | variableDeclaration | variableDeclarationNoIn => true
  | _ => false

/-- A loop with a header of three parts. -/
def isRegularFor : Symbol → Bool
  | regularFor | regularVarFor => true
  | _ => false

/-- A loop over the keys of an object. -/
def isInFor : Symbol → Bool
  | inFor | inVarFor => true
  | _ => false

def isLoop (symbol : Symbol) : Bool := symbol = whiles || symbol.isRegularFor || symbol.isInFor

def isJump : Symbol → Bool
  | continueStatement | breakStatement => true
  | _ => false

def isStatement (symbol : Symbol) : Bool :=
  symbol.isLoop || symbol.isJump ||
    symbol ∈ [variableStatement, expressionStatement, emptyStatement, block, ifStatement,
      iterationStatement, returnStatement, withStatement, throwStatement, tryStatement]

end Symbol

/-- Whether a tree of the symbol can stand in the slot. -/
def Slot.admits : Slot → Symbol → Bool
  | program, symbol => symbol = .program
  | body, symbol => symbol = .sourceElements
  | parameters, symbol => symbol = .formalParameterList
  | name, symbol | label, symbol => symbol = .identifierName
  | item, symbol => symbol.isStatement || symbol = .functionDeclaration
  | statement, symbol => symbol.isStatement
  | block, symbol => symbol = .block
  | loop, symbol => symbol.isLoop
  | declarations, symbol => symbol.isDeclarations
  | declaration, symbol => symbol.isDeclaration
  | header, symbol => symbol.isExpression || symbol.isDeclaration || symbol.isDeclarations
  | expression, symbol => symbol.isExpression
  | literal, symbol => symbol.isLiteral
  | property, symbol => symbol = .propertyNameAndValue
  | arguments, symbol => symbol = .arguments

/-! ## Shapes -/

/-- A punctuation mark or a keyword: a token known by its text. -/
structure Mark (text : String) where
  symbol : String
  pos : SourcePos

/-- A token of the class of names. -/
structure Word where
  text : String
  pos : SourcePos

@[reducible] def Mark.tree {text : String} (mark : Mark text) : ParseTree :=
  .token mark.symbol text mark.pos

@[reducible] def Word.tree (word : Word) : ParseTree :=
  .token Symbol.identifierName.name word.text word.pos

/-- A part of a tree and the slot it stands in. -/
abbrev Part := Slot × ParseTree

/-- Trees that stand in slots of one kind. -/
def Slot.each (slot : Slot) (trees : List ParseTree) : List Part :=
  trees.map fun tree => (slot, tree)

/-- A list of arguments. -/
@[reducible] def argumentsTree (children : List ParseTree) : ParseTree :=
  .node Symbol.arguments.name children

/-- What the contract leaves open. -/
structure Dialect where
  /-- The texts that the tokens of a class may have. -/
  spelling : Symbol → String → Prop
  /-- Whether functions may be declared. -/
  declarations : Prop
  /-- Whether a second clause may follow a `finally` clause. -/
  lateClause : Prop

/-- The links of a chain and their parts: accesses and calls, or operators with their operands. -/
inductive Links : (access : Bool) → List ParseTree → List Part → Prop
  | nil (access : Bool) : Links access [] []
  | operation {links : List ParseTree} {parts : List Part} (op : BinaryOp) (mark : Mark op.token)
      (operand : ParseTree) : Links false links parts →
      Links false (mark.tree :: operand :: links) ((.expression, operand) :: parts)
  | dot {links : List ParseTree} {parts : List Part} (mark : Mark ".") (name : Word) :
      Links true links parts →
      Links true (mark.tree :: name.tree :: links) ((.label, name.tree) :: parts)
  | index {links : List ParseTree} {parts : List Part} (mark : Mark "[") (key : ParseTree) :
      Links true links parts → Links true (mark.tree :: key :: links) ((.expression, key) :: parts)
  | call {links : List ParseTree} {parts : List Part} (children : List ParseTree) :
      Links true links parts →
      Links true (argumentsTree children :: links) ((.arguments, argumentsTree children) :: parts)

/-- What the children of a symbol are, and the parts among them in order. -/
inductive Shape (g : Dialect) : Symbol → List ParseTree → List Part → Prop
  -- Programs and functions
  | emptyProgram : Shape g .program [] []
  | endOfFile (text : String) (pos : SourcePos) : Shape g .program [.token "EOF" text pos] []
  | program (body : ParseTree) : Shape g .program [body] [(.body, body)]
  | sourceElements (items : List ParseTree) :
      Shape g .sourceElements items (Slot.item.each items)
  | functionDeclaration (name : ParseTree) (opening : Mark "(") (parameters : Option ParseTree)
      (closing : Mark ")") (body : Option ParseTree) (last : Mark "\x7d") : g.declarations →
      Shape g .functionDeclaration
        (name :: opening.tree :: (parameters.toList ++ closing.tree ::
          (body.toList ++ [last.tree])))
        ((.name, name) :: (Slot.parameters.each parameters.toList ++ Slot.body.each body.toList))
  | functionExpression (name : Option ParseTree) (opening : Mark "(")
      (parameters : Option ParseTree) (closing : Mark ")") (body : Option ParseTree)
      (last : Mark "\x7d") :
      Shape g .functionExpression
        (name.toList ++ opening.tree :: (parameters.toList ++ closing.tree ::
          (body.toList ++ [last.tree])))
        (Slot.name.each name.toList ++
          (Slot.parameters.each parameters.toList ++ Slot.body.each body.toList))
  | formalParameterList (names : List ParseTree) :
      Shape g .formalParameterList names (Slot.name.each names)
  -- Statements; lists in brackets keep the opening mark only
  | variableStatement (list : ParseTree) :
      Shape g .variableStatement [list] [(.declarations, list)]
  | declarations {symbol : Symbol} (items : List ParseTree) : symbol.isDeclarations →
      Shape g symbol items (Slot.declaration.each items)
  | declaration {symbol : Symbol} (name : ParseTree) (init : Option ParseTree) :
      symbol.isDeclaration →
      Shape g symbol (name :: init.toList) ((.name, name) :: Slot.expression.each init.toList)
  | expressionStatement (expression : ParseTree) :
      Shape g .expressionStatement [expression] [(.expression, expression)]
  | emptyStatement (children : List ParseTree) : Shape g .emptyStatement children []
  | block (opening : Mark "\x7b") (items : List ParseTree) :
      Shape g .block (opening.tree :: items) (Slot.item.each items)
  | ifStatement (condition thenBranch : ParseTree) (elseBranch : Option ParseTree) :
      Shape g .ifStatement (condition :: thenBranch :: elseBranch.toList)
        ((.expression, condition) :: (.statement, thenBranch) ::
          Slot.statement.each elseBranch.toList)
  | iterationStatement (loop : ParseTree) : Shape g .iterationStatement [loop] [(.loop, loop)]
  | whileLoop (keyword : Mark "while") (condition body : ParseTree) :
      Shape g .whiles [keyword.tree, condition, body] [(.expression, condition), (.statement, body)]
  | doLoop (keyword : Mark "do") (body condition : ParseTree) :
      Shape g .whiles [keyword.tree, body, condition] [(.statement, body), (.expression, condition)]
  | regularFor {symbol : Symbol} (opening : Mark "(") (setup : Option ParseTree)
      (behindSetup : Mark ";") (condition : Option ParseTree) (behindCondition : Mark ";")
      (update : Option ParseTree) (closing : Mark ")") (body : ParseTree) : symbol.isRegularFor →
      Shape g symbol
        (opening.tree :: (setup.toList ++ behindSetup.tree :: (condition.toList ++
          behindCondition.tree :: (update.toList ++ [closing.tree, body]))))
        (Slot.header.each setup.toList ++ (Slot.expression.each condition.toList ++
          (Slot.expression.each update.toList ++ [(.statement, body)])))
  | inFor {symbol : Symbol} (opening target iterable body : ParseTree) : symbol.isInFor →
      Shape g symbol [opening, target, iterable, body]
        [(.header, target), (.expression, iterable), (.statement, body)]
  | jump {symbol : Symbol} (label : Option Word) : symbol.isJump →
      Shape g symbol (label.toList.map Word.tree) (Slot.label.each (label.toList.map Word.tree))
  | returnStatement (value : Option ParseTree) :
      Shape g .returnStatement value.toList (Slot.expression.each value.toList)
  | withStatement (object body : ParseTree) :
      Shape g .withStatement [object, body] [(.expression, object), (.statement, body)]
  | throwStatement (value : ParseTree) :
      Shape g .throwStatement [value] [(.expression, value)]
  -- The symbol of a clause is never looked at, only the keyword it begins with
  | tryCatch (body : ParseTree) (clause : String) (keyword : Mark "catch")
      (param handler : ParseTree) :
      Shape g .tryStatement [body, .node clause [keyword.tree, param, handler]]
        [(.block, body), (.name, param), (.block, handler)]
  | tryCatchFinally (body : ParseTree) (clause : String) (keyword : Mark "catch")
      (param handler : ParseTree) (lastClause : String) (lastKeyword : Mark "finally")
      (last : ParseTree) :
      Shape g .tryStatement
        [body, .node clause [keyword.tree, param, handler],
          .node lastClause [lastKeyword.tree, last]]
        [(.block, body), (.name, param), (.block, handler), (.block, last)]
  | tryFinally (body : ParseTree) (clause : String) (keyword : Mark "finally") (last : ParseTree) :
      Shape g .tryStatement [body, .node clause [keyword.tree, last]]
        [(.block, body), (.block, last)]
  | tryFinallyTwice (body : ParseTree) (clause : String) (keyword : Mark "finally")
      (last : ParseTree) (lateClause : String) (lateKeyword : Mark "finally") (late : ParseTree) :
      g.lateClause →
      Shape g .tryStatement
        [body, .node clause [keyword.tree, last], .node lateClause [lateKeyword.tree, late]]
        [(.block, body), (.block, last)]
  -- Expressions
  | operation {symbol : Symbol} {links : List ParseTree} {parts : List Part} (head : ParseTree) :
      symbol.isOperation → Links false links parts →
      Shape g symbol (head :: links) ((.expression, head) :: parts)
  | callExpression {links : List ParseTree} {parts : List Part} (callee : ParseTree) :
      Links true links parts →
      Shape g .callExpression (callee :: links) ((.expression, callee) :: parts)
  | memberExpression {links : List ParseTree} {parts : List Part} (object : ParseTree) :
      Links true links parts →
      Shape g .memberExpression (object :: links) ((.expression, object) :: parts)
  | newMemberExpression {links : List ParseTree} {parts : List Part} (keyword : Mark "new")
      (callee : ParseTree) : Links true links parts →
      Shape g .memberExpression (keyword.tree :: callee :: links) ((.expression, callee) :: parts)
  | assignment {symbol : Symbol} {op : AssignOp} (target : ParseTree) (mark : Mark op.token)
      (value : ParseTree) : symbol.isAssignment → op.isUpdate = false →
      Shape g symbol [target, mark.tree, value] [(.expression, target), (.expression, value)]
  | conditionalExpression (condition : ParseTree) (mark : Mark "?")
      (thenBranch elseBranch : ParseTree) :
      Shape g .conditionalExpression [condition, mark.tree, thenBranch, elseBranch]
        [(.expression, condition), (.expression, thenBranch), (.expression, elseBranch)]
  | unaryExpression (op : UnaryOp) (mark : Mark op.token) (operand : ParseTree) :
      Shape g .unaryExpression [mark.tree, operand] [(.expression, operand)]
  | updateBefore {op : AssignOp} (mark : Mark op.token) (operand : ParseTree) : op.isUpdate →
      Shape g .unaryExpression [mark.tree, operand] [(.expression, operand)]
  | updateBehind {op : AssignOp} (operand : ParseTree) (mark : Mark op.token) : op.isUpdate →
      Shape g .postfixExpression [operand, mark.tree] [(.expression, operand)]
  | operandAlone (operand : ParseTree) :
      Shape g .newExpression [operand] [(.expression, operand)]
  | newExpression (keyword : Mark "new") (callee : ParseTree) :
      Shape g .newExpression [keyword.tree, callee] [(.expression, callee)]
  | arguments (opening : Mark "(") (values : List ParseTree) :
      Shape g .arguments (opening.tree :: values) (Slot.expression.each values)
  | arrayLiteral (opening : Mark "[") (items : List ParseTree) :
      Shape g .arrayLiteral (opening.tree :: items) (Slot.expression.each items)
  | objectLiteral (opening : Mark "\x7b") (properties : List ParseTree) :
      Shape g .objectLiteral (opening.tree :: properties) (Slot.property.each properties)
  | namedProperty (key : Word) (value : ParseTree) :
      Shape g .propertyNameAndValue [key.tree, value] [(.label, key.tree), (.expression, value)]
  | literalProperty (key value : ParseTree) :
      Shape g .propertyNameAndValue [key, value] [(.literal, key), (.expression, value)]
  | primaryExpression (keyword : Mark "this") : Shape g .primaryExpression [keyword.tree] []
  | nullLiteral (keyword : Mark "null") : Shape g .nullLiteral [keyword.tree] []
  | trueLiteral (keyword : Mark "true") : Shape g .booleanLiteral [keyword.tree] []
  | falseLiteral (keyword : Mark "false") : Shape g .booleanLiteral [keyword.tree] []

/-- The tree follows the contract in its slot. -/
inductive Conforms (g : Dialect) : Slot → ParseTree → Prop
  | token {slot : Slot} {symbol : Symbol} {text : String} (pos : SourcePos) : slot.admits symbol →
      symbol.isToken → g.spelling symbol text → Conforms g slot (.token symbol.name text pos)
  | node {slot : Slot} {symbol : Symbol} {children : List ParseTree} {parts : List Part} :
      slot.admits symbol → Shape g symbol children parts →
      (∀ part ∈ parts, Conforms g part.1 part.2) → Conforms g slot (.node symbol.name children)

/-! ## Height -/

namespace ParseTree

mutual

/-- The number of trees on the longest way from the root to a leaf. -/
def height : ParseTree → Nat
  | .token _ _ _ => 1
  | .node _ children => maxHeight children + 1

/-- The height of the highest of the trees. -/
def maxHeight : List ParseTree → Nat
  | [] => 0
  | tree :: trees => max tree.height (maxHeight trees)

end

theorem height_le_maxHeight {tree : ParseTree} {trees : List ParseTree} (h : tree ∈ trees) :
    tree.height ≤ maxHeight trees := by
  induction trees with
  | nil => exact nomatch h
  | cons first rest ih =>
    rw [maxHeight]
    rcases List.mem_cons.mp h with rfl | h
    · exact Nat.le_max_left ..
    · exact Nat.le_trans (ih h) (Nat.le_max_right ..)

theorem height_lt_of_mem {tree child : ParseTree} (h : child ∈ tree.children) :
    child.height < tree.height := by
  cases tree with
  | token => exact nomatch h
  | node symbol children =>
    rw [height]
    exact Nat.lt_succ_of_le (height_le_maxHeight h)

end ParseTree

/-! ## Parts -/

theorem Links.part_mem {access : Bool} {links : List ParseTree} {parts : List Part}
    (h : Links access links parts) {part : Part} (hp : part ∈ parts) : part.2 ∈ links := by
  induction h with
  | nil => exact nomatch hp
  | call children _ ih =>
    rcases List.mem_cons.mp hp with rfl | hp
    · exact .head _
    · exact .tail _ (ih hp)
  | operation _ _ _ _ ih | dot _ _ _ ih | index _ _ _ ih =>
    rcases List.mem_cons.mp hp with rfl | hp
    · exact .tail _ (.head _)
    · exact .tail _ (.tail _ (ih hp))

theorem Slot.mem_each {slot : Slot} {trees : List ParseTree} {part : Part} :
    part ∈ slot.each trees ↔ part.1 = slot ∧ part.2 ∈ trees := by
  obtain ⟨s, tree⟩ := part
  simp only [each, List.mem_map, Prod.mk.injEq]
  constructor
  · rintro ⟨_, hmem, rfl, rfl⟩
    exact ⟨rfl, hmem⟩
  · rintro ⟨rfl, hmem⟩
    exact ⟨tree, hmem, rfl, rfl⟩

/-- A part of a tree is a child of it, or stands in a clause that is one. -/
theorem Shape.part_below {g : Dialect} {symbol : Symbol} {children : List ParseTree}
    {parts : List Part} (h : Shape g symbol children parts) {part : Part} (hp : part ∈ parts) :
    part.2 ∈ children ∨ ∃ clause ∈ children, part.2 ∈ clause.children := by
  cases h with
  | operation head _ hlinks | callExpression head hlinks | memberExpression head hlinks =>
    refine .inl ?_
    rcases List.mem_cons.mp hp with rfl | hp
    · exact .head _
    · exact .tail _ (hlinks.part_mem hp)
  | newMemberExpression _ callee hlinks =>
    refine .inl (.tail _ ?_)
    rcases List.mem_cons.mp hp with rfl | hp
    · exact .head _
    · exact .tail _ (hlinks.part_mem hp)
  | tryCatch | tryCatchFinally | tryFinally | tryFinallyTwice =>
    simp [ParseTree.children, Prod.ext_iff] at hp ⊢
    grind
  | _ => grind [Slot.mem_each]

/-- What the declaration of a function consists of, where functions may be declared. -/
theorem Shape.of_functionDeclaration {g : Dialect} {children : List ParseTree} {parts : List Part}
    (h : Shape g .functionDeclaration children parts) :
    g.declarations ∧ ∃ (name : ParseTree) (opening : Mark "(") (parameters : Option ParseTree)
      (closing : Mark ")") (body : Option ParseTree) (last : Mark "\x7d"),
      children = name :: opening.tree :: (parameters.toList ++ closing.tree ::
        (body.toList ++ [last.tree])) ∧
      parts = (.name, name) ::
        (Slot.parameters.each parameters.toList ++ Slot.body.each body.toList) := by
  cases h with
  | functionDeclaration name opening parameters closing body last hallowed =>
    exact ⟨hallowed, name, opening, parameters, closing, body, last, rfl, rfl⟩
  | declarations _ h | declaration _ _ h | regularFor _ _ _ _ _ _ _ _ h | inFor _ _ _ _ h | jump _ h
    | operation _ h | assignment _ _ _ h => exact nomatch h

/-- All that a program consists of is its body. -/
theorem Shape.program_parts {g : Dialect} {children : List ParseTree} {parts : List Part}
    (h : Shape g .program children parts) : ∀ part ∈ parts, part.1 = .body := by
  cases h with
  | emptyProgram | endOfFile => exact nofun
  | program => exact fun part hpart => List.mem_singleton.mp hpart ▸ rfl
  | declarations _ h | declaration _ _ h | regularFor _ _ _ _ _ _ _ _ h | inFor _ _ _ _ h | jump _ h
    | operation _ h | assignment _ _ _ h => exact nomatch h

/-- A part of a tree is less high than the tree. -/
theorem Shape.height_lt {g : Dialect} {symbol : Symbol} {children : List ParseTree}
    {parts : List Part} (h : Shape g symbol children parts) {part : Part} (hp : part ∈ parts) :
    part.2.height < (ParseTree.node symbol.name children).height := by
  rcases h.part_below hp with hchild | ⟨clause, hclause, hpart⟩
  · exact ParseTree.height_lt_of_mem hchild
  · exact Nat.lt_trans (ParseTree.height_lt_of_mem hpart) (ParseTree.height_lt_of_mem hclause)

theorem Conforms.admits {g : Dialect} {slot : Slot} {tree : ParseTree} (h : Conforms g slot tree) :
    ∃ symbol : Symbol, tree.symbol = symbol.name ∧ slot.admits symbol := by
  cases h with
  | token _ hadmits => exact ⟨_, rfl, hadmits⟩
  | node hadmits => exact ⟨_, rfl, hadmits⟩

end ScriptAst
