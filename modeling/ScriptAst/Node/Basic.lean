import ScriptAst.Position
import ScriptAst.Operator
import ScriptAst.Number.Binary64

/-!
# Syntax nodes

A `Node` is a position together with a `Kind`: one of the literals, references, expressions,
assignments and statements of the language.  `Kind` is stated over an arbitrary type of children, so
one step of any walk over a tree is a function on `Kind α`, and `Node.fold` turns such a step into
the walk.
-/
namespace ScriptAst

/-- The body of a program or a function: what was declared in it, then its statements. -/
structure Body (α : Type) where
  /-- Names declared with `var`, each once, in order of first declaration. -/
  varNames : List String
  /-- Function declarations under their names, in order of first declaration. -/
  funcDecls : List (String × α)
  /-- The statements in source order, without the function declarations. -/
  statements : List α
  /-- The name of the source, for diagnostics. -/
  sourceName : String

/-- A function; an anonymous one has no name, an empty one no body. -/
structure Function (α : Type) where
  name : Option String
  params : List String
  body : Option α

/-- What a node is, with children of type `α`. -/
inductive Kind (α : Type) where
  | int (value : Int64)
  | float (value : Binary64)
  | string (value : String)
  | boolean (value : Bool)
  | null
  /-- A name that is looked up when the program runs. -/
  | identifier (name : String)
  /-- A name bound by a `var` of the body `depth` bodies further out. -/
  | variableIdentifier (depth : Nat) (name : String)
  | thisValue
  | binary (op : BinaryOp) (left right : α)
  | unary (op : UnaryOp) (operand : α)
  /-- Access by a computed key: `object[index]`. -/
  | member (object index : α)
  /-- Access by a name: `object.name`. -/
  | memberDot (object : α) (name : String)
  | call (callee arguments : α)
  | new (callee : α)
  | newWithArgs (callee arguments : α)
  | array (items : List α)
  | objectInit (items : List α)
  | propertyInit (key value : α)
  | argumentList (items : List α)
  | variableDeclList (items : List α)
  | simpleAssignment (target : α) (value : Option α) (op : AssignOp) (side : Option Side)
  | memberAssignment (object index : α) (value : Option α) (op : AssignOp) (side : Option Side)
  | memberDotAssignment (object : α) (name : String) (value : Option α) (op : AssignOp)
      (side : Option Side)
  /-- An update of something that is no reference. -/
  | simpleIncrement (target : α) (op : AssignOp)
  | program (body : α)
  | sourceElements (body : Body α)
  | block (statements : List α)
  /-- An `if` statement or a `?:` expression. -/
  | conditional (condition thenBranch : α) (elseBranch : Option α)
  | whileLoop (condition body : α)
  | doLoop (body condition : α)
  | forLoop (init : Option α) (condition : α) (update : Option α) (body : α)
  | forIn (name : String) (iterable body : α)
  | forVarIn (target iterable body : α)
  | variableDeclaration (target : α) (init : Option α)
  /-- A `var` statement around its list of declarations. -/
  | varStatement (list : α)
  | exprStatement (expression : α)
  | returnStatement (value : Option α)
  | breakStatement (label : Option String)
  | continueStatement (label : Option String)
  | throwStatement (value : α)
  | tryStatement (body : α) (catchParam catchBlock finallyBlock : Option α)
  | withStatement (object body : α)
  | empty
  | functionStatement (function : Function α)

/-- A node of the syntax tree. -/
structure Node where
  pos : Position
  kind : Kind Node

namespace Kind

variable {α β : Type}

/-- The name of the kind; an operator node bears the name of its operator. -/
def name : Kind α → String
  | int _ => "IntNumber"
  | float _ => "FloatNumber"
  | string _ => "String"
  | boolean _ => "Boolean"
  | null => "Null"
  | identifier _ => "Identifier"
  | variableIdentifier _ _ => "VariableIdentifier"
  | thisValue => "This"
  | binary op _ _ => op.name
  | unary op _ => op.name
  | member _ _ => "Member"
  | memberDot _ _ => "MemberDot"
  | call _ _ => "Call"
  | new _ => "New"
  | newWithArgs _ _ => "NewWithArgs"
  | array _ => "Array"
  | objectInit _ => "ObjectInit"
  | propertyInit _ _ => "PropertyInit"
  | argumentList _ => "ArgumentList"
  | variableDeclList _ => "VariableDeclList"
  | simpleAssignment _ _ _ _ => "SimpleAssignment"
  | memberAssignment _ _ _ _ _ => "MemberAssignment"
  | memberDotAssignment _ _ _ _ _ => "MemberDotAssignment"
  | simpleIncrement _ _ => "SimpleIncrement"
  | program _ => "Program"
  | sourceElements _ => "SourceElements"
  | block _ => "Block"
  | conditional _ _ _ => "If"
  | whileLoop _ _ => "While"
  | doLoop _ _ => "Do"
  | forLoop _ _ _ _ => "For"
  | forIn _ _ _ => "ForIn"
  | forVarIn _ _ _ => "ForVarIn"
  | variableDeclaration _ _ => "VariableDeclaration"
  | varStatement _ => "Variable"
  | exprStatement _ => "ExprStatement"
  | returnStatement _ => "Return"
  | breakStatement _ => "Break"
  | continueStatement _ => "Continue"
  | throwStatement _ => "Throw"
  | tryStatement _ _ _ _ => "Try"
  | withStatement _ _ => "With"
  | empty => "Empty"
  | functionStatement _ => "FunctionStatement"

/-- The direct children in source order; declared functions come before the statements. -/
def children : Kind α → List α
  | int _ | float _ | string _ | boolean _ | null | identifier _ | variableIdentifier _ _
  | thisValue | breakStatement _ | continueStatement _ | empty => []
  | binary _ left right => [left, right]
  | unary _ operand => [operand]
  | member object index => [object, index]
  | memberDot object _ => [object]
  | call callee arguments | newWithArgs callee arguments => [callee, arguments]
  | new callee => [callee]
  | array items | objectInit items | argumentList items | variableDeclList items | block items =>
    items
  | propertyInit key value => [key, value]
  | simpleAssignment target value _ _ => target :: value.toList
  | memberAssignment object index value _ _ => object :: index :: value.toList
  | memberDotAssignment object _ value _ _ => object :: value.toList
  | simpleIncrement target _ => [target]
  | program body => [body]
  | sourceElements body => body.funcDecls.map Prod.snd ++ body.statements
  | conditional condition thenBranch elseBranch => condition :: thenBranch :: elseBranch.toList
  | whileLoop condition body => [condition, body]
  | doLoop body condition => [body, condition]
  | forLoop init condition update body => init.toList ++ condition :: (update.toList ++ [body])
  | forIn _ iterable body => [iterable, body]
  | forVarIn target iterable body => [target, iterable, body]
  | variableDeclaration target init => target :: init.toList
  | varStatement inner | exprStatement inner | throwStatement inner => [inner]
  | returnStatement value => value.toList
  | tryStatement body catchParam catchBlock finallyBlock =>
    body :: (catchParam.toList ++ (catchBlock.toList ++ finallyBlock.toList))
  | withStatement object body => [object, body]
  | functionStatement function => function.body.toList

/-- The same kind with every child replaced by its image. -/
def map (f : α → β) : Kind α → Kind β
  | int value => int value
  | float value => float value
  | string value => string value
  | boolean value => boolean value
  | null => null
  | identifier name => identifier name
  | variableIdentifier depth name => variableIdentifier depth name
  | thisValue => thisValue
  | binary op left right => binary op (f left) (f right)
  | unary op operand => unary op (f operand)
  | member object index => member (f object) (f index)
  | memberDot object name => memberDot (f object) name
  | call callee arguments => call (f callee) (f arguments)
  | new callee => new (f callee)
  | newWithArgs callee arguments => newWithArgs (f callee) (f arguments)
  | array items => array (items.map f)
  | objectInit items => objectInit (items.map f)
  | propertyInit key value => propertyInit (f key) (f value)
  | argumentList items => argumentList (items.map f)
  | variableDeclList items => variableDeclList (items.map f)
  | simpleAssignment target value op side => simpleAssignment (f target) (value.map f) op side
  | memberAssignment object index value op side =>
    memberAssignment (f object) (f index) (value.map f) op side
  | memberDotAssignment object name value op side =>
    memberDotAssignment (f object) name (value.map f) op side
  | simpleIncrement target op => simpleIncrement (f target) op
  | program body => program (f body)
  | sourceElements body =>
    sourceElements ⟨body.varNames, body.funcDecls.map (fun (name, decl) => (name, f decl)),
      body.statements.map f, body.sourceName⟩
  | block statements => block (statements.map f)
  | conditional condition thenBranch elseBranch =>
    conditional (f condition) (f thenBranch) (elseBranch.map f)
  | whileLoop condition body => whileLoop (f condition) (f body)
  | doLoop body condition => doLoop (f body) (f condition)
  | forLoop init condition update body =>
    forLoop (init.map f) (f condition) (update.map f) (f body)
  | forIn name iterable body => forIn name (f iterable) (f body)
  | forVarIn target iterable body => forVarIn (f target) (f iterable) (f body)
  | variableDeclaration target init => variableDeclaration (f target) (init.map f)
  | varStatement list => varStatement (f list)
  | exprStatement expression => exprStatement (f expression)
  | returnStatement value => returnStatement (value.map f)
  | breakStatement label => breakStatement label
  | continueStatement label => continueStatement label
  | throwStatement value => throwStatement (f value)
  | tryStatement body catchParam catchBlock finallyBlock =>
    tryStatement (f body) (catchParam.map f) (catchBlock.map f) (finallyBlock.map f)
  | withStatement object body => withStatement (f object) (f body)
  | empty => empty
  | functionStatement function =>
    functionStatement ⟨function.name, function.params, function.body.map f⟩

/-- The name of a reference. -/
def literalName? : Kind α → Option String
  | identifier name | variableIdentifier _ name => some name
  | _ => none

/-- Replacing the children does not change the name of the kind. -/
@[simp] theorem name_map (f : α → β) (kind : Kind α) : (kind.map f).name = kind.name := by
  cases kind <;> rfl

@[simp] theorem literalName?_map (f : α → β) (kind : Kind α) :
    (kind.map f).literalName? = kind.literalName? := by
  cases kind <;> rfl

/-- The children of the image are the images of the children, in the same order. -/
@[simp] theorem children_map (f : α → β) (kind : Kind α) :
    (kind.map f).children = kind.children.map f := by
  have toList_map (o : Option α) : (o.map f).toList = o.toList.map f := by cases o <;> rfl
  cases kind <;> simp [map, children, toList_map]

theorem map_map {γ : Type} (g : β → γ) (f : α → β) (kind : Kind α) :
    (kind.map f).map g = kind.map (fun a => g (f a)) := by
  cases kind <;> simp [map, Function.comp_def]

@[simp] theorem map_id' (kind : Kind α) : kind.map (fun a => a) = kind := by
  cases kind <;> simp [map]

/-- Maps that agree on the children agree on the kind. -/
theorem map_congr {f g : α → β} (kind : Kind α) (h : ∀ a ∈ kind.children, f a = g a) :
    kind.map f = kind.map g := by
  have onOption (o : Option α) (ho : ∀ a ∈ o.toList, f a = g a) : o.map f = o.map g := by
    cases o <;> simp_all
  cases kind with
  | sourceElements body =>
    simp only [children, List.mem_append, List.mem_map] at h
    simp only [map, sourceElements.injEq, Body.mk.injEq, true_and, and_true]
    exact ⟨List.map_congr_left fun decl hd => by simp [h decl.2 (.inl ⟨decl, hd, rfl⟩)],
      List.map_congr_left fun statement hs => h statement (.inr hs)⟩
  | _ => simp_all [map, children]

end Kind

namespace Node

variable {β : Type}

/-- The name of a reference node. -/
def literalName? (node : Node) : Option String := node.kind.literalName?

/-- The direct children in source order. -/
def children (node : Node) : List Node := node.kind.children

end Node
end ScriptAst
