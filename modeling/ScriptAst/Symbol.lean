/-!
# Grammar symbols

The closed set of symbols that a parse tree may use: six classes of tokens, then the productions for
program structure, statements and expressions.  A tree names its symbols by text; `Symbol.ofName?`
finds the symbol of a name, and inverts `Symbol.name`.
-/
namespace ScriptAst

/-- A class of tokens or a production of the grammar. -/
inductive Symbol where
  | decimalLiteral
  | hexIntegerLiteral
  | octalLiteral
  | doubleString
  | singleString
  | identifierName
  | program
  | sourceElements
  | functionDeclaration
  | functionExpression
  | formalParameterList
  | variableStatement
  | variableDeclarationList
  | variableDeclarationListNoIn
  | variableDeclaration
  | variableDeclarationNoIn
  | expressionStatement
  | emptyStatement
  | block
  | ifStatement
  | iterationStatement
  | whiles
  | regularFor
  | regularVarFor
  | inFor
  | inVarFor
  | continueStatement
  | breakStatement
  | returnStatement
  | withStatement
  | throwStatement
  | tryStatement
  | expression
  | expressionNoIn
  | assignmentExpression
  | assignmentExpressionNoIn
  | conditionalExpression
  | logicalOrExpression
  | logicalAndExpression
  | bitwiseOrExpression
  | bitwiseXorExpression
  | bitwiseAndExpression
  | equalityExpression
  | relationalExpression
  | shiftExpression
  | additiveExpression
  | multiplicativeExpression
  | unaryExpression
  | postfixExpression
  | newExpression
  | callExpression
  | memberExpression
  | arguments
  | primaryExpression
  | arrayLiteral
  | objectLiteral
  | propertyNameAndValue
  | nullLiteral
  | booleanLiteral
  deriving DecidableEq

namespace Symbol

/-- The name that trees use for the symbol. -/
def name : Symbol → String
  | decimalLiteral => "DECIMALLITERAL"
  | hexIntegerLiteral => "HEXINTEGERLITERAL"
  | octalLiteral => "OCTALLITERAL"
  | doubleString => "DOUBLESTRING"
  | singleString => "SINGLESTRING"
  | identifierName => "IDENTIFIERNAME"
  | program => "program"
  | sourceElements => "sourceelements"
  | functionDeclaration => "functiondeclaration"
  | functionExpression => "functionexpression"
  | formalParameterList => "formalparameterlist"
  | variableStatement => "variablestatement"
  | variableDeclarationList => "variabledeclarationlist"
  | variableDeclarationListNoIn => "variabledeclarationlistnoin"
  | variableDeclaration => "variabledeclaration"
  | variableDeclarationNoIn => "variabledeclarationnoin"
  | expressionStatement => "expressionstatement"
  | emptyStatement => "emptystatement"
  | block => "block"
  | ifStatement => "ifstatement"
  | iterationStatement => "iterationstatement"
  | whiles => "whiles"
  | regularFor => "regularfor"
  | regularVarFor => "regularvarfor"
  | inFor => "infor"
  | inVarFor => "invarfor"
  | continueStatement => "continuestatement"
  | breakStatement => "breakstatement"
  | returnStatement => "returnstatement"
  | withStatement => "withstatement"
  | throwStatement => "throwstatement"
  | tryStatement => "trystatement"
  | expression => "expression"
  | expressionNoIn => "expressionnoin"
  | assignmentExpression => "assignmentexpression"
  | assignmentExpressionNoIn => "assignmentexpressionnoin"
  | conditionalExpression => "conditionalexpression"
  | logicalOrExpression => "logicalorexpression"
  | logicalAndExpression => "logicalandexpression"
  | bitwiseOrExpression => "bitwiseorexpression"
  | bitwiseXorExpression => "bitwisexorexpression"
  | bitwiseAndExpression => "bitwiseandexpression"
  | equalityExpression => "equalityexpression"
  | relationalExpression => "relationalexpression"
  | shiftExpression => "shiftexpression"
  | additiveExpression => "additiveexpression"
  | multiplicativeExpression => "multiplicativeexpression"
  | unaryExpression => "unaryexpression"
  | postfixExpression => "postfixexpression"
  | newExpression => "newexpression"
  | callExpression => "callexpression"
  | memberExpression => "memberexpression"
  | arguments => "arguments"
  | primaryExpression => "primaryexpression"
  | arrayLiteral => "arrayliteral"
  | objectLiteral => "objectliteral"
  | propertyNameAndValue => "propertynameandvalue"
  | nullLiteral => "nullliteral"
  | booleanLiteral => "booleanliteral"

/-- Every symbol, tokens first. -/
def all : List Symbol :=
  [decimalLiteral, hexIntegerLiteral, octalLiteral, doubleString, singleString, identifierName,
   program, sourceElements, functionDeclaration, functionExpression, formalParameterList,
   variableStatement, variableDeclarationList, variableDeclarationListNoIn, variableDeclaration,
   variableDeclarationNoIn, expressionStatement, emptyStatement, block, ifStatement,
   iterationStatement, whiles, regularFor, regularVarFor, inFor, inVarFor, continueStatement,
   breakStatement, returnStatement, withStatement, throwStatement, tryStatement,
   expression, expressionNoIn, assignmentExpression, assignmentExpressionNoIn,
   conditionalExpression, logicalOrExpression, logicalAndExpression, bitwiseOrExpression,
   bitwiseXorExpression, bitwiseAndExpression, equalityExpression, relationalExpression,
   shiftExpression, additiveExpression, multiplicativeExpression, unaryExpression,
   postfixExpression, newExpression, callExpression, memberExpression, arguments,
   primaryExpression, arrayLiteral, objectLiteral, propertyNameAndValue, nullLiteral,
   booleanLiteral]

/-- The symbol with the given name. -/
def ofName? (text : String) : Option Symbol := all.find? (fun symbol => symbol.name == text)

/-- Whether the symbol is a class of tokens and no production. -/
def isToken : Symbol → Bool
  | decimalLiteral | hexIntegerLiteral | octalLiteral | doubleString | singleString
  | identifierName => true
  | _ => false

/-- The place of the symbol in `all`. -/
def index (symbol : Symbol) : Nat := all.idxOf symbol

theorem mem_all (symbol : Symbol) : symbol ∈ all := by cases symbol <;> decide

/-- Looking up a symbol's name finds the symbol. -/
@[simp] theorem ofName?_name (symbol : Symbol) : ofName? symbol.name = some symbol := by
  cases symbol <;> decide

/-- A name is that of the symbol it is looked up to. -/
theorem name_of_ofName? {text : String} {symbol : Symbol} (h : ofName? text = some symbol) :
    symbol.name = text := by
  simpa using List.find?_some h

theorem ofName?_eq_some_iff {text : String} {symbol : Symbol} :
    ofName? text = some symbol ↔ symbol.name = text :=
  ⟨name_of_ofName?, fun h => h ▸ ofName?_name symbol⟩

end Symbol
end ScriptAst
