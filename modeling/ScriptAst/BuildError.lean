import ScriptAst.Diagnostic

/-!
# Build errors

Why a parse tree has no syntax tree.  A target that cannot be written to and a tree nested too deep
are faults of the program; an unknown symbol and a malformed node mean that the parse tree does not
follow the grammar.
-/
namespace ScriptAst

/-- What is wrong with the target of an assignment. -/
inductive TargetFault where
  | notAssignable
  | notAName
  /-- A fault in words of its own. -/
  | described (text : String)
  deriving DecidableEq

/-- The words for a fault. -/
def TargetFault.text : TargetFault → String
  | .notAssignable => Message.invalidTarget.template
  | .notAName => Message.invalidForInTarget.template
  | .described text => text

/-- What is wrong with a node. -/
inductive Defect where
  | missingChild (i : Nat)
  | expectedToken
  | declarationAsValue
  | notAnInteger (text : String) (radix : Nat)
  | unknownLiteral (text : String)
  | unknownLoopKeyword (text : String)
  | unknownBinaryOperator (text : String)
  | unknownUnaryOperator (text : String)
  | unknownPostfixOperator (text : String)
  | unknownAssignmentOperator (text : String)
  | expectedOperator (found : String)
  | expectedName
  | expectedParameterList
  | unnamedDeclaration
  | functionOutsideBody
  | variableOutsideBody
  | frameClosed
  /-- A defect in words of its own. -/
  | described (text : String)
  deriving DecidableEq

namespace Defect

/-- A text between single quotes. -/
def inQuotes (text : String) : String := "'" ++ text ++ "'"

/-- The words for a defect. -/
def text : Defect → String
  | missingChild i => "missing child " ++ toString i
  | expectedToken => "expected a token"
  | declarationAsValue => "declaration used as a value"
  | notAnInteger text radix => inQuotes text ++ " is not a base-" ++ toString radix ++ " integer"
  | unknownLiteral text => "unknown literal " ++ inQuotes text
  | unknownLoopKeyword text => "unknown loop keyword " ++ inQuotes text
  | unknownBinaryOperator text => "unknown binary operator " ++ inQuotes text
  | unknownUnaryOperator text => "unknown unary operator " ++ inQuotes text
  | unknownPostfixOperator text => "unknown postfix operator " ++ inQuotes text
  | unknownAssignmentOperator text => "unknown assignment operator " ++ inQuotes text
  | expectedOperator found => "expected an operator, found " ++ inQuotes found
  | expectedName => "expected a name"
  | expectedParameterList => "expected a parameter list"
  | unnamedDeclaration => "function declaration without a name"
  | functionOutsideBody => "function declared outside of any body"
  | variableOutsideBody => "variable declared outside of any body"
  | frameClosed => "scope frame already closed"
  | described text => text

end Defect

/-- Why a build failed, and where. -/
inductive BuildError where
  | invalidTarget (pos : Position) (fault : TargetFault)
  | nestingTooDeep (symbol : String) (pos : Position) (limit : Nat)
  | unknownSymbol (symbol : String) (pos : Position)
  | malformed (symbol : String) (pos : Position) (defect : Defect)
  deriving DecidableEq

namespace BuildError

/-- Where the failure was found. -/
def position : BuildError → Position
  | invalidTarget pos _ | nestingTooDeep _ pos _ | unknownSymbol _ pos | malformed _ pos _ => pos

/-- Whether the parse tree is at fault, and not the program. -/
def isInternal : BuildError → Bool
  | invalidTarget _ _ | nestingTooDeep _ _ _ => false
  | unknownSymbol _ _ | malformed _ _ _ => true

/-- The failure in words. -/
def message : BuildError → String
  | invalidTarget _ fault => fault.text
  | nestingTooDeep symbol _ limit =>
    "'" ++ symbol ++ "' is nested more than " ++ toString limit ++ " levels deep"
  | unknownSymbol symbol _ => "no handler registered for grammar symbol '" ++ symbol ++ "'"
  | malformed symbol _ defect => "malformed '" ++ symbol ++ "' node: " ++ defect.text

/-- The code of the failure. -/
def code : BuildError → String
  | invalidTarget _ _ => "rjs::invalid_assignment_target"
  | nestingTooDeep _ _ _ => "rjs::nesting_too_deep"
  | unknownSymbol _ _ => "rjs::internal::unknown_symbol"
  | malformed _ _ _ => "rjs::internal::malformed_node"

/-- Advice on the failure, where there is some. -/
def help? : BuildError → Option String
  | unknownSymbol _ _ =>
    some "the parse tree was produced by a grammar this builder does not support"
  | _ => none

/-- The failure as a diagnostic about the named source. -/
def toDiagnostic (sourceName : String) : BuildError → Diagnostic
  | invalidTarget pos fault =>
    let message :=
      if fault.text = Message.invalidForInTarget.template then Message.invalidForInTarget
      else Message.invalidTarget
    .located sourceName pos message []
  | nestingTooDeep symbol pos limit =>
    .located sourceName pos Message.nestingTooDeep [symbol, toString limit]
  | unknownSymbol symbol pos => .located sourceName pos Message.unknownSymbol [symbol]
  | malformed symbol pos defect =>
    .located sourceName pos Message.malformedNode [symbol, defect.text]

end BuildError
end ScriptAst
