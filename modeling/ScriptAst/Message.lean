/-!
# Messages

The coded messages that a build can end with.  A template has numbered places in braces, and
`Message.fill` puts the arguments into them one after the other, so a place that an argument brings
along is filled by a later argument.
-/
namespace ScriptAst

/-- Whom a message concerns: the author of the program, or whoever made the parse tree. -/
inductive Category where
  | error
  | internal
  deriving DecidableEq

/-- The words for a category. -/
def Category.text : Category → String
  | .error => "error"
  | .internal => "internal error"

/-- A message with its code. -/
structure Message where
  code : Nat
  category : Category
  template : String

namespace Message

/-- The text with every occurrence of a nonempty `pattern` replaced, from left to right, after
`skip` characters that belong to an occurrence already replaced. -/
def replaceFrom (pattern value : List Char) : Nat → List Char → List Char
  | _, [] => []
  | skip + 1, _ :: cs => replaceFrom pattern value skip cs
  | 0, c :: cs =>
    if pattern.isPrefixOf (c :: cs) then value ++ replaceFrom pattern value (pattern.length - 1) cs
    else c :: replaceFrom pattern value 0 cs

/-- The place for the argument with the given number. -/
def place (i : Nat) : List Char := '\x7b' :: (Nat.toDigits 10 i ++ ['\x7d'])

/-- The template with the arguments put in, numbered from `i` on. -/
def fillFrom (i : Nat) (template : List Char) : List String → List Char
  | [] => template
  | arg :: args => fillFrom (i + 1) (replaceFrom (place i) arg.toList 0 template) args

/-- The template with the arguments in their places. -/
def fill (template : String) (args : List String) : String :=
  String.ofList (fillFrom 0 template.toList args)

/-! ### The table -/

/-- A target that cannot be written to. -/
def invalidTarget : Message := ⟨1001, .error, "invalid lefthand expression"⟩

/-- A target of a `for`-`in` loop that is no name. -/
def invalidForInTarget : Message := ⟨1002, .error, "invalid lefthand expression in for-in"⟩

/-- A tree nested too deep. -/
def nestingTooDeep : Message :=
  ⟨1003, .error, "'\x7b0\x7d' is nested more than \x7b1\x7d levels deep"⟩

/-- A symbol that does not belong to the grammar. -/
def unknownSymbol : Message :=
  ⟨9001, .internal, "no handler registered for grammar symbol '\x7b0\x7d'"⟩

/-- A node whose children do not have the shape of its symbol. -/
def malformedNode : Message := ⟨9002, .internal, "malformed '\x7b0\x7d' node: \x7b1\x7d"⟩

/-- Every message. -/
def all : List Message :=
  [invalidTarget, invalidForInTarget, nestingTooDeep, unknownSymbol, malformedNode]

/-- The message with the given code. -/
def ofCode? (code : Nat) : Option Message := all.find? (fun message => message.code = code)

end Message
end ScriptAst
