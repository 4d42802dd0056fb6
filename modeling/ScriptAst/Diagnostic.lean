import ScriptAst.Position
import ScriptAst.Message

/-!
# Diagnostics

A message with its arguments filled in and the place it is about.  An empty source name and the
unknown position count as no place.
-/
namespace ScriptAst

/-- A message about a place in a source. -/
structure Diagnostic where
  sourceName : Option String
  position : Option Position
  text : String
  code : Nat
  category : Category
  deriving DecidableEq

namespace Diagnostic

/-- The message alone. -/
def ofMessage (message : Message) (args : List String) : Diagnostic :=
  ⟨none, none, Message.fill message.template args, message.code, message.category⟩

/-- The message about a place. -/
def located (sourceName : String) (pos : Position) (message : Message) (args : List String) :
    Diagnostic :=
  { ofMessage message args with
    sourceName := if sourceName = "" then none else some sourceName
    position := if pos.isUnknown then none else some pos }

/-- Whether the message concerns the author of the program. -/
def isError (d : Diagnostic) : Bool := d.category = .error

/-- The place in front of the message. -/
def origin (d : Diagnostic) : String :=
  match d.sourceName, d.position with
  | some name, some pos => name ++ "(" ++ pos.place ++ "): "
  | some name, none => name ++ ": "
  | none, some pos => "(" ++ pos.place ++ "): "
  | none, none => ""

/-- The whole line. -/
def display (d : Diagnostic) : String :=
  d.origin ++ d.category.text ++ " JS" ++ toString d.code ++ ": " ++ d.text

end Diagnostic
end ScriptAst
