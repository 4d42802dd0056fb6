/-!
# JSON values

A JSON value as it is written: objects keep the order of their members and also repeated names, and
numerals keep their spelling, except that a numeral of digits alone is the natural number it
denotes.
-/
namespace ScriptAst

/-- A JSON value. -/
inductive Json where
  | null
  | boolean (value : Bool)
  /-- A numeral of digits alone. -/
  | natural (value : Nat)
  /-- Any other numeral, as it is spelled. -/
  | numeral (text : String)
  | string (value : String)
  | array (items : List Json)
  | object (members : List (String × Json))

namespace Json

/-- The string that the value is. -/
def string? : Json → Option String
  | .string value => some value
  | _ => none

/-- The natural number of 32 bits that the value is. -/
def word? : Json → Option UInt32
  | .natural value => if value < UInt32.size then some (UInt32.ofNat value) else none
  | _ => none

/-- The values of the members with the given name. -/
def named {α : Type} (name : String) (members : List (String × α)) : List α :=
  members.filterMap fun (key, value) => if key = name then some value else none

/-- The value of the member with the given name, of which there has to be exactly one. -/
def required? {α : Type} (name : String) (members : List (String × α)) : Option α :=
  match named name members with
  | [value] => some value
  | _ => none

/-- The value of the member with the given name, or `default` if there is none; it may not be
repeated. -/
def optional? {α : Type} (name : String) (default : α) (members : List (String × α)) : Option α :=
  match named name members with
  | [] => some default
  | [value] => some value
  | _ => none

end Json
end ScriptAst
