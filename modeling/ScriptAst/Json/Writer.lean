import ScriptAst.Json.Basic

/-!
# Writing JSON

A value is written without blanks, members in their order.  Inside strings only quotes, backslashes
and control characters are escaped.
-/
namespace ScriptAst
namespace Json

/-- The last digit of `n` in base sixteen. -/
def hexDigit (n : Nat) : Char := Nat.digitChar (n % 16)

/-- How a character is written inside a string. -/
def textChar (c : Char) : List Char :=
  if c = '"' then ['\\', '"']
  else if c = '\\' then ['\\', '\\']
  else if c = '\x08' then ['\\', 'b']
  else if c = '\x0c' then ['\\', 'f']
  else if c = '\n' then ['\\', 'n']
  else if c = '\r' then ['\\', 'r']
  else if c = '\t' then ['\\', 't']
  else if c.toNat < 0x20 then ['\\', 'u', '0', '0', hexDigit (c.toNat / 16), hexDigit c.toNat]
  else [c]

/-- A string between quotes, and then `rest`. -/
def textThen (rest : List Char) (text : String) : List Char :=
  '"' :: (text.toList.flatMap textChar ++ '"' :: rest)

mutual

/-- The characters of the value, and then `rest`. -/
def charsThen (rest : List Char) : Json → List Char
  | .null => "null".toList ++ rest
  | .boolean true => "true".toList ++ rest
  | .boolean false => "false".toList ++ rest
  | .natural value => Nat.toDigits 10 value ++ rest
  | .numeral text => text.toList ++ rest
  | .string value => textThen rest value
  | .array [] => '[' :: ']' :: rest
  | .array (item :: items) => '[' :: charsThen (itemsThen (']' :: rest) items) item
  | .object [] => '\x7b' :: '\x7d' :: rest
  | .object ((name, value) :: members) =>
    '\x7b' :: textThen (':' :: charsThen (membersThen ('\x7d' :: rest) members) value) name

/-- Further items, each behind a comma, and then `rest`. -/
def itemsThen (rest : List Char) : List Json → List Char
  | [] => rest
  | item :: items => ',' :: charsThen (itemsThen rest items) item

/-- Further members, each behind a comma, and then `rest`. -/
def membersThen (rest : List Char) : List (String × Json) → List Char
  | [] => rest
  | (name, value) :: members =>
    ',' :: textThen (':' :: charsThen (membersThen rest members) value) name

end

/-- The text of the value. -/
def write (value : Json) : String := String.ofList (value.charsThen [])

end Json
end ScriptAst
