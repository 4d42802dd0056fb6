import ScriptAst.Text.Printable
import ScriptAst.Text.Combining

/-!
# Quoted strings

A string value is shown between double quotes.  Quotes, backslashes and the common control
characters are written with a backslash and a letter, other characters that would not be visible by
their code point in braces, and every other character as it is.
-/
namespace ScriptAst

/-- The digits of `n` in base sixteen, in lower case and without leading zeros. -/
def hexDigits (n : Nat) : List Char := Nat.toDigits 16 n

/-- How a character is written inside quotes. -/
def quotedChar (c : Char) : List Char :=
  if c = '"' then ['\\', '"']
  else if c = '\\' then ['\\', '\\']
  else if c = '\x00' then ['\\', '0']
  else if c = '\n' then ['\\', 'n']
  else if c = '\r' then ['\\', 'r']
  else if c = '\t' then ['\\', 't']
  else if isCombining c || !isPrintable c then
    '\\' :: 'u' :: '\x7b' :: (hexDigits c.toNat ++ ['\x7d'])
  else [c]

/-- The string between quotes, with what is not visible escaped. -/
def quoted (text : String) : String :=
  String.ofList ('"' :: (text.toList.flatMap quotedChar ++ ['"']))

end ScriptAst
