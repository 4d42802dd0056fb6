import ScriptAst.Json.Numeral

/-!
# Reading JSON

The reader takes one character at a time.  Its state is the stack of containers that are still open,
innermost first, and a `Mode` that says what may come next.  `Json.read?` folds the step over a text
and succeeds if the text is one value with nothing but blanks around it.
-/
namespace ScriptAst
namespace Json

/-- An open container with what has been read of it, last first. -/
inductive Container where
  | array (items : List Json)
  | object (members : List (String × Json))
  /-- An object whose next member has this name and waits for its value. -/
  | member (members : List (String × Json)) (name : String)

/-- Where in a string the reader stands.  A code point outside the basic plane is written as a pair
of escapes; `high` is the first half of such a pair. -/
inductive Place where
  | plain
  | backslash
  | hex (left : Nat) (value : Nat) (high : Option Nat)
  | pairBackslash (high : Nat)
  | pairMarker (high : Nat)

/-- What may come next. -/
inductive Mode where
  /-- A value. -/
  | value
  /-- The first item of an array, or its end. -/
  | first
  /-- The first name of an object, or its end. -/
  | firstName
  /-- A further name. -/
  | name
  /-- The colon behind a name. -/
  | colon
  /-- A comma, or the end of the container. -/
  | next
  /-- Nothing but blanks. -/
  | finished (result : Json)
  /-- The rest of a string, which may be the name of a member. -/
  | text (isName : Bool) (done : List Char) (place : Place)
  /-- The rest of a numeral. -/
  | digits (done : List Char)
  /-- The rest of a word. -/
  | word (left : List Char) (result : Json)

/-- The state of the reader. -/
structure Reader where
  stack : List Container
  mode : Mode

namespace Reader

/-- Whether the character may stand between the parts of a value. -/
def isBlank (c : Char) : Bool := c = ' ' || c = '\t' || c = '\n' || c = '\r'

/-- Whether the character may belong to a numeral. -/
def isNumeral (c : Char) : Bool :=
  c.isDigit || c = '-' || c = '+' || c = '.' || c = 'e' || c = 'E'

/-- Nothing read yet. -/
def start : Reader := ⟨[], .value⟩

/-- Hands a finished value to the innermost container. -/
def deliver (value : Json) : List Container → Option Reader
  | [] => some ⟨[], .finished value⟩
  | .array items :: stack => some ⟨.array (value :: items) :: stack, .next⟩
  | .member members name :: stack => some ⟨.object ((name, value) :: members) :: stack, .next⟩
  | .object _ :: _ => none

/-- The first character of a value. -/
def startValue (stack : List Container) (c : Char) : Option Reader :=
  if c = '"' then some ⟨stack, .text false [] .plain⟩
  else if c = '[' then some ⟨.array [] :: stack, .first⟩
  else if c = '\x7b' then some ⟨.object [] :: stack, .firstName⟩
  else if c = 't' then some ⟨stack, .word ['r', 'u', 'e'] (.boolean true)⟩
  else if c = 'f' then some ⟨stack, .word ['a', 'l', 's', 'e'] (.boolean false)⟩
  else if c = 'n' then some ⟨stack, .word ['u', 'l', 'l'] .null⟩
  else if c = '-' || c.isDigit then some ⟨stack, .digits [c]⟩
  else none

/-- The end of the innermost container. -/
def close (c : Char) : List Container → Option Reader
  | .array items :: stack => if c = ']' then deliver (.array items.reverse) stack else none
  | .object members :: stack =>
    if c = '\x7d' then deliver (.object members.reverse) stack else none
  | _ => none

/-- The comma between two parts of the innermost container. -/
def separate (stack : List Container) : Option Reader :=
  match stack with
  | .array _ :: _ => some ⟨stack, .value⟩
  | .object _ :: _ => some ⟨stack, .name⟩
  | _ => none

/-- The opening quote of a name. -/
def startName (stack : List Container) (c : Char) : Option Reader :=
  if c = '"' then some ⟨stack, .text true [] .plain⟩ else none

/-- The end of a string. -/
def endText (stack : List Container) (isName : Bool) (done : List Char) : Option Reader :=
  let text := String.ofList done.reverse
  if isName then
    match stack with
    | .object members :: stack => some ⟨.member members text :: stack, .colon⟩
    | _ => none
  else deliver (.string text) stack

/-- The character that a letter behind a backslash stands for. -/
def escaped? (c : Char) : Option Char :=
  if c = '"' || c = '\\' || c = '/' then some c
  else if c = 'b' then some '\x08'
  else if c = 'f' then some '\x0c'
  else if c = 'n' then some '\n'
  else if c = 'r' then some '\r'
  else if c = 't' then some '\t'
  else none

/-- The value of a hexadecimal digit of either case. -/
def hexDigit? (c : Char) : Option Nat :=
  if c.isDigit then some (c.toNat - '0'.toNat)
  else if 'a' ≤ c ∧ c ≤ 'f' then some (c.toNat - 'a'.toNat + 10)
  else if 'A' ≤ c ∧ c ≤ 'F' then some (c.toNat - 'A'.toNat + 10)
  else none

/-- The string after an escape of four digits: a character, or the first half of a pair. -/
def endHex (done : List Char) (value : Nat) : Option Nat → Option (List Char × Place)
  | none =>
    if 0xD800 ≤ value ∧ value < 0xDC00 then some (done, .pairBackslash value)
    else if 0xDC00 ≤ value ∧ value < 0xE000 then none
    else some (Char.ofNat value :: done, .plain)
  | some high =>
    if 0xDC00 ≤ value ∧ value < 0xE000 then
      some (Char.ofNat (0x10000 + 0x400 * (high - 0xD800) + (value - 0xDC00)) :: done, .plain)
    else none

/-- One character inside a string, other than the quote that ends it. -/
def stepText (done : List Char) (c : Char) : Place → Option (List Char × Place)
  | .plain =>
    if c = '\\' then some (done, .backslash)
    else if c.toNat < 0x20 then none
    else some (c :: done, .plain)
  | .backslash =>
    if c = 'u' then some (done, .hex 3 0 none)
    else (escaped? c).map fun character => (character :: done, .plain)
  | .hex left value high =>
    match hexDigit? c, left with
    | none, _ => none
    | some digit, left + 1 => some (done, .hex left (16 * value + digit) high)
    | some digit, 0 => endHex done (16 * value + digit) high
  | .pairBackslash high => if c = '\\' then some (done, .pairMarker high) else none
  | .pairMarker high => if c = 'u' then some (done, .hex 3 0 (some high)) else none

/-- One character behind a value. -/
def stepAfter (r : Reader) (c : Char) : Option Reader :=
  if isBlank c then some r
  else
    match r.mode with
    | .next => if c = ',' then separate r.stack else close c r.stack
    | _ => none

/-- One character. -/
def step (r : Reader) (c : Char) : Option Reader :=
  match r.mode with
  | .value => if isBlank c then some r else startValue r.stack c
  | .first =>
    if isBlank c then some r else if c = ']' then close c r.stack else startValue r.stack c
  | .firstName =>
    if isBlank c then some r else if c = '\x7d' then close c r.stack else startName r.stack c
  | .name => if isBlank c then some r else startName r.stack c
  | .colon => if isBlank c then some r else if c = ':' then some ⟨r.stack, .value⟩ else none
  | .next | .finished _ => stepAfter r c
  | .text isName done .plain =>
    if c = '"' then endText r.stack isName done
    else (stepText done c .plain).map fun (done, place) => ⟨r.stack, .text isName done place⟩
  | .text isName done place =>
    (stepText done c place).map fun (done, place) => ⟨r.stack, .text isName done place⟩
  | .digits done =>
    if isNumeral c then some ⟨r.stack, .digits (c :: done)⟩
    else do
      let value ← ofNumeral? done.reverse
      stepAfter (← deliver value r.stack) c
  | .word [] _ => none
  | .word [last] result => if c = last then deliver result r.stack else none
  | .word (expected :: left) result =>
    if c = expected then some ⟨r.stack, .word left result⟩ else none

/-- The value read, at the end of the text. -/
def result? (r : Reader) : Option Json :=
  match r.mode, r.stack with
  | .finished result, _ => some result
  | .digits done, [] => ofNumeral? done.reverse
  | _, _ => none

end Reader

/-- The value that the text writes down. -/
def read? (text : String) : Option Json :=
  (text.toList.foldlM Reader.step Reader.start).bind Reader.result?

end Json
end ScriptAst
