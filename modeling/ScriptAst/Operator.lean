/-!
# Operators

Binary, unary and assignment operators with the text the grammar writes for them.  Each `ofToken?`
inverts `token` on its own operators, so a text may name operators of several kinds (`+` is binary
and unary).
-/
namespace ScriptAst

/-- An operator between two operands of a chain. -/
inductive BinaryOp where
  | plus | sub | mult | division | mod
  | bitwiseXor | bitwiseOr | bitwiseAnd
  | and | or
  | eq | ne | strictEq | strictNe
  | gt | ge | lt | le
  | rsh | ursh | lsh
  | comma | isIn
  deriving DecidableEq

namespace BinaryOp

/-- Every binary operator. -/
def all : List BinaryOp :=
  [plus, sub, mult, division, mod, bitwiseXor, bitwiseOr, bitwiseAnd, and, or, eq, ne, strictEq,
   strictNe, gt, ge, lt, le, rsh, ursh, lsh, comma, isIn]

/-- The text of the operator in the source. -/
def token : BinaryOp → String
  | plus => "+"
  | sub => "-"
  | mult => "*"
  | division => "/"
  | mod => "%"
  | bitwiseXor => "^"
  | bitwiseOr => "|"
  | bitwiseAnd => "&"
  | and => "&&"
  | or => "||"
  | eq => "=="
  | ne => "!="
  | strictEq => "==="
  | strictNe => "!=="
  | gt => ">"
  | ge => ">="
  | lt => "<"
  | le => "<="
  | rsh => ">>"
  | ursh => ">>>"
  | lsh => "<<"
  | comma => ","
  | isIn => "in"

/-- The name that a printed node of the operator bears. -/
def name : BinaryOp → String
  | plus => "Plus"
  | sub => "Sub"
  | mult => "Mult"
  | division => "Division"
  | mod => "Mod"
  | bitwiseXor => "BitwiseXor"
  | bitwiseOr => "BitwiseOr"
  | bitwiseAnd => "BitwiseAnd"
  | and => "And"
  | or => "Or"
  | eq => "Eq"
  | ne => "Ne"
  | strictEq => "StrictEq"
  | strictNe => "StrictNe"
  | gt => "Gt"
  | ge => "Ge"
  | lt => "Lt"
  | le => "Le"
  | rsh => "Rsh"
  | ursh => "Ursh"
  | lsh => "Lsh"
  | comma => "Comma"
  | isIn => "In"

/-- The operator written as `text`. -/
def ofToken? (text : String) : Option BinaryOp := all.find? (fun op => op.token == text)

@[simp] theorem ofToken?_token (op : BinaryOp) : ofToken? op.token = some op := by
  cases op <;> decide

theorem ofToken?_eq_some_iff {text : String} {op : BinaryOp} :
    ofToken? text = some op ↔ op.token = text :=
  ⟨fun h => by simpa using List.find?_some h, fun h => h ▸ ofToken?_token op⟩

theorem name_injective {a b : BinaryOp} (h : a.name = b.name) : a = b := by
  revert h; cases a <;> cases b <;> decide

end BinaryOp

/-- An operator before its operand that does not write to it. -/
inductive UnaryOp where
  | bitwiseNot | not | plus | minus | typeof | void | delete
  deriving DecidableEq

namespace UnaryOp

/-- Every unary operator. -/
def all : List UnaryOp := [bitwiseNot, not, plus, minus, typeof, void, delete]

/-- The text of the operator in the source. -/
def token : UnaryOp → String
  | bitwiseNot => "~"
  | not => "!"
  | plus => "+"
  | minus => "-"
  | typeof => "typeof"
  | void => "void"
  | delete => "delete"

/-- The name that a printed node of the operator bears. -/
def name : UnaryOp → String
  | bitwiseNot => "BitwiseNot"
  | not => "Not"
  | plus => "UPlus"
  | minus => "UMinus"
  | typeof => "Typeof"
  | void => "Void"
  | delete => "Delete"

/-- The operator written as `text`. -/
def ofToken? (text : String) : Option UnaryOp := all.find? (fun op => op.token == text)

@[simp] theorem ofToken?_token (op : UnaryOp) : ofToken? op.token = some op := by
  cases op <;> decide

theorem ofToken?_eq_some_iff {text : String} {op : UnaryOp} :
    ofToken? text = some op ↔ op.token = text :=
  ⟨fun h => by simpa using List.find?_some h, fun h => h ▸ ofToken?_token op⟩

theorem name_injective {a b : UnaryOp} (h : a.name = b.name) : a = b := by
  revert h; cases a <;> cases b <;> decide

end UnaryOp

/-- An operator that writes to its target: plain and compound assignment, and the two updates. -/
inductive AssignOp where
  | assign
  | addAssign | subAssign | mulAssign | divAssign | modAssign
  | lshAssign | rshAssign | urshAssign
  | andAssign | xorAssign | orAssign
  | increment | decrement
  deriving DecidableEq

namespace AssignOp

/-- Every assignment operator. -/
def all : List AssignOp :=
  [assign, addAssign, subAssign, mulAssign, divAssign, modAssign, lshAssign, rshAssign, urshAssign,
   andAssign, xorAssign, orAssign, increment, decrement]

/-- The text of the operator in the source. -/
def token : AssignOp → String
  | assign => "="
  | addAssign => "+="
  | subAssign => "-="
  | mulAssign => "*="
  | divAssign => "/="
  | modAssign => "%="
  | lshAssign => "<<="
  | rshAssign => ">>="
  | urshAssign => ">>>="
  | andAssign => "&="
  | xorAssign => "^="
  | orAssign => "|="
  | increment => "++"
  | decrement => "--"

/-- The operator written as `text`. -/
def ofToken? (text : String) : Option AssignOp := all.find? (fun op => op.token == text)

/-- Whether the operator is an update, which has a target and no value. -/
def isUpdate : AssignOp → Bool
  | increment | decrement => true
  | _ => false

/-- The update written as `text`. -/
def updateOfToken? (text : String) : Option AssignOp := (ofToken? text).filter isUpdate

/-- The plain or compound assignment written as `text`. -/
def assignmentOfToken? (text : String) : Option AssignOp :=
  (ofToken? text).filter (fun op => !op.isUpdate)

@[simp] theorem ofToken?_token (op : AssignOp) : ofToken? op.token = some op := by
  cases op <;> decide

theorem ofToken?_eq_some_iff {text : String} {op : AssignOp} :
    ofToken? text = some op ↔ op.token = text :=
  ⟨fun h => by simpa using List.find?_some h, fun h => h ▸ ofToken?_token op⟩

end AssignOp

/-- The side of its operand on which an update stands. -/
inductive Side where
  | pre | post
  deriving DecidableEq

/-- The word for the side in a printed node. -/
def Side.word : Side → String
  | .pre => "pre"
  | .post => "post"

end ScriptAst
