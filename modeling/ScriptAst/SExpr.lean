/-!
# S-expressions

The form in which trees are shown: an atom, or a list with a name at its head.  Everything stands on
one line, with one space before each item of a list.
-/
namespace ScriptAst

/-- An atom, or a list of items under a name. -/
inductive SExpr where
  | atom (text : String)
  | list (head : String) (items : List SExpr)

namespace SExpr

mutual

/-- The characters of the expression, and then `rest`. -/
def charsThen (rest : List Char) : SExpr → List Char
  | .atom text => text.toList ++ rest
  | .list head items => '(' :: (head.toList ++ itemsThen (')' :: rest) items)

/-- The characters of the items with a space before each, and then `rest`. -/
def itemsThen (rest : List Char) : List SExpr → List Char
  | [] => rest
  | item :: items => ' ' :: charsThen (itemsThen rest items) item

end

/-- The characters of the expression. -/
def chars (e : SExpr) : List Char := e.charsThen []

/-- The text of the expression. -/
def render (e : SExpr) : String := String.ofList e.chars

mutual

theorem charsThen_append (rest : List Char) :
    ∀ e : SExpr, charsThen rest e = charsThen [] e ++ rest
  | .atom text => by simp [charsThen]
  | .list head items => by
    simp only [charsThen]
    rw [itemsThen_append (')' :: rest) items, itemsThen_append [')'] items]
    simp

theorem itemsThen_append (rest : List Char) :
    ∀ items : List SExpr, itemsThen rest items = itemsThen [] items ++ rest
  | [] => rfl
  | item :: items => by
    simp only [itemsThen]
    rw [charsThen_append (itemsThen rest items) item, charsThen_append (itemsThen [] items) item,
      itemsThen_append rest items]
    simp

end

/-- An atom is its text. -/
@[simp] theorem chars_atom (text : String) : (SExpr.atom text).chars = text.toList := by
  simp [chars, charsThen]

/-- A list is its head and its items between brackets. -/
@[simp] theorem chars_list (head : String) (items : List SExpr) :
    (SExpr.list head items).chars =
      '(' :: (head.toList ++ (items.flatMap (fun item => ' ' :: item.chars) ++ [')'])) := by
  suffices h : itemsThen [] items = items.flatMap (fun item => ' ' :: item.chars) by
    rw [chars, charsThen, itemsThen_append, h]
  induction items with
  | nil => rfl
  | cons item items ih =>
    rw [itemsThen, charsThen_append, ih]
    rfl

end SExpr
end ScriptAst
