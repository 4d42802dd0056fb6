import ScriptAst.Node.Basic
import ScriptAst.BuildError

/-!
# Assignments

What can be written to: a name, and a member of an object by key or by name.  An update of anything
else still has a node of its own, while an assignment to anything else is an error.
-/
namespace ScriptAst

/-- The node that writes to `target`.  An update has a side and no value, an assignment a value and
no side. -/
def Node.write (pos : Position) (target : Node) (op : AssignOp) (value : Option Node)
    (side : Option Side) : Except BuildError Node :=
  match target.kind with
  | .identifier _ | .variableIdentifier _ _ => .ok ⟨pos, .simpleAssignment target value op side⟩
  | .member object index => .ok ⟨pos, .memberAssignment object index value op side⟩
  | .memberDot object name => .ok ⟨pos, .memberDotAssignment object name value op side⟩
  | _ =>
    if side.isSome then .ok ⟨pos, .simpleIncrement target op⟩
    else .error (.invalidTarget pos .notAssignable)

end ScriptAst
