import ScriptAst.Node.Basic
import ScriptAst.Ordered

/-!
# Scopes

One frame is open for each body that is being built.  It collects the `var` names and the functions
declared in that body; a name is resolved to the number of frames between the innermost one and the
nearest that declares it.
-/
namespace ScriptAst

/-- What has been declared in one body so far. -/
structure Frame where
  vars : List String
  funcs : List (String × Node)

/-- The frame of a body that has declared nothing. -/
def Frame.empty : Frame := ⟨[], []⟩

/-- The open frames, innermost first. -/
abbrev Scopes := List Frame

namespace Scopes

/-- Opens a frame. -/
def push (scopes : Scopes) : Scopes := .empty :: scopes

/-- Closes the innermost frame and gives what was declared in it, if one is open. -/
def pop : Scopes → Option Frame × Scopes
  | [] => (none, [])
  | frame :: outer => (some frame, outer)

/-- Declares a variable in the innermost frame, and says whether one is open. -/
def declareVar (name : String) : Scopes → Bool × Scopes
  | [] => (false, [])
  | frame :: outer => (true, { frame with vars := addName name frame.vars } :: outer)

/-- Declares a function in the innermost frame, and says whether one is open. -/
def declareFunc (name : String) (function : Node) : Scopes → Bool × Scopes
  | [] => (false, [])
  | frame :: outer => (true, { frame with funcs := bindName name function frame.funcs } :: outer)

/-- The number of frames between the innermost one and the nearest that declares the variable.  A
number that does not fit 32 bits is not given. -/
def resolve (name : String) (scopes : Scopes) : Option Nat :=
  (scopes.findIdx? (fun frame => name ∈ frame.vars)).filter (· < UInt32.size)

/-- A frame that is opened and closed at once has nothing in it and leaves the others alone. -/
@[simp] theorem pop_push (scopes : Scopes) : scopes.push.pop = (some .empty, scopes) := rfl

@[simp] theorem length_push (scopes : Scopes) : scopes.push.length = scopes.length + 1 := rfl

/-- A declaration leaves as many frames open as there were. -/
@[simp] theorem length_declareVar (name : String) (scopes : Scopes) :
    (scopes.declareVar name).2.length = scopes.length := by
  cases scopes <;> rfl

@[simp] theorem length_declareFunc (name : String) (function : Node) (scopes : Scopes) :
    (scopes.declareFunc name function).2.length = scopes.length := by
  cases scopes <;> rfl

/-- Without an open frame nothing is resolved. -/
@[simp] theorem resolve_nil (name : String) : resolve name [] = none := rfl

end Scopes
end ScriptAst
