import ScriptAst.Scope
import ScriptAst.BuildError
import ScriptAst.ParseTree.Basic

/-!
# Plans

A plan says, step by step, what it takes to build one node: which trees to visit, which names to
look up and to declare, and what to do with the answers.  It is data.  `Plan.run` carries it out
over the open frames, given a way to visit a tree, so facts about all plans are proved once by
induction on plans.  Frames are opened and closed by the step for a body alone.
-/
namespace ScriptAst

/-- The steps towards a value. -/
inductive Plan (α : Type) where
  | done (value : α)
  | fail (error : BuildError)
  /-- Builds a tree; a declaration answers with no node. -/
  | visit (tree : ParseTree) (next : Option Node → Plan α)
  /-- Asks how far out a variable is declared. -/
  | lookup (name : String) (next : Option Nat → Plan α)
  /-- Declares a variable; the answer says whether a frame is open. -/
  | declareVar (name : String) (next : Bool → Plan α)
  /-- Declares a function; the answer says whether a frame is open. -/
  | declareFunc (name : String) (function : Node) (next : Bool → Plan α)
  /-- Builds trees in a frame of their own; the answer is the nodes and what was declared. -/
  | body (trees : List ParseTree) (next : List Node → Option Frame → Plan α)

/-- A value or an error, and the frames as they are left. -/
structure Outcome (α : Type) where
  result : Except BuildError α
  scopes : Scopes

namespace Outcome

variable {α β γ : Type}

/-- Goes on with the value and the frames; an error stays, with the frames it left open. -/
def andThen (outcome : Outcome α) (next : α → Scopes → Outcome β) : Outcome β :=
  match outcome.result with
  | .ok value => next value outcome.scopes
  | .error error => ⟨.error error, outcome.scopes⟩

@[simp] theorem andThen_ok (value : α) (scopes : Scopes) (next : α → Scopes → Outcome β) :
    andThen ⟨.ok value, scopes⟩ next = next value scopes := rfl

@[simp] theorem andThen_error (error : BuildError) (scopes : Scopes)
    (next : α → Scopes → Outcome β) :
    andThen ⟨.error error, scopes⟩ next = ⟨.error error, scopes⟩ := rfl

theorem andThen_assoc (outcome : Outcome α) (f : α → Scopes → Outcome β)
    (g : β → Scopes → Outcome γ) :
    (outcome.andThen f).andThen g = outcome.andThen fun a scopes => (f a scopes).andThen g := by
  obtain ⟨_ | _, _⟩ := outcome <;> rfl

end Outcome

namespace Plan

variable {α β : Type}

/-- One plan and, with its value, the next. -/
def bind (f : α → Plan β) : Plan α → Plan β
  | done value => f value
  | fail error => fail error
  | visit tree next => visit tree fun node => bind f (next node)
  | lookup name next => lookup name fun depth => bind f (next depth)
  | declareVar name next => declareVar name fun isOpen => bind f (next isOpen)
  | declareFunc name function next => declareFunc name function fun isOpen => bind f (next isOpen)
  | body trees next => body trees fun nodes frame => bind f (next nodes frame)

instance : Monad Plan where
  pure := done
  bind plan f := plan.bind f

/-- The outcome of a computation without steps. -/
def ofExcept : Except BuildError α → Plan α
  | .ok value => done value
  | .error error => fail error

/-- Visits trees in turn and keeps the nodes. -/
def visitAll (visitTree : ParseTree → Scopes → Outcome (Option Node)) :
    List ParseTree → Scopes → Outcome (List Node)
  | [], scopes => ⟨.ok [], scopes⟩
  | tree :: trees, scopes =>
    (visitTree tree scopes).andThen fun node scopes =>
      (visitAll visitTree trees scopes).andThen fun nodes scopes =>
        ⟨.ok (node.toList ++ nodes), scopes⟩

/-- Carries out the plan.  Where names are not to be resolved, no lookup finds anything. -/
def run (resolving : Bool) (visitTree : ParseTree → Scopes → Outcome (Option Node)) :
    Plan α → Scopes → Outcome α
  | done value, scopes => ⟨.ok value, scopes⟩
  | fail error, scopes => ⟨.error error, scopes⟩
  | visit tree next, scopes =>
    (visitTree tree scopes).andThen fun node scopes => run resolving visitTree (next node) scopes
  | lookup name next, scopes =>
    run resolving visitTree (next (if resolving then scopes.resolve name else none)) scopes
  | declareVar name next, scopes =>
    let (isOpen, scopes) := scopes.declareVar name
    run resolving visitTree (next isOpen) scopes
  | declareFunc name function next, scopes =>
    let (isOpen, scopes) := scopes.declareFunc name function
    run resolving visitTree (next isOpen) scopes
  | body trees next, scopes =>
    (visitAll visitTree trees scopes.push).andThen fun nodes scopes =>
      let (frame, scopes) := scopes.pop
      run resolving visitTree (next nodes frame) scopes

@[simp] theorem bind_done (f : α → Plan β) (value : α) : bind f (done value) = f value := rfl

theorem pure_eq (value : α) : (pure value : Plan α) = done value := rfl

theorem bind_eq (plan : Plan α) (f : α → Plan β) : (plan >>= f) = plan.bind f := rfl

@[simp] theorem bind_pure (plan : Plan α) : bind done plan = plan := by
  induction plan with
  | done | fail => rfl
  | visit _ _ ih | lookup _ _ ih | declareVar _ _ ih | declareFunc _ _ _ ih =>
    simp only [bind, ih]
  | body _ _ ih => simp only [bind, ih]

theorem bind_assoc {γ : Type} (f : α → Plan β) (g : β → Plan γ) (plan : Plan α) :
    bind g (bind f plan) = bind (fun value => bind g (f value)) plan := by
  induction plan with
  | done | fail => rfl
  | visit _ _ ih | lookup _ _ ih | declareVar _ _ ih | declareFunc _ _ _ ih =>
    simp only [bind, ih]
  | body _ _ ih => simp only [bind, ih]

instance : LawfulMonad Plan :=
  LawfulMonad.mk' Plan bind_pure (fun _ _ => rfl) (fun plan f g => bind_assoc f g plan)

/-- A plan and then another run as the one after the other. -/
theorem run_bind (resolving : Bool) (visitTree : ParseTree → Scopes → Outcome (Option Node))
    (f : α → Plan β) (plan : Plan α) (scopes : Scopes) :
    run resolving visitTree (bind f plan) scopes =
      (run resolving visitTree plan scopes).andThen fun value scopes =>
        run resolving visitTree (f value) scopes := by
  induction plan generalizing scopes with
  | done | fail => rfl
  | visit tree next ih =>
    simp only [bind, run, Outcome.andThen_assoc]
    exact congrArg _ (funext fun node => funext fun scopes => ih node scopes)
  | lookup name next ih => exact ih _ scopes
  | declareVar name next ih => exact ih _ _
  | declareFunc name function next ih => exact ih _ _
  | body trees next ih =>
    simp only [bind, run, Outcome.andThen_assoc]
    exact congrArg _ (funext fun nodes => funext fun scopes => ih nodes scopes.pop.1 scopes.pop.2)

end Plan
end ScriptAst
