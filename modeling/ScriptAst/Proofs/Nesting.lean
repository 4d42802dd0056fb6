import ScriptAst.Builder

/-! # Levels of nesting

A builder counts the levels it is in: one more on the way into a tree, one less on the way out, and
no way in at the limit.  `dispatch` is handed the number of levels that are left instead, so the
count is never wrong on the way out.  That the two are the same is `Builder.dispatch_eq`: a dispatch
is the look at the count, the plan of the symbol one level further in, with the builder handed from
step to step, and the count put back, after an error as well.

The number of levels left decides nothing but where a build is cut off (`dispatch_room`): with more
of them the outcome is the same, unless it was an error for want of levels.
-/
namespace ScriptAst

/-! ## Counting -/

/-- The result and the builder, with the frames as they are left. -/
def Outcome.on {α : Type} (outcome : Outcome α) (b : Builder) : Except BuildError α × Builder :=
  (outcome.result, { b with scopes := outcome.scopes })

namespace Builder

variable {α β : Type}

/-- Goes on with the value on the builder that is left; an error stays. -/
def andThen (next : α → Builder → Except BuildError β × Builder) :
    Except BuildError α × Builder → Except BuildError β × Builder
  | (.ok value, b) => next value b
  | (.error error, b) => (.error error, b)

theorem andThen_on (outcome : Outcome α) (next : α → Scopes → Outcome β) (b : Builder) :
    (outcome.andThen next).on b =
      andThen (fun value after => (next value after.scopes).on after) (outcome.on b) := by
  obtain ⟨_ | _, _⟩ := outcome <;> rfl

variable (visitTree : ParseTree → Builder → Except BuildError (Option Node) × Builder)

/-- Visits trees in turn, each on the builder that the one before leaves. -/
def performAll : List ParseTree → Builder → Except BuildError (List Node) × Builder
  | [], b => (.ok [], b)
  | tree :: trees, b =>
    andThen (fun node b =>
      andThen (fun nodes b => (.ok (node.toList ++ nodes), b)) (performAll trees b))
      (visitTree tree b)

/-- Takes the steps of a plan, each on the builder that the one before leaves. -/
def perform : Plan α → Builder → Except BuildError α × Builder
  | .done value, b => (.ok value, b)
  | .fail error, b => (.error error, b)
  | .visit tree next, b => andThen (fun node b => perform (next node) b) (visitTree tree b)
  | .lookup name next, b =>
    perform (next (if b.options.staticResolution then b.scopes.resolve name else none)) b
  | .declareVar name next, b =>
    let (isOpen, scopes) := b.scopes.declareVar name
    perform (next isOpen) { b with scopes := scopes }
  | .declareFunc name function next, b =>
    let (isOpen, scopes) := b.scopes.declareFunc name function
    perform (next isOpen) { b with scopes := scopes }
  | .body trees next, b =>
    andThen (fun nodes b =>
      let (frame, scopes) := b.scopes.pop
      perform (next nodes frame) { b with scopes := scopes })
      (performAll visitTree trees { b with scopes := b.scopes.push })

/-- Visits a tree one level further in, if the limit allows it. -/
def enter (b : Builder) (tree : ParseTree) : Except BuildError (Option Node) × Builder :=
  match Symbol.ofName? tree.symbol with
  | none => (.error (.unknownSymbol tree.symbol tree.position), b)
  | some symbol =>
    if maxNesting ≤ b.depth then
      (.error (.nestingTooDeep tree.symbol tree.position maxNesting), b)
    else
      let (result, after) :=
        perform visitTree (symbol.plan b.options.sourceName tree) { b with depth := b.depth + 1 }
      (result, { after with depth := after.depth - 1 })

theorem performAll_eq {visit : ParseTree → Scopes → Outcome (Option Node)} (b : Builder)
    (hvisit : ∀ tree scopes, visitTree tree { b with scopes := scopes } =
      (visit tree scopes).on { b with scopes := scopes })
    (trees : List ParseTree) (scopes : Scopes) :
    performAll visitTree trees { b with scopes := scopes } =
      (Plan.visitAll visit trees scopes).on { b with scopes := scopes } := by
  induction trees generalizing scopes with
  | nil => rfl
  | cons tree trees ih =>
    rw [performAll, Plan.visitAll, andThen_on, hvisit]
    generalize visit tree scopes = first
    obtain ⟨_ | node, scopes⟩ := first
    · rfl
    · show andThen _ (performAll visitTree trees { b with scopes := scopes }) = Outcome.on _ _
      rw [ih]
      generalize Plan.visitAll visit trees scopes = rest
      obtain ⟨_ | _, _⟩ := rest <;> rfl

/-- Taking the steps of a plan on a builder is running it over the frames. -/
theorem perform_eq {visit : ParseTree → Scopes → Outcome (Option Node)} (b : Builder)
    (hvisit : ∀ tree scopes, visitTree tree { b with scopes := scopes } =
      (visit tree scopes).on { b with scopes := scopes })
    (plan : Plan α) (scopes : Scopes) :
    perform visitTree plan { b with scopes := scopes } =
      (plan.run b.options.staticResolution visit scopes).on { b with scopes := scopes } := by
  induction plan generalizing scopes with
  | done | fail => rfl
  | visit tree next ih =>
    rw [perform, Plan.run, andThen_on, hvisit]
    generalize visit tree scopes = first
    obtain ⟨_ | node, scopes⟩ := first
    · rfl
    · exact ih node scopes
  | lookup name next ih => exact ih _ scopes
  | declareVar name next ih => exact ih _ _
  | declareFunc name function next ih => exact ih _ _
  | body trees next ih =>
    rw [perform, Plan.run, andThen_on]
    have hall := performAll_eq visitTree b hvisit trees scopes.push
    generalize Plan.visitAll visit trees scopes.push = all at hall
    obtain ⟨_ | nodes, scopes⟩ := all
    · exact congrArg (andThen _) hall
    · exact (congrArg (andThen _) hall).trans (ih nodes _ _)

/-- A dispatch is a visit over the frames. -/
theorem dispatch_on (b : Builder) (tree : ParseTree) :
    b.dispatch tree = (ScriptAst.dispatch b.options (maxNesting - b.depth) tree b.scopes).on b := by
  show (Outcome.andThen _ _).on b = _
  generalize ScriptAst.dispatch b.options (maxNesting - b.depth) tree b.scopes = outcome
  obtain ⟨_ | _, _⟩ := outcome <;> rfl

/-- **A dispatch counts its level** on the way in, and gives it back on the way out. -/
theorem dispatch_eq (b : Builder) (tree : ParseTree) :
    b.dispatch tree = b.enter (fun tree b => b.dispatch tree) tree := by
  rw [dispatch_on, enter]
  cases hsymbol : Symbol.ofName? tree.symbol with
  | none => cases maxNesting - b.depth <;> rw [ScriptAst.dispatch, hsymbol] <;> rfl
  | some symbol =>
    by_cases hdepth : maxNesting ≤ b.depth
    · rw [Nat.sub_eq_zero_of_le hdepth, ScriptAst.dispatch, hsymbol]
      simp only [if_pos hdepth]
      rfl
    · -- One level further in, there is one level less left.
      obtain ⟨room, hroom⟩ : ∃ room, maxNesting - b.depth = room + 1 :=
        ⟨maxNesting - b.depth - 1, by omega⟩
      have hinner : maxNesting - (b.depth + 1) = room := by omega
      let inner : Builder := { b with depth := b.depth + 1 }
      have hvisit (tree : ParseTree) (scopes : Scopes) :
          dispatch { inner with scopes := scopes } tree =
            (ScriptAst.dispatch b.options room tree scopes).on { inner with scopes := scopes } := by
        rw [dispatch_on]
        exact congrArg (fun room => (ScriptAst.dispatch b.options room tree scopes).on _) hinner
      have hperform := perform_eq (fun tree b => b.dispatch tree) inner hvisit
        (symbol.plan b.options.sourceName tree) b.scopes
      rw [hroom, ScriptAst.dispatch, hsymbol]
      simp only [if_neg hdepth]
      rw [hperform]
      rfl

end Builder

/-! ## Room -/

namespace Outcome

variable {α β : Type}

/-- The outcome is an error for want of levels. -/
def WantsRoom (outcome : Outcome α) : Prop :=
  ∃ symbol pos limit, outcome.result = .error (.nestingTooDeep symbol pos limit)

/-- The second outcome is the first, unless that is an error for want of levels. -/
def SameWithRoom (outcome outcome' : Outcome α) : Prop :=
  outcome.WantsRoom ∨ outcome' = outcome

theorem SameWithRoom.andThen {outcome outcome' : Outcome α}
    {next next' : α → Scopes → Outcome β} (h : outcome.SameWithRoom outcome')
    (hnext : ∀ value scopes, (next value scopes).SameWithRoom (next' value scopes)) :
    (outcome.andThen next).SameWithRoom (outcome'.andThen next') := by
  rcases h with ⟨symbol, pos, limit, h⟩ | rfl
  · left
    obtain ⟨_ | _, _⟩ := outcome
    · cases h
      exact ⟨symbol, pos, limit, rfl⟩
    · exact nomatch h
  · obtain ⟨_ | value, scopes⟩ := outcome'
    · exact .inr rfl
    · exact hnext value scopes

end Outcome

namespace Plan

variable {α : Type} {resolving : Bool}
  {visitTree visitTree' : ParseTree → Scopes → Outcome (Option Node)}
  (hvisit : ∀ tree scopes, (visitTree tree scopes).SameWithRoom (visitTree' tree scopes))
include hvisit

theorem visitAll_room (trees : List ParseTree) (scopes : Scopes) :
    (visitAll visitTree trees scopes).SameWithRoom (visitAll visitTree' trees scopes) := by
  induction trees generalizing scopes with
  | nil => exact .inr rfl
  | cons tree trees ih =>
    exact (hvisit tree scopes).andThen fun _ scopes => (ih scopes).andThen fun _ _ => .inr rfl

theorem run_room (plan : Plan α) (scopes : Scopes) :
    (plan.run resolving visitTree scopes).SameWithRoom (plan.run resolving visitTree' scopes) := by
  induction plan generalizing scopes with
  | done | fail => exact .inr rfl
  | visit tree next ih => exact (hvisit tree scopes).andThen ih
  | lookup name next ih => exact ih _ scopes
  | declareVar name next ih => exact ih _ _
  | declareFunc name function next ih => exact ih _ _
  | body trees next ih => exact (visitAll_room hvisit trees scopes.push).andThen fun _ _ => ih _ _ _

end Plan

/-- **More room changes nothing** but errors for want of it. -/
theorem dispatch_room (options : Options) {room more : Nat} (h : room ≤ more) (tree : ParseTree)
    (scopes : Scopes) :
    (dispatch options room tree scopes).SameWithRoom (dispatch options more tree scopes) := by
  induction room generalizing more tree scopes with
  | zero =>
    rw [dispatch]
    cases hsymbol : Symbol.ofName? tree.symbol with
    | none => cases more <;> rw [dispatch, hsymbol] <;> exact .inr rfl
    | some symbol => exact .inl ⟨_, _, _, rfl⟩
  | succ room ih =>
    obtain ⟨more, rfl⟩ : ∃ k, more = k + 1 := ⟨more - 1, by omega⟩
    rw [dispatch, dispatch]
    cases Symbol.ofName? tree.symbol with
    | none => exact .inr rfl
    | some symbol => exact Plan.run_room (ih (Nat.le_of_succ_le_succ h)) _ scopes

end ScriptAst
