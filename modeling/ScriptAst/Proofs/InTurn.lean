import ScriptAst.Proofs.Nesting

/-! # What is built in turn

A production builds the trees it needs one after the other, each on the builder that the one before
leaves (`Builder.Builds`).  What a plan that succeeds has done can be told step by step
(`carryOut_bind_eq_ok_iff`), and a dispatch succeeds if there is a level left and the plan of its
symbol succeeds one level further in (`dispatch_eq_ok_iff`).
-/
namespace ScriptAst.Builder

open Production

variable {α β : Type} {b after : Builder}

/-! ## Plans that succeed -/

theorem andThen_eq_ok_iff {next : α → Builder → Except BuildError β × Builder}
    {result : Except BuildError α × Builder} {value : β} :
    andThen next result = (.ok value, after) ↔
      ∃ first between, result = (.ok first, between) ∧ next first between = (.ok value, after) := by
  obtain ⟨error | first, between⟩ := result
  · simp [andThen]
  · constructor
    · exact fun h => ⟨first, between, rfl, h⟩
    · rintro ⟨_, _, ⟨⟩, h⟩
      exact h

theorem on_eq_ok_iff {outcome : Outcome α} {value : α} :
    outcome.on b = (.ok value, after) ↔
      outcome.result = .ok value ∧ after = { b with scopes := outcome.scopes } := by
  rw [Outcome.on, Prod.mk.injEq, @eq_comm _ after]

/-- A plan and then another is carried out one after the other. -/
theorem carryOut_bind (b : Builder) (plan : Plan α) (f : α → Plan β) :
    b.carryOut (plan >>= f) =
      andThen (fun value between => between.carryOut (f value)) (b.carryOut plan) := by
  show Outcome.on (Plan.run _ _ (plan.bind f) _) b = andThen _ (Outcome.on (Plan.run _ _ plan _) b)
  rw [Plan.run_bind]
  generalize Plan.run _ _ plan b.scopes = outcome
  obtain ⟨_ | _, _⟩ := outcome <;> rfl

theorem carryOut_bind_eq_ok_iff {plan : Plan α} {f : α → Plan β} {value : β} :
    b.carryOut (plan >>= f) = (.ok value, after) ↔
      ∃ first between, b.carryOut plan = (.ok first, between) ∧
        between.carryOut (f first) = (.ok value, after) := by
  rw [carryOut_bind, andThen_eq_ok_iff]

@[simp] theorem carryOut_done_eq_ok_iff {value value' : α} :
    b.carryOut (.done value) = (.ok value', after) ↔ value = value' ∧ b = after := by
  show (Except.ok value, b) = (.ok value', after) ↔ _
  rw [Prod.mk.injEq, Except.ok.injEq]

@[simp] theorem carryOut_fail_ne_ok {error : BuildError} {value : α} :
    b.carryOut (.fail error) ≠ (.ok value, after) := by
  intro h
  cases congrArg Prod.fst h

theorem carryOut_ofExcept_bind_eq_ok_iff {first : Except BuildError α} {f : α → Plan β}
    {value : β} :
    b.carryOut (Plan.ofExcept first >>= f) = (.ok value, after) ↔
      ∃ result, first = .ok result ∧ b.carryOut (f result) = (.ok value, after) := by
  cases first with
  | error =>
    refine iff_of_false carryOut_fail_ne_ok ?_
    rintro ⟨_, ⟨⟩, _⟩
  | ok result =>
    constructor
    · exact fun h => ⟨result, rfl, h⟩
    · rintro ⟨_, ⟨⟩, h⟩
      exact h

/-- To carry out the plan for a value is to build the tree. -/
theorem carryOut_value (b : Builder) (tree : ParseTree) :
    b.carryOut (value tree) = b.node tree := rfl

/-! ## Trees in turn -/

/-- The trees are built to the nodes one after the other, each on the builder that the one before
leaves. -/
inductive Builds : Builder → List (ParseTree × Node) → Builder → Prop
  | nil (b : Builder) : Builds b [] b
  | cons {b between after : Builder} {tree : ParseTree} {node : Node}
      {rest : List (ParseTree × Node)} : b.node tree = (.ok node, between) →
      Builds between rest after → Builds b ((tree, node) :: rest) after

@[simp] theorem builds_nil_iff : b.Builds [] after ↔ b = after := by
  constructor
  · rintro ⟨⟩
    rfl
  · rintro rfl
    exact .nil b

theorem builds_cons_iff {part : ParseTree × Node} {rest : List (ParseTree × Node)} :
    b.Builds (part :: rest) after ↔
      ∃ between, b.node part.1 = (.ok part.2, between) ∧ between.Builds rest after := by
  constructor
  · rintro ⟨⟩
    exact ⟨_, by assumption, by assumption⟩
  · rintro ⟨between, hfirst, hrest⟩
    exact .cons hfirst hrest

theorem builds_singleton_iff {tree : ParseTree} {node : Node} :
    b.Builds [(tree, node)] after ↔ b.node tree = (.ok node, after) := by
  rw [builds_cons_iff]
  constructor
  · rintro ⟨between, hnode, ⟨⟩⟩
    exact hnode
  · exact fun hnode => ⟨after, hnode, .nil after⟩

/-- One tree, and something made of its node. -/
theorem carryOut_value_map_eq_ok_iff {tree : ParseTree} {f : Node → α} {result : α} :
    b.carryOut (value tree >>= fun built => .done (f built)) = (.ok result, after) ↔
      ∃ built, b.Builds [(tree, built)] after ∧ f built = result := by
  simp only [carryOut_bind_eq_ok_iff, carryOut_value, carryOut_done_eq_ok_iff,
    builds_singleton_iff]
  constructor
  · rintro ⟨built, _, hbuilt, hresult, rfl⟩
    exact ⟨built, hbuilt, hresult⟩
  · rintro ⟨built, hbuilt, hresult⟩
    exact ⟨built, after, hbuilt, hresult, rfl⟩

theorem builds_append_iff {parts rest : List (ParseTree × Node)} :
    b.Builds (parts ++ rest) after ↔
      ∃ between, b.Builds parts between ∧ between.Builds rest after := by
  induction parts generalizing b with
  | nil => simp
  | cons part parts ih =>
    simp only [List.cons_append, builds_cons_iff, ih]
    constructor
    · rintro ⟨first, hfirst, between, hparts, hrest⟩
      exact ⟨between, ⟨first, hfirst, hparts⟩, hrest⟩
    · rintro ⟨between, ⟨first, hfirst, hparts⟩, hrest⟩
      exact ⟨first, hfirst, between, hparts, hrest⟩

/-! ## Dispatches that succeed -/

/-- The builder one level further in. -/
def deeper (b : Builder) : Builder := { b with depth := b.depth + 1 }

/-- A dispatch that succeeds has a level left, and carries out the plan of its symbol there. -/
theorem dispatch_eq_ok_iff {tree : ParseTree} {symbol : Symbol}
    (hsymbol : tree.symbol = symbol.name) {answer : Option Node} :
    b.dispatch tree = (.ok answer, after) ↔
      b.depth < maxNesting ∧ ∃ inner,
        b.deeper.carryOut (symbol.plan b.options.sourceName tree) = (.ok answer, inner) ∧
          after = { b with scopes := inner.scopes } := by
  rw [dispatch_on, on_eq_ok_iff]
  by_cases hdepth : b.depth < maxNesting
  · have hroom : maxNesting - b.depth = maxNesting - b.deeper.depth + 1 := by
      simp only [deeper]
      omega
    rw [hroom, ScriptAst.dispatch, hsymbol, Symbol.ofName?_name]
    constructor
    · rintro ⟨hok, rfl⟩
      exact ⟨hdepth, _, on_eq_ok_iff.mpr ⟨hok, rfl⟩, rfl⟩
    · rintro ⟨_, inner, hinner, rfl⟩
      obtain ⟨hok, rfl⟩ := on_eq_ok_iff.mp hinner
      exact ⟨hok, rfl⟩
  · rw [Nat.sub_eq_zero_of_le (Nat.le_of_not_lt hdepth), ScriptAst.dispatch, hsymbol,
      Symbol.ofName?_name]
    constructor
    · rintro ⟨hok, _⟩
      cases hok
    · rintro ⟨hlt, _⟩
      exact absurd hlt hdepth

/-- The same where the symbol stands for a plan that always has a node. -/
theorem dispatch_node_eq_ok_iff {tree : ParseTree} {symbol : Symbol} {plan : Plan Node}
    (hsymbol : tree.symbol = symbol.name)
    (hplan : symbol.plan b.options.sourceName tree = Symbol.plan.node plan)
    {answer : Option Node} :
    b.dispatch tree = (.ok answer, after) ↔
      b.depth < maxNesting ∧ ∃ node inner, b.deeper.carryOut plan = (.ok node, inner) ∧
        answer = some node ∧ after = { b with scopes := inner.scopes } := by
  rw [dispatch_eq_ok_iff hsymbol, hplan, Symbol.plan.node]
  simp only [carryOut_bind_eq_ok_iff, Plan.pure_eq, carryOut_done_eq_ok_iff]
  constructor
  · rintro ⟨hdepth, inner, ⟨node, between, hnode, rfl, rfl⟩, rfl⟩
    exact ⟨hdepth, node, between, hnode, rfl, rfl⟩
  · rintro ⟨hdepth, node, between, hnode, rfl, rfl⟩
    exact ⟨hdepth, between, ⟨node, between, hnode, rfl, rfl⟩, rfl⟩

end ScriptAst.Builder
