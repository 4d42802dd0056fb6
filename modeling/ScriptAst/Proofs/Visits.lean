import ScriptAst.Proofs.Discipline

/-! # The visits of a build

Which trees a build gets to, and over which frames.  `Plan.visits` lists the trees that a run of a
plan visits, in order and up to the first that fails, and `visits` those that a dispatch gets to on
all levels, itself included.

A tree is never visited over more frames than levels have been used up (`Visit.frames_le`), and in a
build that succeeds every visit has succeeded (`Visit.isOk`).
-/
namespace ScriptAst

variable {α β γ : Type}

/-- What a success leads to.  An error leads to nothing. -/
def Outcome.leads (outcome : Outcome α) (next : α → Scopes → List β) : List β :=
  match outcome.result with
  | .ok value => next value outcome.scopes
  | .error _ => []

theorem Outcome.leads_andThen (outcome : Outcome α) (f : α → Scopes → Outcome β)
    (next : β → Scopes → List γ) :
    (outcome.andThen f).leads next =
      outcome.leads fun value scopes => (f value scopes).leads next := by
  obtain ⟨_ | _, _⟩ := outcome <;> rfl

theorem Outcome.leads_append (outcome : Outcome α) (f g : α → Scopes → List β) :
    outcome.leads f ++ outcome.leads g =
      outcome.leads fun value scopes => f value scopes ++ g value scopes := by
  obtain ⟨_ | _, _⟩ := outcome <;> rfl

/-- Only a success leads to anything. -/
theorem Outcome.mem_leads {outcome : Outcome α} {next : α → Scopes → List β} {b : β}
    (h : b ∈ outcome.leads next) :
    ∃ value scopes, outcome = ⟨.ok value, scopes⟩ ∧ b ∈ next value scopes := by
  obtain ⟨_ | value, scopes⟩ := outcome
  · exact nomatch h
  · exact ⟨value, scopes, rfl, h⟩

/-- The first step of a run that succeeds has succeeded. -/
theorem Outcome.andThen_eq_ok {outcome : Outcome α} {next : α → Scopes → Outcome β} {b : β}
    {after : Scopes} (h : outcome.andThen next = ⟨.ok b, after⟩) :
    ∃ value between, outcome = ⟨.ok value, between⟩ ∧ next value between = ⟨.ok b, after⟩ := by
  obtain ⟨_ | value, between⟩ := outcome
  · exact nomatch h
  · exact ⟨value, between, rfl, h⟩

/-- A disciplined success leaves the frames grown. -/
theorem Outcome.Disciplined.grows {outcome : Outcome α} {before after : Scopes} {value : α}
    (h : outcome.Disciplined before) (hok : outcome = ⟨.ok value, after⟩) : before.Grows after := by
  subst hok
  exact h

namespace Plan

section

variable (resolving : Bool) (visitTree : ParseTree → Scopes → Outcome (Option Node))

/-- The visits of trees in turn. -/
def visitsOfAll : List ParseTree → Scopes → List (ParseTree × Scopes)
  | [], _ => []
  | tree :: trees, scopes =>
    (tree, scopes) :: (visitTree tree scopes).leads fun _ scopes => visitsOfAll trees scopes

/-- The trees that a run of the plan visits, with the frames it visits them over. -/
def visits : Plan α → Scopes → List (ParseTree × Scopes)
  | done _, _ | fail _, _ => []
  | visit tree next, scopes =>
    (tree, scopes) :: (visitTree tree scopes).leads fun node scopes => visits (next node) scopes
  | lookup name next, scopes =>
    visits (next (if resolving then scopes.resolve name else none)) scopes
  | declareVar name next, scopes =>
    visits (next (scopes.declareVar name).1) (scopes.declareVar name).2
  | declareFunc name function next, scopes =>
    visits (next (scopes.declareFunc name function).1) (scopes.declareFunc name function).2
  | body trees next, scopes =>
    visitsOfAll visitTree trees scopes.push ++
      (visitAll visitTree trees scopes.push).leads fun nodes scopes =>
        visits (next nodes scopes.pop.1) scopes.pop.2

end

variable {resolving : Bool} {visitTree : ParseTree → Scopes → Outcome (Option Node)}

/-- The visits of a plan and then another are those of the one and, if it succeeds, of the other. -/
theorem visits_bind (f : α → Plan β) (plan : Plan α) (scopes : Scopes) :
    (bind f plan).visits resolving visitTree scopes =
      plan.visits resolving visitTree scopes ++
        (plan.run resolving visitTree scopes).leads fun value scopes =>
          (f value).visits resolving visitTree scopes := by
  induction plan generalizing scopes with
  | done | fail => rfl
  | visit tree next ih =>
    simp only [bind, visits, run, ih, Outcome.leads_andThen, List.cons_append,
      Outcome.leads_append]
  | lookup name next ih => exact ih _ scopes
  | declareVar name next ih => exact ih _ _
  | declareFunc name function next ih => exact ih _ _
  | body trees next ih =>
    simp only [bind, visits, run, ih, Outcome.leads_andThen, List.append_assoc,
      Outcome.leads_append]

/-- The trees visited in turn are visited over as many frames as the first. -/
theorem length_of_mem_visitsOfAll
    (hvisit : ∀ tree scopes, (visitTree tree scopes).Disciplined scopes) {trees : List ParseTree}
    {scopes : Scopes} {entry : ParseTree × Scopes}
    (h : entry ∈ visitsOfAll visitTree trees scopes) :
    entry.2.length = scopes.length := by
  induction trees generalizing scopes with
  | nil => exact nomatch h
  | cons tree trees ih =>
    rcases List.mem_cons.mp h with rfl | h
    · rfl
    · obtain ⟨_, between, hok, h⟩ := Outcome.mem_leads h
      rw [ih h, ((hvisit tree scopes).grows hok).length_eq]

/-- A plan opens at most one frame more than it finds. -/
theorem length_of_mem_visits
    (hvisit : ∀ tree scopes, (visitTree tree scopes).Disciplined scopes) {plan : Plan α}
    {scopes : Scopes} {entry : ParseTree × Scopes}
    (h : entry ∈ plan.visits resolving visitTree scopes) :
    entry.2.length ≤ scopes.length + 1 := by
  induction plan generalizing scopes with
  | done | fail => exact nomatch h
  | visit tree next ih =>
    rcases List.mem_cons.mp h with rfl | h
    · exact Nat.le_succ _
    · obtain ⟨answer, between, hok, h⟩ := Outcome.mem_leads h
      rw [← ((hvisit tree scopes).grows hok).length_eq]
      exact ih answer h
  | lookup name next ih => exact ih _ h
  | declareVar name next ih =>
    rw [← Scopes.length_declareVar name scopes]
    exact ih _ h
  | declareFunc name function next ih =>
    rw [← Scopes.length_declareFunc name function scopes]
    exact ih _ h
  | body trees next ih =>
    rcases List.mem_append.mp h with h | h
    · exact Nat.le_of_eq (length_of_mem_visitsOfAll hvisit h)
    · obtain ⟨nodes, between, hok, h⟩ := Outcome.mem_leads h
      -- The frame of the body is closed again.
      obtain ⟨frame, rfl⟩ := ((visitAll_disciplined hvisit trees scopes.push).grows hok).of_push
      exact ih _ _ h

theorem isOk_of_mem_visitsOfAll {trees : List ParseTree} {scopes after : Scopes}
    {nodes : List Node} (hrun : visitAll visitTree trees scopes = ⟨.ok nodes, after⟩)
    {entry : ParseTree × Scopes} (h : entry ∈ visitsOfAll visitTree trees scopes) :
    (visitTree entry.1 entry.2).result.isOk := by
  induction trees generalizing scopes after nodes with
  | nil => exact nomatch h
  | cons tree trees ih =>
    obtain ⟨answer, between, hfirst, hrun⟩ := Outcome.andThen_eq_ok hrun
    obtain ⟨nodes, last, hrest, _⟩ := Outcome.andThen_eq_ok hrun
    rcases List.mem_cons.mp h with rfl | h
    · rw [hfirst]
      rfl
    · rw [hfirst] at h
      exact ih hrest h

/-- In a run that succeeds all visits succeed. -/
theorem isOk_of_mem_visits {plan : Plan α} {scopes after : Scopes} {value : α}
    (hrun : plan.run resolving visitTree scopes = ⟨.ok value, after⟩)
    {entry : ParseTree × Scopes} (h : entry ∈ plan.visits resolving visitTree scopes) :
    (visitTree entry.1 entry.2).result.isOk := by
  induction plan generalizing scopes with
  | done | fail => exact nomatch h
  | visit tree next ih =>
    obtain ⟨answer, between, hfirst, hrun⟩ := Outcome.andThen_eq_ok hrun
    rcases List.mem_cons.mp h with rfl | h
    · rw [hfirst]
      rfl
    · rw [hfirst] at h
      exact ih answer hrun h
  | lookup name next ih => exact ih _ hrun h
  | declareVar name next ih => exact ih _ hrun h
  | declareFunc name function next ih => exact ih _ hrun h
  | body trees next ih =>
    obtain ⟨nodes, between, hall, hrun⟩ := Outcome.andThen_eq_ok hrun
    rcases List.mem_append.mp h with h | h
    · exact isOk_of_mem_visitsOfAll hall h
    · rw [hall] at h
      exact ih _ _ hrun h

end Plan

/-! ## All levels -/

/-- A tree that is dispatched, with the levels left for it and the frames open. -/
structure Visit where
  room : Nat
  tree : ParseTree
  scopes : Scopes

/-- What the visit comes to. -/
def Visit.outcome (options : Options) (visit : Visit) : Outcome (Option Node) :=
  dispatch options visit.room visit.tree visit.scopes

/-- The visits in a dispatch, each before those below it. -/
def visits (options : Options) : Nat → ParseTree → Scopes → List Visit
  | 0, tree, scopes => [⟨0, tree, scopes⟩]
  | room + 1, tree, scopes =>
    ⟨room + 1, tree, scopes⟩ ::
      match Symbol.ofName? tree.symbol with
      | none => []
      | some symbol =>
        ((symbol.plan options.sourceName tree).visits options.staticResolution
          (dispatch options room) scopes).flatMap fun (tree, scopes) =>
            visits options room tree scopes

section

variable {options : Options} {room : Nat} {tree : ParseTree} {scopes : Scopes} {visit : Visit}

/-- A dispatch that succeeds has a level left, and carries out the plan of the symbol. -/
theorem dispatch_eq_ok (symbol : Symbol) (hsymbol : tree.symbol = symbol.name)
    {answer : Option Node} {after : Scopes}
    (hrun : dispatch options room tree scopes = ⟨.ok answer, after⟩) :
    ∃ below, room = below + 1 ∧
      (symbol.plan options.sourceName tree).run options.staticResolution (dispatch options below)
        scopes = ⟨.ok answer, after⟩ := by
  cases room with
  | zero =>
    rw [dispatch, hsymbol, Symbol.ofName?_name] at hrun
    cases hrun
  | succ below =>
    rw [dispatch, hsymbol, Symbol.ofName?_name] at hrun
    exact ⟨below, rfl, hrun⟩

theorem self_mem_visits : ⟨room, tree, scopes⟩ ∈ visits options room tree scopes := by
  cases room <;> exact .head _

/-- The visits in a dispatch are itself and those in the visits of its plan. -/
theorem mem_visits_succ_iff :
    visit ∈ visits options (room + 1) tree scopes ↔ visit = ⟨room + 1, tree, scopes⟩ ∨
      ∃ symbol, Symbol.ofName? tree.symbol = some symbol ∧
        ∃ entry ∈ (symbol.plan options.sourceName tree).visits options.staticResolution
          (dispatch options room) scopes, visit ∈ visits options room entry.1 entry.2 := by
  rw [visits, List.mem_cons]
  cases Symbol.ofName? tree.symbol with
  | none => simp
  | some symbol => simp only [List.mem_flatMap, Option.some.injEq, exists_eq_left']

/-- Frames are opened no faster than levels are used up. -/
theorem Visit.frames_le (h : visit ∈ visits options room tree scopes) :
    visit.scopes.length + visit.room ≤ scopes.length + room := by
  induction room generalizing tree scopes with
  | zero =>
    cases List.mem_singleton.mp h
    exact Nat.le_refl _
  | succ room ih =>
    rcases mem_visits_succ_iff.mp h with rfl | ⟨symbol, _, entry, hentry, h⟩
    · exact Nat.le_refl _
    · have hlength := Plan.length_of_mem_visits (dispatch_disciplined options room) hentry
      have := ih h
      omega

/-- In a dispatch that succeeds all visits succeed. -/
theorem Visit.isOk {answer : Option Node} {after : Scopes}
    (hrun : dispatch options room tree scopes = ⟨.ok answer, after⟩)
    (h : visit ∈ visits options room tree scopes) : (visit.outcome options).result.isOk := by
  induction room generalizing tree scopes answer after with
  | zero =>
    cases List.mem_singleton.mp h
    rw [outcome, hrun]
    rfl
  | succ room ih =>
    rcases mem_visits_succ_iff.mp h with rfl | ⟨symbol, hsymbol, entry, hentry, h⟩
    · rw [outcome, hrun]
      rfl
    · rw [dispatch, hsymbol] at hrun
      have hok := Plan.isOk_of_mem_visits hrun hentry
      cases hchild : dispatch options room entry.1 entry.2 with
      | mk result scopes =>
        rw [hchild] at hok
        cases result with
        | error => cases hok
        | ok => exact ih hchild h

/-- The visits in a visit are visits in the dispatch. -/
theorem visits_trans {inner : Visit} (h : visit ∈ visits options room tree scopes)
    (hinner : inner ∈ visits options visit.room visit.tree visit.scopes) :
    inner ∈ visits options room tree scopes := by
  induction room generalizing tree scopes with
  | zero =>
    cases List.mem_singleton.mp h
    exact hinner
  | succ room ih =>
    rcases mem_visits_succ_iff.mp h with rfl | ⟨symbol, hsymbol, entry, hentry, h⟩
    · exact hinner
    · exact mem_visits_succ_iff.mpr (.inr ⟨symbol, hsymbol, entry, hentry, ih h⟩)

end

end ScriptAst
