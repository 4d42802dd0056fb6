import ScriptAst.Proofs.Visits

/-! # The lookups of a build

Which names a build looks up, and over which frames.  `Plan.lookups` lists what a run of a plan
looks up itself, and `lookups` what a dispatch does on all levels, each with the number of
dispatches that are active then, its own included.

A dispatch opens one frame at most before it visits a tree, and has closed it again when it looks up
a name, so fewer frames are open than dispatches active (`Lookup.frames_lt`).

Nothing else is looked up: a build that finds the same at these lookups is the same build
(`dispatchFinding_eq`).
-/
namespace ScriptAst

variable {α : Type}

/-! ## Of a plan -/

namespace Plan

section

variable (resolving : Bool) (visitTree : ParseTree → Scopes → Outcome (Option Node))

/-- The names that a run of the plan looks up itself, with the frames that are open then.  What is
looked up in the trees that it visits is not among them. -/
def lookups : Plan α → Scopes → List (String × Scopes)
  | done _, _ | fail _, _ => []
  | visit tree next, scopes =>
    (visitTree tree scopes).leads fun node scopes => lookups (next node) scopes
  | lookup name next, scopes =>
    (name, scopes) :: lookups (next (if resolving then scopes.resolve name else none)) scopes
  | declareVar name next, scopes =>
    lookups (next (scopes.declareVar name).1) (scopes.declareVar name).2
  | declareFunc name function next, scopes =>
    lookups (next (scopes.declareFunc name function).1) (scopes.declareFunc name function).2
  | body trees next, scopes =>
    (visitAll visitTree trees scopes.push).leads fun nodes scopes =>
      lookups (next nodes scopes.pop.1) scopes.pop.2

end

/-- A plan looks up names over as many frames as it finds. -/
theorem length_of_mem_lookups {resolving : Bool}
    {visitTree : ParseTree → Scopes → Outcome (Option Node)}
    (hvisit : ∀ tree scopes, (visitTree tree scopes).Disciplined scopes) {plan : Plan α}
    {scopes : Scopes} {entry : String × Scopes}
    (h : entry ∈ plan.lookups resolving visitTree scopes) :
    entry.2.length = scopes.length := by
  induction plan generalizing scopes with
  | done | fail => exact nomatch h
  | visit tree next ih =>
    obtain ⟨answer, between, hok, h⟩ := Outcome.mem_leads h
    rw [← ((hvisit tree scopes).grows hok).length_eq]
    exact ih answer h
  | lookup name next ih =>
    rcases List.mem_cons.mp h with rfl | h
    · rfl
    · exact ih _ h
  | declareVar name next ih =>
    rw [← Scopes.length_declareVar name scopes]
    exact ih _ h
  | declareFunc name function next ih =>
    rw [← Scopes.length_declareFunc name function scopes]
    exact ih _ h
  | body trees next ih =>
    obtain ⟨nodes, between, hok, h⟩ := Outcome.mem_leads h
    -- The frame of the body is closed again.
    obtain ⟨frame, rfl⟩ := ((visitAll_disciplined hvisit trees scopes.push).grows hok).of_push
    exact ih _ _ h

end Plan

/-! ## On all levels -/

/-- A name that is looked up, with the number of dispatches active then and the frames open. -/
structure Lookup where
  active : Nat
  name : String
  scopes : Scopes

/-- The lookups in a dispatch that is begun with `active` others under way. -/
def lookups (options : Options) : Nat → Nat → ParseTree → Scopes → List Lookup
  | 0, _, _, _ => []
  | room + 1, active, tree, scopes =>
    match Symbol.ofName? tree.symbol with
    | none => []
    | some symbol =>
      let plan := symbol.plan options.sourceName tree
      (plan.lookups options.staticResolution (dispatch options room) scopes).map
          (fun (name, scopes) => ⟨active + 1, name, scopes⟩) ++
        (plan.visits options.staticResolution (dispatch options room) scopes).flatMap
          fun (tree, scopes) => lookups options room (active + 1) tree scopes

section

variable {options : Options} {room active : Nat} {tree : ParseTree} {scopes : Scopes}
  {lookup : Lookup}

/-- A lookup in a dispatch is one of its own plan or one in a visit of its plan. -/
theorem mem_lookups_succ (h : lookup ∈ lookups options (room + 1) active tree scopes) :
    ∃ symbol, Symbol.ofName? tree.symbol = some symbol ∧
      ((∃ entry ∈ (symbol.plan options.sourceName tree).lookups options.staticResolution
          (dispatch options room) scopes, lookup = ⟨active + 1, entry.1, entry.2⟩) ∨
        ∃ entry ∈ (symbol.plan options.sourceName tree).visits options.staticResolution
          (dispatch options room) scopes,
          lookup ∈ lookups options room (active + 1) entry.1 entry.2) := by
  rw [lookups] at h
  cases hsymbol : Symbol.ofName? tree.symbol with
  | none =>
    rw [hsymbol] at h
    cases h
  | some symbol =>
    rw [hsymbol] at h
    refine ⟨symbol, rfl, ?_⟩
    rcases List.mem_append.mp h with h | h
    · left
      obtain ⟨entry, hentry, rfl⟩ := List.mem_map.mp h
      exact ⟨entry, hentry, rfl⟩
    · right
      exact List.mem_flatMap.mp h

/-- **Fewer frames are open than dispatches active**, not counting those that were before. -/
theorem Lookup.frames_lt (h : lookup ∈ lookups options room active tree scopes) :
    lookup.scopes.length + active < scopes.length + lookup.active := by
  induction room generalizing active tree scopes with
  | zero => cases h
  | succ room ih =>
    obtain ⟨symbol, _, ⟨entry, hentry, rfl⟩ | ⟨entry, hentry, h⟩⟩ := mem_lookups_succ h
    · have hlength := Plan.length_of_mem_lookups (dispatch_disciplined options room) hentry
      show entry.2.length + active < scopes.length + (active + 1)
      omega
    · have hlength := Plan.length_of_mem_visits (dispatch_disciplined options room) hentry
      have := ih h
      omega

/-- No more dispatches are active than there are levels. -/
theorem Lookup.active_le (h : lookup ∈ lookups options room active tree scopes) :
    lookup.active ≤ active + room := by
  induction room generalizing active tree scopes with
  | zero => cases h
  | succ room ih =>
    obtain ⟨symbol, _, ⟨entry, hentry, rfl⟩ | ⟨entry, hentry, h⟩⟩ := mem_lookups_succ h
    · show active + 1 ≤ active + (room + 1)
      omega
    · have := ih h
      omega

end

/-! ## Other ways to find a frame -/

namespace Plan

variable (find : String → Scopes → Option Nat)
  (visitTree : ParseTree → Scopes → Outcome (Option Node))

/-- Carries out the plan with another way to find the frame of a name. -/
def runFinding : Plan α → Scopes → Outcome α
  | done value, scopes => ⟨.ok value, scopes⟩
  | fail error, scopes => ⟨.error error, scopes⟩
  | visit tree next, scopes =>
    (visitTree tree scopes).andThen fun node scopes => runFinding (next node) scopes
  | lookup name next, scopes => runFinding (next (find name scopes)) scopes
  | declareVar name next, scopes =>
    runFinding (next (scopes.declareVar name).1) (scopes.declareVar name).2
  | declareFunc name function next, scopes =>
    runFinding (next (scopes.declareFunc name function).1) (scopes.declareFunc name function).2
  | body trees next, scopes =>
    (visitAll visitTree trees scopes.push).andThen fun nodes scopes =>
      runFinding (next nodes scopes.pop.1) scopes.pop.2

variable {find visitTree} {visitTree' : ParseTree → Scopes → Outcome (Option Node)}
  {resolving : Bool}

theorem visitAll_of_visits {trees : List ParseTree} {scopes : Scopes}
    (hvisits : ∀ entry ∈ visitsOfAll visitTree trees scopes,
      visitTree' entry.1 entry.2 = visitTree entry.1 entry.2) :
    visitAll visitTree' trees scopes = visitAll visitTree trees scopes := by
  induction trees generalizing scopes with
  | nil => rfl
  | cons tree trees ih =>
    obtain ⟨htree, htrees⟩ := List.forall_mem_cons.mp hvisits
    rw [visitAll, visitAll, htree]
    generalize visitTree tree scopes = outcome at htrees
    obtain ⟨_ | node, between⟩ := outcome
    · rfl
    · rw [Outcome.andThen_ok, Outcome.andThen_ok, ih htrees]

/-- A run depends on what it finds at its own lookups, and on what its visits come to. -/
theorem runFinding_eq {plan : Plan α} {scopes : Scopes}
    (hvisits : ∀ entry ∈ plan.visits resolving visitTree scopes,
      visitTree' entry.1 entry.2 = visitTree entry.1 entry.2)
    (hlookups : ∀ entry ∈ plan.lookups resolving visitTree scopes,
      find entry.1 entry.2 = if resolving then entry.2.resolve entry.1 else none) :
    plan.runFinding find visitTree' scopes = plan.run resolving visitTree scopes := by
  induction plan generalizing scopes with
  | done | fail => rfl
  | visit tree next ih =>
    obtain ⟨htree, hvisits⟩ := List.forall_mem_cons.mp hvisits
    rw [lookups] at hlookups
    rw [runFinding, run, htree]
    generalize visitTree tree scopes = outcome at hvisits hlookups
    obtain ⟨_ | node, between⟩ := outcome
    · rfl
    · exact ih node hvisits hlookups
  | lookup name next ih =>
    obtain ⟨hname, hlookups⟩ := List.forall_mem_cons.mp hlookups
    rw [runFinding, run, hname]
    exact ih _ hvisits hlookups
  | declareVar name next ih => exact ih _ hvisits hlookups
  | declareFunc name function next ih => exact ih _ hvisits hlookups
  | body trees next ih =>
    obtain ⟨htrees, hvisits⟩ := List.forall_mem_append.mp hvisits
    rw [lookups] at hlookups
    rw [runFinding, run, visitAll_of_visits htrees]
    generalize visitAll visitTree trees scopes.push = outcome at hvisits hlookups
    obtain ⟨_ | nodes, between⟩ := outcome
    · rfl
    · exact ih nodes _ hvisits hlookups

end Plan

/-- A dispatch with another way to find the frame of a name. -/
def dispatchFinding (find : String → Scopes → Option Nat) (options : Options) :
    Nat → ParseTree → Scopes → Outcome (Option Node)
  | 0, tree, scopes => dispatch options 0 tree scopes
  | room + 1, tree, scopes =>
    match Symbol.ofName? tree.symbol with
    | none => ⟨.error (.unknownSymbol tree.symbol tree.position), scopes⟩
    | some symbol =>
      (symbol.plan options.sourceName tree).runFinding find (dispatchFinding find options room)
        scopes

/-- **A dispatch depends on what it finds at its lookups.** -/
theorem dispatchFinding_eq {find : String → Scopes → Option Nat} {options : Options}
    {room active : Nat} {tree : ParseTree} {scopes : Scopes}
    (h : ∀ lookup ∈ lookups options room active tree scopes, find lookup.name lookup.scopes =
      if options.staticResolution then lookup.scopes.resolve lookup.name else none) :
    dispatchFinding find options room tree scopes = dispatch options room tree scopes := by
  induction room generalizing active tree scopes with
  | zero => rfl
  | succ room ih =>
    rw [dispatchFinding, dispatch]
    rw [lookups] at h
    cases hsymbol : Symbol.ofName? tree.symbol with
    | none => rfl
    | some symbol =>
      rw [hsymbol] at h
      obtain ⟨hown, hbelow⟩ := List.forall_mem_append.mp h
      apply Plan.runFinding_eq
      · intro entry hentry
        apply ih
        intro lookup hlookup
        exact hbelow lookup (List.mem_flatMap.mpr ⟨entry, hentry, hlookup⟩)
      · intro entry hentry
        exact hown _ (List.mem_map_of_mem hentry)

end ScriptAst
