import ScriptAst.Proofs.Outcome
import ScriptAst.Proofs.Pairing.Production

/-! # Builds in lockstep

Plans that agree have outcomes that correspond (`Plan.run_lockstep`), as long as the frames do.
What it takes for frames to correspond is a `Lockstep`: lookups and declarations answer alike, and a
body finished over corresponding frames is a corresponding body.  Everything is indexed by the
number of open frames, since what nodes may differ in can depend on it.

With the productions' agreement this gives the same for dispatches, by induction on the room for
nesting (`dispatch_lockstep`), and so for whole builds (`build_lockstep`).
-/
namespace ScriptAst

/-- Both succeed with corresponding values and `opened` corresponding frames, or both fail alike.  A
failure leaves corresponding frames as well, but those of unfinished bodies are among them. -/
inductive Outcome.Corresponds {α β : Type} (scopes : Nat → Scopes → Scopes → Prop)
    (error : BuildError → BuildError → Prop) (opened : Nat) (R : α → β → Prop) :
    Outcome α → Outcome β → Prop
  | ok {a : α} {b : β} {s s' : Scopes} :
      R a b → scopes opened s s' → Corresponds scopes error opened R ⟨.ok a, s⟩ ⟨.ok b, s'⟩
  | error {e e' : BuildError} {left : Nat} {s s' : Scopes} :
      error e e' → scopes left s s' →
      Corresponds scopes error opened R ⟨.error e, s⟩ ⟨.error e', s'⟩

theorem Outcome.Corresponds.andThen {α β γ δ : Type} {scopes : Nat → Scopes → Scopes → Prop}
    {error : BuildError → BuildError → Prop} {opened opened' : Nat} {R : α → β → Prop}
    {S : γ → δ → Prop} {o : Outcome α} {o' : Outcome β} {next : α → Scopes → Outcome γ}
    {next' : β → Scopes → Outcome δ} (h : Corresponds scopes error opened R o o')
    (hnext : ∀ a b s s', R a b → scopes opened s s' →
      Corresponds scopes error opened' S (next a s) (next' b s')) :
    Corresponds scopes error opened' S (o.andThen next) (o'.andThen next') := by
  cases h with
  | ok hab hs => exact hnext _ _ _ _ hab hs
  | error he hs => exact .error he hs

/-- What corresponds to something is related to something. -/
theorem Outcome.Corresponds.left {α β : Type} {scopes : Nat → Scopes → Scopes → Prop}
    {error : BuildError → BuildError → Prop} {opened : Nat} {R : α → β → Prop} {o : Outcome α}
    {o' : Outcome β} (h : Corresponds scopes error opened R o o') :
    o.Satisfies (fun a s => ∃ b s', R a b ∧ scopes opened s s') (fun e => ∃ e', error e e') := by
  cases h with
  | ok hab hs => exact ⟨_, _, hab, hs⟩
  | error he _ => exact ⟨_, he⟩

/-- Pairings for each number of open frames, and frames that correspond under them. -/
structure Lockstep (pairing : Nat → Pairing) (scopes : Nat → Scopes → Scopes → Prop)
    (error : BuildError → BuildError → Prop) (resolving resolving' : Bool) : Prop where
  error_eq (n : Nat) : (pairing n).error = error
  rename_succ (n : Nat) : (pairing (n + 1)).rename = (pairing n).rename
  place_succ {n : Nat} {tree : ParseTree} : (pairing n).place tree → (pairing (n + 1)).place tree
  visited_succ {n : Nat} {tree : ParseTree} :
    (pairing n).visited tree → (pairing (n + 1)).visited tree
  lookup {n : Nat} {s s' : Scopes} (name : String) : scopes n s s' →
    (pairing n).depth name (if resolving then s.resolve name else none)
      (if resolving' then s'.resolve ((pairing n).rename name) else none)
  declareVar {n : Nat} {s s' : Scopes} (name : String) : scopes n s s' →
    (s.declareVar name).1 = (s'.declareVar ((pairing n).rename name)).1 ∧
      scopes n (s.declareVar name).2 (s'.declareVar ((pairing n).rename name)).2
  declareFunc {n : Nat} {s s' : Scopes} {name : String} {function : Function Node}
    (pair : Paired (pairing n).node) : pair.left.kind = .functionStatement function →
    function.name = some name → scopes n s s' →
    (s.declareFunc name pair.left).1 = (s'.declareFunc ((pairing n).rename name) pair.right).1 ∧
      scopes n (s.declareFunc name pair.left).2
        (s'.declareFunc ((pairing n).rename name) pair.right).2
  push {n : Nat} {s s' : Scopes} : scopes n s s' → scopes (n + 1) s.push s'.push
  pop {n : Nat} {s s' : Scopes} : scopes (n + 1) s s' →
    ∃ frame outer frame' outer', s = frame :: outer ∧ s' = frame' :: outer' ∧
      scopes n outer outer' ∧
      ∀ nodes nodes', (pairing (n + 1)).Nodes nodes nodes' →
        (pairing n).body nodes frame nodes' frame'

section Runs

variable {pairing : Nat → Pairing} {scopes : Nat → Scopes → Scopes → Prop}
  {error : BuildError → BuildError → Prop} {resolving resolving' : Bool}

/-- Visits of one tree, under its names and under the other ones, correspond, over however many
frames. -/
def VisitsCorrespond (pairing : Nat → Pairing) (scopes : Nat → Scopes → Scopes → Prop)
    (error : BuildError → BuildError → Prop)
    (visit visit' : ParseTree → Scopes → Outcome (Option Node)) : Prop :=
  ∀ n tree s s', (pairing n).place tree → (pairing n).visited tree → scopes n s s' →
    Outcome.Corresponds scopes error n ((pairing n).Answer tree) (visit tree s)
      (visit' (tree.rename (pairing n).rename) s')

variable {visit visit' : ParseTree → Scopes → Outcome (Option Node)}

theorem Plan.visitAll_lockstep (hvisit : VisitsCorrespond pairing scopes error visit visit')
    {n : Nat} {trees : List ParseTree}
    (htrees : ∀ tree ∈ trees, (pairing n).place tree ∧ (pairing n).visited tree)
    {s s' : Scopes} (hs : scopes n s s') :
    Outcome.Corresponds scopes error n (pairing n).Nodes (visitAll visit trees s)
      (visitAll visit' (trees.map (ParseTree.rename (pairing n).rename)) s') := by
  induction trees generalizing s s' with
  | nil => exact .ok .nil hs
  | cons tree trees ih =>
    obtain ⟨hplace, hvisited⟩ := htrees tree (List.mem_cons_self ..)
    refine (hvisit n tree s s' hplace hvisited hs).andThen fun o o' s s' ho hs => ?_
    have hrest := ih (fun t ht => htrees t (List.mem_cons_of_mem _ ht)) hs
    refine hrest.andThen fun nodes nodes' s s' hnodes hs => .ok ?_ hs
    cases ho with
    | none => exact hnodes
    | some pair => exact .cons pair hnodes

/-- **Plans that agree run in lockstep.** -/
theorem Plan.run_lockstep (hstep : Lockstep pairing scopes error resolving resolving')
    (hvisit : VisitsCorrespond pairing scopes error visit visit') {n : Nat} {α β : Type}
    {R : α → β → Prop} {plan : Plan α} {plan' : Plan β} (h : Agree (pairing n) R plan plan')
    {s s' : Scopes} (hs : scopes n s s') :
    Outcome.Corresponds scopes error n R (plan.run resolving visit s)
      (plan'.run resolving' visit' s') := by
  induction h generalizing s s' with
  | done hab => exact .ok hab hs
  | fail he => exact .error (hstep.error_eq n ▸ he) hs
  | visit hplace hvisited _ ih =>
    exact (hvisit n _ _ _ hplace hvisited hs).andThen fun o o' _ _ ho hs => ih o o' ho hs
  | lookup _ ih => exact ih _ _ (hstep.lookup _ hs) hs
  | @declareVar name _ _ _ ih =>
    -- Both plans hear the same answer: a frame is open on both sides or on neither.
    obtain ⟨hopen, hs⟩ := hstep.declareVar name hs
    simp only [run]
    rw [← hopen]
    exact ih _ hs
  | declareFunc pair hkind hname _ ih =>
    obtain ⟨hopen, hs⟩ := hstep.declareFunc pair hkind hname hs
    simp only [run]
    rw [← hopen]
    exact ih _ hs
  | body htrees _ ih =>
    -- The nodes of the body are related one frame further in than the body itself.
    have hinner : ∀ tree ∈ _, (pairing (n + 1)).place tree ∧ (pairing (n + 1)).visited tree :=
      fun t ht => ⟨hstep.place_succ (htrees t ht).1, hstep.visited_succ (htrees t ht).2⟩
    have hall := visitAll_lockstep hvisit hinner (hstep.push hs)
    rw [hstep.rename_succ] at hall
    refine hall.andThen fun nodes nodes' s s' hnodes hs => ?_
    obtain ⟨frame, outer, frame', outer', rfl, rfl, hs, hbody⟩ := hstep.pop hs
    exact ih _ _ _ _ (hbody _ _ hnodes) hs

end Runs

section Builds

variable {pairing : Nat → Pairing} {scopes : Nat → Scopes → Scopes → Prop}
  {error : BuildError → BuildError → Prop}

/-- The errors for a tree that no production is run for. -/
def RefusalsCorrespond (pairing : Nat → Pairing) (error : BuildError → BuildError → Prop) : Prop :=
  ∀ n tree, (pairing n).place tree →
    error (.unknownSymbol tree.symbol tree.position)
      (.unknownSymbol tree.symbol (tree.rename (pairing n).rename).position) ∧
    error (.nestingTooDeep tree.symbol tree.position maxNesting)
      (.nestingTooDeep tree.symbol (tree.rename (pairing n).rename).position maxNesting)

/-- **Dispatches that correspond at every step correspond as a whole.** -/
theorem dispatch_lockstep {options options' : Options}
    (hclosed : ∀ n, (pairing n).Closed options.sourceName options'.sourceName)
    (hstep : Lockstep pairing scopes error options.staticResolution options'.staticResolution)
    (hrefusal : RefusalsCorrespond pairing error) (room : Nat) :
    VisitsCorrespond pairing scopes error (dispatch options room) (dispatch options' room) := by
  induction room with
  | zero =>
    intro n tree s s' htree _ hs
    rw [dispatch, dispatch, ParseTree.symbol_rename]
    split
    · exact .error (hrefusal n tree htree).1 hs
    · exact .error (hrefusal n tree htree).2 hs
  | succ room ih =>
    intro n tree s s' htree hvisited hs
    rw [dispatch, dispatch, ParseTree.symbol_rename]
    split
    · exact .error (hrefusal n tree htree).1 hs
    · next symbol hsymbol =>
      have hagree := Pairing.plan_agree (hclosed n) htree ((hclosed n).labelled hvisited)
        (fun _ => (hclosed n).reached hvisited) hsymbol
      exact Plan.run_lockstep hstep ih hagree hs

/-- Both builds succeed with related nodes, or both fail with related errors. -/
inductive BuildsCorrespond (error : BuildError → BuildError → Prop) (R : Node → Node → Prop) :
    Except BuildError Node → Except BuildError Node → Prop
  | ok {a b : Node} : R a b → BuildsCorrespond error R (.ok a) (.ok b)
  | error {e e' : BuildError} : error e e' → BuildsCorrespond error R (.error e) (.error e')

/-- Builds that start over no frames correspond if their dispatches do. -/
theorem build_lockstep (options options' : Options)
    (hclosed : ∀ n, (pairing n).Closed options.sourceName options'.sourceName)
    (hstep : Lockstep pairing scopes error options.staticResolution options'.staticResolution)
    (hrefusal : RefusalsCorrespond pairing error) (hscopes : scopes 0 [] []) (tree : ParseTree)
    (hplace : (pairing 0).place tree) (hvisited : (pairing 0).visited tree) :
    BuildsCorrespond error (pairing 0).node (build options tree)
      (build options' (tree.rename (pairing 0).rename)) := by
  have hvisits : VisitsCorrespond pairing scopes error (dispatch options maxNesting)
      (dispatch options' maxNesting) := dispatch_lockstep hclosed hstep hrefusal maxNesting
  have h := hvisits 0 tree [] [] hplace hvisited hscopes
  rw [build_eq, build_eq]
  generalize dispatch options maxNesting tree [] = first at h ⊢
  generalize dispatch options' maxNesting _ [] = second at h ⊢
  cases h with
  | error he _ => exact .error he
  | ok hanswer _ =>
    cases hanswer with
    | none =>
      rw [ParseTree.symbol_rename, ← hstep.error_eq 0]
      exact .error ((hclosed 0).malformed tree.symbol hplace hplace trivial)
    | some pair _ => exact .ok pair.related

end Builds

end ScriptAst
