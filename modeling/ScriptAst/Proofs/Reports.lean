import ScriptAst.Proofs.Soundness
import ScriptAst.Proofs.Subtrees

/-! # What a build fails with

An error is a defect or a fault that a production finds, a symbol that nobody knows, or a level too
many, and always stands at a part of the tree (`BuildError.Reported`).  A level too many is reported
for a part that has at least as many proper ancestors as there are levels: each visit goes at least
one level further down the tree.

This is the lockstep of a build with itself once more.  What may be visited now depends on the
levels that are left, so the induction on them is done here and not taken from `dispatch_lockstep`.
-/
namespace ScriptAst

/-- An error that a build of the tree with that many levels can end with. -/
inductive BuildError.Reported (tree : ParseTree) (levels : Nat) : BuildError → Prop
  | found {error : BuildError} : error.Found (fun part => ∃ depth, tree.Nests depth part) →
      Reported tree levels error
  | unknownSymbol {depth : Nat} {part : ParseTree} : tree.Nests depth part →
      Symbol.ofName? part.symbol = none →
      Reported tree levels (.unknownSymbol part.symbol part.position)
  | nestingTooDeep {depth : Nat} {part : ParseTree} {symbol : Symbol} : tree.Nests depth part →
      levels ≤ depth → Symbol.ofName? part.symbol = some symbol →
      Reported tree levels (.nestingTooDeep part.symbol part.position maxNesting)

/-- Answers of one pairing are answers of another in which the nodes correspond as well. -/
theorem Pairing.Answer.mono {p q : Pairing} (hnode : ∀ a b, p.node a b → q.node a b)
    {tree : ParseTree} {o o' : Option Node} (h : p.Answer tree o o') : q.Answer tree o o' := by
  cases h with
  | none => exact .none
  | some pair arguments => exact .some ⟨_, _, hnode _ _ pair.related⟩ arguments

theorem Outcome.Corresponds.mono {α β : Type} {scopes : Nat → Scopes → Scopes → Prop}
    {error : BuildError → BuildError → Prop} {opened : Nat} {R S : α → β → Prop} {o : Outcome α}
    {o' : Outcome β} (h : Corresponds scopes error opened R o o') (hrs : ∀ a b, R a b → S a b) :
    Corresponds scopes error opened S o o' := by
  cases h with
  | ok hab hs => exact .ok (hrs _ _ hab) hs
  | error he hs => exact .error he hs

section Levels

variable (source : String) (root : ParseTree) (levels : Nat)

/-- A build of `root` with itself.  With `room` levels left, all the others have been used up on the
way to what is visited. -/
def levelwise (room : Nat) : Pairing :=
  soundness source (fun part => ∃ depth, root.Nests depth part)
    (fun part => ∃ depth, root.Nests depth part ∧ levels ≤ depth + room)
    (BuildError.Reported root levels)

theorem levelwise_closed (room : Nat) :
    (levelwise source root levels room).Closed source source := by
  refine soundness_closed ?_ ?_ fun error hfound => .found hfound
  · rintro part child ⟨depth, hpart⟩ hchild
    exact ⟨depth + 1, hpart.trans (.of_mem hchild)⟩
  · rintro part child ⟨depth, hpart, hlevels⟩ hchild
    obtain ⟨further, hbelow⟩ := ParseTree.Nests.of_reached hchild
    exact ⟨depth + (further + 1), hpart.trans hbelow, by omega⟩

variable {source root levels}

/-- What is reached in a tree is visited with one level less. -/
theorem levelwise_reached {room : Nat} {tree child : ParseTree}
    (h : (levelwise source root levels (room + 1)).visited tree) (hchild : child ∈ tree.reached) :
    (levelwise source root levels room).visited child := by
  obtain ⟨depth, hpart, hlevels⟩ := h
  obtain ⟨further, hbelow⟩ := ParseTree.Nests.of_reached hchild
  exact ⟨depth + (further + 1), hpart.trans hbelow, by omega⟩

/-- A tree of an unknown symbol is refused at every level. -/
theorem refused_symbol {room : Nat} {tree : ParseTree}
    (h : (levelwise source root levels room).visited tree)
    (hsymbol : Symbol.ofName? tree.symbol = none) :
    BuildError.Reported root levels (.unknownSymbol tree.symbol tree.position) := by
  obtain ⟨depth, hpart, _⟩ := h
  exact .unknownSymbol hpart hsymbol

theorem dispatch_levelwise (options : Options) (root : ParseTree) (levels room : Nat) :
    VisitsCorrespond (fun _ => levelwise options.sourceName root levels room)
      (Scopes.SoundAbove options.sourceName fun part => ∃ depth, root.Nests depth part)
      (fun e e' => e = e' ∧ e.Reported root levels) (dispatch options room)
      (dispatch options room) := by
  induction room with
  | zero =>
    intro n tree s s' _ hvisited hs
    rw [levelwise, soundness_rename, ParseTree.rename_id, dispatch, dispatch]
    split
    · next hsymbol => exact .error ⟨rfl, refused_symbol hvisited hsymbol⟩ hs
    · next symbol hsymbol =>
      obtain ⟨depth, hpart, hlevels⟩ := hvisited
      exact .error ⟨rfl, .nestingTooDeep hpart hlevels hsymbol⟩ hs
  | succ room ih =>
    intro n tree s s' hplace hvisited hs
    rw [levelwise, soundness_rename, ParseTree.rename_id, dispatch, dispatch]
    split
    · next hsymbol => exact .error ⟨rfl, refused_symbol hvisited hsymbol⟩ hs
    · next symbol hsymbol =>
      have hclosed := levelwise_closed options.sourceName root levels room
      have hagree := Pairing.plan_agree hclosed hplace (ParseTree.labelled_id tree)
        (fun child hchild => levelwise_reached hvisited hchild) hsymbol
      rw [levelwise, soundness_rename, ParseTree.rename_id] at hagree
      have hrun := Plan.run_lockstep (soundness_lockstep options.staticResolution) ih hagree hs
      refine hrun.mono fun a b hanswer => ?_
      apply Pairing.Answer.mono ?_ hanswer
      intro a b hnode
      exact hnode

end Levels

/-- **The errors of a dispatch** are reported for parts of its tree, and one for want of levels for
a part below that many others. -/
theorem dispatch_reports (options : Options) (room : Nat) (tree : ParseTree) (scopes : Scopes)
    {error : BuildError} (h : (dispatch options room tree scopes).result = .error error) :
    error.Reported tree room := by
  have hvisit := dispatch_levelwise options tree room room 0 tree scopes scopes
    ⟨0, .self tree⟩ ⟨0, .self tree, by omega⟩ ⟨rfl, Nat.zero_le _, nofun⟩
  have hsatisfied := hvisit.left
  rw [Outcome.Satisfies, h] at hsatisfied
  obtain ⟨_, rfl, hreported⟩ := hsatisfied
  exact hreported

/-- The errors of a build. -/
theorem build_reports {options : Options} {tree : ParseTree} {error : BuildError}
    (h : build options tree = .error error) : error.Reported tree maxNesting := by
  rw [build_eq] at h
  split at h
  · exact nomatch h
  · cases h
    exact .found (.malformed tree.symbol ⟨0, .self tree⟩ trivial)
  · next found hresult =>
    cases h
    exact dispatch_reports options maxNesting tree [] hresult

end ScriptAst
