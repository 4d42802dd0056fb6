import ScriptAst.Builder

/-! # Frame discipline

A plan sees the open frames only through its own steps: it declares into the innermost frame, and
opens and closes a frame around a body.  So whatever is built, the frames below the innermost one
stay as they are and the innermost one only takes names in (`Scopes.Grows`).  A failure leaves more
frames open, those of the bodies it broke off, but never fewer (`Outcome.Disciplined`).

Nothing here looks at a production: `Plan.run_disciplined` is an induction on plans and
`dispatch_disciplined` one on the room for nesting.
-/
namespace ScriptAst

/-- A frame that has taken in more names, behind those it had. -/
structure Frame.Grows (before after : Frame) : Prop where
  vars : before.vars <+: after.vars
  funcs : before.funcs.map Prod.fst <+: after.funcs.map Prod.fst

/-- Only the innermost frame has changed, and it has only taken in names. -/
inductive Scopes.Grows : Scopes → Scopes → Prop
  | nil : Grows [] []
  | cons {before after : Frame} {outer : Scopes} :
      before.Grows after → Grows (before :: outer) (after :: outer)

theorem Frame.Grows.refl (frame : Frame) : frame.Grows frame :=
  ⟨List.prefix_rfl, List.prefix_rfl⟩

theorem Frame.Grows.trans {a b c : Frame} (h : a.Grows b) (h' : b.Grows c) : a.Grows c :=
  ⟨h.vars.trans h'.vars, h.funcs.trans h'.funcs⟩

namespace Scopes.Grows

theorem refl : ∀ scopes : Scopes, Grows scopes scopes
  | [] => .nil
  | frame :: _ => .cons (.refl frame)

theorem trans {a b c : Scopes} (h : Grows a b) (h' : Grows b c) : Grows a c := by
  cases h with
  | nil => exact h'
  | cons h =>
    cases h' with
    | cons h' => exact .cons (h.trans h')

theorem length_eq {a b : Scopes} (h : Grows a b) : b.length = a.length := by
  cases h <;> rfl

/-- What grows out of a frame just opened is one frame on top of the others. -/
theorem of_push {scopes grown : Scopes} (h : Grows scopes.push grown) :
    ∃ frame, grown = frame :: scopes := by
  cases h with
  | cons _ => exact ⟨_, rfl⟩

theorem declareVar (name : String) (scopes : Scopes) :
    Grows scopes (scopes.declareVar name).2 := by
  cases scopes with
  | nil => exact .nil
  | cons frame outer => exact .cons ⟨prefix_addName name frame.vars, List.prefix_rfl⟩

theorem declareFunc (name : String) (function : Node) (scopes : Scopes) :
    Grows scopes (scopes.declareFunc name function).2 := by
  cases scopes with
  | nil => exact .nil
  | cons frame outer =>
    refine .cons ⟨List.prefix_rfl, ?_⟩
    rw [map_fst_bindName]
    exact prefix_addName ..

end Scopes.Grows

/-- What a build that started over `before` leaves: on success the same frames, grown; on failure
the same and those of unfinished bodies on top. -/
def Outcome.Disciplined {α : Type} (before : Scopes) (outcome : Outcome α) : Prop :=
  match outcome.result with
  | .ok _ => before.Grows outcome.scopes
  | .error _ => ∃ unfinished grown, outcome.scopes = unfinished ++ grown ∧ before.Grows grown

namespace Outcome.Disciplined

variable {α β : Type} {before grown : Scopes} {outcome : Outcome α}

theorem of_grows (hg : before.Grows grown) (h : outcome.Disciplined grown) :
    outcome.Disciplined before := by
  unfold Disciplined at h ⊢
  split at h
  · exact hg.trans h
  · obtain ⟨unfinished, after, hs, h⟩ := h
    exact ⟨unfinished, after, hs, hg.trans h⟩

theorem andThen {next : α → Scopes → Outcome β} (h : outcome.Disciplined before)
    (hnext : ∀ value scopes, (next value scopes).Disciplined scopes) :
    (outcome.andThen next).Disciplined before := by
  obtain ⟨_ | value, scopes⟩ := outcome
  · exact h
  · exact of_grows h (hnext value scopes)

/-- A body gives back the frames below its own, whether it is finished or not. -/
theorem closeBody {next : α → Scopes → Outcome β} (h : outcome.Disciplined before.push)
    (hnext : ∀ value frame, (next value (frame :: before)).Disciplined before) :
    (outcome.andThen next).Disciplined before := by
  obtain ⟨error | value, scopes⟩ := outcome
  · obtain ⟨unfinished, grown, rfl, hg⟩ := h
    obtain ⟨frame, rfl⟩ := hg.of_push
    -- The frame of the body itself is the outermost of those left open.
    exact ⟨unfinished ++ [frame], before, by simp, .refl before⟩
  · obtain ⟨frame, rfl⟩ := Scopes.Grows.of_push h
    exact hnext value frame

end Outcome.Disciplined

namespace Plan

variable {α : Type} {resolving : Bool} {visitTree : ParseTree → Scopes → Outcome (Option Node)}

theorem visitAll_disciplined (hvisit : ∀ tree scopes, (visitTree tree scopes).Disciplined scopes)
    (trees : List ParseTree) (scopes : Scopes) :
    (visitAll visitTree trees scopes).Disciplined scopes := by
  induction trees generalizing scopes with
  | nil => exact .refl scopes
  | cons tree trees ih =>
    exact (hvisit tree scopes).andThen fun _ scopes => (ih scopes).andThen fun _ scopes =>
      .refl scopes

/-- **A plan is disciplined if the visits are.** -/
theorem run_disciplined (hvisit : ∀ tree scopes, (visitTree tree scopes).Disciplined scopes)
    (plan : Plan α) (scopes : Scopes) :
    (plan.run resolving visitTree scopes).Disciplined scopes := by
  induction plan generalizing scopes with
  | done => exact .refl scopes
  | fail => exact ⟨[], scopes, rfl, .refl scopes⟩
  | visit tree next ih => exact (hvisit tree scopes).andThen ih
  | lookup name next ih => exact ih _ scopes
  | declareVar name next ih => exact .of_grows (.declareVar name scopes) (ih _ _)
  | declareFunc name function next ih =>
    exact .of_grows (.declareFunc name function scopes) (ih _ _)
  | body trees next ih =>
    -- The only step that opens a frame closes it again before it goes on.
    exact (visitAll_disciplined hvisit trees scopes.push).closeBody fun _ _ => ih _ _ scopes

end Plan

/-- **Every build is disciplined**, from any open frames and with any room for nesting. -/
theorem dispatch_disciplined (options : Options) (room : Nat) (tree : ParseTree)
    (scopes : Scopes) : (dispatch options room tree scopes).Disciplined scopes := by
  induction room generalizing tree scopes with
  | zero => rw [dispatch]; split <;> exact ⟨[], scopes, rfl, .refl scopes⟩
  | succ room ih =>
    rw [dispatch]
    split
    · exact ⟨[], scopes, rfl, .refl scopes⟩
    · exact Plan.run_disciplined ih _ scopes

end ScriptAst
