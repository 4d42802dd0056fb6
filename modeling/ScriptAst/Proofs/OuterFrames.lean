import Mathlib.Data.List.Forall2
import ScriptAst.Proofs.Limit

/-! # Frames further out

What is built over open frames does not depend on the frames that lie further out, but for the names
that these resolve.  With more frames put under the open ones a build fails with the same error or
succeeds with the same tree, in which names that were left unresolved may have been found in the
frames underneath (`Node.ResolvedBy`).  Their depth is the number of frames above those, where the
name stands, and the distance in them.

The two builds go in lockstep: corresponding frames declare the same names, and functions that are
the same up to resolution.  A frame has to be open, since otherwise a declaration would be refused
in the one build and go to the frames underneath in the other.
-/
namespace ScriptAst

/-! ## Trees and frames up to resolution -/

/-- The right tree is the left one, with some names resolved that the left one leaves unresolved.
They are found in the frames `outer`, which have `opened` others above them; within a body there is
one more. -/
inductive Node.ResolvedBy (outer : Scopes) : Nat → Node → Node → Prop
  | node {opened : Nat} (pos : Position) (kind : Kind (Node × Node)) :
      (∀ pair ∈ kind.children, ResolvedBy outer (opened + kind.ownBody.length) pair.1 pair.2) →
      ResolvedBy outer opened ⟨pos, kind.map Prod.fst⟩ ⟨pos, kind.map Prod.snd⟩
  | found {opened distance : Nat} (pos : Position) {name : String} :
      outer.nearest name = some distance →
      ResolvedBy outer opened ⟨pos, .identifier name⟩
        ⟨pos, .variableIdentifier (opened + distance) name⟩

/-- The same variables, and the same functions up to resolution. -/
structure Frame.ResolvedBy (outer : Scopes) (opened : Nat) (frame frame' : Frame) : Prop where
  vars : frame'.vars = frame.vars
  funcs : ∃ entries : List (String × (Node × Node)),
    frame.funcs = entries.map (fun (name, pair) => (name, pair.1)) ∧
    frame'.funcs = entries.map (fun (name, pair) => (name, pair.2)) ∧
    ∀ entry ∈ entries, entry.2.1.ResolvedBy outer opened entry.2.2

/-- The frames on the right are those on the left, up to resolution, with `outer` under them. -/
inductive Scopes.ResolvedBy (outer : Scopes) : Nat → Scopes → Scopes → Prop
  | nil : ResolvedBy outer 0 [] outer
  | cons {opened : Nat} {frame frame' : Frame} {scopes scopes' : Scopes} :
      frame.ResolvedBy outer (opened + 1) frame' → ResolvedBy outer opened scopes scopes' →
      ResolvedBy outer (opened + 1) (frame :: scopes) (frame' :: scopes')

/-- The frames declare the same variables and functions of the same names. -/
structure Frame.DeclaresAlike (frame frame' : Frame) : Prop where
  vars : frame'.vars = frame.vars
  funcs : frame'.funcs.map Prod.fst = frame.funcs.map Prod.fst

variable {outer : Scopes} {opened : Nat}

namespace Node.ResolvedBy

theorem refl (outer : Scopes) (opened : Nat) (node : Node) : node.ResolvedBy outer opened node := by
  induction node using Node.induction generalizing opened with
  | step pos kind ih =>
    have h := @Node.ResolvedBy.node outer opened pos (kind.map fun part => (part, part)) ?_
    · simpa only [Kind.map_map, Kind.map_id'] using h
    · intro pair hpair
      rw [Kind.children_map] at hpair
      obtain ⟨part, hpart, rfl⟩ := List.mem_map.mp hpair
      exact ih part hpart _

theorem pos_eq {a b : Node} (h : a.ResolvedBy outer opened b) : a.pos = b.pos := by
  cases h <;> rfl

end Node.ResolvedBy

namespace Frame.ResolvedBy

variable {frame frame' : Frame}

theorem refl (outer : Scopes) (opened : Nat) (frame : Frame) :
    frame.ResolvedBy outer opened frame := by
  refine ⟨rfl, frame.funcs.map fun entry => (entry.1, (entry.2, entry.2)), ?_, ?_, ?_⟩
  · rw [List.map_map]
    exact (List.map_id' _).symm
  · rw [List.map_map]
    exact (List.map_id' _).symm
  · intro entry hentry
    obtain ⟨⟨name, function⟩, _, rfl⟩ := List.mem_map.mp hentry
    exact .refl outer opened function

theorem declaresAlike (h : frame.ResolvedBy outer opened frame') : frame.DeclaresAlike frame' := by
  obtain ⟨hvars, entries, hl, hr, _⟩ := h
  refine ⟨hvars, ?_⟩
  rw [hl, hr, List.map_map, List.map_map]
  rfl

theorem declareVar (h : frame.ResolvedBy outer opened frame') (name : String) :
    Frame.ResolvedBy outer opened { frame with vars := addName name frame.vars }
      { frame' with vars := addName name frame'.vars } :=
  ⟨by rw [h.vars], h.funcs⟩

theorem declareFunc (h : frame.ResolvedBy outer opened frame') (name : String)
    {function function' : Node} (hfunction : function.ResolvedBy outer opened function') :
    Frame.ResolvedBy outer opened { frame with funcs := bindName name function frame.funcs }
      { frame' with funcs := bindName name function' frame'.funcs } := by
  obtain ⟨hvars, entries, hl, hr, hentries⟩ := h
  refine ⟨hvars, bindName name (function, function') entries, ?_, ?_, fun entry hentry => ?_⟩
  · rw [hl]
    exact (map_bindName Function.injective_id Prod.fst name (function, function') entries).symm
  · rw [hr]
    exact (map_bindName Function.injective_id Prod.snd name (function, function') entries).symm
  · rcases mem_bindName hentry with rfl | hentry
    · exact hfunction
    · exact hentries entry hentry

end Frame.ResolvedBy

namespace Scopes.ResolvedBy

variable {scopes scopes' : Scopes}

/-- The frames as they are and with others under them. -/
theorem append (outer scopes : Scopes) :
    ResolvedBy outer scopes.length scopes (scopes ++ outer) := by
  induction scopes with
  | nil => exact .nil
  | cons frame scopes ih => exact .cons (.refl ..) ih

/-- The frames underneath are still there, and those above declare the same names. -/
theorem exists_append (h : ResolvedBy outer opened scopes scopes') :
    ∃ frames, scopes' = frames ++ outer ∧ List.Forall₂ Frame.DeclaresAlike scopes frames := by
  induction h with
  | nil => exact ⟨[], rfl, .nil⟩
  | @cons _ _ frame' _ _ hframe _ ih =>
    obtain ⟨frames, rfl, hframes⟩ := ih
    exact ⟨frame' :: frames, rfl, .cons hframe.declaresAlike hframes⟩

/-- A name that the frames above do not declare is looked for underneath. -/
theorem nearest (h : ResolvedBy outer opened scopes scopes') (name : String) :
    scopes'.nearest name =
      (scopes.nearest name).or ((outer.nearest name).map fun distance => opened + distance) := by
  induction h with
  | nil => simp [Scopes.nearest]
  | cons hframe _ ih =>
    rw [Scopes.nearest, Scopes.nearest, List.findIdx?_cons, List.findIdx?_cons, hframe.vars]
    split
    · rfl
    · rw [← Scopes.nearest, ← Scopes.nearest, ih, Option.map_or, Option.map_map]
      congr 2
      funext distance
      simp only [Function.comp_apply]
      omega

end Scopes.ResolvedBy

/-- The answer to a look-up is the same with more frames underneath, or there was none without them,
and the name is found in these. -/
def ResolvedDepth (outer : Scopes) (opened : Nat) (name : String) (depth depth' : Option Nat) :
    Prop :=
  depth' = depth ∨ depth = none ∧
    ∃ distance, outer.nearest name = some distance ∧ depth' = some (opened + distance)

theorem Scopes.ResolvedBy.resolve {scopes scopes' : Scopes}
    (h : ResolvedBy outer opened scopes scopes') (name : String) :
    ResolvedDepth outer opened name (scopes.resolve name) (scopes'.resolve name) := by
  rw [Scopes.resolve, Scopes.resolve, ← Scopes.nearest, ← Scopes.nearest, h.nearest]
  cases scopes.nearest name with
  | some depth => exact .inl rfl
  | none =>
    rw [Option.none_or, Option.filter_none]
    cases hfound : outer.nearest name with
    | none => exact .inl rfl
    | some distance =>
      rw [Option.map_some, Option.filter_some]
      split
      · exact .inr ⟨rfl, distance, hfound, rfl⟩
      · exact .inl rfl

/-! ## The two builds side by side -/

/-- The left build is over `opened` frames, the right one has `outer` under them. -/
def underneath (outer : Scopes) (opened : Nat) : Pairing where
  rename := id
  place _ := True
  visited _ := True
  node := Node.ResolvedBy outer opened
  depth := ResolvedDepth outer opened
  body nodes frame nodes' frame' :=
    (∃ pairs : List (Node × Node), nodes = pairs.map Prod.fst ∧ nodes' = pairs.map Prod.snd ∧
      ∀ pair ∈ pairs, pair.1.ResolvedBy outer (opened + 1) pair.2) ∧
    frame.ResolvedBy outer (opened + 1) frame'
  error := Eq

@[simp] theorem underneath_rename : (underneath outer opened).rename = id := rfl

theorem underneath_closed (outer : Scopes) (opened : Nat) (source : String) :
    (underneath outer opened).Closed source source where
  words := .id
  below _ _ := trivial
  reached _ _ := trivial
  labelled _ := ParseTree.labelled_id _
  make {tree} kind _ hplain _ := by
    rw [underneath_rename, ParseTree.rename_id, Kind.rename_id]
    have hown : (kind.map fun pair => (pair.left, pair.right)).ownBody = [] := by
      cases kind <;> first | rfl | exact hplain.elim
    have h := @Node.ResolvedBy.node outer opened tree.position
      (kind.map fun pair => (pair.left, pair.right)) ?_
    · rwa [Kind.map_map, Kind.map_map] at h
    · rw [Kind.children_map, hown]
      intro _ hpair
      obtain ⟨pair, _, rfl⟩ := List.mem_map.mp hpair
      exact pair.related
  reference {tree name d d'} _ hd := by
    rw [underneath_rename, ParseTree.rename_id]
    rcases hd with rfl | ⟨rfl, distance, hfound, rfl⟩
    · exact .refl ..
    · exact .found _ hfound
  sourceElements {tree _ _ _ _} _ hbody := by
    obtain ⟨⟨pairs, rfl, rfl, hpairs⟩, hvars, entries, hl, hr, hentries⟩ := hbody
    rw [underneath_rename, ParseTree.rename_id, hvars, hl, hr]
    refine .node tree.position (.sourceElements ⟨_, entries, pairs, source⟩) fun pair hpair => ?_
    rcases List.mem_append.mp hpair with hpair | hpair
    · obtain ⟨entry, hentry, rfl⟩ := List.mem_map.mp hpair
      exact hentries entry hentry
    · exact hpairs pair hpair
  emptyBody := ⟨⟨[], rfl, rfl, nofun⟩, .refl ..⟩
  view {a b} h := by
    cases h with
    | node pos kind hchildren =>
      have hparts : ∀ part ∈ kind.view.parts, part.1.ResolvedBy outer opened part.2 := by
        intro part hpart
        have hown : kind.ownBody = [] := by cases kind <;> first | rfl | exact nomatch hpart
        have hpair := hchildren part (Kind.mem_of_mem_view hpart)
        rwa [hown] at hpair
      obtain ⟨pairs, hl, hr⟩ := View.exists_paired
        (R := fun (a b : Node × Node) => a.1.ResolvedBy outer opened b.2) hparts
      refine ⟨pairs.map fun pair => ⟨pair.left.1, pair.right.2, pair.related⟩, ?_, ?_⟩
      · rw [Kind.view_map, View.map_map, hl, View.map_map]
      · rw [Kind.view_map, underneath_rename, View.rename_id, View.map_map, hr, View.map_map]
    | found pos hfound => exact ⟨.name _, rfl, rfl⟩
  malformed _ _ _ _ := by
    rw [underneath_rename, ParseTree.rename_id, Defect.map_spelled_id]
    rfl
  malformedNode _ _ h _ := by
    rw [underneath_rename, Defect.map_spelled_id]
    exact congrArg (BuildError.malformed _ · _) (Node.ResolvedBy.pos_eq h)
  unwritable _ _ := by
    rw [underneath_rename, ParseTree.rename_id]
    rfl
  unwritableNode h _ := congrArg (BuildError.invalidTarget · _) (Node.ResolvedBy.pos_eq h)

/-- Over at least one frame, whose number is `below + 1` where the builds begin. -/
theorem underneath_lockstep (outer : Scopes) (below : Nat) (resolving : Bool) :
    Lockstep (fun n => underneath outer (below + n + 1))
      (fun n => Scopes.ResolvedBy outer (below + n + 1)) Eq resolving resolving where
  error_eq _ := rfl
  rename_succ _ := rfl
  place_succ h := h
  visited_succ h := h
  lookup name hs := by
    cases resolving with
    | true => exact hs.resolve name
    | false => exact .inl rfl
  declareVar name hs := by
    cases hs with
    | cons hframe houter => exact ⟨rfl, .cons (hframe.declareVar name) houter⟩
  declareFunc pair _ _ hs := by
    cases hs with
    | cons hframe houter => exact ⟨rfl, .cons (hframe.declareFunc _ pair.related) houter⟩
  push hs := .cons (.refl ..) hs
  pop hs := by
    cases hs with
    | @cons _ frame frame' rest rest' hframe houter =>
      refine ⟨frame, rest, frame', rest', rfl, rfl, houter, fun nodes nodes' hnodes => ?_⟩
      obtain ⟨pairs, rfl, rfl⟩ := hnodes
      refine ⟨⟨pairs.map fun pair => (pair.left, pair.right), ?_, ?_, fun pair hpair => ?_⟩, hframe⟩
      · rw [List.map_map]
        rfl
      · rw [List.map_map]
        rfl
      · obtain ⟨pair, _, rfl⟩ := List.mem_map.mp hpair
        exact pair.related

/-- Two dispatches, of which the second has more frames underneath. -/
theorem dispatch_underneath (options : Options) (room : Nat) (tree : ParseTree) {inner : Scopes}
    (hinner : inner ≠ []) (outer : Scopes) :
    Outcome.Corresponds (fun n => Scopes.ResolvedBy outer (inner.tail.length + n + 1)) Eq 0
      ((underneath outer inner.length).Answer tree) (dispatch options room tree inner)
      (dispatch options room tree (inner ++ outer)) := by
  obtain ⟨frame, rest, rfl⟩ := List.exists_cons_of_ne_nil hinner
  have hrefusal : RefusalsCorrespond (fun n => underneath outer (rest.length + n + 1)) Eq := by
    intro _ tree _
    rw [underneath_rename, ParseTree.rename_id]
    exact ⟨rfl, rfl⟩
  have hvisits := dispatch_lockstep (fun n => underneath_closed outer _ options.sourceName)
    (underneath_lockstep outer rest.length options.staticResolution) hrefusal room
  have h := hvisits 0 tree _ _ trivial trivial (Scopes.ResolvedBy.append outer (frame :: rest))
  rwa [underneath_rename, ParseTree.rename_id] at h

/-- What it means for the dispatches to correspond. -/
theorem Outcome.Corresponds.resolved {tree : ParseTree} {below : Nat}
    {alone above : Outcome (Option Node)}
    (h : Corresponds (fun n => Scopes.ResolvedBy outer (below + n + 1)) Eq 0
      ((underneath outer opened).Answer tree) alone above) :
    (∃ frames, above.scopes = frames ++ outer ∧
      List.Forall₂ Frame.DeclaresAlike alone.scopes frames) ∧
    ((∃ error, alone.result = .error error ∧ above.result = .error error) ∨
      (alone.result = .ok none ∧ above.result = .ok none) ∨
      ∃ node node', alone.result = .ok (some node) ∧ above.result = .ok (some node') ∧
        node.ResolvedBy outer opened node') := by
  cases h with
  | error herror hs => exact ⟨hs.exists_append, .inl ⟨_, rfl, herror ▸ rfl⟩⟩
  | ok hanswer hs =>
    refine ⟨hs.exists_append, .inr ?_⟩
    cases hanswer with
    | none => exact .inl ⟨rfl, rfl⟩
    | some pair _ => exact .inr ⟨_, _, rfl, rfl, pair.related⟩

/-! ## The look-ups go on underneath -/

/-- The outcome with more frames underneath. -/
def Outcome.withOuter {α : Type} (outer : Scopes) (outcome : Outcome α) : Outcome α :=
  ⟨outcome.result, outcome.scopes ++ outer⟩

theorem Outcome.withOuter_andThen {α β : Type} {outcome : Outcome α} {scopes : Scopes}
    {next next' : α → Scopes → Outcome β}
    (hdisciplined : (outcome.withOuter outer).Disciplined (scopes ++ outer))
    (hnext : ∀ value after, after.length = scopes.length →
      next' value (after ++ outer) = (next value after).withOuter outer) :
    (outcome.withOuter outer).andThen next' = (outcome.andThen next).withOuter outer := by
  obtain ⟨error | value, after⟩ := outcome
  · rfl
  · have hlength : (after ++ outer).length = (scopes ++ outer).length := hdisciplined.length_eq
    rw [List.length_append, List.length_append] at hlength
    exact hnext value after (Nat.add_right_cancel hlength)

/-- Finds a name in the open frames or in those underneath, where names are resolved. -/
def findIn (resolving : Bool) (outer : Scopes) (name : String) (scopes : Scopes) : Option Nat :=
  if resolving then (scopes ++ outer).resolve name else none

namespace Plan

variable {α : Type} {resolving : Bool}
  {visitTree visitTree' : ParseTree → Scopes → Outcome (Option Node)}
  (hdisciplined : ∀ tree scopes, (visitTree' tree scopes).Disciplined scopes)
  (hvisit : ∀ tree scopes, 0 < scopes.length →
    visitTree' tree (scopes ++ outer) = (visitTree tree scopes).withOuter outer)
include hdisciplined hvisit

theorem visitAll_append (trees : List ParseTree) {scopes : Scopes} (hopen : 0 < scopes.length) :
    visitAll visitTree' trees (scopes ++ outer) =
      (visitAll visitTree trees scopes).withOuter outer := by
  induction trees generalizing scopes with
  | nil => rfl
  | cons tree trees ih =>
    have hfirst := hdisciplined tree (scopes ++ outer)
    rw [hvisit tree scopes hopen] at hfirst
    rw [visitAll, visitAll, hvisit tree scopes hopen]
    refine Outcome.withOuter_andThen hfirst fun node after hafter => ?_
    have hopen : 0 < after.length := hafter ▸ hopen
    have hrest := visitAll_disciplined hdisciplined trees (after ++ outer)
    rw [ih hopen] at hrest ⊢
    exact Outcome.withOuter_andThen hrest fun _ _ _ => rfl

theorem run_append (plan : Plan α) {scopes : Scopes} (hopen : 0 < scopes.length) :
    plan.run resolving visitTree' (scopes ++ outer) =
      (plan.runFinding (findIn resolving outer) visitTree scopes).withOuter outer := by
  induction plan generalizing scopes with
  | done | fail => rfl
  | visit tree next ih =>
    have hfirst := hdisciplined tree (scopes ++ outer)
    rw [hvisit tree scopes hopen] at hfirst
    rw [run, runFinding, hvisit tree scopes hopen]
    exact Outcome.withOuter_andThen hfirst fun node after hafter => ih node (hafter ▸ hopen)
  | lookup name next ih => exact ih _ hopen
  | declareVar name next ih =>
    cases scopes with
    | nil => exact absurd hopen (Nat.lt_irrefl 0)
    | cons frame rest => exact @ih true (_ :: rest) hopen
  | declareFunc name function next ih =>
    cases scopes with
    | nil => exact absurd hopen (Nat.lt_irrefl 0)
    | cons frame rest => exact @ih true (_ :: rest) hopen
  | body trees next ih =>
    have hpush : (scopes ++ outer).push = scopes.push ++ outer := rfl
    have hpushed : 0 < scopes.push.length := Nat.succ_pos _
    have hbody := visitAll_disciplined hdisciplined trees (scopes.push ++ outer)
    rw [run, runFinding, hpush]
    rw [visitAll_append hdisciplined hvisit trees hpushed] at hbody ⊢
    refine Outcome.withOuter_andThen hbody fun nodes after hafter => ?_
    -- The frame of the body is closed again, and as many are open as before.
    cases after with
    | nil => cases hafter
    | cons frame rest => exact ih nodes (some frame) (Nat.succ.inj hafter ▸ hopen)

end Plan

/-- **A dispatch over more frames is the same dispatch**, but that it finds names in these too. -/
theorem dispatch_append (options : Options) (outer : Scopes) (room : Nat) (tree : ParseTree)
    {scopes : Scopes} (hopen : 0 < scopes.length) :
    dispatch options room tree (scopes ++ outer) =
      (dispatchFinding (findIn options.staticResolution outer) options room tree scopes).withOuter
        outer := by
  induction room generalizing tree scopes with
  | zero =>
    rw [dispatchFinding, dispatch, dispatch]
    cases Symbol.ofName? tree.symbol <;> rfl
  | succ room ih =>
    rw [dispatchFinding, dispatch]
    cases Symbol.ofName? tree.symbol with
    | none => rfl
    | some symbol =>
      exact Plan.run_append (dispatch_disciplined options room) (fun tree _ hopen => ih tree hopen)
        (symbol.plan options.sourceName tree) hopen

/-- **Outer frames only add resolutions.**  A builder over open frames and one with more frames
underneath fail with the same error or both succeed, with trees that are the same but for names that
the second resolves to the frames underneath.  After both, the frames underneath are as they were,
and those above declare the same names.  The names are those that are looked up and not found in the
frames above: the second build is the first with look-ups that go on underneath. -/
theorem outer_frames_only_resolve (options : Options) {inner : Scopes} (hinner : inner ≠ [])
    (outer : Scopes) (depth : Nat) (tree : ParseTree) :
    let alone := (⟨options, inner, depth⟩ : Builder).dispatch tree
    let above := (⟨options, inner ++ outer, depth⟩ : Builder).dispatch tree
    (∃ frames, above.2.scopes = frames ++ outer ∧
      List.Forall₂ Frame.DeclaresAlike alone.2.scopes frames) ∧
    ((∃ error, alone.1 = .error error ∧ above.1 = .error error) ∨
      (alone.1 = .ok none ∧ above.1 = .ok none) ∨
      ∃ node node', alone.1 = .ok (some node) ∧ above.1 = .ok (some node') ∧
        node.ResolvedBy outer inner.length node') ∧
    above.1 = (dispatchFinding (findIn options.staticResolution outer) options (maxNesting - depth)
      tree inner).result := by
  have hopen : 0 < inner.length := List.length_pos_iff.mpr hinner
  simp only [Builder.dispatch_on, Outcome.on]
  have hfound := dispatch_append options outer (maxNesting - depth) tree hopen
  obtain ⟨hframes, hanswers⟩ :=
    (dispatch_underneath options (maxNesting - depth) tree hinner outer).resolved
  refine ⟨hframes, hanswers, ?_⟩
  rw [hfound, Outcome.withOuter]

/-- A function that uses two variables: `(function () y + x)`. -/
def sumSample : ParseTree :=
  .node "functionexpression" [
    .token "(" "(" ⟨9, 1, 9⟩, .token ")" ")" ⟨10, 1, 10⟩,
    .node "sourceelements" [.node "expressionstatement" [.node "additiveexpression" [
      .token "IDENTIFIERNAME" "y" ⟨14, 1, 14⟩, .token "+" "+" ⟨16, 1, 16⟩,
      .token "IDENTIFIERNAME" "x" ⟨18, 1, 18⟩]]],
    .token "\x7d" "\x7d" ⟨20, 1, 20⟩]

/-- What is built of `sumSample` over a frame that declares `y`, with `x` as it is given. -/
def sumNode (x : Kind Node) : Node :=
  let use : Position := ⟨1, 14, 15⟩
  let sum : Position := ⟨1, 16, 17⟩
  ⟨⟨1, 9, 10⟩, .functionStatement ⟨none, [], some ⟨use, .sourceElements ⟨[], [],
    [⟨use, .exprStatement ⟨sum, .binary .plus ⟨use, .variableIdentifier 1 "y"⟩
      ⟨⟨1, 18, 19⟩, x⟩⟩⟩], ""⟩⟩⟩⟩

/-- The variable `x` is declared in the outer one of two frames underneath. -/
theorem outer_frames_only_resolve_sum :
    let inner : Scopes := [⟨["y"], []⟩]
    let outer : Scopes := [⟨["z"], []⟩, ⟨["x"], []⟩]
    inner ≠ [] ∧
    ((⟨⟨"", true⟩, inner, 0⟩ : Builder).dispatch sumSample).1 =
      .ok (some (sumNode (.identifier "x"))) ∧
    ((⟨⟨"", true⟩, inner ++ outer, 0⟩ : Builder).dispatch sumSample).1 =
      .ok (some (sumNode (.variableIdentifier 3 "x"))) ∧
    (sumNode (.identifier "x")).ResolvedBy outer 1 (sumNode (.variableIdentifier 3 "x")) := by
  intro inner outer
  have halone : ((⟨⟨"", true⟩, inner, 0⟩ : Builder).dispatch sumSample).1 =
    .ok (some (sumNode (.identifier "x"))) := rfl
  have habove : ((⟨⟨"", true⟩, inner ++ outer, 0⟩ : Builder).dispatch sumSample).1 =
    .ok (some (sumNode (.variableIdentifier 3 "x"))) := rfl
  have hinner : inner ≠ [] := List.cons_ne_nil _ _
  obtain ⟨_, hanswers, _⟩ := outer_frames_only_resolve ⟨"", true⟩ hinner outer 0 sumSample
  refine ⟨hinner, halone, habove, ?_⟩
  rw [halone, habove] at hanswers
  rcases hanswers with ⟨_, herror, _⟩ | ⟨hnone, _⟩ | ⟨node, node', hnode, hnode', hresolved⟩
  · cases herror
  · cases hnone
  · cases hnode
    cases hnode'
    exact hresolved

end ScriptAst
