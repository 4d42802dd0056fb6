import ScriptAst.Node.Fold
import ScriptAst.Proofs.Pairing.Lockstep

/-! # Every node is sound

A node that a build hands out is placed at a tree of its input, has the parts that its kind calls
for (`Kind.Sound`), and, if it is a body, bears the name of the source (`Node.Sound`).  This is the
lockstep of a build with itself: corresponding nodes are one node with sound nodes only, and the
frames opened by the build hold sound functions only, under their own names.

The frames that were open before are not looked at, so nothing is asked of them.
-/
namespace ScriptAst

/-- What a node built for the trees of `place` is like. -/
structure Node.Sound (source : String) (place : ParseTree → Prop) (node : Node) : Prop where
  placed : ∃ tree, place tree ∧ node.pos = tree.position
  kind : node.kind.Sound
  source : ∀ body, node.kind = .sourceElements body → body.sourceName = source

/-- A tree of sound nodes. -/
def Node.AllSound (source : String) (place : ParseTree → Prop) (root : Node) : Prop :=
  ∀ node ∈ root.preorder, node.Sound source place

/-- A function of sound nodes under its own name. -/
def Frame.DeclaresSound (source : String) (place : ParseTree → Prop) (frame : Frame) : Prop :=
  ∀ entry ∈ frame.funcs, entry.2.AllSound source place ∧
    ∃ function, entry.2.kind = .functionStatement function ∧ function.name = some entry.1

variable {source : String} {place : ParseTree → Prop}

namespace Node.AllSound

theorem root {node : Node} (h : node.AllSound source place) : node.Sound source place :=
  h node node.mem_preorder_self

theorem mk {pos : Position} {kind : Kind Node} (h : Node.Sound source place ⟨pos, kind⟩)
    (hchildren : ∀ child ∈ kind.children, child.AllSound source place) :
    AllSound source place ⟨pos, kind⟩ := by
  intro node hnode
  rcases mem_preorder_iff.mp hnode with rfl | ⟨child, hchild, hnode⟩
  · exact h
  · exact hchildren child hchild node hnode

theorem child {node child : Node} (h : node.AllSound source place) (hc : child ∈ node.children) :
    child.AllSound source place := by
  obtain ⟨pos, kind⟩ := node
  exact fun n hn => h n (mem_preorder_iff.mpr (.inr ⟨child, hc, hn⟩))

end Node.AllSound

theorem Frame.DeclaresSound.bindName {frame : Frame} (h : frame.DeclaresSound source place)
    {name : String} {node : Node} {function : Function Node} (hnode : node.AllSound source place)
    (hkind : node.kind = .functionStatement function) (hname : function.name = some name) :
    Frame.DeclaresSound source place
      { frame with funcs := ScriptAst.bindName name node frame.funcs } := by
  intro entry hentry
  rcases mem_bindName hentry with rfl | hentry
  · exact ⟨hnode, function, hkind, hname⟩
  · exact h entry hentry

/-- An error that is not of a malformed node, or of one with a defect that occurs. -/
def BuildError.Occurs : BuildError → Prop
  | malformed _ _ defect => defect.Occurs
  | _ => True

/-- What a production fails with: a defect or a fault that occurs, at a tree of `place`. -/
inductive BuildError.Found (place : ParseTree → Prop) : BuildError → Prop
  | malformed {tree : ParseTree} {defect : Defect} (symbol : String) : place tree →
      defect.Occurs → Found place (.malformed symbol tree.position defect)
  | invalidTarget {tree : ParseTree} {fault : TargetFault} : place tree →
      fault.Occurs → Found place (.invalidTarget tree.position fault)

theorem BuildError.Found.occurs {place : ParseTree → Prop} {error : BuildError}
    (h : error.Found place) :
    (∃ tree, place tree ∧ error.position = tree.position) ∧ error.Occurs := by
  cases h with
  | malformed symbol hplace hdefect => exact ⟨⟨_, hplace, rfl⟩, hdefect⟩
  | invalidTarget hplace hfault => exact ⟨⟨_, hplace, rfl⟩, trivial⟩

/-! ## The pairing of a build with itself -/

/-- One build twice, with sound nodes and errors that are `reported`. -/
def soundness (source : String) (place visited : ParseTree → Prop) (reported : BuildError → Prop) :
    Pairing where
  rename := id
  place := place
  visited := visited
  node a b := a = b ∧ a.AllSound source place
  depth _ d d' := d = d'
  body nodes frame nodes' frame' := nodes = nodes' ∧ frame = frame' ∧
    (∀ node ∈ nodes, node.AllSound source place) ∧ frame.DeclaresSound source place
  error e e' := e = e' ∧ reported e

variable {visited : ParseTree → Prop} {reported : BuildError → Prop}

@[simp] theorem soundness_rename : (soundness source place visited reported).rename = id := rfl

theorem soundness_closed
    (hbelow : ∀ tree child, place tree → child ∈ tree.children → place child)
    (hreached : ∀ tree child, visited tree → child ∈ tree.reached → visited child)
    (hfound : ∀ error, error.Found place → reported error) :
    (soundness source place visited reported).Closed source source where
  words := .id
  below := hbelow _ _
  reached := hreached _ _
  labelled _ := ParseTree.labelled_id _
  make {tree} kind htree hplain hsound := by
    have hsame : kind.map Paired.left = kind.map Paired.right :=
      Kind.map_congr kind fun pair _ => pair.related.1
    refine ⟨?_, .mk ⟨⟨tree, htree, rfl⟩, hsound, fun body hbody => ?_⟩ ?_⟩
    · rw [hsame, soundness_rename, ParseTree.rename_id, Kind.rename_id]
    · cases kind <;> first | exact hplain.elim | exact nomatch hbody
    · intro child hchild
      rw [Kind.children_map] at hchild
      obtain ⟨pair, _, rfl⟩ := List.mem_map.mp hchild
      exact pair.related.2
  reference {tree name d d'} htree hd := by
    subst hd
    refine ⟨?_, .mk ⟨⟨tree, htree, rfl⟩, ?_, ?_⟩ ?_⟩
    · rw [soundness_rename, ParseTree.rename_id, id]
    all_goals cases d <;> first | exact trivial | exact nofun
  sourceElements {tree nodes nodes' frame frame'} htree hbody := by
    obtain ⟨rfl, rfl, hnodes, hframe⟩ := hbody
    refine ⟨?_, .mk ⟨⟨tree, htree, rfl⟩, fun entry he => (hframe entry he).2, ?_⟩ ?_⟩
    · rw [soundness_rename, ParseTree.rename_id]
    · rintro body ⟨⟩
      rfl
    · intro child hchild
      rcases List.mem_append.mp hchild with hchild | hchild
      · obtain ⟨entry, hentry, rfl⟩ := List.mem_map.mp hchild
        exact (hframe entry hentry).1
      · exact hnodes child hchild
  emptyBody := ⟨rfl, rfl, nofun, nofun⟩
  view {a b} h := by
    obtain ⟨rfl, hsound⟩ := h
    obtain ⟨view, hl, hr⟩ := View.exists_paired (R := (soundness source place visited reported).node)
      fun part hpart => ⟨rfl, hsound.child (Kind.mem_of_mem_view hpart)⟩
    exact ⟨view, hl, hr.trans (View.rename_id _).symm⟩
  malformed _ _ hat hdefect := by
    refine ⟨?_, hfound _ (.malformed _ hat hdefect)⟩
    rw [soundness_rename, ParseTree.rename_id, Defect.map_spelled_id]
  malformedNode _ _ h hdefect := by
    obtain ⟨rfl, hsound⟩ := h
    obtain ⟨part, hpart, hpos⟩ := hsound.root.placed
    refine ⟨?_, hfound _ ?_⟩
    · rw [soundness_rename, Defect.map_spelled_id]
    · rw [hpos]
      exact .malformed _ hpart hdefect
  unwritable htree hfault := by
    refine ⟨?_, hfound _ (.invalidTarget htree hfault)⟩
    rw [soundness_rename, ParseTree.rename_id]
  unwritableNode h hfault := by
    obtain ⟨rfl, hsound⟩ := h
    obtain ⟨part, hpart, hpos⟩ := hsound.root.placed
    refine ⟨rfl, hfound _ ?_⟩
    rw [hpos]
    exact .invalidTarget hpart hfault

/-! ## A build with itself -/

/-- The same frames, of which the `opened` innermost hold sound functions. -/
def Scopes.SoundAbove (source : String) (place : ParseTree → Prop) (opened : Nat)
    (scopes scopes' : Scopes) : Prop :=
  scopes = scopes' ∧ opened ≤ scopes.length ∧
    ∀ frame ∈ scopes.take opened, frame.DeclaresSound source place

theorem soundness_lockstep (resolving : Bool) :
    Lockstep (fun _ => soundness source place visited reported) (Scopes.SoundAbove source place)
      (soundness source place visited reported).error resolving resolving where
  error_eq _ := rfl
  rename_succ _ := rfl
  place_succ h := h
  visited_succ h := h
  lookup name hs := by rw [hs.1]; exact rfl
  declareVar {opened scopes _} name hs := by
    obtain ⟨rfl, hlength, hframes⟩ := hs
    refine ⟨rfl, rfl, by rwa [Scopes.length_declareVar], ?_⟩
    cases scopes with
    | nil => exact hframes
    | cons frame outer =>
      cases opened with
      | zero => exact nofun
      | succ opened =>
        obtain ⟨hframe, houter⟩ := List.forall_mem_cons.mp hframes
        exact List.forall_mem_cons.mpr ⟨hframe, houter⟩
  declareFunc {opened scopes _ name function} pair hkind hname hs := by
    obtain ⟨node, node', rfl, hnode⟩ := pair
    obtain ⟨rfl, hlength, hframes⟩ := hs
    refine ⟨rfl, rfl, by rwa [Scopes.length_declareFunc], ?_⟩
    cases scopes with
    | nil => exact hframes
    | cons frame outer =>
      -- A function declared into a frame that was open before is no concern of this build.
      cases opened with
      | zero => exact nofun
      | succ opened =>
        obtain ⟨hframe, houter⟩ := List.forall_mem_cons.mp hframes
        exact List.forall_mem_cons.mpr ⟨hframe.bindName hnode hkind hname, houter⟩
  push hs := by
    obtain ⟨rfl, hlength, hframes⟩ := hs
    exact ⟨rfl, Nat.succ_le_succ hlength, List.forall_mem_cons.mpr ⟨nofun, hframes⟩⟩
  pop {opened scopes _} hs := by
    obtain ⟨rfl, hlength, hframes⟩ := hs
    cases scopes with
    | nil => exact absurd hlength (Nat.not_succ_le_zero _)
    | cons frame outer =>
      obtain ⟨hframe, houter⟩ := List.forall_mem_cons.mp hframes
      refine ⟨frame, outer, frame, outer, rfl, rfl, ⟨rfl, Nat.le_of_succ_le_succ hlength, houter⟩,
        fun nodes nodes' hnodes => ?_⟩
      obtain ⟨pairs, rfl, rfl⟩ := hnodes
      refine ⟨List.map_congr_left fun pair _ => pair.related.1, rfl, fun node hnode => ?_, hframe⟩
      obtain ⟨pair, _, rfl⟩ := List.mem_map.mp hnode
      exact pair.related.2

/-- **What is built over any open frames is sound**, and what fails fails at a tree of the input and
not for a frame that is closed. -/
theorem dispatch_sound (hbelow : ∀ tree child, place tree → child ∈ tree.children → place child)
    (options : Options) (room : Nat) {tree : ParseTree} (htree : place tree) (scopes : Scopes) :
    (dispatch options room tree scopes).Satisfies
      (fun answer _ => ∀ node ∈ answer, node.AllSound options.sourceName place)
      (fun error => (∃ part, place part ∧ error.position = part.position) ∧ error.Occurs) := by
  let reported (error : BuildError) : Prop :=
    (∃ part, place part ∧ error.position = part.position) ∧ error.Occurs
  let pairing := soundness options.sourceName place (fun _ => True) reported
  have hclosed : pairing.Closed options.sourceName options.sourceName :=
    soundness_closed hbelow (fun _ _ _ _ => trivial) fun _ hfound => hfound.occurs
  have hrefusal : RefusalsCorrespond (fun _ => pairing) pairing.error := by
    intro _ t ht
    rw [soundness_rename, ParseTree.rename_id]
    exact ⟨⟨rfl, ⟨t, ht, rfl⟩, trivial⟩, rfl, ⟨t, ht, rfl⟩, trivial⟩
  have h := dispatch_lockstep (fun _ => hclosed)
    (soundness_lockstep options.staticResolution) hrefusal
    room 0 tree scopes scopes htree trivial ⟨rfl, Nat.zero_le _, nofun⟩
  refine h.left.mono (fun answer _ => ?_) (fun error => ?_)
  · rintro ⟨_, _, hanswer, _⟩ node hnode
    obtain ⟨_, hsame⟩ := hanswer.left hnode
    exact hsame.2
  · rintro ⟨_, herror⟩
    exact herror.2

/-- Every node of a build is sound. -/
theorem build_sound (hbelow : ∀ tree child, place tree → child ∈ tree.children → place child)
    {options : Options} {tree : ParseTree} (htree : place tree) {root : Node}
    (h : build options tree = .ok root) : root.AllSound options.sourceName place := by
  obtain ⟨scopes, hdispatch⟩ := build_eq_ok_iff.mp h
  exact (dispatch_sound hbelow options maxNesting htree []).of_eq_ok hdispatch root rfl

end ScriptAst
