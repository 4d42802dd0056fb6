import ScriptAst.Proofs.Binding
import ScriptAst.Proofs.Soundness

/-! # What the options change

Options change the depth that a name is given and the name that a body bears, and nothing else.
`Node.unresolved source` takes the former back and writes `source` for the latter; up to it all
options give the same build, errors included (`build_unresolved`).

The build without resolution and any other go side by side: corresponding nodes are equal after
`unresolved`, and so are corresponding frames, declared functions included.
-/
namespace ScriptAst

/-- A name without its depth, and a body of the source `source`. -/
def Kind.unresolved {α : Type} (source : String) : Kind α → Kind α
  | variableIdentifier _ name => identifier name
  | sourceElements body => sourceElements { body with sourceName := source }
  | kind => kind

/-- The tree with every name unresolved and every body of the source `source`. -/
def Node.unresolved (source : String) : Node → Node :=
  fold fun pos kind => ⟨pos, kind.unresolved source⟩

/-- The frame with every declared function unresolved. -/
def Frame.unresolved (source : String) (frame : Frame) : Frame :=
  ⟨frame.vars, frame.funcs.map fun (name, function) => (name, function.unresolved source)⟩

namespace Node

variable (source : String)

theorem unresolved_mk (pos : Position) (kind : Kind Node) :
    unresolved source ⟨pos, kind⟩ = ⟨pos, (kind.map (unresolved source)).unresolved source⟩ :=
  fold_mk ..

@[simp] theorem unresolved_pos (node : Node) : (node.unresolved source).pos = node.pos := by
  obtain ⟨pos, kind⟩ := node
  rw [unresolved_mk]

theorem unresolved_plain {pos : Position} {kind : Kind Node} (h : kind.IsPlain) :
    unresolved source ⟨pos, kind⟩ = ⟨pos, kind.map (unresolved source)⟩ := by
  rw [unresolved_mk]
  cases kind <;> first | rfl | exact h.elim

theorem unresolved_view (node : Node) :
    (node.unresolved source).kind.view = node.kind.view.map (unresolved source) := by
  obtain ⟨pos, kind⟩ := node
  rw [unresolved_mk, ← Kind.view_map]
  cases kind <;> rfl

/-- With or without its depth, a name is that name unresolved. -/
theorem unresolved_reference (pos : Position) (name : String) (depth : Option Nat) :
    unresolved source ⟨pos, .reference name depth⟩ = ⟨pos, .identifier name⟩ := by
  rw [unresolved_mk]
  cases depth <;> rfl

end Node

/-! ## The two builds side by side -/

variable {source : String}

/-- The left build resolves nothing and names its source `source`; the right one is any other. -/
def erasure (source : String) : Pairing where
  rename := id
  place _ := True
  visited _ := True
  node a b := a = b.unresolved source
  depth _ d _ := d = none
  body nodes frame nodes' frame' :=
    nodes = nodes'.map (Node.unresolved source) ∧ frame = frame'.unresolved source
  error := Eq

@[simp] theorem erasure_rename : (erasure source).rename = id := rfl

theorem erasure_closed (source source' : String) : (erasure source).Closed source source' where
  words := .id
  below _ _ := trivial
  reached _ _ := trivial
  labelled _ := ParseTree.labelled_id _
  make kind _ hplain _ := by
    have hright : (kind.map Paired.right).IsPlain := by
      cases kind <;> trivial
    show _ = Node.unresolved source _
    rw [erasure_rename, ParseTree.rename_id, Kind.rename_id, Node.unresolved_plain source hright,
      Kind.map_map, Kind.map_congr kind fun pair _ => pair.related]
  reference _ hd := by
    subst hd
    show _ = Node.unresolved source _
    rw [erasure_rename, ParseTree.rename_id, Node.unresolved_reference]
    rfl
  sourceElements _ hbody := by
    obtain ⟨rfl, rfl⟩ := hbody
    show _ = Node.unresolved source _
    rw [erasure_rename, ParseTree.rename_id, Node.unresolved_mk]
    rfl
  emptyBody := ⟨rfl, rfl⟩
  view {a b} h := by
    subst h
    let pair (part : Node) : Paired (erasure source).node := ⟨part.unresolved source, part, rfl⟩
    refine ⟨b.kind.view.map pair, ?_, ?_⟩
    · rw [Node.unresolved_view, View.map_map]
    · rw [erasure_rename, View.rename_id, View.map_map, View.map_id']
  malformed _ _ _ _ := by
    rw [erasure_rename, ParseTree.rename_id, Defect.map_spelled_id]
    rfl
  malformedNode {_ a b _} _ _ h _ := by
    subst h
    rw [erasure_rename, Defect.map_spelled_id]
    exact congrArg (BuildError.malformed _ · _) (b.unresolved_pos source)
  unwritable _ _ := by
    rw [erasure_rename, ParseTree.rename_id]
    rfl
  unwritableNode {a b _} h _ := by
    subst h
    exact congrArg (BuildError.invalidTarget · _) (b.unresolved_pos source)

/-- As many frames, which declare the same variables and functions that are the same unresolved. -/
def Scopes.UnresolvedTo (source : String) (opened : Nat) (scopes scopes' : Scopes) : Prop :=
  scopes.length = opened ∧ scopes = scopes'.map (Frame.unresolved source)

theorem erasure_lockstep (source : String) (resolving : Bool) :
    Lockstep (fun _ => erasure source) (Scopes.UnresolvedTo source) Eq false resolving where
  error_eq _ := rfl
  rename_succ _ := rfl
  place_succ h := h
  visited_succ h := h
  lookup _ _ := rfl
  declareVar {opened _ scopes} name hs := by
    obtain ⟨hlength, rfl⟩ := hs
    cases scopes <;> exact ⟨rfl, hlength, rfl⟩
  declareFunc {opened _ scopes name _} pair _ _ hs := by
    obtain ⟨_, function, rfl⟩ := pair
    obtain ⟨hlength, rfl⟩ := hs
    cases scopes with
    | nil => exact ⟨rfl, hlength, rfl⟩
    | cons frame outer =>
      refine ⟨rfl, hlength, congrArg (Frame.mk _ · :: _) ?_⟩
      exact (map_bindName Function.injective_id (Node.unresolved source) ..).symm
  push hs := by
    obtain ⟨rfl, rfl⟩ := hs
    exact ⟨rfl, rfl⟩
  pop {opened _ scopes} hs := by
    obtain ⟨hlength, rfl⟩ := hs
    cases scopes with
    | nil => exact nomatch hlength
    | cons frame outer =>
      -- The frame of the left body is that of the right one, unresolved.
      refine ⟨_, _, frame, outer, rfl, rfl, ⟨Nat.succ.inj hlength, rfl⟩, fun _ _ hnodes => ?_⟩
      obtain ⟨pairs, rfl, rfl⟩ := hnodes
      refine ⟨?_, rfl⟩
      rw [List.map_map]
      exact List.map_congr_left fun pair _ => pair.related

/-- **Resolution is a hint.**  The build without it is any other, unresolved and renamed. -/
theorem build_unresolved (source : String) (options : Options) (tree : ParseTree) :
    build ⟨source, false⟩ tree = (build options tree).map (Node.unresolved source) := by
  have hrefusal : RefusalsCorrespond (fun _ => erasure source) Eq := by
    intro _ tree _
    rw [erasure_rename, ParseTree.rename_id]
    exact ⟨rfl, rfl⟩
  have h := build_lockstep ⟨source, false⟩ options
    (fun _ => erasure_closed source options.sourceName)
    (erasure_lockstep source options.staticResolution) hrefusal ⟨rfl, rfl⟩
    tree trivial trivial
  rw [erasure_rename, ParseTree.rename_id] at h
  generalize build ⟨source, false⟩ tree = result at h ⊢
  generalize build options tree = result' at h ⊢
  cases h with
  | ok hroot => exact congrArg Except.ok hroot
  | error herror => exact congrArg Except.error herror

/-- **Options change only what they name.**  Under any two options a build fails with one error, or
succeeds with one tree but for depths and source names; and all bodies of a tree bear the source
name of its options. -/
theorem options_are_hints (tree : ParseTree) :
    (∀ options options', (build options tree).map (Node.unresolved "") =
      (build options' tree).map (Node.unresolved "")) ∧
    ∀ options root, build options tree = .ok root → ∀ node ∈ root.preorder, ∀ body,
      node.kind = .sourceElements body → body.sourceName = options.sourceName := by
  refine ⟨fun options options' => ?_, fun options root h node hnode body hbody => ?_⟩
  · rw [← build_unresolved, ← build_unresolved]
  · have hsound : root.AllSound options.sourceName fun _ => True :=
      build_sound (fun _ _ _ _ => trivial) trivial h
    exact (hsound node hnode).source body hbody

theorem options_are_hints_closure :
    (build ⟨"a.js", true⟩ closureSample).map (Node.unresolved "") =
      (build ⟨"b.js", false⟩ closureSample).map (Node.unresolved "") ∧
    ∀ node ∈ closureNode.preorder, ∀ body,
      node.kind = .sourceElements body → body.sourceName = "" :=
  have h := options_are_hints closureSample
  ⟨h.1 _ _, h.2 ⟨"", true⟩ closureNode rfl⟩

end ScriptAst
