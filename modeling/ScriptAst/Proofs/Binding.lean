import ScriptAst.Node.Fold
import ScriptAst.Proofs.Discipline
import ScriptAst.Proofs.Outcome
import ScriptAst.Proofs.Pairing.Production

/-! # Depths point at bindings

A depth is computed from the frames that are open where the name is met, but it is meant for the
finished tree, where the frames have become bodies.  What relates the two is the lists of names that
the open frames will have in the end: `Node.Bound bodies node` says that every depth below `node`
points at a binding, if the bodies around `node` declare the names `bodies`.

These lists are known only when the build is over, so everything is stated from the end: a step
whose last frames declare no more than `bodies` hands out nodes bound under `bodies`.  Frames only
grow (`dispatch_disciplined`), so the frames before the step declare no more than `bodies` either.
-/
namespace ScriptAst

/-! ## Enclosing bodies -/

/-- The body that a node of this kind is, if it is one. -/
def Kind.ownBody {α : Type} : Kind α → List (Body α)
  | sourceElements body => [body]
  | _ => []

/-- `node` is somewhere in the tree of `root`, inside of `bodies` from the innermost outwards. -/
inductive Node.Encloses (root : Node) : List (Body Node) → Node → Prop
  | root : Encloses root [] root
  | child {bodies : List (Body Node)} {node child : Node} :
      Encloses root bodies node → child ∈ node.children →
      Encloses root (node.kind.ownBody ++ bodies) child

namespace Node

variable {root node : Node}

theorem Encloses.mem_preorder {bodies : List (Body Node)} (h : root.Encloses bodies node) :
    node ∈ root.preorder := by
  induction h with
  | root => exact mem_preorder_self root
  | @child _ _ child _ hchild ih =>
    have hbelow := mem_preorder_iff.mpr (.inr ⟨child, hchild, mem_preorder_self child⟩)
    exact preorder_trans ih hbelow

/-- The nodes of a tree are those that it encloses. -/
theorem mem_preorder_iff_exists_encloses :
    node ∈ root.preorder ↔ ∃ bodies, root.Encloses bodies node := by
  refine ⟨fun h => ?_, fun ⟨_, h⟩ => h.mem_preorder⟩
  -- On the way down the part below varies, and the root stays.
  suffices hall : ∀ part, node ∈ part.preorder → ∀ bodies, root.Encloses bodies part →
      ∃ inner, root.Encloses inner node from hall root h [] .root
  intro part
  induction part using induction with
  | step pos kind ih =>
    intro hmem bodies hpart
    rcases mem_preorder_iff.mp hmem with rfl | ⟨child, hchild, hmem⟩
    · exact ⟨bodies, hpart⟩
    · exact ih child hchild hmem _ (hpart.child hchild)

end Node

/-- The tree under the bodies that declare the names `bodies`, innermost first, has depths that
point at bindings only. -/
inductive Node.Bound : List (List String) → Node → Prop
  | plain {bodies : List (List String)} {pos : Position} {kind : Kind Node} :
      kind.IsPlain → (∀ child ∈ kind.children, Bound bodies child) → Bound bodies ⟨pos, kind⟩
  | reference {bodies : List (List String)} {pos : Position} {depth : Nat} {name : String}
      {names : List String} : bodies[depth]? = some names → name ∈ names →
      Bound bodies ⟨pos, .variableIdentifier depth name⟩
  | sourceElements {bodies : List (List String)} {pos : Position} {body : Body Node} :
      (∀ child ∈ (Kind.sourceElements body).children, Bound (body.varNames :: bodies) child) →
      Bound bodies ⟨pos, .sourceElements body⟩

namespace Node.Bound

variable {bodies : List (List String)} {node : Node}

theorem child (h : node.Bound bodies) {child : Node} (hchild : child ∈ node.children) :
    child.Bound (node.kind.ownBody.map Body.varNames ++ bodies) := by
  cases h with
  | @plain bodies pos kind hplain hchildren =>
    have hown : kind.ownBody = [] := by cases kind <;> first | rfl | exact hplain.elim
    simp only [hown, List.map_nil, List.nil_append]
    exact hchildren child hchild
  | reference => exact nomatch hchild
  | sourceElements hchildren => exact hchildren child hchild

/-- What a bound tree encloses is bound under the bodies around it. -/
theorem of_encloses {root : Node} (h : root.Bound bodies) {inner : List (Body Node)}
    (hnode : root.Encloses inner node) : node.Bound (inner.map Body.varNames ++ bodies) := by
  induction hnode with
  | root => exact h
  | child _ hchild ih =>
    have := ih.child hchild
    rwa [← List.append_assoc, ← List.map_append] at this

end Node.Bound

/-! ## Frames and the names they will have -/

/-- The frames declare no names but those of the lists, frame by frame. -/
inductive Scopes.Covered : List (List String) → Scopes → Prop
  | nil : Covered [] []
  | cons {names : List String} {bodies : List (List String)} {frame : Frame} {outer : Scopes} :
      (∀ name ∈ frame.vars, name ∈ names) → Covered bodies outer →
      Covered (names :: bodies) (frame :: outer)

/-- The functions declared in the frames are bound, frame by frame. -/
inductive Scopes.FuncsBound : List (List String) → Scopes → Prop
  | nil : FuncsBound [] []
  | cons {names : List String} {bodies : List (List String)} {frame : Frame} {outer : Scopes} :
      (∀ entry ∈ frame.funcs, entry.2.Bound (names :: bodies)) → FuncsBound bodies outer →
      FuncsBound (names :: bodies) (frame :: outer)

/-- A depth, if there is one, that points at a binding of the name. -/
def BindingDepth (bodies : List (List String)) (name : String) (depth : Option Nat) : Prop :=
  ∀ k ∈ depth, ∃ names, bodies[k]? = some names ∧ name ∈ names

namespace Scopes

variable {bodies : List (List String)} {scopes : Scopes}

theorem Covered.getElem? (h : Covered bodies scopes) {k : Nat} {frame : Frame}
    (hk : scopes[k]? = some frame) : ∃ names, bodies[k]? = some names ∧ ∀ name ∈ frame.vars,
      name ∈ names := by
  induction h generalizing k with
  | nil => exact nomatch hk
  | @cons names _ _ _ hnames _ ih =>
    cases k with
    | zero =>
      cases hk
      exact ⟨names, rfl, hnames⟩
    | succ k => exact ih hk

theorem Covered.resolve (h : Covered bodies scopes) (name : String) :
    BindingDepth bodies name (scopes.resolve name) := by
  intro k hk
  obtain ⟨hfind, _⟩ := Option.filter_eq_some_iff.mp hk
  obtain ⟨hlt, hname, _⟩ := List.findIdx?_eq_some_iff_getElem.mp hfind
  obtain ⟨names, hnames, hsub⟩ := h.getElem? (List.getElem?_eq_getElem hlt)
  exact ⟨names, hnames, hsub name (by simpa using hname)⟩

theorem Covered.of_grows {after : Scopes} (h : Covered bodies after) (hg : scopes.Grows after) :
    Covered bodies scopes := by
  cases hg with
  | nil => exact h
  | cons hframe =>
    cases h with
    | cons hnames houter => exact .cons (fun name hn => hnames name (hframe.vars.subset hn)) houter

theorem FuncsBound.declareVar (h : FuncsBound bodies scopes) (name : String) :
    FuncsBound bodies (scopes.declareVar name).2 := by
  cases h with
  | nil => exact .nil
  | cons hfuncs houter => exact .cons hfuncs houter

theorem FuncsBound.declareFunc (h : FuncsBound bodies scopes) (name : String) {function : Node}
    (hfunction : function.Bound bodies) :
    FuncsBound bodies (scopes.declareFunc name function).2 := by
  cases h with
  | nil => exact .nil
  | cons hfuncs houter =>
    refine .cons (fun entry hentry => ?_) houter
    rcases mem_bindName hentry with rfl | hentry
    · exact hfunction
    · exact hfuncs entry hentry

end Scopes

/-! ## The pairing -/

/-- One build twice, with nodes bound under `bodies`. -/
def binding (bodies : List (List String)) : Pairing where
  rename := id
  place _ := True
  visited _ := True
  node a b := a = b ∧ a.Bound bodies
  depth name d d' := d = d' ∧ BindingDepth bodies name d
  body nodes frame nodes' frame' := nodes = nodes' ∧ frame = frame' ∧
    (∀ node ∈ nodes, node.Bound (frame.vars :: bodies)) ∧
    ∀ entry ∈ frame.funcs, entry.2.Bound (frame.vars :: bodies)
  error _ _ := True

@[simp] theorem binding_rename (bodies : List (List String)) : (binding bodies).rename = id := rfl

theorem binding_closed (bodies : List (List String)) (source : String) :
    (binding bodies).Closed source source where
  words := .id
  below _ _ := trivial
  reached _ _ := trivial
  labelled _ := ParseTree.labelled_id _
  make kind _ hplain _ := by
    have hsame : kind.map Paired.left = kind.map Paired.right :=
      Kind.map_congr kind fun pair _ => pair.related.1
    rw [binding_rename, ParseTree.rename_id, Kind.rename_id]
    refine ⟨by rw [hsame], .plain ?_ fun child hchild => ?_⟩
    · cases kind <;> first | exact trivial | exact hplain.elim
    · rw [Kind.children_map] at hchild
      obtain ⟨pair, _, rfl⟩ := List.mem_map.mp hchild
      exact pair.related.2
  reference {tree name d d'} _ hd := by
    obtain ⟨rfl, hd⟩ := hd
    rw [binding_rename, ParseTree.rename_id]
    cases d with
    | none => exact ⟨rfl, .plain trivial nofun⟩
    | some k =>
      obtain ⟨names, hk, hname⟩ := hd k rfl
      exact ⟨rfl, .reference hk hname⟩
  sourceElements _ hbody := by
    obtain ⟨rfl, rfl, hnodes, hfuncs⟩ := hbody
    rw [binding_rename, ParseTree.rename_id]
    refine ⟨rfl, .sourceElements fun child hchild => ?_⟩
    rcases List.mem_append.mp hchild with hchild | hchild
    · obtain ⟨entry, hentry, rfl⟩ := List.mem_map.mp hchild
      exact hfuncs entry hentry
    · exact hnodes child hchild
  emptyBody := ⟨rfl, rfl, nofun, nofun⟩
  view {a b} h := by
    obtain ⟨rfl, hbound⟩ := h
    simp only [binding_rename, View.rename_id]
    refine View.exists_paired fun part hpart => ⟨rfl, ?_⟩
    cases hbound with
    | plain _ hchildren => exact hchildren part (Kind.mem_of_mem_view hpart)
    | reference | sourceElements => exact nomatch hpart
  malformed _ _ _ _ := trivial
  malformedNode _ _ _ _ := trivial
  unwritable _ _ := trivial
  unwritableNode _ _ := trivial

/-! ## Runs -/

/-- An outcome that is good, and leaves bound functions, whenever the bodies in the end declare at
least what its frames do. -/
def Outcome.Binds {α : Type} (bodies : List (List String)) (good : α → Prop)
    (outcome : Outcome α) : Prop :=
  outcome.Satisfies
    (fun value scopes => scopes.Covered bodies → good value ∧ scopes.FuncsBound bodies)
    (fun _ => True)

theorem Outcome.Binds.andThen {α β : Type} {bodies : List (List String)} {good : α → Prop}
    {good' : β → Prop} {outcome : Outcome α} {next : α → Scopes → Outcome β}
    (h : outcome.Binds bodies good)
    (hnext : ∀ value scopes, (next value scopes).Disciplined scopes)
    (hgood : ∀ value scopes, good value → scopes.FuncsBound bodies →
      (next value scopes).Binds bodies good') : (outcome.andThen next).Binds bodies good' := by
  refine Satisfies.andThen h fun value scopes hvalue => ?_
  have hgrows := hnext value scopes
  generalize hout : next value scopes = out at hgrows
  obtain ⟨_ | result, after⟩ := out
  · trivial
  · intro hafter
    obtain ⟨hv, hfuncs⟩ := hvalue (hafter.of_grows hgrows)
    exact (hgood value scopes hv hfuncs).of_eq_ok hout hafter

/-- Visits that are good under any names the bodies may declare in the end. -/
def VisitsBind (visit : ParseTree → Scopes → Outcome (Option Node)) : Prop :=
  ∀ bodies tree scopes, scopes.FuncsBound bodies →
    (visit tree scopes).Binds bodies fun o => ∃ o', (binding bodies).Answer tree o o'

namespace Plan

variable {visit : ParseTree → Scopes → Outcome (Option Node)}
  (hdisciplined : ∀ tree scopes, (visit tree scopes).Disciplined scopes)
  (hvisit : VisitsBind visit)
include hdisciplined hvisit

theorem visitAll_binds {bodies : List (List String)} (trees : List ParseTree) {scopes : Scopes}
    (hfuncs : scopes.FuncsBound bodies) :
    (visitAll visit trees scopes).Binds bodies fun nodes => ∀ node ∈ nodes, node.Bound bodies := by
  induction trees generalizing scopes with
  | nil => exact fun _ => ⟨nofun, hfuncs⟩
  | cons tree trees ih =>
    refine (hvisit bodies tree scopes hfuncs).andThen (fun o scopes => ?_)
      fun o scopes ⟨o', ho⟩ hfuncs => ?_
    · exact (visitAll_disciplined hdisciplined trees scopes).andThen fun _ s => .refl s
    refine (ih hfuncs).andThen (fun _ s => .refl s) fun nodes scopes hnodes hfuncs => ?_
    refine fun _ => ⟨fun node hnode => ?_, hfuncs⟩
    rcases List.mem_append.mp hnode with hnode | hnode
    · obtain ⟨_, _, hbound⟩ := ho.left (Option.mem_toList.mp hnode)
      exact hbound
    · exact hnodes node hnode

/-- **A plan that keeps to the pairing hands out bound nodes.** -/
theorem run_binds {bodies : List (List String)} {α β : Type} {R : α → β → Prop} {plan : Plan α}
    {plan' : Plan β} (h : Agree (binding bodies) R plan plan') (resolving : Bool)
    {scopes : Scopes} (hfuncs : scopes.FuncsBound bodies) :
    (plan.run resolving visit scopes).Binds bodies fun a => ∃ b, R a b := by
  have hrun (rest : Plan α) (s : Scopes) : (rest.run resolving visit s).Disciplined s :=
    run_disciplined hdisciplined rest s
  induction h generalizing scopes with
  | done hab => exact fun _ => ⟨⟨_, hab⟩, hfuncs⟩
  | fail => trivial
  | visit _ _ _ ih =>
    refine (hvisit bodies _ scopes hfuncs).andThen (fun o s => hrun _ s) fun o s ho hfuncs => ?_
    obtain ⟨o', ho⟩ := ho
    exact ih o o' ho hfuncs
  | @lookup name next _ _ ih =>
    -- The depth is good only if the names in the end are, like the answer to a visit.
    have hdepth : Outcome.Binds bodies (BindingDepth bodies name)
        ⟨.ok (if resolving then scopes.resolve name else none), scopes⟩ := by
      refine fun hcovered => ⟨?_, hfuncs⟩
      split
      · exact hcovered.resolve name
      · exact nofun
    exact hdepth.andThen (fun d s => hrun (next d) s) fun d s hd hfuncs => ih d d ⟨rfl, hd⟩ hfuncs
  | declareVar _ ih => exact ih _ (hfuncs.declareVar _)
  | declareFunc pair _ _ _ ih => exact ih _ (hfuncs.declareFunc _ pair.related.2)
  | @body trees next _ _ _ ih =>
    rw [run]
    have hgrows := visitAll_disciplined hdisciplined trees scopes.push
    have hall (frame : Frame) : (visitAll visit trees scopes.push).Binds (frame.vars :: bodies) _ :=
      visitAll_binds hdisciplined hvisit trees (.cons (by simp [Frame.empty]) hfuncs)
    generalize visitAll visit trees scopes.push = all at hgrows hall
    obtain ⟨_ | nodes, after⟩ := all
    · trivial
    obtain ⟨frame, rfl⟩ := Scopes.Grows.of_push hgrows
    have hbody : Outcome.Binds bodies (fun body => (binding bodies).body body frame body frame)
        ⟨.ok nodes, scopes⟩ := by
      intro hcovered
      obtain ⟨hnodes, hfuncs⟩ := (hall frame).of_eq_ok rfl (.cons (fun _ h => h) hcovered)
      cases hfuncs with
      | cons hframe hfuncs => exact ⟨⟨rfl, rfl, hnodes, hframe⟩, hfuncs⟩
    exact hbody.andThen (fun body s => hrun (next body frame) s) fun body s hb hfuncs =>
      ih body frame body frame hb hfuncs

end Plan

theorem dispatch_binds (options : Options) (room : Nat) : VisitsBind (dispatch options room) := by
  induction room with
  | zero => intro bodies tree scopes _; rw [dispatch]; split <;> trivial
  | succ room ih =>
    intro bodies tree scopes hfuncs
    rw [dispatch]
    split
    · trivial
    · next symbol hsymbol =>
      have hagree :=
        Pairing.plan_agree (binding_closed bodies options.sourceName) trivial
          (ParseTree.labelled_id _) (fun _ _ => trivial) hsymbol
      exact Plan.run_binds (dispatch_disciplined options room) ih hagree _ hfuncs

/-- A whole build is bound under no bodies but its own. -/
theorem build_bound {options : Options} {tree : ParseTree} {root : Node}
    (h : build options tree = .ok root) : root.Bound [] := by
  obtain ⟨scopes, hdispatch⟩ := build_eq_ok_iff.mp h
  have hgrows := dispatch_disciplined options maxNesting tree []
  rw [hdispatch] at hgrows
  cases hgrows
  have hbinds := (dispatch_binds options maxNesting [] tree [] .nil).of_eq_ok hdispatch
  obtain ⟨⟨_, hanswer⟩, _⟩ := hbinds .nil
  obtain ⟨_, hroot⟩ := hanswer.left rfl
  exact hroot.2

/-- A function that uses a variable of the program around it: `var x; (function () x)`. -/
def closureSample : ParseTree :=
  .node "program" [.node "sourceelements" [
    .node "variablestatement" [.node "variabledeclarationlist" [
      .node "variabledeclaration" [.token "IDENTIFIERNAME" "x" ⟨4, 1, 4⟩]]],
    .node "expressionstatement" [.node "functionexpression" [
      .token "(" "(" ⟨17, 1, 17⟩, .token ")" ")" ⟨18, 1, 18⟩,
      .node "sourceelements" [
        .node "expressionstatement" [.token "IDENTIFIERNAME" "x" ⟨22, 1, 22⟩]],
      .token "\x7d" "\x7d" ⟨25, 1, 25⟩]]]]

/-- What is built of `closureSample`. -/
def closureNode : Node :=
  let declared : Position := ⟨1, 4, 5⟩
  let function : Position := ⟨1, 17, 18⟩
  let use : Position := ⟨1, 22, 23⟩
  ⟨declared, .program ⟨declared, .sourceElements ⟨["x"], [], [
    ⟨declared, .varStatement ⟨declared, .variableDeclList [
      ⟨declared, .variableDeclaration ⟨declared, .identifier "x"⟩ none⟩]⟩⟩,
    ⟨function, .exprStatement ⟨function, .functionStatement ⟨none, [], some
      ⟨use, .sourceElements ⟨[], [], [
        ⟨use, .exprStatement ⟨use, .variableIdentifier 1 "x"⟩⟩], ""⟩⟩⟩⟩⟩], ""⟩⟩⟩

/-- **Every depth points at a binding.**  Wherever a build puts a name with a depth, there are that
many bodies between it and one that declares the name. -/
theorem depth_points_at_binding {options : Options} {tree : ParseTree} {root : Node}
    (h : build options tree = .ok root) {bodies : List (Body Node)} {node : Node}
    (hnode : root.Encloses bodies node) {depth : Nat} {name : String}
    (hkind : node.kind = .variableIdentifier depth name) :
    ∃ body, bodies[depth]? = some body ∧ name ∈ body.varNames := by
  have hbound := (build_bound h).of_encloses hnode
  obtain ⟨pos, kind⟩ := node
  subst hkind
  rw [List.append_nil] at hbound
  cases hbound with
  | plain hplain => exact hplain.elim
  | reference hnames hname =>
    obtain ⟨body, hbody, rfl⟩ := List.getElem?_map .. ▸ hnames |> Option.map_eq_some_iff.mp
    exact ⟨body, hbody, hname⟩

theorem depth_points_at_binding_closure : ∃ bodies node,
    build ⟨"", true⟩ closureSample = .ok closureNode ∧ closureNode.Encloses bodies node ∧
      node.kind = .variableIdentifier 1 "x" ∧
      ∃ body, bodies[1]? = some body ∧ "x" ∈ body.varNames := by
  have hbuild : build ⟨"", true⟩ closureSample = .ok closureNode := rfl
  have hprogram : closureNode.Encloses [] closureNode := .root
  have hbody := hprogram.child (.head _)
  have hstatement := hbody.child (.tail _ (.head _))
  have hfunction := hstatement.child (.head _)
  have hinner := hfunction.child (.head _)
  have huse := (hinner.child (.head _)).child (.head _)
  exact ⟨_, _, hbuild, huse, rfl, depth_points_at_binding hbuild huse rfl⟩

end ScriptAst
