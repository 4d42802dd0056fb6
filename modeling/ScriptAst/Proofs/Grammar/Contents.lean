import ScriptAst.Proofs.Binding
import ScriptAst.Proofs.Grammar.Derivation

/-! # Looking into what was put together

A production puts a node together from items (`Made`): it wraps nodes, takes a member apart to write
to it, drops the nodes for the names of a function.  Two ways to look at the node see only the items
through all of this.

A reading from left to right (`LeftToRight`) makes a list out of a tree, for a node the lists for
its contents one after the other; the list for a node is then that of its items (`Made.read_eq`).
What is special about a node further down, a depth or a body, is found below one of the items, and
under the same bodies (`Made.encloses`).
-/
namespace ScriptAst

/-! ## Readings from left to right -/

namespace Kind

/-- A kind that is read by reading what it contains: no number or string, and nothing that
declares. -/
def IsTransparent : Kind Node → Prop
  | int _ | float _ | string _ | variableDeclaration _ _ | sourceElements _ => False
  | _ => True

theorem IsInner.isTransparent {kind : Kind Node} (h : kind.IsInner) : kind.IsTransparent := by
  cases kind <;> first | exact trivial | exact False.elim h

end Kind

variable {α : Type} {node : Node → List α} {text : String → List α}

/-- What is read off an item. -/
def Item.read (node : Node → List α) (text : String → List α) : Item → List α
  | .node n => node n
  | .text t => text t

/-- What is read off a tree is read off its contents in turn, down to what declares. -/
structure LeftToRight (node : Node → List α) (text : String → List α) : Prop where
  contents {pos : Position} {kind : Kind Node} : kind.IsTransparent →
    node ⟨pos, kind⟩ = kind.contents.flatMap (Item.read node text)
  emptyBody {pos : Position} {source : String} :
    node ⟨pos, .sourceElements ⟨[], [], [], source⟩⟩ = []

namespace LeftToRight

theorem flatMap_nodes (nodes : List Node) :
    (nodes.map Item.node).flatMap (Item.read node text) = nodes.flatMap node :=
  List.flatMap_map ..

theorem flatMap_texts (texts : List String) :
    (texts.map Item.text).flatMap (Item.read node text) = texts.flatMap text :=
  List.flatMap_map ..

/-- A reference reads as its name. -/
theorem reference (h : LeftToRight node text) {n : Node} {name : String}
    (hname : n.literalName? = some name) : node n = text name := by
  obtain ⟨pos, kind⟩ := n
  have hkind : kind.IsTransparent ∧ kind.contents = [.text name] := by
    cases kind with
    | identifier | variableIdentifier =>
      cases hname
      exact ⟨trivial, rfl⟩
    | _ => exact nomatch hname
  rw [h.contents hkind.1, hkind.2]
  exact List.append_nil _

/-- A list of references reads as the names. -/
theorem lists (h : LeftToRight node text) {n : Node} {names : List String}
    (hnames : n.Lists names) : node n = names.flatMap text := by
  obtain ⟨pos, kind⟩ := n
  obtain ⟨nodes, rfl, hnodes⟩ := hnames
  have hcontents : (Kind.argumentList nodes).contents = nodes.map .node := rfl
  refine Eq.trans (h.contents trivial) ?_
  rw [hcontents, flatMap_nodes]
  clear hcontents
  induction nodes generalizing names with
  | nil =>
    cases names with
    | nil => rfl
    | cons => exact nomatch hnodes
  | cons first nodes ih =>
    cases names with
    | nil => exact nomatch hnodes
    | cons name names =>
      obtain ⟨hfirst, hrest⟩ := List.cons.inj hnodes
      rw [List.flatMap_cons, List.flatMap_cons, h.reference hfirst, ih hrest]

/-- A write reads like its target and its value. -/
theorem write (h : LeftToRight node text) {pos : Position} {target result : Node} {op : AssignOp}
    {value : Option Node} {side : Option Side} (hside : side.isSome → value = none)
    (hwrite : Node.write pos target op value side = .ok result) :
    node result = (.node target :: value.toList.map .node).flatMap (Item.read node text) := by
  obtain ⟨targetPos, kind⟩ := target
  have htarget (hkind : kind.IsTransparent) : node ⟨targetPos, kind⟩ = _ := h.contents hkind
  have hother (hupdate : (if side.isSome then .ok ⟨pos, .simpleIncrement ⟨targetPos, kind⟩ op⟩
      else .error (BuildError.invalidTarget pos .notAssignable)) = Except.ok result) :
      node result =
        (Item.node ⟨targetPos, kind⟩ :: value.toList.map .node).flatMap (Item.read node text) := by
    split at hupdate
    · next hsome =>
      cases hupdate
      cases hside hsome
      exact h.contents trivial
    · exact nomatch hupdate
  cases kind with
  | identifier | variableIdentifier =>
    cases hwrite
    refine Eq.trans (h.contents trivial) ?_
    simp [Kind.contents, Kind.children]
  | member | memberDot =>
    -- The member is gone, and what it contained is left in its place.
    cases hwrite
    refine Eq.trans (h.contents trivial) ?_
    rw [List.flatMap_cons, Item.read, htarget trivial]
    simp [Kind.contents, Kind.children]
  | _ => exact hother hwrite

end LeftToRight

/-- **A node reads like the items it is put together from.** -/
theorem Made.read_eq (h : LeftToRight node text) {source : String} {items : List Item} {root : Node}
    (hmade : Made source items root) : node root = items.flatMap (Item.read node text) := by
  induction hmade with
  | self root => exact (List.append_nil _).symm
  | inner kind hinner => exact h.contents hinner.isTransparent
  | fill before _ _ ih ihChild =>
    rw [ih, List.flatMap_append, List.flatMap_cons, List.flatMap_append, List.flatMap_append,
      ← ihChild]
    rfl
  | write hside hwrite => exact h.write hside hwrite
  | @function _ name params body hname hparams =>
    have hnames : ((name.map Prod.fst).toList.map Item.node).flatMap (Item.read node text) =
        (name.map Prod.snd).toList.flatMap text := by
      cases name with
      | none => rfl
      | some name =>
        simp only [Option.map_some, Option.toList_some, List.map_cons, List.map_nil,
          List.flatMap_singleton]
        exact h.reference (hname name rfl)
    have hlists : ((params.map Prod.fst).toList.map Item.node).flatMap (Item.read node text) =
        ((params.map Prod.snd).getD []).flatMap text := by
      cases params with
      | none => rfl
      | some params =>
        simp only [Option.map_some, Option.toList_some, List.map_cons, List.map_nil,
          List.flatMap_singleton, Option.getD_some]
        exact h.lists (hparams params rfl)
    refine Eq.trans (h.contents trivial) ?_
    simp only [Kind.contents, List.flatMap_append]
    rw [hnames, hlists, LeftToRight.flatMap_texts, LeftToRight.flatMap_texts]
  | forIn htarget =>
    refine Eq.trans (h.contents trivial) ?_
    show List.flatMap _ [_, _, _] = _
    rw [List.flatMap_cons, List.flatMap_cons]
    exact congrArg (· ++ _) (h.reference htarget).symm
  | namedProperty =>
    refine Eq.trans (h.contents trivial) ?_
    show List.flatMap _ [_, _] = _
    rw [List.flatMap_cons, List.flatMap_cons]
    exact congrArg (· ++ _) (h.reference rfl)
  | emptyBody => exact h.emptyBody

/-! ## What the items enclose -/

/-- What holds of a node holds of all nodes in the list of it alone. -/
theorem Item.forall_mem_singleton {p : Node → Prop} {n : Node} (h : p n) :
    ∀ m, .node m ∈ [Item.node n] → p m := by
  intro m hm
  cases List.mem_singleton.mp hm
  exact h

theorem Kind.node_mem_contents {kind : Kind Node} {child : Node} (h : child ∈ kind.children) :
    .node child ∈ kind.contents := by
  cases kind <;> simp_all [children, contents]

namespace Node.Encloses

variable {root node child : Node} {bodies inner : List (Body Node)}

/-- What a child encloses is inside of the node, and of its body if it is one. -/
theorem of_child (h : child.Encloses inner node) (hchild : child ∈ root.children) :
    root.Encloses (inner ++ root.kind.ownBody) node := by
  induction h with
  | root =>
    rw [List.nil_append, ← List.append_nil root.kind.ownBody]
    exact Encloses.root.child hchild
  | child _ hnext ih =>
    rw [List.append_assoc]
    exact ih.child hnext

/-- Inside of a tree are its root and what the children enclose. -/
theorem root_or_child (h : root.Encloses bodies node) :
    (bodies = [] ∧ node = root) ∨
      ∃ child ∈ root.children, ∃ inner, child.Encloses inner node ∧
        bodies = inner ++ root.kind.ownBody := by
  induction h with
  | root => exact .inl ⟨rfl, rfl⟩
  | @child bodies node next _ hnext ih =>
    right
    rcases ih with ⟨rfl, rfl⟩ | ⟨child, hchild, inner, hinner, rfl⟩
    · exact ⟨next, hnext, [], .root, List.append_nil _⟩
    · exact ⟨child, hchild, _, hinner.child hnext, (List.append_assoc ..).symm⟩

/-- Below a node that is no body, special nodes are enclosed by its children. -/
theorem of_plain (h : root.Encloses bodies node) (hroot : root.kind.IsPlain)
    (hnode : ¬ node.kind.IsPlain) : ∃ child ∈ root.children, child.Encloses bodies node := by
  have hown : root.kind.ownBody = [] := by
    generalize root.kind = kind at hroot
    cases kind <;> first | rfl | exact hroot.elim
  rcases h.root_or_child with ⟨_, rfl⟩ | ⟨child, hchild, inner, hinner, rfl⟩
  · exact absurd hroot hnode
  · exact ⟨child, hchild, by rwa [hown, List.append_nil]⟩

end Node.Encloses

/-- A write is over its target and its value, or in place of the target over its parts. -/
theorem Node.write_children {pos : Position} {target root : Node} {op : AssignOp}
    {value : Option Node} {side : Option Side}
    (hwrite : Node.write pos target op value side = .ok root) :
    root.kind.IsPlain ∧ ∀ child ∈ root.children, child = target ∨ child ∈ value.toList ∨
      (child ∈ target.children ∧ target.kind.ownBody = []) := by
  obtain ⟨targetPos, kind⟩ := target
  have hother (hupdate : (if side.isSome then .ok ⟨pos, .simpleIncrement ⟨targetPos, kind⟩ op⟩
      else .error (BuildError.invalidTarget pos .notAssignable)) = Except.ok root) :
      root.kind.IsPlain ∧ ∀ child ∈ root.children, child = ⟨targetPos, kind⟩ ∨
        child ∈ value.toList ∨ (child ∈ kind.children ∧ kind.ownBody = []) := by
    split at hupdate
    · cases hupdate
      exact ⟨trivial, fun child hchild => .inl (List.mem_singleton.mp hchild)⟩
    · exact nomatch hupdate
  cases kind with
  | identifier | variableIdentifier =>
    cases hwrite
    exact ⟨trivial, fun child hchild => (List.mem_cons.mp hchild).imp_right .inl⟩
  | member | memberDot =>
    cases hwrite
    refine ⟨trivial, fun child hchild => .inr ?_⟩
    simp_all [children, Kind.children, Kind.ownBody]
    grind
  | _ => exact hother hwrite

/-- **Depths and bodies come from the items**, apart from the body that is put where there is
none. -/
theorem Made.encloses {source : String} {items : List Item} {root node : Node}
    {bodies : List (Body Node)} (hmade : Made source items root)
    (h : root.Encloses bodies node) (hnode : ¬ node.kind.IsPlain) :
    (∃ part, .node part ∈ items ∧ part.Encloses bodies node) ∨
      node.kind = .sourceElements ⟨[], [], [], source⟩ := by
  induction hmade generalizing bodies node with
  | self root => exact .inl ⟨root, List.mem_singleton_self _, h⟩
  | inner kind hinner =>
    have hplain : kind.IsPlain := by cases kind <;> first | exact trivial | exact hinner.elim
    obtain ⟨child, hchild, h⟩ := h.of_plain hplain hnode
    exact .inl ⟨child, Kind.node_mem_contents hchild, h⟩
  | @fill before inner behind child root _ _ ih ihChild =>
    rcases ih h hnode with ⟨part, hpart, h⟩ | hempty
    · simp only [List.mem_append, List.mem_cons, Item.node.injEq] at hpart
      rcases hpart with hpart | rfl | hpart
      · exact .inl ⟨part, List.mem_append_left _ hpart, h⟩
      · refine (ihChild h hnode).imp_left fun ⟨part, hpart, h⟩ => ⟨part, ?_, h⟩
        exact List.mem_append_right _ (List.mem_append_left _ hpart)
      · exact .inl ⟨part, List.mem_append_right _ (List.mem_append_right _ hpart), h⟩
    · exact .inr hempty
  | @write _ target _ _ _ _ _ hwrite =>
    obtain ⟨hplain, hchildren⟩ := Node.write_children hwrite
    obtain ⟨child, hchild, h⟩ := h.of_plain hplain hnode
    rcases hchildren child hchild with rfl | hchild | ⟨hchild, hown⟩
    · exact .inl ⟨child, .head _, h⟩
    · exact .inl ⟨child, .tail _ (List.mem_map_of_mem hchild), h⟩
    · -- What was a part of the target is enclosed by the target.
      have htarget := h.of_child hchild
      rw [hown, List.append_nil] at htarget
      exact .inl ⟨target, .head _, htarget⟩
  | function =>
    obtain ⟨child, hchild, h⟩ := h.of_plain trivial hnode
    refine .inl ⟨child, ?_, h⟩
    exact List.mem_append_right _ (List.mem_append_right _ (List.mem_map_of_mem hchild))
  | forIn =>
    obtain ⟨child, hchild, h⟩ := h.of_plain trivial hnode
    exact .inl ⟨child, .tail _ (List.mem_map_of_mem (f := Item.node) hchild), h⟩
  | @namedProperty _ _ name value =>
    obtain ⟨child, hchild, h⟩ := h.of_plain trivial hnode
    rcases List.mem_cons.mp hchild with rfl | hchild
    · -- The key is a name without a depth.
      obtain ⟨_, hbelow, _⟩ := h.of_plain trivial hnode
      exact nomatch hbelow
    · cases List.mem_singleton.mp hchild
      exact .inl ⟨_, .tail _ (.head _), h⟩
  | emptyBody =>
    rcases h.root_or_child with ⟨_, rfl⟩ | ⟨child, hchild, _⟩
    · exact .inr rfl
    · exact nomatch hchild

end ScriptAst
