import ScriptAst.Proofs.Grammar.Contents
import ScriptAst.Proofs.Resolution

/-! # What a body declares

The names a body says it declares are collected in its frame, one declaration after the other, while
statements are built that open and close frames of their own.  They are meant for the finished tree:
the names of the declarations in the statements, without those in bodies further in
(`Node.declares`), each where it first comes.

Along the derivation of a build the variables of the innermost frame take in the names that the
built nodes declare (`Built.environment_eq`).  So the frame of a body ends up with those of its
statements, and this goes for every body below, those of declared functions included
(`Built.harvested`).
-/
namespace ScriptAst

/-! ## The declarations of a tree -/

namespace Kind

/-- The children that can be reached without going into a body. -/
def outerChildren {α : Type} : Kind α → List α
  | sourceElements _ => []
  | kind => kind.children

theorem outerChildren_map {α β : Type} (f : α → β) (kind : Kind α) :
    (kind.map f).outerChildren = kind.outerChildren.map f := by
  have hchildren := children_map f kind
  cases kind <;> first | exact hchildren | rfl

/-- The name that a node of this kind declares as a variable. -/
def declaredName? : Kind Node → Option String
  | variableDeclaration target _ => target.literalName?
  | _ => none

end Kind

namespace Node

/-- The nodes of the tree in preorder, without those in bodies. -/
def outer (node : Node) : List Node :=
  node.para fun pos kind => ⟨pos, kind.map Prod.fst⟩ :: kind.outerChildren.flatMap Prod.snd

theorem outer_mk (pos : Position) (kind : Kind Node) :
    outer ⟨pos, kind⟩ = ⟨pos, kind⟩ :: kind.outerChildren.flatMap outer := by
  rw [outer, para_mk]
  simp only [Kind.map_map, Kind.map_id', Kind.outerChildren_map, List.flatMap_map]
  rfl

/-- The names of the variables declared in the tree, outside of the bodies in it. -/
def declares (node : Node) : List String := node.outer.filterMap fun n => n.kind.declaredName?

theorem declares_mk (pos : Position) (kind : Kind Node) :
    declares ⟨pos, kind⟩ =
      kind.declaredName?.toList ++ kind.outerChildren.flatMap declares := by
  rw [declares, outer_mk, List.filterMap_cons, List.filterMap_flatMap]
  cases kind.declaredName? <;> rfl

/-- What is declared in a body is declared there and not around it. -/
theorem declares_body {node : Node} (h : node.kind.IsBody) : node.declares = [] := by
  obtain ⟨pos, kind⟩ := node
  cases kind with
  | sourceElements => rw [declares_mk]; rfl
  | _ => exact h.elim

end Node

/-- Where texts read as nothing, only the children count. -/
theorem Kind.flatMap_contents {α : Type} (kind : Kind Node) (node : Node → List α) :
    kind.contents.flatMap (Item.read node fun _ => []) = kind.children.flatMap node := by
  have htexts (texts : List String) :
      (texts.map Item.text).flatMap (Item.read node fun _ => []) = [] := by
    rw [LeftToRight.flatMap_texts, List.flatMap_eq_nil_iff]
    exact fun _ _ => rfl
  cases kind with
  | sourceElements => exact LeftToRight.flatMap_nodes _
  | _ => simp [contents, children, Item.read, htexts, LeftToRight.flatMap_nodes]

theorem declares_leftToRight : LeftToRight Node.declares fun _ => [] where
  contents {pos kind} hkind := by
    rw [Kind.flatMap_contents, Node.declares_mk]
    cases kind <;> first | rfl | exact False.elim hkind
  emptyBody := Node.declares_body trivial

/-! ## The names of a frame -/

theorem eraseDups_concat (names : List String) (name : String) :
    (names ++ [name]).eraseDups = addName name names.eraseDups := by
  rw [List.eraseDups_append, addName]
  by_cases hknown : name ∈ names <;> simp [hknown, List.removeAll, List.eraseDups_cons]

/-- Names added one after the other are each there once. -/
theorem foldl_addName (names known : List String) :
    names.foldl (fun known name => addName name known) known.eraseDups =
      (known ++ names).eraseDups := by
  induction names generalizing known with
  | nil => rw [List.append_nil]; rfl
  | cons name names ih =>
    rw [List.foldl_cons, ← eraseDups_concat, ih, List.append_assoc]
    rfl

namespace Environment

/-- Adds names to the innermost list, one after the other. -/
def declareAll (names : List String) (env : Environment) : Environment :=
  names.foldl (fun env name => env.declare name) env

theorem declareAll_append (names more : List String) (env : Environment) :
    env.declareAll (names ++ more) = (env.declareAll names).declareAll more :=
  List.foldl_append

/-- The innermost list takes in the names, the others stay. -/
theorem declareAll_cons (names known : List String) (outer : Environment) :
    declareAll names (known :: outer) =
      names.foldl (fun known name => addName name known) known :: outer := by
  induction names generalizing known with
  | nil => rfl
  | cons name names ih => exact ih _

end Environment

/-- The names declared by the nodes among the items. -/
def declaredBy (items : List Item) : List String :=
  items.flatMap (Item.read Node.declares fun _ => [])

/-- **The innermost frame takes in what the built nodes declare**, and no other frame anything. -/
theorem Built.environment_eq {table : Table} {options : Options} {parts : List Part}
    {before after : Scopes} {items : List Item} (h : Built table options parts before items after) :
    after.environment = before.environment.declareAll (declaredBy items) := by
  have single (node : Node) : declaredBy [.node node] = node.declares := List.append_nil _
  induction h with
  | nil | label => rfl
  | cons _ _ ih ihRest =>
    rw [ihRest, ih, ← Environment.declareAll_append, declaredBy, declaredBy, declaredBy,
      List.flatMap_append]
  | @reference _ scopes word =>
    rw [single, declares_leftToRight.reference (word.literalName?_node options scopes)]
    rfl
  | @literal _ _ _ _ kind _ hliteral =>
    have hkind := (Symbol.isLiteral_of_literal? hliteral).2
    rw [single, Node.declares_mk]
    cases kind <;> first | rfl | exact False.elim hkind
  | made _ _ _ hmade ih => rw [ih, single, hmade.read_eq declares_leftToRight, declaredBy]
  | @declaration _ _ name init before _ initNode _ _ ih =>
    have hname := name.literalName?_node options before
    have hinit : declaredBy (initNode.toList.map .node) = initNode.toList.flatMap Node.declares :=
      LeftToRight.flatMap_nodes _
    have hdeclares : Node.declares ⟨name.tree.position,
        .variableDeclaration (name.node options before) initNode⟩ =
          name.text :: initNode.toList.flatMap Node.declares := by
      rw [Node.declares_mk]
      show (name.node options before).literalName?.toList ++
        (name.node options before :: initNode.toList).flatMap Node.declares = _
      rw [hname, List.flatMap_cons, declares_leftToRight.reference hname]
      rfl
    rw [ih, Scopes.environment_declareVar, single, hdeclares, hinit]
    rfl
  | body =>
    rw [single, Node.declares_mk]
    rfl
  | @functionDeclaration _ _ _ before after items name params body pos _ _ hmade hbody ih =>
    -- All that a function declares it declares in its body.
    have hnone : declaredBy items = [] := by
      rw [declaredBy, ← hmade.read_eq declares_leftToRight, Node.declares_mk]
      show [] ++ body.toList.flatMap Node.declares = []
      rw [List.nil_append, List.flatMap_eq_nil_iff]
      exact fun node hnode => Node.declares_body (hbody node (Option.mem_toList.mp hnode))
    rw [hnone] at ih
    cases after <;> exact ih

/-! ## The bodies of a tree -/

/-- Every body in the tree says that it declares what its statements declare. -/
def Node.Harvested (root : Node) : Prop :=
  ∀ node ∈ root.preorder, ∀ body, node.kind = .sourceElements body →
    body.varNames = (body.statements.flatMap declares).eraseDups

/-- What is put together from nodes with such bodies has such bodies. -/
theorem Made.harvested {source : String} {items : List Item} {root : Node}
    (hmade : Made source items root) (h : ∀ node, .node node ∈ items → node.Harvested) :
    root.Harvested := by
  intro node hnode body hbody
  obtain ⟨bodies, hencloses⟩ := Node.mem_preorder_iff_exists_encloses.mp hnode
  have hspecial : ¬ node.kind.IsPlain := by
    rw [hbody]
    exact id
  rcases hmade.encloses hencloses hspecial with ⟨part, hpart, hencloses⟩ | hempty
  · exact h part hpart node hencloses.mem_preorder body hbody
  · cases hbody.symm.trans hempty
    rfl

/-- A node that is no body is as its children are. -/
theorem Node.Harvested.of_children {root : Node} (hroot : ¬ root.kind.IsBody)
    (h : ∀ child ∈ root.children, child.Harvested) : root.Harvested := by
  intro node hnode body hbody
  rcases Node.mem_preorder_iff.mp hnode with rfl | ⟨child, hchild, hnode⟩
  · rw [hbody] at hroot
    exact absurd trivial hroot
  · exact h child hchild node hnode body hbody

theorem Node.Harvested.of_leaf {root : Node} (hroot : ¬ root.kind.IsBody)
    (h : root.children = []) : root.Harvested :=
  .of_children hroot fun child hchild => by
    rw [h] at hchild
    exact nomatch hchild

theorem Node.Harvested.of_word (options : Options) (scopes : Scopes) (word : Word) :
    (word.node options scopes).Harvested := by
  unfold Word.node
  cases scopes.distance options word.text <;> exact .of_leaf id rfl

/-- The functions declared in the frames have such bodies. -/
def Scopes.Harvested (scopes : Scopes) : Prop :=
  ∀ frame ∈ scopes, ∀ entry ∈ frame.funcs, entry.2.Harvested

theorem Scopes.Harvested.declareVar {scopes : Scopes} (h : scopes.Harvested) (name : String) :
    Harvested (scopes.declareVar name).2 := by
  cases scopes with
  | nil => exact h
  | cons frame outer =>
    obtain ⟨hframe, houter⟩ := List.forall_mem_cons.mp h
    exact List.forall_mem_cons.mpr ⟨hframe, houter⟩

theorem Scopes.Harvested.declareFunc {scopes : Scopes} (h : scopes.Harvested) (name : String)
    {function : Node} (hfunction : function.Harvested) :
    Harvested (scopes.declareFunc name function).2 := by
  cases scopes with
  | nil => exact h
  | cons frame outer =>
    obtain ⟨hframe, houter⟩ := List.forall_mem_cons.mp h
    refine List.forall_mem_cons.mpr ⟨fun entry hentry => ?_, houter⟩
    rcases mem_bindName hentry with rfl | hentry
    · exact hfunction
    · exact hframe entry hentry

/-- **All bodies that are built declare what their statements declare.** -/
theorem Built.harvested {table : Table} {options : Options} {parts : List Part}
    {before after : Scopes} {items : List Item} (h : Built table options parts before items after)
    (hbefore : before.Harvested) :
    (∀ node, .node node ∈ items → node.Harvested) ∧ after.Harvested := by
  induction h with
  | nil => exact ⟨nofun, hbefore⟩
  | label => exact ⟨fun n hn => absurd (List.mem_singleton.mp hn) nofun, hbefore⟩
  | cons _ _ ih ihRest =>
    obtain ⟨hitems, hbetween⟩ := ih hbefore
    obtain ⟨hrest, hafter⟩ := ihRest hbetween
    exact ⟨fun n hn => (List.mem_append.mp hn).elim (hitems n) (hrest n), hafter⟩
  | reference word => exact ⟨Item.forall_mem_singleton (.of_word _ _ word), hbefore⟩
  | @literal _ _ _ _ kind _ hliteral =>
    have hkind := (Symbol.isLiteral_of_literal? hliteral).2
    refine ⟨Item.forall_mem_singleton ?_, hbefore⟩
    cases kind <;> first | exact .of_leaf id rfl | exact False.elim hkind
  | made _ _ _ hmade ih =>
    obtain ⟨hitems, hafter⟩ := ih hbefore
    exact ⟨Item.forall_mem_singleton (hmade.harvested hitems), hafter⟩
  | declaration name _ _ ih =>
    obtain ⟨hinit, hafter⟩ := ih (hbefore.declareVar _)
    refine ⟨Item.forall_mem_singleton (.of_children id fun child hchild => ?_), hafter⟩
    rcases List.mem_cons.mp hchild with rfl | hchild
    · exact .of_word _ _ name
    · exact hinit child (List.mem_map_of_mem hchild)
  | @body _ _ scopes frame statements hbuilt ih =>
    obtain ⟨hstatements, hafter⟩ := ih (List.forall_mem_cons.mpr ⟨nofun, hbefore⟩)
    obtain ⟨hfuncs, _⟩ := List.forall_mem_cons.mp hafter
    refine ⟨Item.forall_mem_singleton ?_, hbefore⟩
    intro node hnode body hbody
    rcases Node.mem_preorder_iff.mp hnode with rfl | ⟨child, hchild, hnode⟩
    · cases hbody
      have hvars := hbuilt.environment_eq
      have hdeclared : declaredBy (statements.map .node) = statements.flatMap Node.declares :=
        LeftToRight.flatMap_nodes _
      have hpush : scopes.push.environment = [] :: scopes.environment := rfl
      rw [hdeclared, hpush, Environment.declareAll_cons] at hvars
      exact (List.cons.inj hvars).1.trans (foldl_addName _ [])
    · rcases List.mem_append.mp hchild with hchild | hchild
      · obtain ⟨entry, hentry, rfl⟩ := List.mem_map.mp hchild
        exact hfuncs entry hentry node hnode body hbody
      · exact hstatements child (List.mem_map_of_mem hchild) node hnode body hbody
  | functionDeclaration _ _ hmade _ ih =>
    obtain ⟨hitems, hafter⟩ := ih hbefore
    exact ⟨nofun, hafter.declareFunc _ (hmade.harvested hitems)⟩

/-- **The harvest of declarations is exact.**  Whatever conforming tree is built, every body in the
result lists the variables that the declarations among its statements name, in the order of the
source and each once; those in bodies around it or inside it are not among them. -/
theorem declared_names_exact {slot : Slot} {tree : ParseTree}
    (h : Conforms (.unreserved True True) slot tree) {options : Options} {root : Node}
    (hbuild : build options tree = .ok root) {node : Node} (hnode : node ∈ root.preorder)
    {body : Body Node} (hbody : node.kind = .sourceElements body) :
    body.varNames = (body.statements.flatMap Node.declares).eraseDups := by
  obtain ⟨_, after, hbuilt⟩ := h.built_of_ok (Dialect.unreserved_supported ..) hbuild
  obtain ⟨hitems, _⟩ := hbuilt.harvested nofun
  exact hitems root (.head _) node hnode body hbody

/-- The program declares `x`, and the function in it nothing. -/
theorem declared_names_exact_closure :
    Conforms (.unreserved True True) .program closureSample ∧
      build ⟨"", true⟩ closureSample = .ok closureNode ∧
      ∃ outer ∈ closureNode.preorder, ∃ inner ∈ closureNode.preorder, ∃ body innerBody,
        outer.kind = .sourceElements body ∧ body.varNames = ["x"] ∧
        body.varNames = (body.statements.flatMap Node.declares).eraseDups ∧
        inner.kind = .sourceElements innerBody ∧ innerBody.varNames = [] ∧
        innerBody.varNames = (innerBody.statements.flatMap Node.declares).eraseDups := by
  have hconforms : Conforms (.unreserved True True) .program closureSample :=
    closureSample_conforms (show "x" ∉ reservedTexts by decide)
  have hbuild : build ⟨"", true⟩ closureSample = .ok closureNode := rfl
  have hprogram : closureNode.Encloses [] closureNode := .root
  have houter := hprogram.child (.head _)
  have hinner := ((houter.child (.tail _ (.head _))).child (.head _)).child (.head _)
  exact ⟨hconforms, hbuild, _, houter.mem_preorder, _, hinner.mem_preorder, _, _, rfl, rfl,
    declared_names_exact hconforms hbuild houter.mem_preorder rfl, rfl, rfl,
    declared_names_exact hconforms hbuild hinner.mem_preorder rfl⟩

end ScriptAst
