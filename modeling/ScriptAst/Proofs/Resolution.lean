import ScriptAst.Proofs.Grammar.Acceptance
import ScriptAst.Proofs.Options

/-! # Resolution as a pass of its own

`Node.resolve` resolves the names of a finished tree.  It walks the tree in the order of its
children with a stack of lists of names, one for each body around: a body opens a list and closes it
again, a declaration of a variable adds its name between its target and its value, and a name gets
the distance to the nearest list that has it.

For a conforming tree without declared functions the build with resolution is the build without
and then this pass (`single_pass_resolution`).  Along the derivation of the build, walking the
unresolved nodes from the variables of the frames before yields the nodes themselves and the
variables of the frames after (`Built.walks`).
-/
namespace ScriptAst

/-! ## The pass -/

/-- The kind with `f` done for every child, in the order of the children. -/
def Kind.traverse {m : Type → Type} [Monad m] {α β : Type} (f : α → m β) : Kind α → m (Kind β)
  | int value => return int value
  | float value => return float value
  | string value => return string value
  | boolean value => return boolean value
  | null => return null
  | identifier name => return identifier name
  | variableIdentifier depth name => return variableIdentifier depth name
  | thisValue => return thisValue
  | binary op left right => return binary op (← f left) (← f right)
  | unary op operand => return unary op (← f operand)
  | member object index => return member (← f object) (← f index)
  | memberDot object name => return memberDot (← f object) name
  | call callee arguments => return call (← f callee) (← f arguments)
  | new callee => return new (← f callee)
  | newWithArgs callee arguments => return newWithArgs (← f callee) (← f arguments)
  | array items => return array (← items.mapM f)
  | objectInit items => return objectInit (← items.mapM f)
  | propertyInit key value => return propertyInit (← f key) (← f value)
  | argumentList items => return argumentList (← items.mapM f)
  | variableDeclList items => return variableDeclList (← items.mapM f)
  | simpleAssignment target value op side =>
    return simpleAssignment (← f target) (← value.mapM f) op side
  | memberAssignment object index value op side =>
    return memberAssignment (← f object) (← f index) (← value.mapM f) op side
  | memberDotAssignment object name value op side =>
    return memberDotAssignment (← f object) name (← value.mapM f) op side
  | simpleIncrement target op => return simpleIncrement (← f target) op
  | program body => return program (← f body)
  | sourceElements body => do
    let funcDecls ← body.funcDecls.mapM fun (name, decl) => return (name, ← f decl)
    return sourceElements ⟨body.varNames, funcDecls, ← body.statements.mapM f, body.sourceName⟩
  | block statements => return block (← statements.mapM f)
  | conditional condition thenBranch elseBranch =>
    return conditional (← f condition) (← f thenBranch) (← elseBranch.mapM f)
  | whileLoop condition body => return whileLoop (← f condition) (← f body)
  | doLoop body condition => return doLoop (← f body) (← f condition)
  | forLoop init condition update body =>
    return forLoop (← init.mapM f) (← f condition) (← update.mapM f) (← f body)
  | forIn name iterable body => return forIn name (← f iterable) (← f body)
  | forVarIn target iterable body => return forVarIn (← f target) (← f iterable) (← f body)
  | variableDeclaration target init => return variableDeclaration (← f target) (← init.mapM f)
  | varStatement list => return varStatement (← f list)
  | exprStatement expression => return exprStatement (← f expression)
  | returnStatement value => return returnStatement (← value.mapM f)
  | breakStatement label => return breakStatement label
  | continueStatement label => return continueStatement label
  | throwStatement value => return throwStatement (← f value)
  | tryStatement body catchParam catchBlock finallyBlock =>
    return tryStatement (← f body) (← catchParam.mapM f) (← catchBlock.mapM f)
      (← finallyBlock.mapM f)
  | withStatement object body => return withStatement (← f object) (← f body)
  | empty => return empty
  | functionStatement function =>
    return functionStatement ⟨function.name, function.params, ← function.body.mapM f⟩

/-- The names declared so far in the bodies around, innermost first. -/
abbrev Environment := List (List String)

/-- A walk over a tree that resolves its names. -/
abbrev Walk := StateM Environment

namespace Environment

/-- Adds a name to the innermost list. -/
def declare (name : String) : Environment → Environment
  | [] => []
  | names :: outer => addName name names :: outer

/-- The distance to the nearest list that has the name. -/
def distance (name : String) (env : Environment) : Option Nat :=
  env.findIdx? fun names => name ∈ names

end Environment

/-- The walk over a node of the kind, given its children and the walks over them.  A name that is
the key of a property is left as it is. -/
def Kind.resolved : Kind (Node × Walk Node) → Walk (Kind Node)
  | identifier name => return reference name ((← get).distance name)
  | propertyInit (⟨pos, identifier name⟩, _) value =>
    return propertyInit ⟨pos, identifier name⟩ (← value.2)
  | variableDeclaration target init => do
    let resolvedTarget ← target.2
    if let some name := target.1.literalName? then
      modify (Environment.declare name)
    return variableDeclaration resolvedTarget (← init.mapM Prod.snd)
  | sourceElements body => do
    modify ([] :: ·)
    let kind ← (sourceElements body).traverse Prod.snd
    modify List.tail
    return kind
  | kind => kind.traverse Prod.snd

namespace Node

/-- The step of `walk`: the node itself, and the walk over it. -/
def walkStep (pos : Position) (kind : Kind (Node × Walk Node)) : Node × Walk Node :=
  (⟨pos, kind.map Prod.fst⟩, do return ⟨pos, ← kind.resolved⟩)

/-- The walk over a tree. -/
def walk (node : Node) : Walk Node := (node.fold walkStep).2

/-- The tree with its names resolved to the bodies in it that declare them. -/
def resolve (node : Node) : Node := (node.walk.run []).1

theorem fold_walkStep (node : Node) : node.fold walkStep = (node, node.walk) :=
  fold_para _ node

/-- The walk over a node is made of the walks over its children. -/
theorem walk_mk (pos : Position) (kind : Kind Node) :
    walk ⟨pos, kind⟩ = do return ⟨pos, ← (kind.map fun node => (node, node.walk)).resolved⟩ := by
  rw [walk, fold_mk]
  show (do return Node.mk pos (← (kind.map (fold walkStep)).resolved)) = _
  rw [Kind.map_congr kind fun node _ => fold_walkStep node]

end Node

/-! ## Walking what was built -/

variable {source : String}

/-- Walking the nodes among the items one after the other, each unresolved, yields them. -/
def Walks (source : String) : List Item → Environment → Environment → Prop
  | [], before, after => before = after
  | .text _ :: items, before, after => Walks source items before after
  | .node node :: items, before, after => ∃ between,
      (node.unresolved source).walk.run before = (node, between) ∧ Walks source items between after

theorem walks_append {items rest : List Item} {before after : Environment} :
    Walks source (items ++ rest) before after ↔
      ∃ between, Walks source items before between ∧ Walks source rest between after := by
  induction items generalizing before with
  | nil => exact ⟨fun h => ⟨before, rfl, h⟩, fun ⟨_, hb, h⟩ => hb ▸ h⟩
  | cons item items ih =>
    cases item with
    | text => exact ih
    | node node =>
      simp only [List.cons_append, Walks, ih]
      exact ⟨fun ⟨b, hn, c, hi, hr⟩ => ⟨c, ⟨b, hn, hi⟩, hr⟩,
        fun ⟨c, ⟨b, hn, hi⟩, hr⟩ => ⟨b, hn, c, hi, hr⟩⟩

/-- The node unresolved, with the walk over it. -/
def Node.unresolvedWalk (source : String) (node : Node) : Node × Walk Node :=
  (node.unresolved source, (node.unresolved source).walk)

theorem Walk.run_bind {α β : Type} {walk : Walk α} {f : α → Walk β} {before between : Environment}
    {value : α} (h : walk.run before = (value, between)) :
    (walk >>= f).run before = (f value).run between := by
  rw [StateT.run_bind, h]
  rfl

theorem Walks.node {node : Node} {items : List Item} {before after : Environment}
    (h : Walks source (.node node :: items) before after) :
    ∃ between, (Node.unresolvedWalk source node).2.run before = (node, between) ∧
      Walks source items between after := h

theorem mapM_walks {nodes : List Node} {before after : Environment}
    (h : Walks source (nodes.map .node) before after) :
    ((nodes.map (Node.unresolvedWalk source)).mapM Prod.snd).run before = (nodes, after) := by
  induction nodes generalizing before with
  | nil => exact congrArg (Prod.mk []) h
  | cons node nodes ih =>
    obtain ⟨between, hnode, hnodes⟩ := Walks.node h
    rw [List.map_cons, List.mapM_cons, Walk.run_bind hnode, Walk.run_bind (ih hnodes)]
    rfl

theorem mapM_walks_option {node : Option Node} {before after : Environment}
    (h : Walks source (node.toList.map .node) before after) :
    ((node.map (Node.unresolvedWalk source)).mapM Prod.snd).run before = (node, after) := by
  cases node with
  | none => exact congrArg (Prod.mk none) h
  | some node =>
    obtain ⟨between, hnode, rfl⟩ := Walks.node h
    rw [Option.map_some, Option.mapM_some, map_eq_pure_bind, Walk.run_bind hnode]
    rfl

theorem mapM_walks_decls {decls : List (String × Node)} {before after : Environment}
    (h : Walks source ((decls.map Prod.snd).map .node) before after) :
    ((decls.map fun (entry : String × Node) => (entry.1, Node.unresolvedWalk source entry.2)).mapM
      fun (entry : String × (Node × Walk Node)) =>
        do return (entry.1, ← entry.2.2)).run before = (decls, after) := by
  induction decls generalizing before with
  | nil => exact congrArg (Prod.mk []) h
  | cons decl decls ih =>
    obtain ⟨between, hnode, hnodes⟩ := Walks.node h
    have hfirst : (do return (decl.1, ← (Node.unresolvedWalk source decl.2).2) : Walk _).run
        before = (decl, between) := Walk.run_bind hnode
    rw [List.map_cons, List.mapM_cons, Walk.run_bind hfirst, Walk.run_bind (ih hnodes)]
    rfl

/-- Traversing the children yields them if walking them one after the other does. -/
theorem Kind.traverse_walks {kind : Kind Node} {before after : Environment}
    (h : Walks source (kind.children.map .node) before after) :
    ((kind.map (Node.unresolvedWalk source)).traverse Prod.snd).run before = (kind, after) := by
  cases kind with
  | int | float | string | boolean | null | identifier | variableIdentifier | thisValue
  | breakStatement | continueStatement | empty => exact congrArg (Prod.mk _) h
  | unary | memberDot | new | simpleIncrement | program | varStatement | exprStatement
  | throwStatement =>
    obtain ⟨_, h, rfl⟩ := h
    exact Walk.run_bind h
  | binary | member | call | newWithArgs | propertyInit | whileLoop | doLoop | forIn
  | withStatement =>
    obtain ⟨_, hfirst, _, hsecond, rfl⟩ := h
    exact (Walk.run_bind hfirst).trans (Walk.run_bind hsecond)
  | forVarIn =>
    obtain ⟨_, htarget, _, hiterable, _, hbody, rfl⟩ := h
    exact (Walk.run_bind htarget).trans ((Walk.run_bind hiterable).trans (Walk.run_bind hbody))
  | array | objectInit | argumentList | variableDeclList | block =>
    exact Walk.run_bind (mapM_walks h)
  | returnStatement | functionStatement => exact Walk.run_bind (mapM_walks_option h)
  | simpleAssignment | memberDotAssignment | variableDeclaration =>
    obtain ⟨_, htarget, hvalue⟩ := h
    exact (Walk.run_bind htarget).trans (Walk.run_bind (mapM_walks_option hvalue))
  | memberAssignment =>
    obtain ⟨_, hobject, _, hindex, hvalue⟩ := h
    exact (Walk.run_bind hobject).trans
      ((Walk.run_bind hindex).trans (Walk.run_bind (mapM_walks_option hvalue)))
  | conditional =>
    obtain ⟨_, hcondition, _, hthen, helse⟩ := h
    exact (Walk.run_bind hcondition).trans
      ((Walk.run_bind hthen).trans (Walk.run_bind (mapM_walks_option helse)))
  | sourceElements body =>
    rw [children, List.map_append, walks_append] at h
    obtain ⟨_, hdecls, hstatements⟩ := h
    exact (Walk.run_bind (mapM_walks_decls hdecls)).trans
      (Walk.run_bind (mapM_walks hstatements))
  | forLoop init condition update body =>
    rw [children, List.map_append, walks_append, List.map_cons, List.map_append] at h
    obtain ⟨_, hinit, _, hcondition, hrest⟩ := h
    obtain ⟨_, hupdate, _, hbody, rfl⟩ := walks_append.mp hrest
    exact (Walk.run_bind (mapM_walks_option hinit)).trans ((Walk.run_bind hcondition).trans
      ((Walk.run_bind (mapM_walks_option hupdate)).trans (Walk.run_bind hbody)))
  | tryStatement body catchParam catchBlock finallyBlock =>
    rw [children, List.map_cons, List.map_append, List.map_append] at h
    obtain ⟨_, hbody, hrest⟩ := h
    obtain ⟨_, hparam, hrest⟩ := walks_append.mp hrest
    obtain ⟨_, hcatch, hfinally⟩ := walks_append.mp hrest
    exact (Walk.run_bind hbody).trans ((Walk.run_bind (mapM_walks_option hparam)).trans
      ((Walk.run_bind (mapM_walks_option hcatch)).trans
        (Walk.run_bind (mapM_walks_option hfinally))))

/-! ### Nodes of each kind -/

namespace Kind

/-- A kind whose children are walked, and nothing else is done. -/
def IsTraversed : Kind Node → Prop
  | identifier _ | variableIdentifier _ _ | sourceElements _ | variableDeclaration _ _ => False
  | propertyInit key _ => key.literalName? = none
  | _ => True

theorem IsInner.isTraversed {kind : Kind Node} (h : kind.IsInner) : kind.IsTraversed := by
  cases kind with
  | propertyInit key =>
    obtain ⟨pos, kind⟩ := key
    cases kind <;> first | rfl | exact False.elim h
  | _ => trivial

theorem unresolved_map {α β : Type} (f : α → β) (kind : Kind α) :
    (kind.unresolved source).map f = (kind.map f).unresolved source := by
  cases kind <;> rfl

end Kind

/-- The walk over an unresolved node is made of those over its unresolved children. -/
theorem Node.walk_unresolved (pos : Position) (kind : Kind Node) :
    (Node.unresolved source ⟨pos, kind⟩).walk = do
      return ⟨pos, ← ((kind.map (unresolvedWalk source)).unresolved source).resolved⟩ := by
  rw [unresolved_mk, walk_mk, Kind.unresolved_map, Kind.map_map]
  rfl

theorem Node.unresolved_literalName? (node : Node) :
    (node.unresolved source).literalName? = node.literalName? := by
  obtain ⟨pos, kind⟩ := node
  rw [unresolved_mk]
  cases kind <;> rfl

theorem Kind.resolved_eq_traverse {kind : Kind Node} (h : kind.IsTraversed) :
    ((kind.map (Node.unresolvedWalk source)).unresolved source).resolved =
      (kind.map (Node.unresolvedWalk source)).traverse Prod.snd := by
  cases kind with
  | propertyInit key value =>
    have hkey : (Node.unresolvedWalk source key).1.literalName? = none :=
      (Node.unresolved_literalName? key).trans h
    show resolved (.propertyInit (Node.unresolvedWalk source key) _) =
      traverse Prod.snd (.propertyInit (Node.unresolvedWalk source key) _)
    generalize Node.unresolvedWalk source key = entry at hkey ⊢
    obtain ⟨⟨pos, kind⟩, walk⟩ := entry
    cases kind with
    | identifier => exact nomatch hkey
    | _ => rfl
  | identifier | variableIdentifier | sourceElements | variableDeclaration => exact h.elim
  | _ => rfl

/-- A node is walked by walking its children. -/
theorem walks_node {pos : Position} {kind : Kind Node} {before after : Environment}
    (hkind : kind.IsTraversed) (h : Walks source (kind.children.map .node) before after) :
    Walks source [.node ⟨pos, kind⟩] before after := by
  refine ⟨after, ?_, rfl⟩
  rw [Node.walk_unresolved, Kind.resolved_eq_traverse hkind, Walk.run_bind (Kind.traverse_walks h)]
  rfl

/-- The texts among the items do not matter. -/
theorem walks_contents {kind : Kind Node} (h : kind.IsInner) {before after : Environment} :
    Walks source kind.contents before after ↔
      Walks source (kind.children.map .node) before after := by
  cases kind with
  | breakStatement label | continueStatement label => cases label <;> rfl
  | forIn | functionStatement => exact False.elim h
  | _ => rfl

/-- A name is resolved, and leaves everything as it is. -/
theorem Node.walk_reference {node : Node} {name : String} (h : node.literalName? = some name)
    (env : Environment) :
    (node.unresolved source).walk.run env =
      (⟨node.pos, .reference name (env.distance name)⟩, env) := by
  obtain ⟨pos, kind⟩ := node
  have hkind : kind.unresolved source = .identifier name := by
    cases kind with
    | identifier | variableIdentifier => exact congrArg Kind.identifier (Option.some.inj h)
    | _ => exact nomatch (h : none = some name)
  rw [unresolved_mk, ← Kind.unresolved_map, hkind, walk_mk]
  rfl

theorem Walks.of_reference {node : Node} {name : String} (hname : node.literalName? = some name)
    {items : List Item} {before after : Environment}
    (h : Walks source (.node node :: items) before after) : Walks source items before after := by
  obtain ⟨between, hrun, hitems⟩ := h
  rw [Node.walk_reference hname] at hrun
  obtain ⟨-, rfl⟩ := Prod.mk.inj hrun
  exact hitems

/-- Nor does a list of names change anything. -/
theorem mapM_references {nodes : List Node} {names : List String}
    (h : nodes.map Node.literalName? = names.map some) (env : Environment) :
    (((nodes.map (Node.unresolvedWalk source)).mapM Prod.snd).run env).2 = env := by
  induction nodes generalizing names with
  | nil => rfl
  | cons node nodes ih =>
    cases names with
    | nil => exact nomatch h
    | cons name names =>
      obtain ⟨hname, hnames⟩ := List.cons.inj h
      have hrun : (Node.unresolvedWalk source node).2.run env = _ := Node.walk_reference hname env
      rw [List.map_cons, List.mapM_cons, Walk.run_bind hrun]
      exact ih hnames

theorem Walks.of_lists {node : Node} {names : List String} (h : node.Lists names)
    {items : List Item} {before after : Environment}
    (hw : Walks source (.node node :: items) before after) : Walks source items before after := by
  obtain ⟨between, hrun, hitems⟩ := hw
  obtain ⟨pos, kind⟩ := node
  obtain ⟨nodes, rfl, hnames⟩ := h
  have hbetween : between = before := by
    rw [Node.walk_unresolved] at hrun
    exact (congrArg Prod.snd hrun).symm.trans (mapM_references hnames before)
  exact hbetween ▸ hitems

/-- What was walked for a member goes for its object and index. -/
theorem Walks.of_member {pos : Position} {object index : Node} {items : List Item}
    {before after : Environment}
    (h : Walks source (.node ⟨pos, .member object index⟩ :: items) before after) :
    Walks source (.node object :: .node index :: items) before after := by
  obtain ⟨between, hrun, hitems⟩ := h
  rw [Node.walk_unresolved] at hrun
  obtain ⟨hnode, rfl⟩ := Prod.mk.inj hrun
  injection hnode with _ hkind
  injection hkind with hobject hindex
  exact ⟨_, Prod.ext hobject rfl, _, Prod.ext hindex rfl, hitems⟩

theorem Walks.of_memberDot {pos : Position} {object : Node} {name : String} {items : List Item}
    {before after : Environment}
    (h : Walks source (.node ⟨pos, .memberDot object name⟩ :: items) before after) :
    Walks source (.node object :: items) before after := by
  obtain ⟨between, hrun, hitems⟩ := h
  rw [Node.walk_unresolved] at hrun
  obtain ⟨hnode, rfl⟩ := Prod.mk.inj hrun
  injection hnode with _ hkind
  injection hkind with hobject
  exact ⟨_, Prod.ext hobject rfl, hitems⟩

/-- A write is walked like its target and its value. -/
theorem walks_write {pos : Position} {target node : Node} {op : AssignOp} {value : Option Node}
    {side : Option Side} (hside : side.isSome → value = none)
    (hwrite : Node.write pos target op value side = .ok node) {before after : Environment}
    (h : Walks source (.node target :: value.toList.map .node) before after) :
    Walks source [.node node] before after := by
  obtain ⟨targetPos, kind⟩ := target
  -- What cannot be written to is updated in place, and then there is no value.
  have hother : (if side.isSome then .ok ⟨pos, .simpleIncrement ⟨targetPos, kind⟩ op⟩
      else .error (BuildError.invalidTarget pos .notAssignable)) = Except.ok node →
      Walks source [.node node] before after := fun hupdate => by
    split at hupdate
    · next hsome =>
      cases hupdate
      cases hside hsome
      exact walks_node trivial h
    · exact nomatch hupdate
  cases kind with
  | identifier | variableIdentifier =>
    cases hwrite
    exact walks_node trivial h
  | member object index =>
    cases hwrite
    exact walks_node trivial h.of_member
  | memberDot object name =>
    cases hwrite
    exact walks_node trivial h.of_memberDot
  | _ => exact hother hwrite

/-- A key that is a name is not walked. -/
theorem walks_namedProperty {pos keyPos : Position} {name : String} {value : Node}
    {before after : Environment} (h : Walks source [.node value] before after) :
    Walks source [.node ⟨pos, .propertyInit ⟨keyPos, .identifier name⟩ value⟩] before after := by
  obtain ⟨_, hvalue, rfl⟩ := Walks.node h
  refine ⟨_, ?_, rfl⟩
  rw [Node.walk_unresolved]
  exact Walk.run_bind (Walk.run_bind hvalue)

/-- A body is walked like what is in it, over a list of names of its own. -/
theorem walks_sourceElements {pos : Position} {body : Body Node} {names : List String}
    {before after : Environment} (hsource : body.sourceName = source)
    (h : Walks source ((Kind.sourceElements body).children.map .node) ([] :: before)
      (names :: after)) :
    Walks source [.node ⟨pos, .sourceElements body⟩] before after := by
  subst hsource
  have hopen : (modify ([] :: ·) : Walk PUnit).run before = (⟨⟩, [] :: before) := rfl
  refine ⟨_, ?_, rfl⟩
  rw [Node.walk_unresolved]
  exact Walk.run_bind ((Walk.run_bind hopen).trans (Walk.run_bind (Kind.traverse_walks h)))

/-- A declaration adds its name behind its target. -/
theorem walks_variableDeclaration {pos : Position} {target : Node} {init : Option Node}
    {name : String} (hname : target.literalName? = some name) {before between after : Environment}
    (htarget : Walks source [.node target] before between)
    (hinit : Walks source (init.toList.map .node) (between.declare name) after) :
    Walks source [.node ⟨pos, .variableDeclaration target init⟩] before after := by
  obtain ⟨between, hwalk, rfl⟩ := Walks.node htarget
  have hdeclare : (modify (Environment.declare name) : Walk PUnit).run between =
      (⟨⟩, between.declare name) := rfl
  have hdeclared : (Node.unresolvedWalk source target).1.literalName? = some name :=
    (Node.unresolved_literalName? target).trans hname
  refine ⟨_, ?_, rfl⟩
  rw [Node.walk_unresolved]
  refine Walk.run_bind ((Walk.run_bind hwalk).trans ?_)
  simp only [hdeclared]
  exact (Walk.run_bind hdeclare).trans (Walk.run_bind (mapM_walks_option hinit))

/-- **What is put together is walked like its items.** -/
theorem Made.walks {items : List Item} {node : Node} (h : Made source items node)
    {before after : Environment} (hw : Walks source items before after) :
    Walks source [.node node] before after := by
  induction h generalizing before after with
  | self => exact hw
  | inner kind hinner => exact walks_node hinner.isTraversed ((walks_contents hinner).mp hw)
  | fill first _ _ ih ihChild =>
    obtain ⟨_, hfirst, hrest⟩ := walks_append.mp hw
    obtain ⟨_, hinner, hbehind⟩ := walks_append.mp hrest
    exact ih (walks_append.mpr ⟨_, hfirst, walks_append.mpr ⟨_, ihChild hinner, hbehind⟩⟩)
  | write hside hwrite => exact walks_write hside hwrite hw
  | @function _ name params body hname hparams =>
    -- The nodes for names are not in the tree, but walking them had no effect.
    have hrest : Walks source
        ((params.map Prod.fst).toList.map .node ++ body.toList.map .node) before after := by
      cases name with
      | none => exact hw
      | some name => exact Walks.of_reference (hname name rfl) hw
    have hbody : Walks source (body.toList.map .node) before after := by
      cases params with
      | none => exact hrest
      | some params => exact Walks.of_lists (hparams params rfl) hrest
    exact walks_node trivial hbody
  | forIn htarget => exact walks_node trivial (Walks.of_reference htarget hw)
  | namedProperty => exact walks_namedProperty hw
  | emptyBody => exact walks_sourceElements rfl (congrArg (List.cons []) hw)

/-! ## The derivation, walked -/

/-- The names that the frames declare. -/
def Scopes.environment (scopes : Scopes) : Environment := scopes.map Frame.vars

theorem Scopes.environment_declareVar (name : String) (scopes : Scopes) :
    environment (scopes.declareVar name).2 = scopes.environment.declare name := by
  cases scopes <;> rfl

theorem Scopes.environment_distance {options : Options} (h : options.staticResolution)
    (name : String) (scopes : Scopes) :
    scopes.environment.distance name = scopes.distance options name := by
  rw [distance, if_pos h]
  exact List.findIdx?_map ..

/-- Over the names that the frames declare, a built name is walked to itself. -/
theorem walks_reference {options : Options} (h : options.staticResolution) (word : Word)
    (scopes : Scopes) :
    Walks source [.node (word.node options scopes)] scopes.environment scopes.environment := by
  refine ⟨_, ?_, rfl⟩
  rw [Node.walk_reference (word.literalName?_node options scopes), Scopes.environment_distance h]
  rfl

theorem Kind.IsLiteral.walks {kind : Kind Node} (h : kind.IsLiteral) (pos : Position)
    (env : Environment) : Walks source [.node ⟨pos, kind⟩] env env := by
  have htraversed : kind.IsTraversed ∧ kind.children = [] := by
    cases kind <;> first | exact ⟨trivial, rfl⟩ | exact False.elim h
  refine walks_node htraversed.1 ?_
  rw [htraversed.2]
  rfl

/-- **What is built is walked to itself**, from the names declared before to those declared after,
where no functions are declared. -/
theorem Built.walks {g : Dialect} {table : Table} (htable : table.Within g) (hg : ¬ g.declarations)
    {options : Options} (hresolve : options.staticResolution) {parts : List Part}
    {before after : Scopes} {items : List Item} (h : Built table options parts before items after) :
    Walks options.sourceName items before.environment after.environment := by
  induction h with
  | nil | label => rfl
  | cons _ _ ih ihRest => exact walks_append.mpr ⟨_, ih, ihRest⟩
  | reference word => exact walks_reference hresolve word _
  | literal pos hliteral => exact (Symbol.isLiteral_of_literal? hliteral).2.walks _ _
  | made _ _ _ hmade ih => exact hmade.walks ih
  | @declaration _ _ name _ before _ _ _ _ ih =>
    rw [Scopes.environment_declareVar] at ih
    exact walks_variableDeclaration (name.literalName?_node _ before)
      (walks_reference hresolve name before) ih
  | @body _ _ scopes frame statements hbuilt ih =>
    -- Declared functions would come first in the pass, wherever they stand in the source.
    have hnone : frame.funcs = [] := (List.cons.inj (hbuilt.funcs_eq htable hg)).1
    have hbody : Walks options.sourceName ((frame.funcs.map Prod.snd ++ statements).map .node)
        ([] :: scopes.environment) (frame.vars :: scopes.environment) := by
      rw [hnone]
      exact ih
    exact walks_sourceElements rfl hbody
  | functionDeclaration hrow => exact absurd (htable hrow).of_functionDeclaration.1 hg

/-! ## The two ways to resolve -/

/-- The contract with tokens of integers as they come, a clause behind a `finally` clause or not,
and without declared functions. -/
def Dialect.undeclared : Dialect where
  spelling _ text := text ∉ reservedTexts
  declarations := False
  lateClause := True

theorem Dialect.undeclared_supported : Dialect.undeclared.Supported fun _ => True :=
  Dialect.unreserved_supported False True

/-- **Resolving while building is resolving afterwards.**  If a conforming tree that declares no
functions is built without resolution, then with resolution it is built as well, and the result is
what the pass over the first result gives. -/
theorem single_pass_resolution (source : String) {slot : Slot} {tree : ParseTree}
    (h : Conforms .undeclared slot tree) {root : Node}
    (hbuild : build ⟨source, false⟩ tree = .ok root) :
    build ⟨source, true⟩ tree = .ok root.resolve := by
  rw [build_unresolved source ⟨source, true⟩] at hbuild
  cases hresolved : build ⟨source, true⟩ tree with
  | error error =>
    rw [hresolved] at hbuild
    exact nomatch hbuild
  | ok resolved =>
    rw [hresolved] at hbuild
    cases hbuild
    obtain ⟨_, after, hbuilt⟩ := h.built_of_ok Dialect.undeclared_supported hresolved
    have hwalks : Walks source [.node resolved] [] after.environment := hbuilt.walks id id rfl
    obtain ⟨_, hwalk, _⟩ := hwalks
    rw [Node.resolve, hwalk]

theorem single_pass_resolution_closure :
    Conforms .undeclared .program closureSample ∧
      build ⟨"", false⟩ closureSample = .ok (closureNode.unresolved "") ∧
      build ⟨"", true⟩ closureSample = .ok (closureNode.unresolved "").resolve := by
  have hconforms : Conforms .undeclared .program closureSample :=
    closureSample_conforms (show "x" ∉ reservedTexts by decide)
  have hbuild : build ⟨"", false⟩ closureSample = .ok (closureNode.unresolved "") := rfl
  exact ⟨hconforms, hbuild, single_pass_resolution "" hconforms hbuild⟩

example : (closureNode.unresolved "").resolve = closureNode := rfl

end ScriptAst
