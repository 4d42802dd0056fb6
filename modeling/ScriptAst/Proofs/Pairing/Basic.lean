import ScriptAst.Proofs.Pairing.Rename

/-! # Two builds side by side

Two builds of one parse tree that differ in their options, in the frames they start from, or in what
the names of the tree are, take the same steps.  A `Pairing` says what they may differ in: how the
names are changed on the right, and which nodes, answers to a lookup, and bodies correspond.
`Plan.Agree p R` says that two plans take the same steps as long as the answers they get correspond,
and end in values related by `R`.

Every production gives such plans, for every pairing that is closed under making nodes
(`Pairing.Closed`, `Pairing.plan_agree`): a production looks at a node that has been built only
through its position and its `View`.  A property of a single build is a pairing of the build with
itself, where no name is changed.
-/
namespace ScriptAst

/-- Two values that a relation holds of. -/
structure Paired {α β : Type} (R : α → β → Prop) where
  left : α
  right : β
  related : R left right

/-! ## What a production sees of a node -/

/-- The parts of a node that a production may take out of it. -/
inductive View (α : Type) where
  | name (name : String)
  | member (object index : α)
  | memberDot (object : α) (name : String)
  | argumentList (items : List α)
  | other

/-- The view with every part replaced by its image. -/
def View.map {α β : Type} (f : α → β) : View α → View β
  | name x => name x
  | member object index => member (f object) (f index)
  | memberDot object x => memberDot (f object) x
  | argumentList items => argumentList (items.map f)
  | other => other

theorem View.map_map {α β γ : Type} (g : β → γ) (f : α → β) (view : View α) :
    (view.map f).map g = view.map fun part => g (f part) := by
  cases view <;> simp [View.map]

theorem View.map_id' {α : Type} (view : View α) : (view.map fun part => part) = view := by
  cases view <;> simp [View.map]

/-- The view with `r` applied to the name. -/
def View.rename {α : Type} (r : String → String) : View α → View α
  | name x => name (r x)
  | memberDot object x => memberDot object (r x)
  | view => view

@[simp] theorem View.rename_id {α : Type} (view : View α) : view.rename id = view := by
  cases view <;> rfl

/-- The name, if the view is one. -/
def View.name? {α : Type} : View α → Option String
  | name x => some x
  | _ => none

/-- The parts that can be taken out. -/
def View.parts {α : Type} : View α → List α
  | name _ | other => []
  | member object index => [object, index]
  | memberDot object _ => [object]
  | argumentList items => items

theorem exists_paired_list {α : Type} {R : α → α → Prop} {as : List α} (h : ∀ a ∈ as, R a a) :
    ∃ pairs : List (Paired R), as = pairs.map Paired.left ∧ as = pairs.map Paired.right := by
  induction as with
  | nil => exact ⟨[], rfl, rfl⟩
  | cons a as ih =>
    obtain ⟨ha, has⟩ := List.forall_mem_cons.mp h
    obtain ⟨pairs, hl, hr⟩ := ih has
    exact ⟨⟨a, a, ha⟩ :: pairs, congrArg (a :: ·) hl, congrArg (a :: ·) hr⟩

/-- A view whose parts are each related to themselves is one of pairs. -/
theorem View.exists_paired {α : Type} {R : α → α → Prop} {view : View α}
    (h : ∀ part ∈ view.parts, R part part) :
    ∃ pairs : View (Paired R), view = pairs.map Paired.left ∧ view = pairs.map Paired.right := by
  cases view with
  | name x => exact ⟨.name x, rfl, rfl⟩
  | member object index =>
    obtain ⟨ho, hi, -⟩ := List.forall_mem_cons.mp h |>.imp_right List.forall_mem_cons.mp
    exact ⟨.member ⟨_, _, ho⟩ ⟨_, _, hi⟩, rfl, rfl⟩
  | memberDot object x =>
    exact ⟨.memberDot ⟨_, _, h object (List.mem_singleton_self _)⟩ x, rfl, rfl⟩
  | argumentList items =>
    obtain ⟨pairs, hl, hr⟩ := exists_paired_list h
    exact ⟨.argumentList pairs, congrArg View.argumentList hl, congrArg View.argumentList hr⟩
  | other => exact ⟨.other, rfl, rfl⟩

namespace Kind

variable {α β : Type}

/-- What a production sees of a node of this kind. -/
def view : Kind α → View α
  | identifier name | variableIdentifier _ name => .name name
  | member object index => .member object index
  | memberDot object name => .memberDot object name
  | argumentList items => .argumentList items
  | _ => .other

@[simp] theorem view_map (f : α → β) (kind : Kind α) : (kind.map f).view = kind.view.map f := by
  cases kind <;> rfl

@[simp] theorem view_rename (r : String → String) (kind : Kind α) :
    (kind.rename r).view = kind.view.rename r := by
  cases kind <;> rfl

theorem mem_of_mem_view {kind : Kind α} {part : α} (h : part ∈ kind.view.parts) :
    part ∈ kind.children := by
  cases kind <;> first | exact h | exact nomatch h

theorem literalName?_eq (kind : Kind α) : kind.literalName? = kind.view.name? := by
  cases kind <;> rfl

theorem literalName?_eq_some_iff {kind : Kind α} {name : String} :
    kind.literalName? = some name ↔ kind.view = .name name := by
  cases kind <;> simp [literalName?, view]

/-- The node for a name, with the distance to its body if there is one. -/
def reference (name : String) : Option Nat → Kind α
  | some depth => variableIdentifier depth name
  | none => identifier name

/-- Neither a resolved name nor a body. -/
def IsPlain : Kind α → Prop
  | variableIdentifier _ _ | sourceElements _ => False
  | _ => True

end Kind

/-- An update has a side and no value, an assignment a value and no side. -/
structure AssignOp.Fits (op : AssignOp) (value : Option Node) (side : Option Side) : Prop where
  value_isSome : value.isSome = !op.isUpdate
  side_isSome : side.isSome = op.isUpdate

/-- What a node of this kind has to be like besides its shape: writes are complete and go to what
can be written to, calls have a list of arguments, declared functions bear the name they are
declared under. -/
def Kind.Sound : Kind Node → Prop
  | simpleAssignment target value op side => op.Fits value side ∧ target.literalName?.isSome
  | memberAssignment _ _ value op side | memberDotAssignment _ _ value op side => op.Fits value side
  | simpleIncrement target op =>
    op.isUpdate ∧ (target.kind.view = .other ∨ ∃ items, target.kind.view = .argumentList items)
  | call _ arguments | newWithArgs _ arguments => ∃ items, arguments.kind = .argumentList items
  | variableDeclaration target _ => target.literalName?.isSome
  | tryStatement _ catchParam catchBlock finallyBlock =>
    catchParam.isSome = catchBlock.isSome ∧ (catchBlock.isSome ∨ finallyBlock.isSome)
  | sourceElements body =>
    ∀ entry ∈ body.funcDecls, ∃ function,
      entry.2.kind = .functionStatement function ∧ function.name = some entry.1
  | _ => True

/-- A defect that productions find.  A frame is always found open behind a body, and no defect is
put in words of its own. -/
def Defect.Occurs : Defect → Prop
  | frameClosed | described _ => False
  | _ => True

/-- A fault that productions find; none is put in words of its own. -/
def TargetFault.Occurs : TargetFault → Prop
  | described _ => False
  | _ => True

/-! ## Pairings and plans that agree -/

/-- What two builds that go side by side may differ in. -/
structure Pairing where
  /-- How the names of the left tree are changed in the right one. -/
  rename : String → String
  /-- The trees at which nodes and errors may be placed. -/
  place : ParseTree → Prop
  /-- The trees that may be visited. -/
  visited : ParseTree → Prop
  /-- Nodes built in the two. -/
  node : Node → Node → Prop
  /-- Answers to the lookup of a name, as it is on the left. -/
  depth : String → Option Nat → Option Nat → Prop
  /-- The nodes and the frames of a finished body. -/
  body : List Node → Frame → List Node → Frame → Prop
  /-- Errors. -/
  error : BuildError → BuildError → Prop

namespace Pairing

variable (p : Pairing)

/-- Answers to the visit of a tree: both none or both a node, which is a list of arguments if the
tree is one. -/
inductive Answer (tree : ParseTree) : Option Node → Option Node → Prop
  | none : Answer tree none none
  | some (pair : Paired p.node)
      (arguments : Production.isArguments tree → ∃ items, pair.left.kind = .argumentList items) :
      Answer tree (some pair.left) (some pair.right)

theorem Answer.left {p : Pairing} {tree : ParseTree} {o o' : Option Node} (h : p.Answer tree o o')
    {node : Node} (hnode : node ∈ o) : ∃ node', p.node node node' := by
  cases h with
  | none => exact nomatch hnode
  | some pair _ =>
    cases hnode
    exact ⟨_, pair.related⟩

/-- Parts that are both absent or both present. -/
def Part (a b : Option Node) : Prop :=
  ∃ part : Option (Paired p.node), a = part.map Paired.left ∧ b = part.map Paired.right

/-- As many nodes, corresponding in turn. -/
def Nodes (as bs : List Node) : Prop :=
  ∃ nodes : List (Paired p.node), as = nodes.map Paired.left ∧ bs = nodes.map Paired.right

/-- The closure conditions under which all productions keep to a pairing of builds that call the
source by the given names. -/
structure Closed (source source' : String) : Prop where
  words : KeepsWords p.rename
  below {tree child : ParseTree} : p.place tree → child ∈ tree.children → p.place child
  reached {tree child : ParseTree} : p.visited tree → child ∈ tree.reached → p.visited child
  labelled {tree : ParseTree} : p.visited tree → tree.Labelled p.rename
  make {tree : ParseTree} (kind : Kind (Paired p.node)) : p.place tree → kind.IsPlain →
    (kind.map Paired.left).Sound →
    p.node ⟨tree.position, kind.map Paired.left⟩
      ⟨(tree.rename p.rename).position, (kind.map Paired.right).rename p.rename⟩
  reference {tree : ParseTree} {name : String} {d d' : Option Nat} : p.place tree →
    p.depth name d d' →
    p.node ⟨tree.position, .reference name d⟩
      ⟨(tree.rename p.rename).position, .reference (p.rename name) d'⟩
  sourceElements {tree : ParseTree} {nodes nodes' : List Node} {frame frame' : Frame} :
    p.place tree → p.body nodes frame nodes' frame' →
    p.node ⟨tree.position, .sourceElements ⟨frame.vars, frame.funcs, nodes, source⟩⟩
      ⟨(tree.rename p.rename).position,
        .sourceElements ⟨frame'.vars, frame'.funcs, nodes', source'⟩⟩
  emptyBody : p.body [] .empty [] .empty
  view {a b : Node} : p.node a b → ∃ view : View (Paired p.node),
    a.kind.view = view.map Paired.left ∧ b.kind.view = (view.map Paired.right).rename p.rename
  /-- A defect quotes texts of tokens of the class `symbol`. -/
  malformed {tree at_ : ParseTree} {defect : Defect} (symbol : String) : p.place tree →
    p.place at_ → defect.Occurs →
    p.error (.malformed tree.symbol at_.position defect)
      (.malformed tree.symbol (at_.rename p.rename).position
        (defect.map (spelled p.rename symbol)))
  malformedNode {tree : ParseTree} {a b : Node} {defect : Defect} (symbol : String) :
    p.place tree → p.node a b → defect.Occurs →
    p.error (.malformed tree.symbol a.pos defect)
      (.malformed tree.symbol b.pos (defect.map (spelled p.rename symbol)))
  unwritable {tree : ParseTree} {fault : TargetFault} : p.place tree → fault.Occurs →
    p.error (.invalidTarget tree.position fault)
      (.invalidTarget (tree.rename p.rename).position fault)
  unwritableNode {a b : Node} {fault : TargetFault} : p.node a b → fault.Occurs →
    p.error (.invalidTarget a.pos fault) (.invalidTarget b.pos fault)

end Pairing

namespace Plan

/-- Two plans that take the same steps while the answers correspond, and end in values related by
`R` or in corresponding errors.  A frame is always found open behind a body. -/
inductive Agree (p : Pairing) {α β : Type} (R : α → β → Prop) : Plan α → Plan β → Prop
  | done {a : α} {b : β} : R a b → Agree p R (.done a) (.done b)
  | fail {e e' : BuildError} : p.error e e' → Agree p R (.fail e) (.fail e')
  | visit {tree : ParseTree} {next : Option Node → Plan α} {next' : Option Node → Plan β} :
      p.place tree → p.visited tree →
      (∀ o o', p.Answer tree o o' → Agree p R (next o) (next' o')) →
      Agree p R (.visit tree next) (.visit (tree.rename p.rename) next')
  | lookup {name : String} {next : Option Nat → Plan α} {next' : Option Nat → Plan β} :
      (∀ d d', p.depth name d d' → Agree p R (next d) (next' d')) →
      Agree p R (.lookup name next) (.lookup (p.rename name) next')
  | declareVar {name : String} {next : Bool → Plan α} {next' : Bool → Plan β} :
      (∀ isOpen, Agree p R (next isOpen) (next' isOpen)) →
      Agree p R (.declareVar name next) (.declareVar (p.rename name) next')
  | declareFunc {name : String} {next : Bool → Plan α} {next' : Bool → Plan β}
      (pair : Paired p.node) {function : Function Node} :
      pair.left.kind = .functionStatement function → function.name = some name →
      (∀ isOpen, Agree p R (next isOpen) (next' isOpen)) →
      Agree p R (.declareFunc name pair.left next) (.declareFunc (p.rename name) pair.right next')
  | body {trees : List ParseTree} {next : List Node → Option Frame → Plan α}
      {next' : List Node → Option Frame → Plan β} :
      (∀ tree ∈ trees, p.place tree ∧ p.visited tree) →
      (∀ nodes frame nodes' frame', p.body nodes frame nodes' frame' →
        Agree p R (next nodes (some frame)) (next' nodes' (some frame'))) →
      Agree p R (.body trees next) (.body (trees.map (ParseTree.rename p.rename)) next')

namespace Agree

variable {p : Pairing} {α β γ δ : Type} {R : α → β → Prop} {S : γ → δ → Prop}

/-- Plans that agree, followed by plans that agree on related values. -/
theorem bind {plan : Plan α} {plan' : Plan β} {f : α → Plan γ} {f' : β → Plan δ}
    (h : Agree p R plan plan') (hf : ∀ pair : Paired R, Agree p S (f pair.left) (f' pair.right)) :
    Agree p S (plan >>= f) (plan' >>= f') := by
  simp only [bind_eq]
  induction h with
  | done hab => exact hf ⟨_, _, hab⟩
  | fail he => exact .fail he
  | visit ht hv _ ih => exact .visit ht hv ih
  | lookup _ ih => exact .lookup ih
  | declareVar _ ih => exact .declareVar ih
  | declareFunc pair hk hn _ ih => exact .declareFunc pair hk hn ih
  | body ht _ ih => exact .body ht ih

theorem mono {S : α → β → Prop} {plan : Plan α} {plan' : Plan β} (h : Agree p R plan plan')
    (hs : ∀ a b, R a b → S a b) : Agree p S plan plan' := by
  induction h with
  | done hab => exact .done (hs _ _ hab)
  | fail he => exact .fail he
  | visit ht hv _ ih => exact .visit ht hv ih
  | lookup _ ih => exact .lookup ih
  | declareVar _ ih => exact .declareVar ih
  | declareFunc pair hk hn _ ih => exact .declareFunc pair hk hn ih
  | body ht _ ih => exact .body ht ih

end Agree
end Plan
end ScriptAst
