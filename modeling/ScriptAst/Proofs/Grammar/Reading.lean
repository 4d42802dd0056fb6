import ScriptAst.Proofs.Grammar.Contract

/-! # What a production makes of its parts

A production visits the parts of its tree in order, each once, and puts the nodes it gets together.
`Made source items node` says that `node` is put together from `items`, from left to right: nodes
that were built, and texts that were only read.  `Plan.Reads parts Q plan` says that `plan` takes in
exactly `parts`, and that `Q` holds of the items it gets for them and its value; the only error it
ends in by itself is an invalid target.

`Shape.reads` gives this for every shape of the contract.  Names, bodies and declarations are left
out, since they look at the frames.
-/
namespace ScriptAst

/-- What is built or read for a part. -/
inductive Item where
  | node (node : Node)
  | text (text : String)

namespace Kind

def IsLiteral : Kind Node → Prop
  | int _ | float _ | string _ | boolean _ | null => True
  | _ => False

/-- A body, with what it declares. -/
def IsBody : Kind Node → Prop
  | sourceElements _ => True
  | _ => False

/-- A kind that is put together from its children as they are.  The key of a property is a literal:
one that is a name has not been built.  A number or a string is not put together from anything. -/
def IsInner : Kind Node → Prop
  | int _ | float _ | string _ | identifier _ | variableIdentifier _ _ | sourceElements _
  | variableDeclaration _ _ | functionStatement _ | forIn _ _ _ | simpleAssignment _ _ _ _
  | memberAssignment _ _ _ _ _ | memberDotAssignment _ _ _ _ _ | simpleIncrement _ _ => False
  | propertyInit key _ => key.kind.IsLiteral
  | _ => True

/-- The children of a kind and the names it bears, in source order. -/
def contents : Kind Node → List Item
  | identifier name | variableIdentifier _ name => [.text name]
  | memberDot object name => [.node object, .text name]
  | memberDotAssignment object name value _ _ =>
    .node object :: .text name :: value.toList.map .node
  | breakStatement label | continueStatement label => label.toList.map .text
  | forIn name iterable body => [.text name, .node iterable, .node body]
  | functionStatement function =>
    function.name.toList.map .text ++
      (function.params.map .text ++ function.body.toList.map .node)
  | kind => kind.children.map .node

end Kind

/-- The node is the list of the names, each with or without its depth. -/
def Node.Lists (node : Node) (names : List String) : Prop :=
  ∃ nodes, node.kind = .argumentList nodes ∧ nodes.map Node.literalName? = names.map some

/-- The node is put together from the items. -/
inductive Made (source : String) : List Item → Node → Prop
  | self (node : Node) : Made source [.node node] node
  | inner {pos : Position} (kind : Kind Node) : kind.IsInner → Made source kind.contents ⟨pos, kind⟩
  /-- A node among the items is put together in turn. -/
  | fill (before : List Item) {inner behind : List Item} {child node : Node} :
      Made source (before ++ .node child :: behind) node → Made source inner child →
      Made source (before ++ (inner ++ behind)) node
  | write {pos : Position} {target node : Node} {op : AssignOp} {value : Option Node}
      {side : Option Side} : (side.isSome → value = none) →
      Node.write pos target op value side = .ok node →
      Made source (.node target :: value.toList.map .node) node
  /-- The nodes for the name and the parameters are given up for what they are called. -/
  | function {pos : Position} {name : Option (Node × String)}
      {params : Option (Node × List String)} {body : Option Node} :
      (∀ n ∈ name, n.1.literalName? = some n.2) → (∀ p ∈ params, p.1.Lists p.2) →
      Made source
        ((name.map Prod.fst).toList.map .node ++
          ((params.map Prod.fst).toList.map .node ++ body.toList.map .node))
        ⟨pos, .functionStatement ⟨name.map Prod.snd, (params.map Prod.snd).getD [], body⟩⟩
  | forIn {pos : Position} {name : String} {target iterable body : Node} :
      target.literalName? = some name →
      Made source [.node target, .node iterable, .node body] ⟨pos, .forIn name iterable body⟩
  | namedProperty {pos keyPos : Position} {name : String} {value : Node} :
      Made source [.text name, .node value] ⟨pos, .propertyInit ⟨keyPos, .identifier name⟩ value⟩
  | emptyBody {pos : Position} :
      Made source [] ⟨pos, .sourceElements ⟨[], [], [], source⟩⟩

/-- The first node among the items is put together in turn. -/
theorem Made.head {source : String} {inner behind : List Item} {child node : Node}
    (h : Made source (.node child :: behind) node) (hchild : Made source inner child) :
    Made source (inner ++ behind) node :=
  Made.fill [] h hchild

/-! ## Slots and what is built in them -/

/-- What a node built in the slot is like. -/
def Slot.Takes : Slot → Node → Prop
  | body, node => node.kind.IsBody
  | name, node => node.literalName?.isSome
  | parameters, node => ∃ names, node.Lists names
  | literal, node => node.kind.IsLiteral
  | _, _ => True

/-- The answer to a visit of a tree in the slot: only an item can go without a node. -/
inductive Slot.Fits (slot : Slot) : Option Node → Prop
  | node {node : Node} : slot.Takes node → Fits slot (some node)
  | declared : slot = .item → Fits slot none

/-- The texts that a name or a literal must not have, since they mark other parts. -/
def reservedTexts : List String := "new" :: Production.emptySlots

/-- A token only if its text is not reserved. -/
def ParseTree.Unreserved (tree : ParseTree) : Prop := ∀ text ∈ tree.text?, text ∉ reservedTexts

/-- No token that stands for an absent part. -/
def ParseTree.FillsSlot (tree : ParseTree) : Prop :=
  ∀ text ∈ tree.text?, text ∉ Production.emptySlots

instance (tree : ParseTree) : Decidable tree.FillsSlot :=
  inferInstanceAs (Decidable (∀ text ∈ tree.text?, text ∉ Production.emptySlots))

theorem ParseTree.Unreserved.fillsSlot {tree : ParseTree} (h : tree.Unreserved) : tree.FillsSlot :=
  fun text htext hmem => h text htext (List.mem_cons_of_mem _ hmem)

/-! ## Plans that read parts -/

namespace Plan

/-- The plan takes in the parts in order, and `Q` holds of their items and its value. -/
inductive Reads {α : Type} : List Part → (List Item → α → Prop) → Plan α → Prop
  | done {Q : List Item → α → Prop} {value : α} : Q [] value → Reads [] Q (.done value)
  | fail {parts : List Part} {Q : List Item → α → Prop} (pos : Position) (fault : TargetFault) :
      Reads parts Q (.fail (.invalidTarget pos fault))
  | visit {slot : Slot} {tree : ParseTree} {parts : List Part} {Q : List Item → α → Prop}
      {next : Option Node → Plan α} : slot ≠ .label →
      (∀ answer, slot.Fits answer →
        Reads parts (fun items => Q (answer.toList.map .node ++ items)) (next answer)) →
      Reads ((slot, tree) :: parts) Q (.visit tree next)
  | label {parts : List Part} {Q : List Item → α → Prop} {plan : Plan α} (word : Word) :
      Reads parts (fun items => Q (.text word.text :: items)) plan →
      Reads ((.label, word.tree) :: parts) Q plan

namespace Reads

variable {α β : Type} {parts : List Part} {Q Q' : List Item → α → Prop} {plan : Plan α}

theorem mono (h : Reads parts Q plan) (hq : ∀ items value, Q items value → Q' items value) :
    Reads parts Q' plan := by
  induction h generalizing Q' with
  | done h => exact .done (hq _ _ h)
  | fail pos fault => exact .fail pos fault
  | visit hslot _ ih => exact .visit hslot fun answer ha => ih answer ha fun _ _ => hq _ _
  | label word _ ih => exact .label word (ih fun _ _ => hq _ _)

/-- A plan that reads parts, and then one that reads more. -/
theorem bind {more : List Part} {S : List Item → β → Prop} {f : α → Plan β}
    (h : Reads parts Q plan)
    (hf : ∀ items value, Q items value → Reads more (fun rest => S (items ++ rest)) (f value)) :
    Reads (parts ++ more) S (plan >>= f) := by
  induction h generalizing S with
  | done h => exact hf _ _ h
  | fail pos fault => exact .fail pos fault
  | visit hslot _ ih =>
    refine .visit hslot fun answer ha => ih answer ha fun items value hq => ?_
    exact (hf _ _ hq).mono fun rest b hb => by rwa [List.append_assoc] at hb
  | label word _ ih => exact .label word (ih fun items value hq => hf _ _ hq)

end Reads
end Plan

namespace Production

open Plan (Reads bind_eq)

variable {source : String} {tree : ParseTree} {slot : Slot} {parts : List Part} {α β : Type}
  {Q : List Item → α → Prop}

/-! ## Reading the children -/

theorem done_bind (value : α) (f : α → Plan β) : (Plan.done value >>= f) = f value := rfl

/-- A part that has to have a node has one. -/
theorem value_bind {part : ParseTree} {f : Node → Plan α} (hlabel : slot ≠ .label)
    (hitem : slot ≠ .item)
    (hf : ∀ node, slot.Takes node → Reads parts (fun items => Q (.node node :: items)) (f node)) :
    Reads ((slot, part) :: parts) Q (value part >>= f) := by
  refine .visit hlabel fun answer ha => ?_
  cases ha with
  | node hnode => exact hf _ hnode
  | declared h => exact absurd h hitem

theorem value_done {part : ParseTree} {Q : List Item → Node → Prop} (hlabel : slot ≠ .label)
    (hitem : slot ≠ .item) (hq : ∀ node, slot.Takes node → Q [.node node] node) :
    Reads [(slot, part)] Q (value part) := by
  rw [← bind_pure (value part)]
  exact value_bind hlabel hitem fun node hnode => .done (hq node hnode)

/-- A last part that may be absent. -/
theorem childValue?_done (before : List ParseTree) {part : Option ParseTree}
    {g : Option Node → α} (hchildren : tree.children = before ++ part.toList)
    (hlabel : slot ≠ .label) (hitem : slot ≠ .item)
    (hq : ∀ node : Option Node, Q (node.toList.map .node) (g node)) :
    Reads (slot.each part.toList) Q
      (childValue? tree before.length >>= fun node => .done (g node)) := by
  cases part with
  | none =>
    have hnone : tree.child? before.length = none := by simp [ParseTree.child?, hchildren]
    simp only [childValue?, hnone]
    exact .done (hq none)
  | some part =>
    have hsome : tree.child? before.length = some part := by simp [ParseTree.child?, hchildren]
    simp only [childValue?, hsome, bind_assoc]
    exact value_bind hlabel hitem fun node _ => .done (hq (some node))

/-- Trees in slots of one kind. -/
theorem values_done {trees : List ParseTree} {g : List Node → α} (hlabel : slot ≠ .label)
    (hq : ∀ nodes, (slot ≠ .item → ∀ node ∈ nodes, slot.Takes node) →
      Q (nodes.map .node) (g nodes)) :
    Reads (slot.each trees) Q (values trees >>= fun nodes => .done (g nodes)) := by
  induction trees generalizing Q g with
  | nil => exact .done (hq [] nofun)
  | cons tree trees ih =>
    refine .visit hlabel fun answer ha => ?_
    simp only [← bind_eq, bind_assoc, pure_bind]
    refine ih (g := fun nodes => g (answer.toList ++ nodes)) fun nodes hnodes => ?_
    rw [← List.map_append]
    refine hq _ fun hitem node hnode => ?_
    rcases List.mem_append.mp hnode with hnode | hnode
    · cases ha with
      | node htakes =>
        cases List.mem_singleton.mp hnode
        exact htakes
      | declared h => exact absurd h hitem
    · exact hnodes hitem node hnode

/-- A part that is there takes its own place and that of the token behind it. -/
theorem slot_of_part {part : ParseTree} {i : Nat} (hchild : tree.child? i = some part)
    (hpart : part.FillsSlot) :
    Production.slot tree i = value part >>= fun node => .done (some node, i + 2) := by
  have hfull : (part.text?.any fun text => decide (text ∈ emptySlots)) = false := by
    cases htext : part.text? with
    | none => rfl
    | some text => simpa using hpart text htext
  simp only [Production.slot, child, hchild, done_bind, hfull, Bool.false_eq_true, if_false,
    Plan.pure_eq]

/-- For a part that is absent the token behind it is read. -/
theorem slot_of_mark {text : String} {mark : Mark text} {i : Nat}
    (hchild : tree.child? i = some mark.tree) (hmark : text ∈ emptySlots) :
    Production.slot tree i = .done (none, i + 1) := by
  have hempty : (mark.tree.text?.any fun text => decide (text ∈ emptySlots)) = true := by
    simpa [ParseTree.text?] using hmark
  simp only [Production.slot, child, hchild, done_bind, hempty, if_true, Plan.pure_eq]

/-- A part and the token behind it, if there is one. -/
theorem slot_bind_some {part : ParseTree} {i : Nat} {f : Option Node × Nat → Plan α}
    (hchild : tree.child? i = some part) (hpart : part.Unreserved) (hlabel : slot ≠ .label)
    (hitem : slot ≠ .item)
    (hf : ∀ node, slot.Takes node →
      Reads parts (fun items => Q (.node node :: items)) (f (some node, i + 2))) :
    Reads ((slot, part) :: parts) Q (Production.slot tree i >>= f) := by
  rw [slot_of_part hchild hpart.fillsSlot, bind_assoc]
  exact value_bind hlabel hitem hf

/-- A part that may be absent, and the token behind it. -/
theorem slot_bind (before : List ParseTree) {rest : List ParseTree} {part : Option ParseTree}
    {text : String} (mark : Mark text) {f : Option Node × Nat → Plan α}
    (hchildren : tree.children = before ++ (part.toList ++ mark.tree :: rest))
    (hmark : text ∈ emptySlots) (hpart : ∀ p ∈ slot.each part.toList, p.2.Unreserved)
    (hlabel : slot ≠ .label) (hitem : slot ≠ .item)
    (hf : ∀ node : Option Node, node.isSome = part.isSome → (∀ n ∈ node, slot.Takes n) →
      Reads parts (fun items => Q (node.toList.map .node ++ items))
        (f (node, (before ++ (part.toList ++ [mark.tree])).length))) :
    Reads (slot.each part.toList ++ parts) Q (Production.slot tree before.length >>= f) := by
  cases part with
  | none =>
    have hchild : tree.child? before.length = some mark.tree := by
      simp [ParseTree.child?, hchildren]
    rw [slot_of_mark hchild hmark, done_bind]
    simpa [Slot.each] using hf none rfl (by simp)
  | some part =>
    have hchild : tree.child? before.length = some part := by
      simp [ParseTree.child?, hchildren]
    refine slot_bind_some hchild (hpart _ (.head _)) hlabel hitem fun node htakes => ?_
    simpa using hf (some node) rfl fun n hn => Option.some.inj hn ▸ htakes

end Production

end ScriptAst
