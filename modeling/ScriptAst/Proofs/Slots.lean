import ScriptAst.Proofs.Grammar.Shapes
import ScriptAst.Proofs.InTurn

/-! # Parts that may be absent

A loop with a header of three parts and a function have their parts in fixed order, each with a
token behind it, and some of them may be absent.  Then there is no fixed place to find a part at: it
depends on which parts before it are there, and the token behind an absent part is read in its
stead.

However many are absent, each part that is there gets into its own slot
(`each_part_in_its_own_slot`).  The parts that are there are built one after the other, and nothing
else decides whether the build succeeds but what they are built to, and for a declaration whether it
has a name and a frame to go to.
-/
namespace ScriptAst

/-! ## Loops and functions -/

/-- The three parts of the header of a loop, and its body. -/
structure LoopParts (α : Type) where
  setup : Option α
  condition : Option α
  update : Option α
  body : α

/-- The tokens between the parts of a loop. -/
structure LoopMarks where
  opening : Mark "("
  behindSetup : Mark ";"
  behindCondition : Mark ";"
  closing : Mark ")"

/-- The parts of a function. -/
structure FunctionParts (α : Type) where
  name : Option α
  parameters : Option α
  body : Option α

/-- The tokens between the parts of a function, and behind the last. -/
structure FunctionMarks where
  opening : Mark "("
  closing : Mark ")"
  last : Mark "\x7d"

namespace LoopParts

variable {α β : Type}

/-- The parts that are there, in order. -/
def toList (parts : LoopParts α) : List α :=
  parts.setup.toList ++ (parts.condition.toList ++ parts.update.toList) ++ [parts.body]

def map (f : α → β) (parts : LoopParts α) : LoopParts β :=
  ⟨parts.setup.map f, parts.condition.map f, parts.update.map f, f parts.body⟩

/-- The children of a loop with the parts. -/
def within (marks : LoopMarks) (parts : LoopParts ParseTree) : List ParseTree :=
  marks.opening.tree :: (parts.setup.toList ++ marks.behindSetup.tree :: (parts.condition.toList ++
    marks.behindCondition.tree :: (parts.update.toList ++ [marks.closing.tree, parts.body])))

/-- The loop at `pos` with the parts.  One without a condition goes on for ever. -/
def loop (pos : Position) (parts : LoopParts Node) : Node :=
  ⟨pos, .forLoop parts.setup (parts.condition.getD ⟨pos, .boolean true⟩) parts.update parts.body⟩

end LoopParts

namespace FunctionParts

variable {α β : Type}

/-- The parts that are there, in order. -/
def toList (parts : FunctionParts α) : List α :=
  parts.name.toList ++ (parts.parameters.toList ++ parts.body.toList)

def map (f : α → β) (parts : FunctionParts α) : FunctionParts β :=
  ⟨parts.name.map f, parts.parameters.map f, parts.body.map f⟩

/-- The children of a function with the parts. -/
def within (marks : FunctionMarks) (parts : FunctionParts ParseTree) : List ParseTree :=
  parts.name.toList ++ marks.opening.tree :: (parts.parameters.toList ++ marks.closing.tree ::
    (parts.body.toList ++ [marks.last.tree]))

/-- The function with the parts: what its name part is called, the names that its parameters list,
and its body. -/
structure Denotes (parts : FunctionParts Node) (function : Function Node) : Prop where
  name : parts.name.map Node.literalName? = function.name.map some
  params : parts.parameters.elim (function.params = []) fun list => list.Lists function.params
  body : function.body = parts.body

end FunctionParts

/-! ## What the parts of a function are called -/

namespace Production

theorem nameOf_eq_ok_iff {tree : ParseTree} {node : Node} {name : String} :
    nameOf tree node = .ok name ↔ node.literalName? = some name := by
  unfold nameOf
  split
  · next called hcalled => rw [hcalled, Except.ok.injEq, Option.some.injEq]
  · next hnone => simp [hnone]

theorem nameOf_mapM_eq_ok_iff {tree : ParseTree} {nodes : List Node} {names : List String} :
    nodes.mapM (nameOf tree) = .ok names ↔ nodes.map Node.literalName? = names.map some := by
  refine ⟨fun h => ?_, nameOf_mapM_eq⟩
  induction nodes generalizing names with
  | nil =>
    cases h
    rfl
  | cons node nodes ih =>
    rw [List.mapM_cons] at h
    cases hname : nameOf tree node with
    | error =>
      rw [hname] at h
      cases h
    | ok name =>
      cases hnames : nodes.mapM (nameOf tree) with
      | error =>
        rw [hname, hnames] at h
        cases h
      | ok names =>
        rw [hname, hnames] at h
        cases h
        rw [List.map_cons, nameOf_eq_ok_iff.mp hname, ih hnames]
        rfl

theorem nameOf_optionMapM_eq_ok_iff {tree : ParseTree} {part : Option Node} {name : Option String} :
    part.mapM (nameOf tree) = .ok name ↔ part.map Node.literalName? = name.map some := by
  cases part with
  | none =>
    rw [Option.mapM_none, Option.map_none, eq_comm (a := none), Option.map_eq_none_iff]
    exact ⟨fun h => (Except.ok.inj h).symm, fun h => congrArg _ h.symm⟩
  | some node =>
    rw [Option.mapM_some, Option.map_some]
    cases hname : node.literalName? <;> cases name <;>
      simp [nameOf, hname, Functor.map, Except.map]

theorem parameterNames_eq_ok_iff {tree : ParseTree} {part : Option Node} {params : List String} :
    parameterNames tree part = .ok params ↔
      part.elim (params = []) fun list => list.Lists params := by
  cases part with
  | none => exact ⟨fun h => (Except.ok.inj h).symm, fun h => congrArg _ (Eq.symm h)⟩
  | some list =>
    simp only [parameterNames, Option.elim_some]
    split
    · next items hitems =>
      rw [nameOf_mapM_eq_ok_iff]
      constructor
      · exact fun h => ⟨items, hitems, h⟩
      · rintro ⟨nodes, hnodes, h⟩
        obtain rfl := Kind.argumentList.inj (hitems.symm.trans hnodes)
        exact h
    · next hother =>
      refine iff_of_false (fun h => by cases h) ?_
      rintro ⟨nodes, hnodes, _⟩
      exact hother nodes hnodes

end Production

/-! ## Parts in turn -/

namespace Builder

/-- The parts of a loop are built in turn, and make up the node. -/
def BuildsLoop (b : Builder) (pos : Position) (parts : LoopParts ParseTree) (node : Node)
    (after : Builder) : Prop :=
  ∃ built : LoopParts (ParseTree × Node), built.map Prod.fst = parts ∧ b.Builds built.toList after ∧
    node = (built.map Prod.snd).loop pos

/-- The parts of a function are built in turn, and make up the function. -/
def BuildsFunction (b : Builder) (parts : FunctionParts ParseTree) (function : Function Node)
    (after : Builder) : Prop :=
  ∃ built : FunctionParts (ParseTree × Node), built.map Prod.fst = parts ∧
    b.Builds built.toList after ∧ (built.map Prod.snd).Denotes function

/-! ## Slots -/

section Slots

open Production (slot value emptySlots)

variable {α : Type} {b after : Builder} {tree : ParseTree} {f : Option Node × Nat → Plan α}
  {result : α}

theorem carryOut_slot_of_part_eq_ok_iff {part : ParseTree} {i : Nat}
    (hchild : tree.child? i = some part) (hpart : part.FillsSlot) :
    b.carryOut (slot tree i >>= f) = (.ok result, after) ↔
      ∃ node between, b.node part = (.ok node, between) ∧
        between.carryOut (f (some node, i + 2)) = (.ok result, after) := by
  rw [Production.slot_of_part hchild hpart, bind_assoc, carryOut_bind_eq_ok_iff]
  exact Iff.rfl

/-- A part that may be absent, and the token behind it: if it is there, it is built, and in either
case the next part is looked for behind the token. -/
theorem carryOut_slot_eq_ok_iff (before : List ParseTree) {rest : List ParseTree}
    {part : Option ParseTree} {text : String} (mark : Mark text)
    (hchildren : tree.children = before ++ (part.toList ++ mark.tree :: rest))
    (hmark : text ∈ emptySlots) (hpart : ∀ tree ∈ part.toList, tree.FillsSlot) :
    b.carryOut (slot tree before.length >>= f) = (.ok result, after) ↔
      ∃ (built : Option (ParseTree × Node)) (between : Builder),
        built.map Prod.fst = part ∧ b.Builds built.toList between ∧
          between.carryOut
            (f (built.map Prod.snd, (before ++ (part.toList ++ [mark.tree])).length)) =
              (.ok result, after) := by
  cases part with
  | none =>
    have hchild : tree.child? before.length = some mark.tree := by
      simp [ParseTree.child?, hchildren]
    have hlength : (before ++ ((none : Option ParseTree).toList ++ [mark.tree])).length =
      before.length + 1 := List.length_append
    rw [Production.slot_of_mark hchild hmark, Production.done_bind, hlength]
    constructor
    · exact fun h => ⟨none, b, rfl, .nil b, h⟩
    · rintro ⟨built, between, hbuilt, hbuilds, h⟩
      obtain rfl := Option.map_eq_none_iff.mp hbuilt
      obtain rfl := builds_nil_iff.mp hbuilds
      exact h
  | some part =>
    have hchild : tree.child? before.length = some part := by
      simp [ParseTree.child?, hchildren]
    have hlength : (before ++ ((some part).toList ++ [mark.tree])).length = before.length + 2 :=
      List.length_append
    rw [carryOut_slot_of_part_eq_ok_iff hchild (hpart part (.head _)), hlength]
    constructor
    · rintro ⟨node, between, hnode, h⟩
      exact ⟨some (part, node), between, rfl, builds_singleton_iff.mpr hnode, h⟩
    · rintro ⟨built, between, hbuilt, hbuilds, h⟩
      obtain ⟨⟨_, node⟩, rfl, rfl⟩ := Option.map_eq_some_iff.mp hbuilt
      exact ⟨node, between, builds_singleton_iff.mp hbuilds, h⟩

/-- Three parts in a row, each of which may be absent. -/
theorem carryOut_slots_eq_ok_iff (before : List ParseTree) {rest : List ParseTree}
    {first second third : Option ParseTree} {text text' text'' : String}
    (mark : Mark text) (mark' : Mark text') (mark'' : Mark text'')
    (hchildren : tree.children = before ++ (first.toList ++ mark.tree :: (second.toList ++
      mark'.tree :: (third.toList ++ mark''.tree :: rest))))
    (hmark : text ∈ emptySlots) (hmark' : text' ∈ emptySlots) (hmark'' : text'' ∈ emptySlots)
    (hfirst : ∀ part ∈ first.toList, part.FillsSlot)
    (hsecond : ∀ part ∈ second.toList, part.FillsSlot)
    (hthird : ∀ part ∈ third.toList, part.FillsSlot)
    {f : Option Node → Option Node → Option Node → Nat → Plan α} :
    b.carryOut (slot tree before.length >>= fun x => slot tree x.2 >>= fun y =>
        slot tree y.2 >>= fun z => f x.1 y.1 z.1 z.2) = (.ok result, after) ↔
      ∃ (x y z : Option (ParseTree × Node)) (between : Builder),
        (x.map Prod.fst = first ∧ y.map Prod.fst = second ∧ z.map Prod.fst = third) ∧
          b.Builds (x.toList ++ (y.toList ++ z.toList)) between ∧
            between.carryOut (f (x.map Prod.snd) (y.map Prod.snd) (z.map Prod.snd)
              (before ++ (first.toList ++ [mark.tree]) ++ (second.toList ++ [mark'.tree]) ++
                (third.toList ++ [mark''.tree])).length) = (.ok result, after) := by
  -- Each part starts behind the mark that ends the one before.
  have hchildren' : tree.children = before ++ (first.toList ++ [mark.tree]) ++ (second.toList ++
      mark'.tree :: (third.toList ++ mark''.tree :: rest)) := by simpa using hchildren
  have hchildren'' : tree.children = before ++ (first.toList ++ [mark.tree]) ++
      (second.toList ++ [mark'.tree]) ++ (third.toList ++ mark''.tree :: rest) := by
    simpa using hchildren
  rw [carryOut_slot_eq_ok_iff before mark hchildren hmark hfirst]
  simp only [carryOut_slot_eq_ok_iff _ mark' hchildren' hmark' hsecond,
    carryOut_slot_eq_ok_iff _ mark'' hchildren'' hmark'' hthird, builds_append_iff]
  constructor
  · rintro ⟨x, b₁, hx, hb₁, y, b₂, hy, hb₂, z, b₃, hz, hb₃, h⟩
    exact ⟨x, y, z, b₃, ⟨hx, hy, hz⟩, ⟨b₁, hb₁, b₂, hb₂, hb₃⟩, h⟩
  · rintro ⟨x, y, z, b₃, ⟨hx, hy, hz⟩, ⟨b₁, hb₁, b₂, hb₂, hb₃⟩, h⟩
    exact ⟨x, b₁, hx, hb₁, y, b₂, hy, hb₂, z, b₃, hz, hb₃, h⟩

end Slots

/-! ## Loops -/

section Loops

open Production (slot regularFor)

variable {b after : Builder} {tree : ParseTree} {node : Node}

theorem carryOut_regularFor_eq_ok_iff {marks : LoopMarks} {parts : LoopParts ParseTree}
    (hchildren : tree.children = parts.within marks)
    (hparts : ∀ part ∈ parts.toList, part.FillsSlot) :
    b.carryOut (regularFor tree) = (.ok node, after) ↔
      b.BuildsLoop tree.position parts node after := by
  obtain ⟨opening, behindSetup, behindCondition, closing⟩ := marks
  obtain ⟨setup, condition, update, body⟩ := parts
  obtain ⟨hheader, hbody⟩ := List.forall_mem_append.mp hparts
  obtain ⟨hsetup, hrest⟩ := List.forall_mem_append.mp hheader
  obtain ⟨hcondition, hupdate⟩ := List.forall_mem_append.mp hrest
  have hplan : regularFor tree =
      slot tree 1 >>= fun x => slot tree x.2 >>= fun y => slot tree y.2 >>= fun z =>
        slot tree z.2 >>= fun w => .done
          (LoopParts.loop tree.position ⟨x.1, y.1, z.1, w.1.getD ⟨tree.position, .empty⟩⟩) := rfl
  have hlast : tree.child? ([opening.tree] ++ (setup.toList ++ [behindSetup.tree]) ++
      (condition.toList ++ [behindCondition.tree]) ++ (update.toList ++ [closing.tree])).length =
        some body := by
    simp [ParseTree.child?, hchildren, LoopParts.within]
  rw [hplan]
  refine (carryOut_slots_eq_ok_iff [opening.tree] behindSetup behindCondition closing hchildren
    (by decide) (by decide) (by decide) hsetup hcondition hupdate
    (f := fun x y z i => slot tree i >>= fun w => .done
      (LoopParts.loop tree.position ⟨x, y, z, w.1.getD ⟨tree.position, .empty⟩⟩))).trans ?_
  simp only [carryOut_slot_of_part_eq_ok_iff hlast (hbody body (.head _)), carryOut_done_eq_ok_iff]
  constructor
  · rintro ⟨x, y, z, between, ⟨rfl, rfl, rfl⟩, hheader, built, _, hbuilt, rfl, rfl⟩
    exact ⟨⟨x, y, z, (body, built)⟩, rfl,
      builds_append_iff.mpr ⟨between, hheader, builds_singleton_iff.mpr hbuilt⟩, rfl⟩
  · rintro ⟨⟨x, y, z, _, built⟩, ⟨⟩, hbuilds, rfl⟩
    obtain ⟨between, hheader, hbuilt⟩ := builds_append_iff.mp hbuilds
    exact ⟨x, y, z, between, ⟨rfl, rfl, rfl⟩, hheader, built, after, builds_singleton_iff.mp hbuilt,
      rfl, rfl⟩

end Loops

/-! ## Functions -/

section Functions

open Production (slot functionParts functionExpression functionDeclaration)

variable {b after : Builder} {tree : ParseTree} {marks : FunctionMarks}
  {parts : FunctionParts ParseTree}

theorem carryOut_functionParts_eq_ok_iff (hchildren : tree.children = parts.within marks)
    (hparts : ∀ part ∈ parts.toList, part.FillsSlot)
    {nodes : Option Node × Option Node × Option Node} :
    b.carryOut (functionParts tree) = (.ok nodes, after) ↔
      ∃ built : FunctionParts (ParseTree × Node), built.map Prod.fst = parts ∧
        b.Builds built.toList after ∧
          nodes = (built.name.map Prod.snd, built.parameters.map Prod.snd,
            built.body.map Prod.snd) := by
  obtain ⟨opening, closing, last⟩ := marks
  obtain ⟨name, parameters, body⟩ := parts
  obtain ⟨hname, hrest⟩ := List.forall_mem_append.mp hparts
  obtain ⟨hparameters, hbody⟩ := List.forall_mem_append.mp hrest
  have hplan : functionParts tree =
      slot tree 0 >>= fun x => slot tree x.2 >>= fun y => slot tree y.2 >>= fun z =>
        .done (x.1, y.1, z.1) := rfl
  rw [hplan]
  refine (carryOut_slots_eq_ok_iff [] opening closing last hchildren
    (by decide) (by decide) (by decide) hname hparameters hbody
    (f := fun x y z _ => .done (x, y, z))).trans ?_
  simp only [carryOut_done_eq_ok_iff]
  constructor
  · rintro ⟨x, y, z, _, ⟨rfl, rfl, rfl⟩, hbuilds, rfl, rfl⟩
    exact ⟨⟨x, y, z⟩, rfl, hbuilds, rfl⟩
  · rintro ⟨⟨x, y, z⟩, ⟨⟩, hbuilds, rfl⟩
    exact ⟨x, y, z, after, ⟨rfl, rfl, rfl⟩, hbuilds, rfl, rfl⟩

theorem carryOut_functionExpression_eq_ok_iff (hchildren : tree.children = parts.within marks)
    (hparts : ∀ part ∈ parts.toList, part.FillsSlot) {node : Node} :
    b.carryOut (functionExpression tree) = (.ok node, after) ↔
      ∃ function, b.BuildsFunction parts function after ∧
        node = ⟨tree.position, .functionStatement function⟩ := by
  rw [functionExpression, carryOut_bind_eq_ok_iff]
  simp only [carryOut_functionParts_eq_ok_iff hchildren hparts, carryOut_ofExcept_bind_eq_ok_iff,
    Production.nameOf_optionMapM_eq_ok_iff, Production.parameterNames_eq_ok_iff, Plan.pure_eq,
    carryOut_done_eq_ok_iff]
  constructor
  · rintro ⟨_, _, ⟨built, hbuilt, hbuilds, rfl⟩, name, hname, params, hparams, rfl, rfl⟩
    exact ⟨⟨name, params, _⟩, ⟨built, hbuilt, hbuilds, hname, hparams, rfl⟩, rfl⟩
  · rintro ⟨⟨name, params, body⟩, ⟨built, hbuilt, hbuilds, hname, hparams, rfl⟩, rfl⟩
    exact ⟨_, after, ⟨built, hbuilt, hbuilds, rfl⟩, name, hname, params, hparams, rfl, rfl⟩

/-- A function is declared if a frame is open. -/
theorem carryOut_declareFunc_eq_ok_iff {name : String} {function : Node} {answer : Option Node} :
    b.carryOut (.declareFunc name function fun isOpen =>
        if isOpen then .done none else Production.malformed tree .functionOutsideBody) =
          (.ok answer, after) ↔
      b.scopes ≠ [] ∧ answer = none ∧
        after = { b with scopes := (b.scopes.declareFunc name function).2 } := by
  obtain ⟨options, scopes, depth⟩ := b
  cases scopes with
  | nil => exact iff_of_false carryOut_fail_ne_ok fun h => h.1 rfl
  | cons frame outer =>
    constructor
    · rintro ⟨⟩
      exact ⟨List.cons_ne_nil _ _, rfl, rfl⟩
    · rintro ⟨_, rfl, rfl⟩
      rfl

theorem carryOut_functionDeclaration_eq_ok_iff (hchildren : tree.children = parts.within marks)
    (hparts : ∀ part ∈ parts.toList, part.FillsSlot) {answer : Option Node} :
    b.carryOut (functionDeclaration tree) = (.ok answer, after) ↔
      ∃ function between name, b.BuildsFunction parts function between ∧
        function.name = some name ∧ between.scopes ≠ [] ∧ answer = none ∧
          after = { between with
            scopes := (between.scopes.declareFunc name
              ⟨tree.position, .functionStatement function⟩).2 } := by
  rw [functionDeclaration, carryOut_bind_eq_ok_iff]
  simp only [carryOut_functionParts_eq_ok_iff hchildren hparts]
  constructor
  · rintro ⟨_, between, ⟨⟨name, parameters, body⟩, hbuilt, hbuilds, rfl⟩, h⟩
    cases name with
    | none => exact absurd h carryOut_fail_ne_ok
    | some part =>
      simp only [Option.map_some, carryOut_ofExcept_bind_eq_ok_iff, Production.nameOf_eq_ok_iff,
        Production.parameterNames_eq_ok_iff] at h
      obtain ⟨name, hname, params, hparams, h⟩ := h
      obtain ⟨hopen, hanswer, hafter⟩ := carryOut_declareFunc_eq_ok_iff.mp h
      exact ⟨⟨some name, params, _⟩, between, name,
        ⟨_, hbuilt, hbuilds, congrArg some hname, hparams, rfl⟩, rfl, hopen, hanswer, hafter⟩
  · rintro ⟨⟨_, params, body⟩, between, name, ⟨built, hbuilt, hbuilds, hname, hparams, rfl⟩, rfl,
      hopen, hanswer, hafter⟩
    refine ⟨_, between, ⟨built, hbuilt, hbuilds, rfl⟩, ?_⟩
    obtain ⟨called, hcalled, hname⟩ := Option.map_eq_some_iff.mp hname
    obtain ⟨part, hpart, rfl⟩ := Option.map_eq_some_iff.mp hcalled
    simp only [hpart, Option.map_some, carryOut_ofExcept_bind_eq_ok_iff,
      Production.nameOf_eq_ok_iff, Production.parameterNames_eq_ok_iff]
    exact ⟨name, hname, params, hparams,
      carryOut_declareFunc_eq_ok_iff.mpr ⟨hopen, hanswer, hafter⟩⟩

end Functions

end Builder

/-! ## Loops and functions that are built -/

section Dispatch

variable {b after : Builder} {tree : ParseTree} {answer : Option Node}

theorem dispatch_regularFor_eq_ok_iff {symbol : Symbol} (hfor : symbol.isRegularFor)
    (hsymbol : tree.symbol = symbol.name) {marks : LoopMarks} {parts : LoopParts ParseTree}
    (hchildren : tree.children = parts.within marks)
    (hparts : ∀ part ∈ parts.toList, part.FillsSlot) :
    b.dispatch tree = (.ok answer, after) ↔
      b.depth < maxNesting ∧ ∃ node inner, b.deeper.BuildsLoop tree.position parts node inner ∧
        answer = some node ∧ after = { b with scopes := inner.scopes } := by
  have hplan : symbol.plan b.options.sourceName tree =
      Symbol.plan.node (Production.regularFor tree) := by
    cases symbol <;> first | rfl | cases hfor
  rw [Builder.dispatch_node_eq_ok_iff hsymbol hplan]
  simp only [Builder.carryOut_regularFor_eq_ok_iff hchildren hparts]

variable {marks : FunctionMarks} {parts : FunctionParts ParseTree}
  (hchildren : tree.children = parts.within marks)
  (hparts : ∀ part ∈ parts.toList, part.FillsSlot)
include hchildren hparts

theorem dispatch_functionExpression_eq_ok_iff
    (hsymbol : tree.symbol = Symbol.functionExpression.name) :
    b.dispatch tree = (.ok answer, after) ↔
      b.depth < maxNesting ∧ ∃ function inner, b.deeper.BuildsFunction parts function inner ∧
        answer = some ⟨tree.position, .functionStatement function⟩ ∧
          after = { b with scopes := inner.scopes } := by
  rw [Builder.dispatch_node_eq_ok_iff hsymbol rfl]
  simp only [Builder.carryOut_functionExpression_eq_ok_iff hchildren hparts]
  constructor
  · rintro ⟨hdepth, _, inner, ⟨function, hbuilds, rfl⟩, hanswer, hafter⟩
    exact ⟨hdepth, function, inner, hbuilds, hanswer, hafter⟩
  · rintro ⟨hdepth, function, inner, hbuilds, hanswer, hafter⟩
    exact ⟨hdepth, _, inner, ⟨function, hbuilds, rfl⟩, hanswer, hafter⟩

theorem dispatch_functionDeclaration_eq_ok_iff
    (hsymbol : tree.symbol = Symbol.functionDeclaration.name) :
    b.dispatch tree = (.ok answer, after) ↔
      b.depth < maxNesting ∧ ∃ function inner name,
        b.deeper.BuildsFunction parts function inner ∧ function.name = some name ∧
          inner.scopes ≠ [] ∧ answer = none ∧
            after = { b with
              scopes := (inner.scopes.declareFunc name
                ⟨tree.position, .functionStatement function⟩).2 } := by
  rw [Builder.dispatch_eq_ok_iff hsymbol]
  show _ ∧ (∃ _, Builder.carryOut _ (Production.functionDeclaration tree) = _ ∧ _) ↔ _
  simp only [Builder.carryOut_functionDeclaration_eq_ok_iff hchildren hparts]
  constructor
  · rintro ⟨hdepth, _, ⟨function, inner, name, hbuilds, hname, hopen, hanswer, rfl⟩, rfl⟩
    exact ⟨hdepth, function, inner, name, hbuilds, hname, hopen, hanswer, rfl⟩
  · rintro ⟨hdepth, function, inner, name, hbuilds, hname, hopen, hanswer, rfl⟩
    exact ⟨hdepth, _, ⟨function, inner, name, hbuilds, hname, hopen, hanswer, rfl⟩, rfl⟩

end Dispatch

/-- **Each part gets into its own slot**, whichever of the others are there.

A loop is built if and only if there is a level left and its parts are built in turn; its setup and
its update are absent where they are left out, and its condition is then `true`.  A function is
built if and only if there is a level left, its parts are built in turn, the name part to a name and
the parameters to a list of names.  The declaration of a function has no node: it needs a name, and
a frame that the function goes to. -/
theorem each_part_in_its_own_slot (b after : Builder) (answer : Option Node) :
    (∀ (symbol : Symbol) (marks : LoopMarks) (parts : LoopParts ParseTree), symbol.isRegularFor →
      (∀ part ∈ parts.toList, part.FillsSlot) →
      let tree := ParseTree.node symbol.name (parts.within marks)
      b.dispatch tree = (.ok answer, after) ↔
        b.depth < maxNesting ∧ ∃ node inner, b.deeper.BuildsLoop tree.position parts node inner ∧
          answer = some node ∧ after = { b with scopes := inner.scopes }) ∧
    (∀ (marks : FunctionMarks) (parts : FunctionParts ParseTree),
      (∀ part ∈ parts.toList, part.FillsSlot) →
      let tree := ParseTree.node Symbol.functionExpression.name (parts.within marks)
      b.dispatch tree = (.ok answer, after) ↔
        b.depth < maxNesting ∧ ∃ function inner, b.deeper.BuildsFunction parts function inner ∧
          answer = some ⟨tree.position, .functionStatement function⟩ ∧
            after = { b with scopes := inner.scopes }) ∧
    ∀ (marks : FunctionMarks) (parts : FunctionParts ParseTree),
      (∀ part ∈ parts.toList, part.FillsSlot) →
      let tree := ParseTree.node Symbol.functionDeclaration.name (parts.within marks)
      b.dispatch tree = (.ok answer, after) ↔
        b.depth < maxNesting ∧ ∃ function inner name,
          b.deeper.BuildsFunction parts function inner ∧ function.name = some name ∧
            inner.scopes ≠ [] ∧ answer = none ∧
              after = { b with
                scopes := (inner.scopes.declareFunc name
                  ⟨tree.position, .functionStatement function⟩).2 } := by
  refine ⟨?loop, ?expression, ?declaration⟩
  case loop =>
    exact fun symbol marks parts hfor hparts => dispatch_regularFor_eq_ok_iff hfor rfl rfl hparts
  case expression =>
    exact fun marks parts hparts => dispatch_functionExpression_eq_ok_iff rfl hparts rfl
  case declaration =>
    exact fun marks parts hparts => dispatch_functionDeclaration_eq_ok_iff rfl hparts rfl

/-- The parts of the loop `for (; i; ) ;`, with what they are built to. -/
def loopSample : LoopParts (ParseTree × Node) where
  setup := none
  condition := some (.token "IDENTIFIERNAME" "i" ⟨7, 1, 7⟩, ⟨⟨1, 7, 8⟩, .identifier "i"⟩)
  update := none
  body := (.node "emptystatement" [.token ";" ";" ⟨12, 1, 12⟩], ⟨⟨1, 12, 13⟩, .empty⟩)

/-- The parts of a function without a name and a body, `(a) }`. -/
def namelessSample : FunctionParts (ParseTree × Node) where
  name := none
  parameters := some
    (.node "formalparameterlist" [.token "IDENTIFIERNAME" "a" ⟨10, 1, 10⟩],
      ⟨⟨1, 10, 11⟩, .argumentList [⟨⟨1, 10, 11⟩, .identifier "a"⟩]⟩)
  body := none

/-- The parts of a function with a name and nothing else, `f() }`. -/
def nameSample : FunctionParts (ParseTree × Node) where
  name := some (.token "IDENTIFIERNAME" "f" ⟨9, 1, 9⟩, ⟨⟨1, 9, 10⟩, .identifier "f"⟩)
  parameters := none
  body := none

/-- The condition of the loop does not get into the place of its setup, nor the parameters of the
function into that of its name. -/
theorem each_part_in_its_own_slot_absent :
    let b : Builder := ⟨⟨"", true⟩, [.empty], 0⟩
    let function : Node := ⟨⟨1, 9, 10⟩, .functionStatement ⟨some "f", [], none⟩⟩
    let loopMarks : LoopMarks :=
      ⟨⟨"(", ⟨4, 1, 4⟩⟩, ⟨";", ⟨5, 1, 5⟩⟩, ⟨";", ⟨8, 1, 8⟩⟩, ⟨")", ⟨10, 1, 10⟩⟩⟩
    let marks : FunctionMarks :=
      ⟨⟨"(", ⟨9, 1, 9⟩⟩, ⟨")", ⟨11, 1, 11⟩⟩, ⟨"\x7d", ⟨13, 1, 13⟩⟩⟩
    b.dispatch (.node "regularfor" ((loopSample.map Prod.fst).within loopMarks)) =
      (.ok (some ⟨⟨1, 4, 5⟩, .forLoop none ⟨⟨1, 7, 8⟩, .identifier "i"⟩ none
        ⟨⟨1, 12, 13⟩, .empty⟩⟩), b) ∧
    b.dispatch (.node "functionexpression" ((namelessSample.map Prod.fst).within marks)) =
      (.ok (some ⟨⟨1, 9, 10⟩, .functionStatement ⟨none, ["a"], none⟩⟩), b) ∧
    b.dispatch (.node "functiondeclaration" ((nameSample.map Prod.fst).within marks)) =
      (.ok none, ⟨⟨"", true⟩, [⟨[], [("f", function)]⟩], 0⟩) := by
  intro b function loopMarks marks
  have hloop : b.deeper.Builds loopSample.toList b.deeper :=
    Builder.builds_cons_iff.mpr ⟨b.deeper, rfl, Builder.builds_singleton_iff.mpr rfl⟩
  have hnameless : b.deeper.Builds namelessSample.toList b.deeper :=
    Builder.builds_singleton_iff.mpr rfl
  have hname : b.deeper.Builds nameSample.toList b.deeper := Builder.builds_singleton_iff.mpr rfl
  refine ⟨?_, ?_, ?_⟩
  · exact ((each_part_in_its_own_slot b b _).1 .regularFor loopMarks _ rfl (by decide)).mpr
      ⟨by decide, _, b.deeper, ⟨loopSample, rfl, hloop, rfl⟩, rfl, rfl⟩
  · exact ((each_part_in_its_own_slot b b _).2.1 marks _ (by decide)).mpr
      ⟨by decide, ⟨none, ["a"], none⟩, b.deeper,
        ⟨namelessSample, rfl, hnameless, ⟨rfl, ⟨_, rfl, rfl⟩, rfl⟩⟩, rfl, rfl⟩
  · exact ((each_part_in_its_own_slot b _ none).2.2 marks _ (by decide)).mpr
      ⟨by decide, ⟨some "f", [], none⟩, b.deeper, "f",
        ⟨nameSample, rfl, hname, ⟨rfl, rfl, rfl⟩⟩, rfl, List.cons_ne_nil _ _, rfl, rfl⟩

end ScriptAst
