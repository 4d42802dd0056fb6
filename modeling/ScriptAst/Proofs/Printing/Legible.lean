import ScriptAst.Proofs.Printing.Reading

/-! # Legible trees

A tree is printed legibly if the names in it are plain (`Node.legible_toSExpr`); all other atoms are
plain by themselves.  Of a label and of the name of a function it is also asked that they are not
the sign for an absent one: what can be read back then could still be two trees.

The name of a kind tells which kind it is (`Kind.ctorIdx_of_name`).  The string is the kind that has
to be known before its items are read.
-/
namespace ScriptAst

variable {α β : Type}

/-! ## Legible trees -/

namespace Kind

/-- The names that are printed as they are. -/
def plainNames : Kind α → List String
  | identifier name | variableIdentifier _ name | memberDot _ name
  | memberDotAssignment _ name _ _ _ | forIn name _ _ => [name]
  | sourceElements body => body.varNames
  | breakStatement label | continueStatement label => label.toList
  | functionStatement function => function.name.toList ++ function.params
  | _ => []

/-- The label, or the name of the function. -/
def ownName? : Kind α → Option String
  | breakStatement label | continueStatement label => label
  | functionStatement function => function.name
  | _ => none

/-- The names are plain, and none reads like an absent one. -/
structure Legible (kind : Kind α) : Prop where
  plain : ∀ name ∈ kind.plainNames, Plain name
  named : kind.ownName? ≠ some "_"

instance (kind : Kind α) : Decidable kind.Legible :=
  decidable_of_iff ((∀ name ∈ kind.plainNames, Plain name) ∧ kind.ownName? ≠ some "_")
    ⟨fun h => ⟨h.1, h.2⟩, fun h => ⟨h.plain, h.named⟩⟩

theorem plainNames_map (f : α → β) (kind : Kind α) :
    (kind.map f).plainNames = kind.plainNames := by
  cases kind <;> rfl

theorem ownName?_map (f : α → β) (kind : Kind α) : (kind.map f).ownName? = kind.ownName? := by
  cases kind <;> rfl

theorem Legible.map {kind : Kind α} (h : kind.Legible) (f : α → β) : (kind.map f).Legible where
  plain := by
    rw [plainNames_map]
    exact h.plain
  named := by
    rw [ownName?_map]
    exact h.named

end Kind

/-- All names in the tree are plain, and none reads like an absent one. -/
def Node.Legible (root : Node) : Prop := ∀ node ∈ root.preorder, node.kind.Legible

instance (root : Node) : Decidable root.Legible :=
  inferInstanceAs (Decidable (∀ node ∈ root.preorder, node.kind.Legible))

theorem Node.Legible.of_child {pos : Position} {kind : Kind Node} {child : Node}
    (h : Legible ⟨pos, kind⟩) (hchild : child ∈ kind.children) : child.Legible := by
  intro node hnode
  exact h node (mem_preorder_iff.mpr (.inr ⟨child, hchild, hnode⟩))

/-! ## Names of kinds -/

namespace Kind

/-- The names of the kinds in their order, with no name at the places of the two sorts of operators:
those have names of their own. -/
def headings : List String :=
  ["IntNumber", "FloatNumber", "String", "Boolean", "Null", "Identifier", "VariableIdentifier",
    "This", "", "", "Member", "MemberDot", "Call", "New", "NewWithArgs", "Array", "ObjectInit",
    "PropertyInit", "ArgumentList", "VariableDeclList", "SimpleAssignment", "MemberAssignment",
    "MemberDotAssignment", "SimpleIncrement", "Program", "SourceElements", "Block", "If", "While",
    "Do", "For", "ForIn", "ForVarIn", "VariableDeclaration", "Variable", "ExprStatement", "Return",
    "Break", "Continue", "Throw", "Try", "With", "Empty", "FunctionStatement"]

/-- The place of the kind that bears the name. -/
def placeOf (name : String) : Nat :=
  match headings.findIdx? (· == name) with
  | some i => i
  | none => if BinaryOp.all.any (fun op => op.name == name) then 8 else 9

theorem placeOf_name (kind : Kind α) : placeOf kind.name = kind.ctorIdx := by
  cases kind with
  | binary op => cases op <;> rfl
  | unary op => cases op <;> rfl
  | _ => rfl

/-- **The name tells the kind.** -/
theorem ctorIdx_of_name {kind : Kind α} {kind' : Kind β} (h : kind.name = kind'.name) :
    kind.ctorIdx = kind'.ctorIdx := by
  rw [← placeOf_name kind, h, placeOf_name]

theorem exists_string {kind : Kind α} (h : kind.name = "String") :
    ∃ value, kind = .string value := by
  have hplace : kind.ctorIdx = (string "" : Kind α).ctorIdx := ctorIdx_of_name h
  exact Kind.string.elim kind hplace fun value => ⟨value, rfl⟩

end Kind

/-! ## Legible items -/

namespace Kind

open SExpr (atom)

theorem legible_part {item : Option SExpr} (h : ∀ e ∈ item.toList, e.Legible) :
    (part item).Legible := by
  cases item with
  | none => exact .atom (by decide)
  | some e => exact h e (.head _)

theorem legible_namePart {name : Option String} (h : ∀ n ∈ name.toList, Plain n) :
    (namePart name).Legible := by
  cases name with
  | none => exact .atom (by decide)
  | some n => exact .atom (h n (.head _))

theorem legible_names {head : String} (hhead : Plain head)
    (hname : Node.headName head ≠ "String".toList) {names : List String}
    (h : ∀ name ∈ names, Plain name) : (SExpr.list head (names.map atom)).Legible := by
  refine .list hhead hname fun item hitem => ?_
  obtain ⟨name, hmem, rfl⟩ := List.mem_map.mp hitem
  exact .atom (h name hmem)

theorem legible_writeHead (op : AssignOp) (side : Option Side) :
    ∀ item ∈ writeHead op side, item.Legible := by
  have hop : (atom op.token).Legible := .atom (by cases op <;> decide)
  cases side with
  | none => exact List.forall_mem_singleton.mpr hop
  | some side =>
    have hside : (atom side.word).Legible := .atom (by cases side <;> decide)
    exact List.forall_mem_cons.mpr ⟨hop, List.forall_mem_singleton.mpr hside⟩

/-- The items of a legible kind with legible children can be read back.  Only a string is quoted. -/
theorem legible_items {kind : Kind SExpr} (h : kind.Legible)
    (hchildren : ∀ e ∈ kind.children, e.Legible) (hstring : ∀ value, kind ≠ .string value) :
    ∀ item ∈ kind.items, item.Legible := by
  have hname (name : String) (hmem : name ∈ kind.plainNames) : (atom name).Legible :=
    .atom (h.plain name hmem)
  have hnames {head : String} (hhead : Plain head) (hne : Node.headName head ≠ "String".toList)
      {names : List String} (hsub : names ⊆ kind.plainNames) :
      (SExpr.list head (names.map atom)).Legible :=
    legible_names hhead hne fun name hmem => h.plain name (hsub hmem)
  cases kind with
  | string value => exact absurd rfl (hstring value)
  | null | thisValue | empty => exact nofun
  | int value => exact List.forall_mem_singleton.mpr (.atom (plain_integer _))
  | float value => exact List.forall_mem_singleton.mpr (.atom value.plain_text)
  | boolean value =>
    refine List.forall_mem_singleton.mpr (.atom ?_)
    cases value <;> decide
  | identifier name => exact List.forall_mem_singleton.mpr (hname name (.head _))
  | binary | unary | member | call | new | newWithArgs | array | objectInit | propertyInit
  | argumentList | variableDeclList | program | block | whileLoop | doLoop | forVarIn | varStatement
  | exprStatement | throwStatement | withStatement => exact hchildren
  | breakStatement label | continueStatement label =>
    exact List.forall_mem_singleton.mpr (legible_namePart h.plain)
  | variableIdentifier depth name =>
    simp only [items, List.forall_mem_cons]
    exact ⟨.atom (plain_natural depth), hname name (.head _), nofun⟩
  | memberDot object name =>
    simp only [items, children, List.forall_mem_cons] at hchildren ⊢
    exact ⟨hchildren.1, hname name (.head _), nofun⟩
  | simpleAssignment target value op side =>
    simp only [items, children, List.forall_mem_cons, List.forall_mem_append] at hchildren ⊢
    exact ⟨legible_writeHead op side, hchildren.1, legible_part hchildren.2, nofun⟩
  | memberAssignment object index value op side =>
    simp only [items, children, List.forall_mem_cons, List.forall_mem_append] at hchildren ⊢
    obtain ⟨hobject, hindex, hvalue⟩ := hchildren
    exact ⟨legible_writeHead op side, hobject, hindex, legible_part hvalue, nofun⟩
  | memberDotAssignment object name value op side =>
    simp only [items, children, List.forall_mem_cons, List.forall_mem_append] at hchildren ⊢
    obtain ⟨hobject, hvalue⟩ := hchildren
    exact ⟨legible_writeHead op side, hobject, hname name (.head _), legible_part hvalue, nofun⟩
  | simpleIncrement target op =>
    simp only [items, children, List.forall_mem_cons] at hchildren ⊢
    exact ⟨legible_writeHead op none _ (.head _), hchildren⟩
  | sourceElements body =>
    simp only [items, children, List.forall_mem_cons, List.forall_mem_append] at hchildren ⊢
    obtain ⟨hfuncs, hstatements⟩ := hchildren
    refine ⟨hnames (by decide) (by decide) (List.Subset.refl _), ?_, hstatements⟩
    exact .list (by decide) (by decide) hfuncs
  | conditional condition thenBranch elseBranch =>
    simp only [items, children, List.forall_mem_cons] at hchildren ⊢
    obtain ⟨hcondition, hthen, helse⟩ := hchildren
    exact ⟨hcondition, hthen, legible_part helse, nofun⟩
  | forLoop init condition update body =>
    simp only [items, children, List.forall_mem_cons, List.forall_mem_append] at hchildren ⊢
    obtain ⟨hinit, hcondition, hupdate, hbody⟩ := hchildren
    exact ⟨legible_part hinit, hcondition, legible_part hupdate, hbody⟩
  | forIn name iterable body =>
    simp only [items, children, List.forall_mem_cons] at hchildren ⊢
    exact ⟨hname name (.head _), hchildren⟩
  | variableDeclaration target init =>
    simp only [items, children, List.forall_mem_cons] at hchildren ⊢
    exact ⟨hchildren.1, legible_part hchildren.2, nofun⟩
  | returnStatement value =>
    simp only [items, List.forall_mem_cons]
    exact ⟨legible_part hchildren, nofun⟩
  | tryStatement body catchParam catchBlock finallyBlock =>
    simp only [items, children, List.forall_mem_cons, List.forall_mem_append] at hchildren ⊢
    obtain ⟨hbody, hparam, hblock, hfinally⟩ := hchildren
    exact ⟨hbody, legible_part hparam, legible_part hblock, legible_part hfinally, nofun⟩
  | functionStatement function =>
    simp only [items, List.forall_mem_cons]
    refine ⟨legible_namePart fun name hmem => h.plain name (List.mem_append_left _ hmem),
      hnames (by decide) (by decide) (List.subset_append_right _ _), legible_part hchildren, nofun⟩

end Kind

/-- A legible tree is printed legibly. -/
theorem Node.legible_toSExpr {node : Node} (h : node.Legible) (positions : Bool) :
    (node.toSExpr positions).Legible := by
  induction node using induction with
  | step pos kind ih =>
    have hhead : Plain (heading positions pos kind.name) := plain_heading positions pos kind
    have hname : headName (heading positions pos kind.name) = kind.name.toList :=
      headName_heading positions pos kind
    rw [toSExpr_mk]
    by_cases hstring : kind.name = "String"
    · obtain ⟨value, rfl⟩ := Kind.exists_string hstring
      exact .string hhead hname
    · refine .list hhead ?_ (Kind.legible_items ((h _ (mem_preorder_self _)).map _) ?_ ?_)
      · rw [hname]
        exact fun heq => hstring (String.toList_inj.mp heq)
      · intro e he
        rw [Kind.children_map] at he
        obtain ⟨child, hchild, rfl⟩ := List.mem_map.mp he
        exact ih child hchild (h.of_child hchild)
      · intro value heq
        apply hstring
        rw [← Kind.name_map (toSExpr positions), heq]
        rfl

end ScriptAst
