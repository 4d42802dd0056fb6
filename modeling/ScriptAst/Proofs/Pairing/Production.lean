import ScriptAst.Proofs.Pairing.Basic

/-! # Productions keep to pairings

For every pairing that is closed under making nodes, the plan of every production for a tree agrees
with that for the tree under other names (`Pairing.plan_agree`): what it visits is inside its tree,
what it makes is made of nodes it was given, and what it fails with is placed in its tree or at such
a node.  The texts of tokens are compared with known ones, or taken for names where they have been
renamed as names.
-/
namespace ScriptAst

open Plan (Agree)

namespace AssignOp

theorem Fits.update {text : String} {op : AssignOp} {side : Side}
    (h : updateOfToken? text = some op) : op.Fits none (some side) := by
  obtain ⟨_, hop⟩ := Option.filter_eq_some_iff.mp h
  exact ⟨by simp [hop], by simp [hop]⟩

theorem Fits.assignment {text : String} {op : AssignOp} {value : Node}
    (h : assignmentOfToken? text = some op) : op.Fits (some value) none := by
  obtain ⟨_, hop⟩ := Option.filter_eq_some_iff.mp h
  exact ⟨by simpa using hop, by simpa using hop⟩

end AssignOp

theorem Node.write_eq (pos : Position) (target : Node) (op : AssignOp) (value : Option Node)
    (side : Option Side) :
    Node.write pos target op value side =
      match target.kind.view with
      | .name _ => .ok ⟨pos, .simpleAssignment target value op side⟩
      | .member object index => .ok ⟨pos, .memberAssignment object index value op side⟩
      | .memberDot object name => .ok ⟨pos, .memberDotAssignment object name value op side⟩
      | _ => if side.isSome then .ok ⟨pos, .simpleIncrement target op⟩
        else .error (.invalidTarget pos .notAssignable) := by
  obtain ⟨_, kind⟩ := target
  cases kind <;> rfl

theorem Plan.ofExcept_bind {α β : Type} (e : Except BuildError α)
    (f : α → Except BuildError β) :
    ofExcept (e >>= f) = ofExcept e >>= fun value => ofExcept (f value) := by
  cases e <;> rfl

namespace Production

theorem parameterNames_some (tree : ParseTree) (list : Node) :
    parameterNames tree (some list) =
      match list.kind.view with
      | .argumentList items => items.mapM (nameOf tree)
      | _ => .error (.malformed tree.symbol list.pos .expectedParameterList) := by
  obtain ⟨_, kind⟩ := list
  cases kind <;> rfl

end Production

namespace Pairing

open Production

variable {p : Pairing} {source source' : String} {tree : ParseTree} {α β : Type} {R : α → β → Prop}

theorem Nodes.nil : p.Nodes [] [] := ⟨[], rfl, rfl⟩

theorem Nodes.cons (pair : Paired p.node) {as bs : List Node} (h : p.Nodes as bs) :
    p.Nodes (pair.left :: as) (pair.right :: bs) := by
  obtain ⟨nodes, rfl, rfl⟩ := h
  exact ⟨pair :: nodes, rfl, rfl⟩

/-- Both nodes have a name, which is changed as names are, or none of them has. -/
theorem Closed.literalName?_eq (h : p.Closed source source') (pair : Paired p.node) :
    pair.right.literalName? = pair.left.literalName?.map p.rename := by
  obtain ⟨view, hl, hr⟩ := h.view pair.related
  rw [Node.literalName?, Node.literalName?, Kind.literalName?_eq, Kind.literalName?_eq, hl, hr]
  cases view <;> rfl

/-- A tree whose children are read and may be visited. -/
structure Entered (p : Pairing) (tree : ParseTree) : Prop where
  place : p.place tree
  children : ∀ child ∈ tree.children, p.visited child

theorem Entered.visited (ht : p.Entered tree) {part : ParseTree} {i : Nat}
    (hc : tree.child? i = some part) : p.visited part :=
  ht.children part (List.mem_of_getElem? hc)

/-! ## Reading the children -/

theorem values_agree {trees : List ParseTree} (hts : ∀ t ∈ trees, p.place t ∧ p.visited t) :
    Agree p p.Nodes (values trees) (values (trees.map (ParseTree.rename p.rename))) := by
  induction trees with
  | nil => exact .done .nil
  | cons t trees ih =>
    have htrees := ih fun u hu => hts u (List.mem_cons_of_mem _ hu)
    obtain ⟨hplace, hvisited⟩ := hts t (List.mem_cons_self ..)
    refine .visit hplace hvisited fun o o' ho => ?_
    refine htrees.bind fun rest => ?_
    cases ho with
    | none => exact .done rest.related
    | some pair => exact .done (.cons pair rest.related)

section Places

variable (h : p.Closed source source') (ht : p.place tree)
include h ht

/-- A defect that quotes the text of a token of the class `symbol`. -/
theorem malformed_agree_of (symbol : String) (defect : Defect) (hdefect : defect.Occurs) :
    Agree p R (malformed tree defect)
      (malformed (tree.rename p.rename) (defect.map (spelled p.rename symbol))) := by
  rw [malformed, malformed, ParseTree.symbol_rename]
  exact .fail (h.malformed symbol ht ht hdefect)

theorem malformed_agree (defect : Defect) (hdefect : defect.Occurs) :
    Agree p R (malformed tree defect)
      (malformed (tree.rename p.rename) (defect.map (spelled p.rename tree.symbol))) :=
  malformed_agree_of h ht tree.symbol defect hdefect

theorem child_bind (i : Nat) {f : ParseTree → Plan α} {f' : ParseTree → Plan β}
    (hf : ∀ part, tree.child? i = some part → p.place part →
      Agree p R (f part) (f' (part.rename p.rename))) :
    Agree p R (child tree i >>= f) (child (tree.rename p.rename) i >>= f') := by
  rw [child, child, ParseTree.child?_rename]
  cases hc : tree.child? i with
  | none => exact malformed_agree h ht (.missingChild i) trivial
  | some part => exact hf part hc (h.below ht (List.mem_of_getElem? hc))

/-- The text of a token on the right is that on the left, renamed if it is a name. -/
theorem text_bind {f : String → Plan α} {f' : String → Plan β}
    (hf : ∀ token, tree.text? = some token →
      Agree p R (f token) (f' (spelled p.rename tree.symbol token))) :
    Agree p R (text tree >>= f) (text (tree.rename p.rename) >>= f') := by
  rw [text, text, ParseTree.text?_rename]
  cases htext : tree.text? with
  | none => exact malformed_agree h ht .expectedToken trivial
  | some token => exact hf token htext

theorem childText_bind (i : Nat) {f : String → Plan α} {f' : String → Plan β}
    (hf : ∀ symbol token, Agree p R (f token) (f' (spelled p.rename symbol token))) :
    Agree p R (childText tree i >>= f) (childText (tree.rename p.rename) i >>= f') := by
  simp only [childText, bind_assoc]
  exact child_bind h ht i fun part _ hp => text_bind h hp fun token _ => hf part.symbol token

/-- A node is built for a tree, and it is a list of arguments if the tree is one. -/
theorem value_agree_arguments (hv : p.visited tree) :
    Agree p (fun a b => p.node a b ∧ (isArguments tree → ∃ items, a.kind = .argumentList items))
      (value tree) (value (tree.rename p.rename)) := by
  refine .visit ht hv fun o o' ho => ?_
  cases ho with
  | none => exact malformed_agree h ht .declarationAsValue trivial
  | some pair arguments => exact .done ⟨pair.related, arguments⟩

theorem value_agree (hv : p.visited tree) :
    Agree p p.node (value tree) (value (tree.rename p.rename)) :=
  (value_agree_arguments h ht hv).mono fun _ _ hn => hn.1

theorem childValue_agree_of (i : Nat) (hv : ∀ part, tree.child? i = some part → p.visited part) :
    Agree p p.node (childValue tree i) (childValue (tree.rename p.rename) i) :=
  child_bind h ht i fun part hc hp => value_agree h hp (hv part hc)

end Places

section Slots

variable (h : p.Closed source source') (ht : p.Entered tree)
include h ht

theorem childValue_agree (i : Nat) :
    Agree p p.node (childValue tree i) (childValue (tree.rename p.rename) i) :=
  childValue_agree_of h ht.place i fun _ hc => ht.visited hc

theorem childValue?_agree (i : Nat) :
    Agree p p.Part (childValue? tree i) (childValue? (tree.rename p.rename) i) := by
  rw [childValue?, childValue?, ParseTree.child?_rename]
  cases hc : tree.child? i with
  | none => exact .done ⟨none, rfl, rfl⟩
  | some part =>
    have hplace := h.below ht.place (List.mem_of_getElem? hc)
    refine (value_agree h hplace (ht.visited hc)).bind fun pair => ?_
    exact .done ⟨some pair, rfl, rfl⟩

/-- The next slot, with its part in both builds and the place behind it. -/
theorem slot_bind (i : Nat) {f : Option Node × Nat → Plan α} {f' : Option Node × Nat → Plan β}
    (hf : ∀ (part : Option (Paired p.node)) (next : Nat),
      Agree p R (f (part.map Paired.left, next)) (f' (part.map Paired.right, next))) :
    Agree p R (slot tree i >>= f) (slot (tree.rename p.rename) i >>= f') := by
  simp only [slot, bind_assoc]
  refine child_bind h ht.place i fun part hc hp => ?_
  have hempty : ((part.rename p.rename).text?.any fun text => decide (text ∈ emptySlots)) =
      part.text?.any fun text => decide (text ∈ emptySlots) := by
    rw [ParseTree.text?_rename, Option.any_map]
    simp only [h.words.mem_emptySlots_spelled]
  rw [hempty]
  split
  · exact hf none (i + 1)
  · simp only [bind_assoc]
    exact (value_agree h hp (ht.visited hc)).bind fun pair => hf (some pair) (i + 2)

theorem children_agree (n : Nat) :
    Agree p p.Nodes (values (tree.children.drop n))
      (values ((tree.rename p.rename).children.drop n)) := by
  rw [ParseTree.children_rename, ← List.map_drop]
  refine values_agree fun child hm => ?_
  have hmem := List.mem_of_mem_drop hm
  exact ⟨h.below ht.place hmem, ht.children child hmem⟩

end Slots

/-! ## Names and targets -/

section Partial

variable (h : p.Closed source source') (ht : p.place tree)
include h ht

/-- Both nodes have a name, or both builds fail at them. -/
theorem nameOf_bind (pair : Paired p.node) {f : String → Plan α} {f' : String → Plan β}
    (hf : ∀ name, pair.left.literalName? = some name → Agree p R (f name) (f' (p.rename name))) :
    Agree p R (Plan.ofExcept (nameOf tree pair.left) >>= f)
      (Plan.ofExcept (nameOf (tree.rename p.rename) pair.right) >>= f') := by
  rw [nameOf, nameOf, h.literalName?_eq pair, ParseTree.symbol_rename]
  cases hname : pair.left.literalName? with
  | none => exact .fail (h.malformedNode tree.symbol ht pair.related trivial)
  | some name => exact hf name hname

theorem nameOf_mapM (items : List (Paired p.node)) :
    Agree p (fun names names' => names' = names.map p.rename)
      (.ofExcept ((items.map Paired.left).mapM (nameOf tree)))
      (.ofExcept ((items.map Paired.right).mapM (nameOf (tree.rename p.rename)))) := by
  induction items with
  | nil => exact .done rfl
  | cons pair items ih =>
    simp only [List.map_cons, List.mapM_cons, Plan.ofExcept_bind]
    refine nameOf_bind h ht pair fun name _ => ?_
    refine ih.bind fun ⟨names, names', hnames⟩ => ?_
    cases hnames
    exact .done rfl

theorem parameterNames_agree (part : Option (Paired p.node)) :
    Agree p (fun names names' => names' = names.map p.rename)
      (.ofExcept (parameterNames tree (part.map Paired.left)))
      (.ofExcept (parameterNames (tree.rename p.rename) (part.map Paired.right))) := by
  cases part with
  | none => exact .done rfl
  | some list =>
    obtain ⟨view, hl, hr⟩ := h.view list.related
    rw [Option.map_some, Option.map_some, parameterNames_some, parameterNames_some, hl, hr,
      ParseTree.symbol_rename]
    cases view with
    | argumentList items => exact nameOf_mapM h ht items
    | _ => exact .fail (h.malformedNode tree.symbol ht list.related trivial)

theorem write_agree (target : Paired p.node) (write : AssignOp)
    (value : Option (Paired p.node)) (side : Option Side)
    (hfits : write.Fits (value.map Paired.left) side) :
    Agree p p.node
      (.ofExcept (Node.write tree.position target.left write (value.map Paired.left) side))
      (.ofExcept (Node.write (tree.rename p.rename).position target.right write
        (value.map Paired.right) side)) := by
  obtain ⟨view, hl, hr⟩ := h.view target.related
  rw [Node.write_eq, Node.write_eq, hl, hr]
  cases view with
  | name x =>
    refine .done (h.make (.simpleAssignment target value write side) ht trivial ⟨hfits, ?_⟩)
    exact Option.isSome_iff_exists.mpr ⟨x, Kind.literalName?_eq_some_iff.mpr hl⟩
  | member object index =>
    exact .done (h.make (.memberAssignment object index value write side) ht trivial hfits)
  | memberDot object x =>
    exact .done (h.make (.memberDotAssignment object x value write side) ht trivial hfits)
  | argumentList items =>
    cases side with
    | none => exact .fail (h.unwritable ht trivial)
    | some side =>
      refine .done (h.make (.simpleIncrement target write) ht trivial ⟨?_, .inr ⟨_, hl⟩⟩)
      exact hfits.side_isSome.symm
  | other =>
    cases side with
    | none => exact .fail (h.unwritable ht trivial)
    | some side =>
      refine .done (h.make (.simpleIncrement target write) ht trivial ⟨?_, .inl hl⟩)
      exact hfits.side_isSome.symm

/-! ## Productions that do not visit all children -/

/-- The text of a literal is that of a token of another class than names. -/
theorem literal_bind (hsymbol : tree.symbol ≠ Symbol.identifierName.name)
    {f : String → Plan α} {f' : String → Plan β} (hf : ∀ token, Agree p R (f token) (f' token)) :
    Agree p R (text tree >>= f) (text (tree.rename p.rename) >>= f') := by
  refine text_bind h ht fun token _ => ?_
  rw [spelled_of_ne _ _ hsymbol]
  exact hf token

theorem decimalLiteral_agree (hsymbol : tree.symbol ≠ Symbol.identifierName.name) :
    Agree p p.node (decimalLiteral tree) (decimalLiteral (tree.rename p.rename)) := by
  refine literal_bind h ht hsymbol fun token => ?_
  obtain ⟨value, hvalue⟩ | ⟨value, hvalue⟩ := Literal.decimal_eq token
  · rw [hvalue]
    exact .done (h.make (.int value) ht trivial trivial)
  · rw [hvalue]
    exact .done (h.make (.float value) ht trivial trivial)

theorem radixLiteral_agree (hsymbol : tree.symbol ≠ Symbol.identifierName.name) (radix : Nat) :
    Agree p p.node (radixLiteral radix tree) (radixLiteral radix (tree.rename p.rename)) := by
  refine literal_bind h ht hsymbol fun token => ?_
  split
  · next value _ => exact .done (h.make (.int value) ht trivial trivial)
  · have hquoted := malformed_agree h ht (R := p.node) (.notAnInteger token radix) trivial
    rwa [Defect.map, spelled_of_ne _ _ hsymbol] at hquoted

theorem stringLiteral_agree (hsymbol : tree.symbol ≠ Symbol.identifierName.name) :
    Agree p p.node (stringLiteral tree) (stringLiteral (tree.rename p.rename)) :=
  literal_bind h ht hsymbol fun token =>
    .done (h.make (.string (Literal.string token)) ht trivial trivial)

theorem identifier_agree (hsymbol : tree.symbol = Symbol.identifierName.name) :
    Agree p p.node (identifier tree) (identifier (tree.rename p.rename)) := by
  refine text_bind h ht fun name _ => ?_
  rw [hsymbol, spelled_name]
  refine .lookup fun d d' hd => ?_
  have key := h.reference ht hd
  cases d <;> cases d' <;> exact .done key

theorem primaryExpression_agree :
    Agree p p.node (primaryExpression tree) (primaryExpression (tree.rename p.rename)) :=
  .done (h.make .thisValue ht trivial trivial)

theorem propertyKey_agree (hv : p.visited tree) :
    Agree p p.node (propertyKey tree) (propertyKey (tree.rename p.rename)) := by
  rw [propertyKey, propertyKey, ParseTree.symbol_rename]
  split
  · next hsymbol =>
    refine text_bind h ht fun name _ => ?_
    rw [hsymbol, spelled_name]
    exact .done (h.make (.identifier name) ht trivial trivial)
  · exact value_agree h ht hv

theorem emptyStatement_agree :
    Agree p p.node (emptyStatement tree) (emptyStatement (tree.rename p.rename)) :=
  .done (h.make .empty ht trivial trivial)

/-- The label of a jump is taken for a name, so it must have been renamed as one. -/
theorem label_bind (hname : ∀ label, tree.child? 0 = some label → label.Named p.rename)
    {f : Option String → Plan α} {f' : Option String → Plan β}
    (hf : ∀ label, Agree p R (f label) (f' (label.map p.rename))) :
    Agree p R (label tree >>= f) (label (tree.rename p.rename) >>= f') := by
  rw [label, label, ParseTree.child?_rename]
  cases hc : tree.child? 0 with
  | none => exact hf none
  | some part =>
    simp only [Option.map_some, bind_assoc]
    refine text_bind h (h.below ht (List.mem_of_getElem? hc)) fun token htext => ?_
    rw [hname part hc token htext]
    exact hf (some token)

theorem breakStatement_agree (hname : ∀ label, tree.child? 0 = some label → label.Named p.rename) :
    Agree p p.node (breakStatement tree) (breakStatement (tree.rename p.rename)) :=
  label_bind h ht hname fun label =>
    .done (h.make (.breakStatement label) ht trivial trivial)

theorem continueStatement_agree
    (hname : ∀ label, tree.child? 0 = some label → label.Named p.rename) :
    Agree p p.node (continueStatement tree) (continueStatement (tree.rename p.rename)) :=
  label_bind h ht hname fun label =>
    .done (h.make (.continueStatement label) ht trivial trivial)

/-- The first child of a loop over keys is not visited. -/
theorem inFor_agree (hv : ∀ i part, tree.child? (i + 1) = some part → p.visited part) :
    Agree p p.node (inFor tree) (inFor (tree.rename p.rename)) := by
  refine (childValue_agree_of h ht 1 (hv 0)).bind fun target => ?_
  rw [h.literalName?_eq target]
  cases target.left.literalName? with
  | none => exact .fail (h.unwritableNode target.related trivial)
  | some name =>
    refine (childValue_agree_of h ht 2 (hv 1)).bind fun iterable => ?_
    refine (childValue_agree_of h ht 3 (hv 2)).bind fun body => ?_
    exact .done (h.make (.forIn name iterable body) ht trivial trivial)

theorem inVarFor_agree (hv : ∀ i part, tree.child? (i + 1) = some part → p.visited part) :
    Agree p p.node (inVarFor tree) (inVarFor (tree.rename p.rename)) := by
  refine (childValue_agree_of h ht 1 (hv 0)).bind fun target => ?_
  refine (childValue_agree_of h ht 2 (hv 1)).bind fun iterable => ?_
  refine (childValue_agree_of h ht 3 (hv 2)).bind fun body => ?_
  exact .done (h.make (.forVarIn target iterable body) ht trivial trivial)

omit ht in
theorem finallyBlock?_agree (hclause : ∀ clause, tree.child? 2 = some clause → p.Entered clause) :
    Agree p p.Part (finallyBlock? tree) (finallyBlock? (tree.rename p.rename)) := by
  rw [finallyBlock?, finallyBlock?, ParseTree.child?_rename]
  cases hc : tree.child? 2 with
  | none => exact .done ⟨none, rfl, rfl⟩
  | some clause =>
    refine (childValue_agree h (hclause clause hc) 1).bind fun block => ?_
    exact .done ⟨some block, rfl, rfl⟩

/-- The clauses of a `try` statement are read and not visited. -/
theorem tryStatement_agree (hbody : ∀ body, tree.child? 0 = some body → p.visited body)
    (hclause : ∀ clause, tree.child? 1 = some clause → p.Entered clause ∧
      ∀ keyword, clause.child? 0 = some keyword → keyword.isToken "catch" →
        ∀ last, tree.child? 2 = some last → p.Entered last) :
    Agree p p.node (tryStatement tree) (tryStatement (tree.rename p.rename)) := by
  refine (childValue_agree_of h ht 0 hbody).bind fun body => ?_
  refine child_bind h ht 1 fun clause hc _ => ?_
  obtain ⟨hclause, hlast⟩ := hclause clause hc
  refine child_bind h hclause.place 0 fun keyword hkeyword _ => ?_
  have hcatch : "catch" ∈ comparedTexts := by decide
  rw [ParseTree.isToken_rename h.words hcatch]
  split
  · next hfirst =>
    refine (childValue_agree h hclause 1).bind fun param => ?_
    refine (childValue_agree h hclause 2).bind fun handler => ?_
    refine (finallyBlock?_agree h (hlast keyword hkeyword hfirst)).bind
      fun ⟨_, _, last, hl, hr⟩ => ?_
    subst hl hr
    exact .done (h.make (.tryStatement body (some param) (some handler) last) ht trivial
      ⟨rfl, .inl rfl⟩)
  · refine (childValue_agree h hclause 1).bind fun last => ?_
    exact .done (h.make (.tryStatement body none none (some last)) ht trivial ⟨rfl, .inr rfl⟩)



end Partial

section Productions

variable (h : p.Closed source source') (ht : p.Entered tree)
include h ht

/-! ## Expressions -/

theorem keywordLiteral_agree :
    Agree p p.node (keywordLiteral tree) (keywordLiteral (tree.rename p.rename)) := by
  refine childText_bind h ht.place 0 fun symbol word => ?_
  have hsame {known : String} := @KeepsWords.spelled_eq_iff _ h.words symbol word known
  have htrue : "true" ∈ comparedTexts := by decide
  have hfalse : "false" ∈ comparedTexts := by decide
  have hnull : "null" ∈ comparedTexts := by decide
  simp only [hsame htrue, hsame hfalse, hsame hnull]
  split
  · exact .done (h.make (.boolean true) ht.place trivial trivial)
  split
  · exact .done (h.make (.boolean false) ht.place trivial trivial)
  split
  · exact .done (h.make .null ht.place trivial trivial)
  · exact malformed_agree_of h ht.place symbol (.unknownLiteral word) trivial

theorem unaryExpression_agree :
    Agree p p.node (unaryExpression tree) (unaryExpression (tree.rename p.rename)) := by
  refine child_bind h ht.place 0 fun op _ hop => ?_
  refine text_bind h hop fun token _ => ?_
  refine (childValue_agree h ht 1).bind fun operand => ?_
  rw [h.words.update_spelled, h.words.unaryOp_spelled]
  split
  · next update hupdate =>
    exact write_agree h hop operand update none (some .pre) (AssignOp.Fits.update hupdate)
  split
  · next unary _ => exact .done (h.make (.unary unary operand) hop trivial trivial)
  · rw [ParseTree.symbol_rename]
    exact .fail (h.malformed op.symbol ht.place hop trivial)

theorem postfixExpression_agree :
    Agree p p.node (postfixExpression tree) (postfixExpression (tree.rename p.rename)) := by
  refine child_bind h ht.place 1 fun op _ hop => ?_
  refine text_bind h hop fun token _ => ?_
  refine (childValue_agree h ht 0).bind fun operand => ?_
  rw [h.words.update_spelled]
  split
  · next update hupdate =>
    exact write_agree h hop operand update none (some .post) (AssignOp.Fits.update hupdate)
  · rw [ParseTree.symbol_rename]
    exact .fail (h.malformed op.symbol ht.place hop trivial)

theorem assignmentExpression_agree :
    Agree p p.node (assignmentExpression tree) (assignmentExpression (tree.rename p.rename)) := by
  refine (childValue_agree h ht 0).bind fun target => ?_
  refine childText_bind h ht.place 1 fun symbol token => ?_
  rw [h.words.assignment_spelled]
  split
  · next op hop =>
    refine (childValue_agree h ht 2).bind fun value => ?_
    exact write_agree h ht.place target op (some value) none (AssignOp.Fits.assignment hop)
  · exact malformed_agree_of h ht.place symbol (.unknownAssignmentOperator token) trivial

theorem conditionalExpression_agree :
    Agree p p.node (conditionalExpression tree) (conditionalExpression (tree.rename p.rename)) := by
  refine (childValue_agree h ht 0).bind fun condition => ?_
  refine (childValue_agree h ht 2).bind fun thenBranch => ?_
  refine (childValue_agree h ht 3).bind fun elseBranch => ?_
  exact .done
    (h.make (.conditional condition thenBranch (some elseBranch)) ht.place trivial trivial)

theorem newExpression_agree :
    Agree p p.node (newExpression tree) (newExpression (tree.rename p.rename)) := by
  rw [newExpression, newExpression, ParseTree.children_rename, List.length_map]
  split
  · exact childValue_agree h ht 0
  · refine (childValue_agree h ht 1).bind fun callee => ?_
    exact .done (h.make (.new callee) ht.place trivial trivial)

theorem arguments_agree :
    Agree p (fun a b => p.node a b ∧ ∃ items, a.kind = .argumentList items)
      (arguments tree) (arguments (tree.rename p.rename)) := by
  refine (children_agree h ht 1).bind fun ⟨_, _, items, hl, hr⟩ => ?_
  subst hl hr
  exact .done ⟨h.make (.argumentList items) ht.place trivial trivial, _, rfl⟩

theorem formalParameterList_agree :
    Agree p p.node (formalParameterList tree) (formalParameterList (tree.rename p.rename)) := by
  refine (children_agree h ht 0).bind fun ⟨_, _, items, hl, hr⟩ => ?_
  subst hl hr
  exact .done (h.make (.argumentList items) ht.place trivial trivial)

theorem arrayLiteral_agree :
    Agree p p.node (arrayLiteral tree) (arrayLiteral (tree.rename p.rename)) := by
  refine child_bind h ht.place 0 fun opening _ hopening => ?_
  refine (children_agree h ht 1).bind fun ⟨_, _, items, hl, hr⟩ => ?_
  subst hl hr
  exact .done (h.make (.array items) hopening trivial trivial)

theorem objectLiteral_agree :
    Agree p p.node (objectLiteral tree) (objectLiteral (tree.rename p.rename)) := by
  refine child_bind h ht.place 0 fun opening _ hopening => ?_
  refine (children_agree h ht 1).bind fun ⟨_, _, items, hl, hr⟩ => ?_
  subst hl hr
  exact .done (h.make (.objectInit items) hopening trivial trivial)

theorem propertyNameAndValue_agree :
    Agree p p.node (propertyNameAndValue tree) (propertyNameAndValue (tree.rename p.rename)) := by
  refine child_bind h ht.place 0 fun part hc hpart => ?_
  refine (propertyKey_agree h hpart (ht.visited hc)).bind fun key => ?_
  refine (childValue_agree h ht 1).bind fun value => ?_
  exact .done (h.make (.propertyInit key value) ht.place trivial trivial)

/-! ## Chains -/

/-- What stands behind a dot is taken for a name, so it must have been renamed as one. -/
theorem link_agree {op operand : ParseTree} (hop : p.place op)
    (hoperand : p.place operand ∧ p.visited operand) {token : String}
    (hname : token = "." → operand.Named p.rename) (left : Paired p.node) :
    Agree p
      (fun a b => p.node ⟨op.position, a⟩ ⟨(op.rename p.rename).position, b⟩)
      (link tree op token left.left operand)
      (link (tree.rename p.rename) (op.rename p.rename) (spelled p.rename op.symbol token)
        left.right (operand.rename p.rename)) := by
  have hsame {known : String} := @KeepsWords.spelled_eq_iff _ h.words op.symbol token known
  have hdot : "." ∈ comparedTexts := by decide
  have hbracket : "[" ∈ comparedTexts := by decide
  simp only [link, hsame hdot, hsame hbracket, h.words.binaryOp_spelled, ParseTree.symbol_rename]
  split
  · next hdot =>
    refine text_bind h hoperand.1 fun name htext => ?_
    rw [hname hdot name htext]
    exact .done (h.make (.memberDot left name) hop trivial trivial)
  split
  · refine (value_agree h hoperand.1 hoperand.2).bind fun index => ?_
    exact .done (h.make (.member left index) hop trivial trivial)
  split
  · next binary _ =>
    refine (value_agree h hoperand.1 hoperand.2).bind fun right => ?_
    exact .done (h.make (.binary binary left right) hop trivial trivial)
  · exact .fail (h.malformed op.symbol ht.place hop trivial)

theorem chain_agree {symbol : Symbol} (hsymbol : tree.symbol = symbol.name)
    (hchain : symbol.isChain) (hl : tree.Labelled p.rename) :
    ∀ (links : List ParseTree) (left : Paired p.node) (i : Nat), links <:+ tree.children →
      Agree p p.node (chain tree left.left i links)
        (chain (tree.rename p.rename) left.right i (links.map (ParseTree.rename p.rename)))
  | [], left, _, _ => .done left.related
  | [.token _ _ _], _, i, _ => malformed_agree h ht.place (.missingChild (i + 1)) trivial
  | .token symbol token pos :: operand :: links, left, i, hlinks => by
    have hmem {part : ParseTree} (hpart : part ∈ .token symbol token pos :: operand :: links) :
        p.place part ∧ p.visited part :=
      ⟨h.below ht.place (hlinks.subset hpart), ht.children part (hlinks.subset hpart)⟩
    have hname : token = "." → operand.Named p.rename := fun hdot =>
      hl.access hsymbol hchain hlinks (decide_eq_true (congrArg some hdot))
    have hrest : links <:+ tree.children :=
      ((List.suffix_cons ..).trans (List.suffix_cons ..)).trans hlinks
    refine (link_agree h ht (hmem (.head _)).1 (hmem (.tail _ (.head _))) hname left).bind
      fun kind => ?_
    exact chain_agree hsymbol hchain hl links ⟨_, _, kind.related⟩ (i + 2) hrest
  | .node symbol children :: links, left, i, hlinks => by
    have hnode : ParseTree.node symbol children ∈ tree.children := hlinks.subset (.head _)
    have hplace := h.below ht.place hnode
    have hrename := ParseTree.rename_node p.rename symbol children
    rw [List.map_cons, hrename, chain, chain, ← hrename, ParseTree.isArguments_rename]
    split
    · next hargs =>
      have harguments := value_agree_arguments h hplace (ht.children _ hnode)
      refine harguments.bind fun ⟨a, b, hab, hkind⟩ => ?_
      have hcall := h.make (.call left ⟨a, b, hab⟩) ht.place trivial (hkind hargs)
      exact chain_agree hsymbol hchain hl links ⟨_, _, hcall⟩ (i + 1)
        ((List.suffix_cons ..).trans hlinks)
    · rw [ParseTree.symbol_rename]
      exact .fail (h.malformed symbol ht.place hplace trivial)

section Chains

variable {symbol : Symbol} (hsymbol : tree.symbol = symbol.name) (hchain : symbol.isChain)
  (hl : tree.Labelled p.rename)
include hsymbol hchain hl

theorem drop_agree (left : Paired p.node) (i : Nat) :
    Agree p p.node (chain tree left.left i (tree.children.drop i))
      (chain (tree.rename p.rename) left.right i ((tree.rename p.rename).children.drop i)) := by
  rw [ParseTree.children_rename, ← List.map_drop]
  exact chain_agree h ht hsymbol hchain hl _ left i (List.drop_suffix i _)

theorem chainFromHead_agree :
    Agree p p.node (chainFromHead tree) (chainFromHead (tree.rename p.rename)) :=
  (childValue_agree h ht 0).bind fun head => drop_agree h ht hsymbol hchain hl head 1

theorem memberExpression_agree :
    Agree p p.node (memberExpression tree) (memberExpression (tree.rename p.rename)) := by
  refine child_bind h ht.place 0 fun first _ _ => ?_
  have hnew : "new" ∈ comparedTexts := by decide
  have harguments : ((tree.rename p.rename).child? 2).filter isArguments =
      ((tree.child? 2).filter isArguments).map (ParseTree.rename p.rename) := by
    rw [ParseTree.child?_rename, Option.filter_map]
    simp only [Function.comp_def, ParseTree.isArguments_rename]
  rw [ParseTree.isToken_rename h.words hnew, harguments]
  split
  · refine (childValue_agree h ht 1).bind fun callee => ?_
    cases hfound : (tree.child? 2).filter isArguments with
    | some arguments =>
      obtain ⟨hchild, hargs⟩ := Option.filter_eq_some_iff.mp hfound
      have hplace := h.below ht.place (List.mem_of_getElem? hchild)
      refine (value_agree_arguments h hplace (ht.visited hchild)).bind
        fun ⟨a, b, hab, hkind⟩ => ?_
      have hmade := h.make (.newWithArgs callee ⟨a, b, hab⟩) ht.place trivial (hkind hargs)
      exact drop_agree h ht hsymbol hchain hl ⟨_, _, hmade⟩ 3
    | none =>
      have hmade := h.make (.new callee) ht.place trivial trivial
      exact drop_agree h ht hsymbol hchain hl ⟨_, _, hmade⟩ 2
  · exact chainFromHead_agree h ht hsymbol hchain hl

end Chains

/-! ## Bodies and functions -/

theorem program_agree :
    Agree p p.node (program source tree) (program source' (tree.rename p.rename)) := by
  have hbody : ((tree.rename p.rename).child? 0).filter (fun first => !first.isTerminal) =
      ((tree.child? 0).filter fun first => !first.isTerminal).map (ParseTree.rename p.rename) := by
    rw [ParseTree.child?_rename, Option.filter_map]
    simp only [Function.comp_def, ParseTree.isTerminal_rename]
  rw [program, program, hbody]
  cases hfound : (tree.child? 0).filter fun first => !first.isTerminal with
  | some body =>
    obtain ⟨hchild, _⟩ := Option.filter_eq_some_iff.mp hfound
    have hplace := h.below ht.place (List.mem_of_getElem? hchild)
    refine (value_agree h hplace (ht.visited hchild)).bind fun body => ?_
    exact .done (h.make (.program body) ht.place trivial trivial)
  | none =>
    have hbody := h.sourceElements ht.place h.emptyBody
    exact .done (h.make (.program ⟨_, _, hbody⟩) ht.place trivial trivial)

theorem sourceElements_agree :
    Agree p p.node (sourceElements source tree)
      (sourceElements source' (tree.rename p.rename)) := by
  rw [sourceElements, sourceElements, ParseTree.children_rename]
  refine .body (fun child hc => ⟨h.below ht.place hc, ht.children child hc⟩) ?_
  exact fun _ _ _ _ hbody => .done (h.sourceElements ht.place hbody)

theorem functionParts_bind {f : Option Node × Option Node × Option Node → Plan α}
    {f' : Option Node × Option Node × Option Node → Plan β}
    (hf : ∀ name parameters body : Option (Paired p.node),
      Agree p R (f (name.map Paired.left, parameters.map Paired.left, body.map Paired.left))
        (f' (name.map Paired.right, parameters.map Paired.right, body.map Paired.right))) :
    Agree p R (functionParts tree >>= f) (functionParts (tree.rename p.rename) >>= f') := by
  simp only [functionParts, bind_assoc]
  refine slot_bind h ht 0 fun name i => ?_
  refine slot_bind h ht i fun parameters i => ?_
  exact slot_bind h ht i fun body _ => hf name parameters body

theorem functionExpression_agree :
    Agree p p.node (functionExpression tree) (functionExpression (tree.rename p.rename)) := by
  refine functionParts_bind h ht fun identifier parameters body => ?_
  have hname : Agree p (fun name name' => name' = name.map p.rename)
      (.ofExcept ((identifier.map Paired.left).mapM (nameOf tree)))
      (.ofExcept ((identifier.map Paired.right).mapM (nameOf (tree.rename p.rename)))) := by
    cases identifier with
    | none => exact .done rfl
    | some identifier =>
      simp only [Option.map_some, Option.mapM_some, map_eq_pure_bind, Plan.ofExcept_bind]
      exact nameOf_bind h ht.place identifier fun name _ => .done rfl
  refine hname.bind fun ⟨name, _, hn⟩ => ?_
  refine (parameterNames_agree h ht.place parameters).bind fun ⟨params, _, hp⟩ => ?_
  subst hn hp
  exact .done (h.make (.functionStatement ⟨name, params, body⟩) ht.place trivial trivial)

theorem functionDeclaration_agree :
    Agree p (p.Answer tree) (functionDeclaration tree)
      (functionDeclaration (tree.rename p.rename)) := by
  refine functionParts_bind h ht fun identifier parameters body => ?_
  cases identifier with
  | none => exact malformed_agree h ht.place .unnamedDeclaration trivial
  | some identifier =>
    refine nameOf_bind h ht.place identifier fun name _ => ?_
    refine (parameterNames_agree h ht.place parameters).bind fun ⟨params, _, hp⟩ => ?_
    subst hp
    have hnode := h.make (.functionStatement ⟨some name, params, body⟩) ht.place trivial trivial
    refine .declareFunc ⟨_, _, hnode⟩ rfl rfl fun isOpen => ?_
    split
    · exact .done .none
    · exact malformed_agree h ht.place .functionOutsideBody trivial

/-! ## Statements -/

theorem variableStatement_agree :
    Agree p p.node (variableStatement tree) (variableStatement (tree.rename p.rename)) :=
  (childValue_agree h ht 0).bind fun list =>
    .done (h.make (.varStatement list) ht.place trivial trivial)

theorem variableDeclarationList_agree :
    Agree p p.node (variableDeclarationList tree)
      (variableDeclarationList (tree.rename p.rename)) := by
  refine (children_agree h ht 0).bind fun ⟨_, _, items, hl, hr⟩ => ?_
  subst hl hr
  exact .done (h.make (.variableDeclList items) ht.place trivial trivial)

theorem variableDeclaration_agree :
    Agree p p.node (variableDeclaration tree) (variableDeclaration (tree.rename p.rename)) := by
  refine (childValue_agree h ht 0).bind fun target => ?_
  refine nameOf_bind h ht.place target fun name hname => ?_
  refine .declareVar fun isOpen => ?_
  split
  · refine (childValue?_agree h ht 1).bind fun ⟨_, _, init, hl, hr⟩ => ?_
    subst hl hr
    refine .done (h.make (.variableDeclaration target init) ht.place trivial ?_)
    exact Option.isSome_iff_exists.mpr ⟨name, hname⟩
  · exact malformed_agree h ht.place .variableOutsideBody trivial

theorem expressionStatement_agree :
    Agree p p.node (expressionStatement tree) (expressionStatement (tree.rename p.rename)) :=
  (childValue_agree h ht 0).bind fun expression =>
    .done (h.make (.exprStatement expression) ht.place trivial trivial)

theorem block_agree : Agree p p.node (block tree) (block (tree.rename p.rename)) := by
  refine (children_agree h ht 1).bind fun ⟨_, _, statements, hl, hr⟩ => ?_
  subst hl hr
  exact .done (h.make (.block statements) ht.place trivial trivial)

theorem returnStatement_agree :
    Agree p p.node (returnStatement tree) (returnStatement (tree.rename p.rename)) := by
  refine (childValue?_agree h ht 0).bind fun ⟨_, _, value, hl, hr⟩ => ?_
  subst hl hr
  exact .done (h.make (.returnStatement value) ht.place trivial trivial)

theorem throwStatement_agree :
    Agree p p.node (throwStatement tree) (throwStatement (tree.rename p.rename)) :=
  (childValue_agree h ht 0).bind fun value =>
    .done (h.make (.throwStatement value) ht.place trivial trivial)

theorem withStatement_agree :
    Agree p p.node (withStatement tree) (withStatement (tree.rename p.rename)) := by
  refine (childValue_agree h ht 0).bind fun object => ?_
  refine (childValue_agree h ht 1).bind fun body => ?_
  exact .done (h.make (.withStatement object body) ht.place trivial trivial)

theorem ifStatement_agree :
    Agree p p.node (ifStatement tree) (ifStatement (tree.rename p.rename)) := by
  refine (childValue_agree h ht 0).bind fun condition => ?_
  refine (childValue_agree h ht 1).bind fun thenBranch => ?_
  refine (childValue?_agree h ht 2).bind fun ⟨_, _, elseBranch, hl, hr⟩ => ?_
  subst hl hr
  exact .done (h.make (.conditional condition thenBranch elseBranch) ht.place trivial trivial)

theorem whiles_agree : Agree p p.node (whiles tree) (whiles (tree.rename p.rename)) := by
  refine childText_bind h ht.place 0 fun symbol keyword => ?_
  have hsame {known : String} := @KeepsWords.spelled_eq_iff _ h.words symbol keyword known
  have hwhile : "while" ∈ comparedTexts := by decide
  have hdo : "do" ∈ comparedTexts := by decide
  simp only [hsame hwhile, hsame hdo]
  split
  · refine (childValue_agree h ht 1).bind fun condition => ?_
    refine (childValue_agree h ht 2).bind fun body => ?_
    exact .done (h.make (.whileLoop condition body) ht.place trivial trivial)
  split
  · refine (childValue_agree h ht 1).bind fun body => ?_
    refine (childValue_agree h ht 2).bind fun condition => ?_
    exact .done (h.make (.doLoop body condition) ht.place trivial trivial)
  · exact malformed_agree_of h ht.place symbol (.unknownLoopKeyword keyword) trivial

/-- An absent part of a loop is filled in with a leaf. -/
theorem getD_related (part : Option (Paired p.node)) (kind : Kind (Paired p.node))
    (hplain : kind.IsPlain) (hsound : (kind.map Paired.left).Sound) :
    p.node ((part.map Paired.left).getD (nodeAt tree (kind.map Paired.left)))
      ((part.map Paired.right).getD
        (nodeAt (tree.rename p.rename) ((kind.map Paired.right).rename p.rename))) := by
  cases part with
  | none => exact h.make kind ht.place hplain hsound
  | some part => exact part.related

theorem regularFor_agree :
    Agree p p.node (regularFor tree) (regularFor (tree.rename p.rename)) := by
  refine slot_bind h ht 1 fun init i => ?_
  refine slot_bind h ht i fun condition i => ?_
  refine slot_bind h ht i fun update i => ?_
  refine slot_bind h ht i fun body _ => ?_
  have hcondition := getD_related h ht condition (.boolean true) trivial trivial
  have hbody := getD_related h ht body .empty trivial trivial
  exact .done
    (h.make (.forLoop init ⟨_, _, hcondition⟩ update ⟨_, _, hbody⟩) ht.place trivial trivial)

end Productions

/-! ## All symbols -/

theorem getElem?_drop_children (tree : ParseTree) (i : Nat) :
    (tree.children.drop 1)[i]? = tree.child? (i + 1) := by
  rw [List.getElem?_drop, Nat.add_comm]
  rfl

theorem mem_drop_of_child? {child : ParseTree} {i : Nat} (h : tree.child? (i + 1) = some child) :
    child ∈ tree.children.drop 1 :=
  List.mem_of_getElem? ((getElem?_drop_children tree i).trans h)

/-- A plan that makes a node for a tree that is no list of arguments answers the visit of it. -/
theorem node_answer {symbol : Symbol} (hsymbol : tree.symbol = symbol.name)
    (hne : symbol ≠ .arguments) {plan plan' : Plan Node} (h : Agree p p.node plan plan') :
    Agree p (p.Answer tree) (Symbol.plan.node plan) (Symbol.plan.node plan') := by
  refine h.bind fun pair => .done (.some pair fun hargs => ?_)
  simp only [isArguments, Bool.and_eq_true, decide_eq_true_eq] at hargs
  exact absurd (Symbol.name_inj.mp (hsymbol.symm.trans hargs.2)) hne

/-- **Every production keeps to every closed pairing** that lets it visit what is reached in its
tree. -/
theorem plan_agree (h : p.Closed source source') (ht : p.place tree)
    (hl : tree.Labelled p.rename) (hv : ∀ child ∈ tree.reached, p.visited child)
    {symbol : Symbol} (hs : Symbol.ofName? tree.symbol = some symbol) :
    Agree p (p.Answer tree) (symbol.plan source tree)
      (symbol.plan source' (tree.rename p.rename)) := by
  have hsymbol : tree.symbol = symbol.name := (Symbol.name_of_ofName? hs).symm
  have hreached {child : ParseTree} (hchild : child ∈ symbol.reached tree.children) :
      p.visited child := hv child (ParseTree.reached_of_symbol hsymbol ▸ hchild)
  have hopen (hall : symbol.reached tree.children = tree.children) : p.Entered tree :=
    ⟨ht, fun child hchild => hreached (hall.symm ▸ hchild)⟩
  have hclass (hname : symbol ≠ .identifierName) : tree.symbol ≠ Symbol.identifierName.name :=
    fun hsame => hname (Symbol.name_inj.mp (hsymbol.symm.trans hsame))
  by_cases harguments : symbol = .arguments
  · subst harguments
    refine (arguments_agree h (hopen rfl)).bind fun ⟨a, b, hab, hkind⟩ => ?_
    exact .done (.some ⟨a, b, hab⟩ fun _ => hkind)
  have hnode {plan plan' : Plan Node} (hagree : Agree p p.node plan plan') :
      Agree p (p.Answer tree) (Symbol.plan.node plan) (Symbol.plan.node plan') :=
    node_answer hsymbol harguments hagree
  cases symbol with
  | arguments => exact absurd rfl harguments
  | functionDeclaration => exact functionDeclaration_agree h (hopen rfl)
  | decimalLiteral => exact hnode (decimalLiteral_agree h ht (hclass nofun))
  | hexIntegerLiteral => exact hnode (radixLiteral_agree h ht (hclass nofun) 16)
  | octalLiteral => exact hnode (radixLiteral_agree h ht (hclass nofun) 8)
  | doubleString | singleString => exact hnode (stringLiteral_agree h ht (hclass nofun))
  | identifierName => exact hnode (identifier_agree h ht hsymbol)
  | program => exact hnode (program_agree h (hopen rfl))
  | sourceElements => exact hnode (sourceElements_agree h (hopen rfl))
  | functionExpression => exact hnode (functionExpression_agree h (hopen rfl))
  | formalParameterList => exact hnode (formalParameterList_agree h (hopen rfl))
  | variableStatement => exact hnode (variableStatement_agree h (hopen rfl))
  | variableDeclarationList | variableDeclarationListNoIn =>
    exact hnode (variableDeclarationList_agree h (hopen rfl))
  | variableDeclaration | variableDeclarationNoIn =>
    exact hnode (variableDeclaration_agree h (hopen rfl))
  | expressionStatement => exact hnode (expressionStatement_agree h (hopen rfl))
  | emptyStatement => exact hnode (emptyStatement_agree h ht)
  | block => exact hnode (block_agree h (hopen rfl))
  | ifStatement => exact hnode (ifStatement_agree h (hopen rfl))
  | iterationStatement => exact hnode (childValue_agree h (hopen rfl) 0)
  | whiles => exact hnode (whiles_agree h (hopen rfl))
  | regularFor | regularVarFor => exact hnode (regularFor_agree h (hopen rfl))
  | inFor =>
    refine hnode (inFor_agree h ht fun i part hpart => hreached ?_)
    exact mem_drop_of_child? hpart
  | inVarFor =>
    refine hnode (inVarFor_agree h ht fun i part hpart => hreached ?_)
    exact mem_drop_of_child? hpart
  | continueStatement =>
    refine hnode (continueStatement_agree h ht fun label hlabel => ?_)
    exact hl.jump hsymbol rfl hlabel
  | breakStatement =>
    refine hnode (breakStatement_agree h ht fun label hlabel => ?_)
    exact hl.jump hsymbol rfl hlabel
  | returnStatement => exact hnode (returnStatement_agree h (hopen rfl))
  | withStatement => exact hnode (withStatement_agree h (hopen rfl))
  | throwStatement => exact hnode (throwStatement_agree h (hopen rfl))
  | tryStatement =>
    have hread {clause : ParseTree}
        (hclause : clause ∈ Symbol.readClauses (tree.children.drop 1))
        (hplace : p.place clause) : p.Entered clause :=
      ⟨hplace, fun child hchild => hreached
        (List.mem_append_right _ (List.mem_flatMap.mpr ⟨clause, hclause, hchild⟩))⟩
    refine hnode (tryStatement_agree h ht (fun body hbody => ?_)
      fun clause hclause => ⟨?_, fun keyword hkeyword hcatch last hlast => ?_⟩)
    · refine hreached (List.mem_append_left _ ?_)
      exact List.mem_of_getElem? ((List.getElem?_take_of_lt Nat.one_pos).trans hbody)
    · have hfirst := (getElem?_drop_children tree 0).trans hclause
      exact hread (Symbol.mem_readClauses hfirst) (h.below ht (List.mem_of_getElem? hclause))
    · have hfirst := (getElem?_drop_children tree 0).trans hclause
      have hsecond := (getElem?_drop_children tree 1).trans hlast
      exact hread (Symbol.mem_readClauses_of_catch hfirst hkeyword hcatch hsecond)
        (h.below ht (List.mem_of_getElem? hlast))
  | assignmentExpression | assignmentExpressionNoIn =>
    exact hnode (assignmentExpression_agree h (hopen rfl))
  | conditionalExpression => exact hnode (conditionalExpression_agree h (hopen rfl))
  | unaryExpression => exact hnode (unaryExpression_agree h (hopen rfl))
  | postfixExpression => exact hnode (postfixExpression_agree h (hopen rfl))
  | newExpression => exact hnode (newExpression_agree h (hopen rfl))
  | memberExpression => exact hnode (memberExpression_agree h (hopen rfl) hsymbol rfl hl)
  | primaryExpression => exact hnode (primaryExpression_agree h ht)
  | arrayLiteral => exact hnode (arrayLiteral_agree h (hopen rfl))
  | objectLiteral => exact hnode (objectLiteral_agree h (hopen rfl))
  | propertyNameAndValue => exact hnode (propertyNameAndValue_agree h (hopen rfl))
  | nullLiteral | booleanLiteral => exact hnode (keywordLiteral_agree h (hopen rfl))
  | expression | expressionNoIn | logicalOrExpression | logicalAndExpression
  | bitwiseOrExpression | bitwiseXorExpression | bitwiseAndExpression | equalityExpression
  | relationalExpression | shiftExpression | additiveExpression | multiplicativeExpression
  | callExpression => exact hnode (chainFromHead_agree h (hopen rfl) hsymbol rfl hl)

end Pairing
end ScriptAst
