import ScriptAst.Proofs.Printing.Legible

/-! # What a printed tree tells

The `Outline` of a tree has the kinds and names in it, and the positions if they are asked for, but
neither the name of the source nor the names that functions are filed under, and of a float its text
only.  Legible trees are printed the same just when they have the same outline
(`print_eq_iff_outline`).

The name of a kind tells the kind, and then its items tell the rest (`PrintedAlike.shown_eq`): it is
known what stands at which place of the list, and what stands for an absent part is neither a node
nor a name.
-/
namespace ScriptAst

variable {α β : Type}

/-! ## Outlines -/

/-- What a kind shows: a float its text, and a body neither the names its functions are filed under
nor that of the source. -/
def Kind.shown : Kind α → String ⊕ Kind α
  | float value => .inl value.text
  | sourceElements body =>
    .inr (sourceElements
      ⟨body.varNames, body.funcDecls.map (fun decl => ("", decl.2)), body.statements, ""⟩)
  | kind => .inr kind

/-- What is printed of a tree. -/
inductive Outline where
  | mk (pos : Option Position) (shown : String ⊕ Kind Outline)

/-- The outline of a node over those of its children. -/
def Outline.ofKind (positions : Bool) (pos : Position) (kind : Kind Outline) : Outline :=
  .mk (if positions then some pos else none) kind.shown

/-- What is printed of the tree, with or without positions. -/
def Node.outline (positions : Bool) (node : Node) : Outline := node.fold (Outline.ofKind positions)

theorem Node.outline_mk (positions : Bool) (pos : Position) (kind : Kind Node) :
    outline positions ⟨pos, kind⟩ =
      .mk (if positions then some pos else none) (kind.map (outline positions)).shown := by
  rw [outline, fold_mk]
  rfl

namespace Kind

open SExpr (atom)

theorem shown_map (f : α → β) (kind : Kind α) :
    (kind.map f).shown = kind.shown.map id (Kind.map f) := by
  cases kind with
  | sourceElements body => simp [map, shown, Function.comp_def]
  | _ => rfl

/-- The children are among what is shown. -/
theorem children_of_shown {kind kind' : Kind α} (h : kind.shown = kind'.shown) :
    kind.children = kind'.children := by
  have hchildren (kind : Kind α) :
      kind.children = kind.shown.elim (fun _ => []) Kind.children := by
    cases kind with
    | sourceElements body => simp [shown, children, Function.comp_def]
    | _ => rfl
  rw [hchildren kind, hchildren kind', h]

theorem part_injective {item item' : Option SExpr} (h : ∀ e ∈ item, e ≠ absent)
    (h' : ∀ e ∈ item', e ≠ absent) (heq : part item = part item') : item = item' := by
  cases item with
  | none =>
    cases item' with
    | none => rfl
    | some e' => exact absurd heq.symm (h' e' rfl)
  | some e =>
    cases item' with
    | none => exact absurd heq (h e rfl)
    | some e' => exact congrArg some heq

theorem namePart_injective {name name' : Option String} (h : name ≠ some "_")
    (h' : name' ≠ some "_") (heq : namePart name = namePart name') : name = name' := by
  have present {name : Option String} (h : name ≠ some "_") :
      ∀ e ∈ name.map atom, e ≠ absent := by
    intro e he hsame
    obtain ⟨n, rfl, rfl⟩ := Option.map_eq_some_iff.mp he
    exact h (congrArg some (SExpr.atom.inj hsame))
  have hatoms : name.map atom = name'.map atom := part_injective (present h) (present h') heq
  exact Option.map_injective (fun _ _ => SExpr.atom.inj) hatoms

theorem names_injective {names names' : List String} (h : names.map atom = names'.map atom) :
    names = names' :=
  (List.map_inj_right fun _ _ => SExpr.atom.inj).mp h

theorem token_injective {op op' : AssignOp} (h : op.token = op'.token) : op = op' := by
  have hop := AssignOp.ofToken?_token op
  rw [h, AssignOp.ofToken?_token] at hop
  exact (Option.some.inj hop).symm

/-- The head of an assignment has one atom or two, so it is told from as many items behind it. -/
theorem writeHead_append_inj {op op' : AssignOp} {side side' : Option Side}
    {items items' : List SExpr} (h : writeHead op side ++ items = writeHead op' side' ++ items')
    (hlength : items.length = items'.length) : op = op' ∧ side = side' ∧ items = items' := by
  have hword {side side' : Side} (h : side.word = side'.word) : side = side' := by
    cases side <;> cases side' <;> first | rfl | exact absurd h (by decide)
  obtain ⟨hhead, hitems⟩ := List.append_inj' h hlength
  obtain ⟨hop, hside⟩ := List.cons_eq_cons.mp hhead
  refine ⟨token_injective (SExpr.atom.inj hop), ?_, hitems⟩
  cases side with
  | none =>
    cases side' with
    | none => rfl
    | some side' => cases hside
  | some side =>
    cases side' with
    | none => cases hside
    | some side' => rw [hword (SExpr.atom.inj (List.cons_eq_cons.mp hside).1)]

/-- Two kinds that are printed alike, with parts and names that do not read like absent ones. -/
structure PrintedAlike (kind kind' : Kind SExpr) : Prop where
  sameName : kind.name = kind'.name
  sameItems : kind.items = kind'.items
  present : ∀ e ∈ kind.children, e ≠ absent
  present' : ∀ e ∈ kind'.children, e ≠ absent
  named : kind.ownName? ≠ some "_"
  named' : kind'.ownName? ≠ some "_"

theorem PrintedAlike.part_eq {kind kind' : Kind SExpr} (h : kind.PrintedAlike kind')
    {item item' : Option SExpr} (hitem : ∀ e ∈ item, e ∈ kind.children)
    (hitem' : ∀ e ∈ item', e ∈ kind'.children) (heq : part item = part item') :
    item = item' :=
  part_injective (fun e he => h.present e (hitem e he)) (fun e he => h.present' e (hitem' e he)) heq

/-- **What is printed of a kind tells what it shows.** -/
theorem PrintedAlike.shown_eq {kind kind' : Kind SExpr} (h : kind.PrintedAlike kind') :
    kind.shown = kind'.shown := by
  have hplace : kind'.ctorIdx = kind.ctorIdx := ctorIdx_of_name h.sameName.symm
  revert h
  -- The other kind is of the same sort, and so there is one case for each sort.
  cases kind with
  | int value =>
    refine Kind.int.elim kind' hplace fun value' h => ?_
    have hvalue : value.toInt = value'.toInt :=
      integer_injective (SExpr.atom.inj (List.cons_eq_cons.mp h.sameItems).1)
    rw [Int64.toInt_inj.mp hvalue]
  | float value =>
    refine Kind.float.elim kind' hplace fun value' h => ?_
    exact congrArg Sum.inl (SExpr.atom.inj (List.cons_eq_cons.mp h.sameItems).1)
  | string value =>
    refine Kind.string.elim kind' hplace fun value' h => ?_
    have hquoted : quoted value = quoted value' :=
      SExpr.atom.inj (List.cons_eq_cons.mp h.sameItems).1
    rw [quoted_injective hquoted]
  | boolean value =>
    refine Kind.boolean.elim kind' hplace fun value' h => ?_
    have hword := SExpr.atom.inj (List.cons_eq_cons.mp h.sameItems).1
    cases value <;> cases value' <;> first | rfl | exact absurd hword (by decide)
  | null => exact Kind.null.elim kind' hplace fun _ => rfl
  | identifier name =>
    refine Kind.identifier.elim kind' hplace fun name' h => ?_
    rw [SExpr.atom.inj (List.cons_eq_cons.mp h.sameItems).1]
  | variableIdentifier depth name =>
    refine Kind.variableIdentifier.elim kind' hplace fun depth' name' h => ?_
    obtain ⟨hdepth, hname⟩ := List.cons_eq_cons.mp h.sameItems
    rw [natural_injective (SExpr.atom.inj hdepth),
      SExpr.atom.inj (List.cons_eq_cons.mp hname).1]
  | thisValue => exact Kind.thisValue.elim kind' hplace fun _ => rfl
  | binary op left right =>
    refine Kind.binary.elim kind' hplace fun op' left' right' h => ?_
    cases h.sameItems
    rw [BinaryOp.name_injective h.sameName]
  | unary op operand =>
    refine Kind.unary.elim kind' hplace fun op' operand' h => ?_
    cases h.sameItems
    rw [UnaryOp.name_injective h.sameName]
  | member object index =>
    refine Kind.member.elim kind' hplace fun object' index' h => ?_
    cases h.sameItems
    rfl
  | memberDot object name =>
    refine Kind.memberDot.elim kind' hplace fun object' name' h => ?_
    cases h.sameItems
    rfl
  | call callee arguments =>
    refine Kind.call.elim kind' hplace fun callee' arguments' h => ?_
    cases h.sameItems
    rfl
  | new callee =>
    refine Kind.new.elim kind' hplace fun callee' h => ?_
    cases h.sameItems
    rfl
  | newWithArgs callee arguments =>
    refine Kind.newWithArgs.elim kind' hplace fun callee' arguments' h => ?_
    cases h.sameItems
    rfl
  | array items =>
    refine Kind.array.elim kind' hplace fun items' h => ?_
    cases h.sameItems
    rfl
  | objectInit items =>
    refine Kind.objectInit.elim kind' hplace fun items' h => ?_
    cases h.sameItems
    rfl
  | propertyInit key value =>
    refine Kind.propertyInit.elim kind' hplace fun key' value' h => ?_
    cases h.sameItems
    rfl
  | argumentList items =>
    refine Kind.argumentList.elim kind' hplace fun items' h => ?_
    cases h.sameItems
    rfl
  | variableDeclList items =>
    refine Kind.variableDeclList.elim kind' hplace fun items' h => ?_
    cases h.sameItems
    rfl
  | simpleAssignment target value op side =>
    refine Kind.simpleAssignment.elim kind' hplace fun target' value' op' side' h => ?_
    have hitems : writeHead op side ++ [target, part value] =
      writeHead op' side' ++ [target', part value'] := h.sameItems
    obtain ⟨rfl, rfl, htail⟩ := writeHead_append_inj hitems rfl
    simp only [List.cons.injEq, and_true] at htail
    obtain ⟨rfl, hvalue⟩ := htail
    rw [h.part_eq (by simp +contextual [children]) (by simp +contextual [children]) hvalue]
  | memberAssignment object index value op side =>
    refine Kind.memberAssignment.elim kind' hplace fun object' index' value' op' side' h => ?_
    have hitems : writeHead op side ++ [object, index, part value] =
      writeHead op' side' ++ [object', index', part value'] := h.sameItems
    obtain ⟨rfl, rfl, htail⟩ := writeHead_append_inj hitems rfl
    simp only [List.cons.injEq, and_true] at htail
    obtain ⟨rfl, rfl, hvalue⟩ := htail
    rw [h.part_eq (by simp +contextual [children]) (by simp +contextual [children]) hvalue]
  | memberDotAssignment object name value op side =>
    refine Kind.memberDotAssignment.elim kind' hplace fun object' name' value' op' side' h => ?_
    have hitems : writeHead op side ++ [object, atom name, part value] =
      writeHead op' side' ++ [object', atom name', part value'] := h.sameItems
    obtain ⟨rfl, rfl, htail⟩ := writeHead_append_inj hitems rfl
    simp only [List.cons.injEq, and_true] at htail
    obtain ⟨rfl, hname, hvalue⟩ := htail
    rw [SExpr.atom.inj hname,
      h.part_eq (by simp +contextual [children]) (by simp +contextual [children]) hvalue]
  | simpleIncrement target op =>
    refine Kind.simpleIncrement.elim kind' hplace fun target' op' h => ?_
    obtain ⟨hop, hitems⟩ := List.cons_eq_cons.mp h.sameItems
    cases hitems
    rw [token_injective (SExpr.atom.inj hop)]
  | program body =>
    refine Kind.program.elim kind' hplace fun body' h => ?_
    cases h.sameItems
    rfl
  | sourceElements body =>
    refine Kind.sourceElements.elim kind' hplace fun body' h => ?_
    obtain ⟨hvars, hitems⟩ := List.cons_eq_cons.mp h.sameItems
    obtain ⟨hfuncs, hstatements⟩ := List.cons_eq_cons.mp hitems
    have hfiled (body : Body SExpr) : body.funcDecls.map (fun decl => ("", decl.2)) =
        (body.funcDecls.map Prod.snd).map (fun function => ("", function)) := by
      rw [List.map_map]
      rfl
    rw [shown, shown, names_injective (SExpr.list.inj hvars).2, hfiled, hfiled,
      (SExpr.list.inj hfuncs).2, hstatements]
  | block statements =>
    refine Kind.block.elim kind' hplace fun statements' h => ?_
    cases h.sameItems
    rfl
  | conditional condition thenBranch elseBranch =>
    refine Kind.conditional.elim kind' hplace fun condition' thenBranch' elseBranch' h => ?_
    have hitems := h.sameItems
    simp only [items, List.cons.injEq, and_true] at hitems
    obtain ⟨rfl, rfl, helse⟩ := hitems
    rw [h.part_eq (by simp +contextual [children]) (by simp +contextual [children]) helse]
  | whileLoop condition body =>
    refine Kind.whileLoop.elim kind' hplace fun condition' body' h => ?_
    cases h.sameItems
    rfl
  | doLoop body condition =>
    refine Kind.doLoop.elim kind' hplace fun body' condition' h => ?_
    cases h.sameItems
    rfl
  | forLoop init condition update body =>
    refine Kind.forLoop.elim kind' hplace fun init' condition' update' body' h => ?_
    have hitems := h.sameItems
    simp only [items, List.cons.injEq, and_true] at hitems
    obtain ⟨hinit, rfl, hupdate, rfl⟩ := hitems
    rw [h.part_eq (by simp +contextual [children]) (by simp +contextual [children]) hinit,
      h.part_eq (by simp +contextual [children]) (by simp +contextual [children]) hupdate]
  | forIn name iterable body =>
    refine Kind.forIn.elim kind' hplace fun name' iterable' body' h => ?_
    cases h.sameItems
    rfl
  | forVarIn target iterable body =>
    refine Kind.forVarIn.elim kind' hplace fun target' iterable' body' h => ?_
    cases h.sameItems
    rfl
  | variableDeclaration target init =>
    refine Kind.variableDeclaration.elim kind' hplace fun target' init' h => ?_
    have hitems := h.sameItems
    simp only [items, List.cons.injEq, and_true] at hitems
    obtain ⟨rfl, hinit⟩ := hitems
    rw [h.part_eq (by simp +contextual [children]) (by simp +contextual [children]) hinit]
  | varStatement list =>
    refine Kind.varStatement.elim kind' hplace fun list' h => ?_
    cases h.sameItems
    rfl
  | exprStatement expression =>
    refine Kind.exprStatement.elim kind' hplace fun expression' h => ?_
    cases h.sameItems
    rfl
  | returnStatement value =>
    refine Kind.returnStatement.elim kind' hplace fun value' h => ?_
    have hvalue := (List.cons_eq_cons.mp h.sameItems).1
    rw [h.part_eq (by simp +contextual [children]) (by simp +contextual [children]) hvalue]
  | breakStatement label =>
    refine Kind.breakStatement.elim kind' hplace fun label' h => ?_
    have hlabel : label = label' :=
      namePart_injective h.named h.named' (List.cons_eq_cons.mp h.sameItems).1
    rw [hlabel]
  | continueStatement label =>
    refine Kind.continueStatement.elim kind' hplace fun label' h => ?_
    have hlabel : label = label' :=
      namePart_injective h.named h.named' (List.cons_eq_cons.mp h.sameItems).1
    rw [hlabel]
  | throwStatement value =>
    refine Kind.throwStatement.elim kind' hplace fun value' h => ?_
    cases h.sameItems
    rfl
  | tryStatement body catchParam catchBlock finallyBlock =>
    refine Kind.tryStatement.elim kind' hplace
      fun body' catchParam' catchBlock' finallyBlock' h => ?_
    have hitems := h.sameItems
    simp only [items, List.cons.injEq, and_true] at hitems
    obtain ⟨rfl, hparam, hblock, hfinally⟩ := hitems
    rw [h.part_eq (by simp +contextual [children]) (by simp +contextual [children]) hparam,
      h.part_eq (by simp +contextual [children]) (by simp +contextual [children]) hblock,
      h.part_eq (by simp +contextual [children]) (by simp +contextual [children]) hfinally]
  | withStatement object body =>
    refine Kind.withStatement.elim kind' hplace fun object' body' h => ?_
    cases h.sameItems
    rfl
  | empty => exact Kind.empty.elim kind' hplace fun _ => rfl
  | functionStatement function =>
    refine Kind.functionStatement.elim kind' hplace fun function' h => ?_
    obtain ⟨name, params, body⟩ := function
    obtain ⟨name', params', body'⟩ := function'
    have hitems := h.sameItems
    simp only [items, List.cons.injEq, and_true] at hitems
    obtain ⟨hname, hparams, hbody⟩ := hitems
    obtain rfl : name = name' := namePart_injective h.named h.named' hname
    obtain rfl : params = params' := names_injective (SExpr.list.inj hparams).2
    obtain rfl : body = body' :=
      h.part_eq (by simp +contextual [children]) (by simp +contextual [children]) hbody
    rfl

/-- What a kind shows tells what is printed of it. -/
theorem printed_of_shown {kind kind' : Kind SExpr} (h : kind.shown = kind'.shown) :
    kind.name = kind'.name ∧ kind.items = kind'.items := by
  have hname (kind : Kind SExpr) :
      kind.name = kind.shown.elim (fun _ => "FloatNumber") Kind.name := by
    cases kind <;> rfl
  have hitems (kind : Kind SExpr) :
      kind.items = kind.shown.elim (fun text => [atom text]) Kind.items := by
    cases kind with
    | sourceElements body => simp [shown, items, Function.comp_def]
    | _ => rfl
  constructor
  · rw [hname kind, hname kind', h]
  · rw [hitems kind, hitems kind', h]

/-- What is shown with one thing in place of each child is shown with another as well, if the one
tells the other. -/
theorem shown_map_of {γ : Type} [Inhabited γ] {f : α → β} {g : α → γ} {kind kind' : Kind α}
    (h : (kind.map f).shown = (kind'.map f).shown)
    (htells : ∀ a ∈ kind.children, ∀ b ∈ kind'.children, f a = f b → g a = g b) :
    (kind.map g).shown = (kind'.map g).shown := by
  classical
  have hchildren : kind.children.map f = kind'.children.map f := by
    have hsame := children_of_shown h
    rwa [children_map, children_map] at hsame
  -- The one thing is turned into the other by looking for a child that has it.
  let turn (x : β) : γ :=
    if hx : ∃ a ∈ kind.children, f a = x then g hx.choose else default
  have turned {b : α} (hb : b ∈ kind'.children) : g b = turn (f b) := by
    have hmem : f b ∈ kind.children.map f := hchildren ▸ List.mem_map_of_mem hb
    have hx : ∃ a ∈ kind.children, f a = f b := List.mem_map.mp hmem
    obtain ⟨ha, hfound⟩ := hx.choose_spec
    rw [show turn (f b) = g hx.choose from dif_pos hx]
    exact (htells _ ha b hb hfound).symm
  have hmap : kind.map g = (kind.map f).map turn := by
    rw [map_map]
    refine map_congr kind fun a ha => ?_
    have hmem : f a ∈ kind'.children.map f := hchildren ▸ List.mem_map_of_mem ha
    obtain ⟨b, hb, hsame⟩ := List.mem_map.mp hmem
    rw [htells a ha b hb hsame.symm, turned hb, hsame]
  have hmap' : kind'.map g = (kind'.map f).map turn := by
    rw [map_map]
    exact map_congr kind' fun b hb => turned hb
  rw [hmap, hmap', shown_map turn (kind.map f), shown_map turn (kind'.map f), h]

end Kind

instance : Inhabited Outline := ⟨.mk none (.inl "")⟩

instance : Inhabited SExpr := ⟨.atom ""⟩

namespace Node

variable {positions : Bool}

/-- A printed node does not read like an absent part. -/
theorem toSExpr_ne_absent (node : Node) : node.toSExpr positions ≠ Kind.absent := by
  obtain ⟨pos, kind⟩ := node
  rw [toSExpr_mk]
  exact SExpr.noConfusion

/-- The printed tree tells the outline. -/
theorem outline_of_toSExpr {a b : Node} (ha : a.Legible) (hb : b.Legible)
    (h : a.toSExpr positions = b.toSExpr positions) :
    a.outline positions = b.outline positions := by
  induction a using induction generalizing b with
  | step pos kind ih =>
    obtain ⟨pos', kind'⟩ := b
    have hlegible {pos : Position} {kind : Kind Node} (h : Legible ⟨pos, kind⟩) :
        kind.Legible := h _ (mem_preorder_self _)
    have hpresent (kind : Kind Node) :
        ∀ e ∈ (kind.map (toSExpr positions)).children, e ≠ Kind.absent := by
      intro e he
      rw [Kind.children_map] at he
      obtain ⟨child, _, rfl⟩ := List.mem_map.mp he
      exact child.toSExpr_ne_absent
    rw [toSExpr_mk, toSExpr_mk] at h
    obtain ⟨hhead, hitems⟩ := SExpr.list.inj h
    obtain ⟨hname, hpos⟩ := heading_injective hhead
    have halike : (kind.map (toSExpr positions)).PrintedAlike (kind'.map (toSExpr positions)) := {
      sameName := by rw [Kind.name_map, Kind.name_map, hname]
      sameItems := hitems
      present := hpresent kind
      present' := hpresent kind'
      named := ((hlegible ha).map _).named
      named' := ((hlegible hb).map _).named }
    have hshown : (kind.map (outline positions)).shown = (kind'.map (outline positions)).shown :=
      Kind.shown_map_of halike.shown_eq fun child hchild child' hchild' hsame =>
        ih child hchild (ha.of_child hchild) (hb.of_child hchild') hsame
    rw [outline_mk, outline_mk, hshown]
    cases positions with
    | false => rfl
    | true => rw [hpos rfl]

/-- The outline tells the printed tree. -/
theorem toSExpr_of_outline {a b : Node} (h : a.outline positions = b.outline positions) :
    a.toSExpr positions = b.toSExpr positions := by
  induction a using induction generalizing b with
  | step pos kind ih =>
    obtain ⟨pos', kind'⟩ := b
    rw [outline_mk, outline_mk] at h
    obtain ⟨hpos, hshown⟩ := Outline.mk.inj h
    obtain ⟨hname, hitems⟩ := Kind.printed_of_shown <|
      Kind.shown_map_of hshown fun child hchild child' _ hsame => ih child hchild hsame
    rw [Kind.name_map, Kind.name_map] at hname
    rw [toSExpr_mk, toSExpr_mk, hitems, hname]
    cases positions with
    | false => rfl
    | true => rw [Option.some.inj hpos]

/-- **The printed text of a legible tree tells its outline**, and tells nothing else. -/
theorem print_eq_iff_outline {a b : Node} (ha : a.Legible) (hb : b.Legible) :
    a.print positions = b.print positions ↔ a.outline positions = b.outline positions := by
  constructor
  · intro h
    apply outline_of_toSExpr ha hb
    exact SExpr.render_injective (legible_toSExpr ha positions) (legible_toSExpr hb positions) h
  · intro h
    rw [print, print, toSExpr_of_outline h]

/-- A body on the given line of the named source.  It has a function, and a string that looks like
the end of one item and the beginning of the next. -/
def bracketSample (line : UInt32) (source : String) : Node :=
  let function : Node := ⟨⟨line, 5, 6⟩, .functionStatement ⟨some "f", ["x"], none⟩⟩
  let text : Node := ⟨⟨line, 9, 18⟩, .string "a\") (b"⟩
  ⟨⟨line, 1, 2⟩, .sourceElements ⟨["x"], [(source, function)], [text], source⟩⟩

/-- On another line of another source the body is printed the same without positions only. -/
theorem print_eq_iff_outline_bracket :
    (bracketSample 1 "a.js").Legible ∧ (bracketSample 2 "b.js").Legible ∧
      (bracketSample 1 "a.js").outline false = (bracketSample 2 "b.js").outline false ∧
      (bracketSample 1 "a.js").outline true ≠ (bracketSample 2 "b.js").outline true := by
  have h : (bracketSample 1 "a.js").Legible := by decide
  have h' : (bracketSample 2 "b.js").Legible := by decide
  refine ⟨h, h', (print_eq_iff_outline h h').mp ?_, mt (print_eq_iff_outline h h').mpr ?_⟩
  · rfl
  · decide

end Node

end ScriptAst
