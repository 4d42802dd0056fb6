import Mathlib.Data.List.TakeWhile
import ScriptAst.Proofs.Printing.Legible

/-! # What is printed is what is visited

The words that follow an opening bracket in a printed tree are the names of its nodes in preorder
(`Node.headsIn_print`), but for the words at the head of the lists that are no nodes.  Nothing is
asked of the names and the strings in the tree but that there is no opening bracket in them.

A word ends before a space or a bracket.  So the words of a text are those of its parts, if every
part is followed by one of these (`headsIn_append`), and what a node prints besides its children has
no word in it (`Kind.flatMap_heads_items`).

That no node is missed is said in two ways.  The nodes that are visited stand at all the places of
the tree, where a place is told by indices of children (`Node.mem_places`), and they determine the
value of every fold (`Node.fold_eq_of_visited`).
-/
namespace ScriptAst

/-! ## Words behind brackets -/

/-- The words that directly follow an opening bracket. -/
def bracketed : List Char → List String
  | [] => []
  | c :: rest =>
    if c = '(' then String.ofList (rest.takeWhile isPlainChar) :: bracketed rest else bracketed rest

/-- The words at the head of lists that are no nodes. -/
def listMarks : List String := ["vars", "funcs", "params"]

/-- The words that directly follow an opening bracket, without those of lists that are no nodes. -/
def headsIn (chars : List Char) : List String := (bracketed chars).filter (· ∉ listMarks)

theorem takeWhile_append_of_stops {p : Char → Bool} {rest : List Char} (h : Stops p rest)
    (chars : List Char) : (chars ++ rest).takeWhile p = chars.takeWhile p := by
  induction chars with
  | nil =>
    cases rest with
    | nil => rfl
    | cons c rest => exact List.takeWhile_cons_of_neg (by rw [h c rfl]; decide)
  | cons c chars ih =>
    rw [List.cons_append, List.takeWhile_cons, List.takeWhile_cons, ih]

theorem bracketed_append {rest : List Char} (h : Stops isPlainChar rest) (chars : List Char) :
    bracketed (chars ++ rest) = bracketed chars ++ bracketed rest := by
  induction chars with
  | nil => rfl
  | cons c chars ih =>
    rw [List.cons_append, bracketed, bracketed, takeWhile_append_of_stops h, ih]
    split <;> rfl

/-- The words of a text are those of its parts, if no word goes on from one to the other. -/
theorem headsIn_append {rest : List Char} (h : Stops isPlainChar rest) (chars : List Char) :
    headsIn (chars ++ rest) = headsIn chars ++ headsIn rest := by
  rw [headsIn, bracketed_append h, List.filter_append]
  rfl

theorem bracketed_of_notMem {chars : List Char} (h : '(' ∉ chars) : bracketed chars = [] := by
  induction chars with
  | nil => rfl
  | cons c chars ih =>
    obtain ⟨hc, hchars⟩ := not_or.mp (mt List.mem_cons.mpr h)
    rw [bracketed, if_neg (Ne.symm hc), ih hchars]

theorem headsIn_of_notMem {chars : List Char} (h : '(' ∉ chars) : headsIn chars = [] := by
  rw [headsIn, bracketed_of_notMem h]
  rfl

/-- A character that is no bracket adds no word. -/
theorem headsIn_cons {c : Char} (h : c ≠ '(') (chars : List Char) :
    headsIn (c :: chars) = headsIn chars := by
  rw [headsIn, bracketed, if_neg h]
  rfl

theorem Plain.bracket_notMem {text : String} (h : Plain text) : '(' ∉ text.toList := by
  intro hmem
  exact absurd (h.2 _ hmem) (by decide)

/-- The word that a bracket is followed by. -/
theorem headsIn_open {word : String} (h : Plain word) :
    headsIn ('(' :: word.toList) = [word].filter (· ∉ listMarks) := by
  have htake : word.toList.takeWhile isPlainChar = word.toList :=
    List.takeWhile_eq_self_iff.mpr h.2
  rw [headsIn, bracketed, if_pos rfl, bracketed_of_notMem h.bracket_notMem, htake,
    String.ofList_toList]

/-! ## Heads of lists -/

namespace SExpr

/-- The words at the head of the lists in the expression that are nodes. -/
def heads (e : SExpr) : List String := headsIn e.chars

theorem heads_atom {text : String} (h : '(' ∉ text.toList) : (atom text).heads = [] := by
  rw [heads, chars_atom, headsIn_of_notMem h]

/-- Items are led in by a space and followed by a bracket. -/
theorem stops_flatMap_chars (items : List SExpr) :
    Stops isPlainChar (items.flatMap (fun item => ' ' :: item.chars) ++ [')']) := by
  cases items <;> exact stops_cons rfl _

theorem headsIn_flatMap_chars (items : List SExpr) :
    headsIn (items.flatMap (fun item => ' ' :: item.chars) ++ [')']) = items.flatMap heads := by
  induction items with
  | nil => rfl
  | cons item items ih =>
    rw [List.flatMap_cons, List.append_assoc, headsIn_append (stops_flatMap_chars items), ih,
      headsIn_cons (by decide)]
    rfl

/-- The words in a list are its own and those in its items. -/
theorem heads_list (head : String) (items : List SExpr) :
    (list head items).heads = headsIn ('(' :: head.toList) ++ items.flatMap heads := by
  rw [heads, chars_list, ← List.cons_append, headsIn_append (stops_flatMap_chars items),
    headsIn_flatMap_chars]

end SExpr

/-! ## What a node prints besides its children -/

/-- No character but the bracket is written with it. -/
theorem QuotedAs.eq_bracket {c : Char} {w : List Char} (h : QuotedAs c w) (hmem : '(' ∈ w) :
    c = '(' := by
  cases h with
  | @letter x hx =>
    have hall : ∀ e ∈ escapes, '(' ∉ ['\\', e.2] := by decide
    exact absurd hmem (hall _ hx)
  | code =>
    have hdigits : '(' ∉ hexDigits c.toNat := fun hdigit =>
      ne_of_mem_hexDigits (by decide) hdigit rfl
    simp only [List.mem_cons, List.mem_append, hdigits, false_or] at hmem
    exact absurd hmem (by decide)
  | self => exact (List.mem_singleton.mp hmem).symm

theorem bracket_notMem_quoted {value : String} (h : '(' ∉ value.toList) :
    '(' ∉ (quoted value).toList := by
  have hchars : '(' ∉ value.toList.flatMap quotedChar := by
    intro hmem
    obtain ⟨c, hc, hin⟩ := List.mem_flatMap.mp hmem
    exact h ((quotedAs_quotedChar c).eq_bracket hin ▸ hc)
  rw [quoted, String.toList_ofList]
  simp only [List.mem_cons, List.mem_append, hchars, false_or]
  decide

namespace Kind

open SExpr (atom heads heads_atom)

/-- The names and the strings that the kind prints. -/
def texts {α : Type} : Kind α → List String
  | string value => [value]
  | kind => kind.plainNames

theorem texts_map {α β : Type} (f : α → β) (kind : Kind α) : (kind.map f).texts = kind.texts := by
  cases kind <;> rfl

@[simp] theorem heads_part (item : Option SExpr) :
    (part item).heads = item.toList.flatMap heads := by
  cases item with
  | none => rfl
  | some e => exact (List.append_nil _).symm

@[simp] theorem heads_token (op : AssignOp) : (atom op.token).heads = [] :=
  heads_atom (by cases op <;> decide)

@[simp] theorem flatMap_heads_writeHead (op : AssignOp) (side : Option Side) :
    (writeHead op side).flatMap heads = [] := by
  cases side with
  | none => simp [writeHead]
  | some side =>
    have hside : (atom side.word).heads = [] := heads_atom (by cases side <;> decide)
    simp [writeHead, hside]

theorem heads_namePart {name : Option String} (h : ∀ n ∈ name.toList, '(' ∉ n.toList) :
    (namePart name).heads = [] := by
  cases name with
  | none => rfl
  | some n => exact heads_atom (h n (.head _))

theorem flatMap_heads_atoms {names : List String} (h : ∀ name ∈ names, '(' ∉ name.toList) :
    (names.map atom).flatMap heads = [] := by
  rw [List.flatMap_map, List.flatMap_eq_nil_iff]
  exact fun name hname => heads_atom (h name hname)

/-- The list under a mark is no node itself. -/
theorem heads_mark {mark : String} (hplain : Plain mark) (hmark : mark ∈ listMarks)
    (items : List SExpr) : (SExpr.list mark items).heads = items.flatMap heads := by
  simp [SExpr.heads_list, headsIn_open hplain, hmark]

/-- **The lists among the items of a kind are its children**, in the order in which these are
visited, but for marked lists. -/
theorem flatMap_heads_items {kind : Kind SExpr} (h : ∀ text ∈ kind.texts, '(' ∉ text.toList) :
    kind.items.flatMap heads = kind.children.flatMap heads := by
  cases kind with
  | null | thisValue | empty | binary | unary | member | call | new | newWithArgs | array
  | objectInit | propertyInit | argumentList | variableDeclList | program | block | whileLoop
  | doLoop | forVarIn | varStatement | exprStatement | throwStatement | withStatement => rfl
  | simpleAssignment | memberAssignment | simpleIncrement | conditional | forLoop
  | variableDeclaration | returnStatement | tryStatement => simp [items, children]
  | int value =>
    have hvalue := heads_atom (plain_integer value.toInt).bracket_notMem
    simp only [items, children, List.flatMap_cons, hvalue, List.flatMap_nil, List.append_nil]
  | float value =>
    have hvalue := heads_atom value.plain_text.bracket_notMem
    simp [items, children, hvalue]
  | string value =>
    have hvalue := heads_atom (bracket_notMem_quoted (h value (.head _)))
    simp [items, children, hvalue]
  | boolean value => cases value <;> rfl
  | variableIdentifier depth name =>
    have hdepth := heads_atom (plain_natural depth).bracket_notMem
    have hname := heads_atom (h name (.head _))
    simp only [items, children, List.flatMap_cons, hdepth, hname, List.flatMap_nil, List.append_nil]
  | identifier name | memberDot _ name | memberDotAssignment _ name | forIn name =>
    have hname := heads_atom (h name (.head _))
    simp [items, children, hname]
  | breakStatement label | continueStatement label =>
    simp [items, children, heads_namePart h]
  | sourceElements body =>
    have hvars : (SExpr.list "vars" (body.varNames.map atom)).heads = [] :=
      (heads_mark (by decide) (by decide) _).trans (flatMap_heads_atoms h)
    have hfuncs (items : List SExpr) : (SExpr.list "funcs" items).heads = items.flatMap heads :=
      heads_mark (by decide) (by decide) items
    simp only [items, children, List.flatMap_cons, List.flatMap_append, hvars, hfuncs,
      List.nil_append]
  | functionStatement function =>
    have hname := heads_namePart fun n hn => h n (List.mem_append_left _ hn)
    have hparams : (SExpr.list "params" (function.params.map atom)).heads = [] :=
      (heads_mark (by decide) (by decide) _).trans
        (flatMap_heads_atoms fun n hn => h n (List.mem_append_right _ hn))
    simp [items, children, hname, hparams]

end Kind

/-! ## Places of nodes -/

namespace Node

/-- The node at the place, which tells at each node on the way there to which child to go. -/
def nodeAt? (node : Node) : List Nat → Option Node
  | [] => some node
  | i :: place => node.children[i]?.bind fun child => child.nodeAt? place

/-- The places of the nodes, each before those below it, children in source order. -/
def places (node : Node) : List (List Nat) :=
  node.fold fun _ kind => [] :: kind.children.zipIdx.flatMap fun (below, i) => below.map (i :: ·)

theorem places_mk (pos : Position) (kind : Kind Node) :
    places ⟨pos, kind⟩ =
      [] :: kind.children.zipIdx.flatMap fun (child, i) => child.places.map (i :: ·) := by
  rw [places, fold_mk, Kind.children_map, List.zipIdx_map, List.flatMap_map]
  rfl

/-- The nodes at the places are the nodes in preorder. -/
theorem map_nodeAt?_places (node : Node) :
    node.places.map node.nodeAt? = node.preorder.map some := by
  induction node using induction with
  | step pos kind ih =>
    have hbelow (entry : Node × Nat) (hentry : entry ∈ kind.children.zipIdx) :
        (entry.1.places.map (entry.2 :: ·)).map (nodeAt? ⟨pos, kind⟩) =
          entry.1.preorder.map some := by
      have hchild : kind.children[entry.2]? = some entry.1 := List.mem_zipIdx_iff_getElem?.mp hentry
      rw [← ih entry.1 (List.mem_of_getElem? hchild), List.map_map]
      refine List.map_congr_left fun place _ => ?_
      rw [Function.comp_apply, nodeAt?, children, hchild, Option.bind_some]
    rw [places_mk, preorder_eq, List.map_cons, List.map_cons, List.map_flatMap, List.map_flatMap]
    refine congrArg (some _ :: ·) ?_
    calc kind.children.zipIdx.flatMap (fun entry =>
          (entry.1.places.map (entry.2 :: ·)).map (nodeAt? ⟨pos, kind⟩))
      _ = kind.children.zipIdx.flatMap fun entry => entry.1.preorder.map some := by
        rw [List.flatMap_def, List.flatMap_def, List.map_congr_left hbelow]
      _ = (kind.children.zipIdx.map Prod.fst).flatMap fun child => child.preorder.map some := by
        rw [List.flatMap_map]
      _ = kind.children.flatMap fun child => child.preorder.map some := by
        rw [List.zipIdx_map_fst]

/-- Every node has a place. -/
theorem mem_places {node : Node} {place : List Nat} :
    place ∈ node.places ↔ (node.nodeAt? place).isSome := by
  induction place generalizing node with
  | nil =>
    obtain ⟨pos, kind⟩ := node
    rw [places_mk]
    exact iff_of_true (.head _) rfl
  | cons i place ih =>
    obtain ⟨pos, kind⟩ := node
    rw [places_mk, List.mem_cons, nodeAt?, children]
    constructor
    · rintro (hroot | hbelow)
      · cases hroot
      · obtain ⟨entry, hentry, hplace⟩ := List.mem_flatMap.mp hbelow
        obtain ⟨rest, hrest, heq⟩ := List.mem_map.mp hplace
        obtain ⟨rfl, rfl⟩ := List.cons_eq_cons.mp heq
        rw [List.mem_zipIdx_iff_getElem?.mp hentry, Option.bind_some]
        exact ih.mp hrest
    · intro h
      cases hchild : kind.children[i]? with
      | none =>
        rw [hchild] at h
        cases h
      | some child =>
        rw [hchild, Option.bind_some] at h
        have hentry : (child, i) ∈ kind.children.zipIdx := List.mem_zipIdx_iff_getElem?.mpr hchild
        exact .inr (List.mem_flatMap.mpr ⟨_, hentry, List.mem_map_of_mem (ih.mpr h)⟩)

/-- The places are in order. -/
theorem pairwise_places (node : Node) : node.places.Pairwise (· < ·) := by
  induction node using induction with
  | step pos kind ih =>
    have hindices : kind.children.zipIdx.Pairwise fun a b => a.2 < b.2 := by
      rw [← List.pairwise_map, List.zipIdx_map_snd]
      exact List.pairwise_lt_range' 1
    rw [places_mk, List.pairwise_cons, List.pairwise_flatMap]
    refine ⟨?_, ?_, hindices.imp ?_⟩
    · intro place hplace
      obtain ⟨entry, _, hplace⟩ := List.mem_flatMap.mp hplace
      obtain ⟨rest, _, rfl⟩ := List.mem_map.mp hplace
      exact List.nil_lt_cons _ _
    · intro entry hentry
      have hchild : entry.1 ∈ kind.children :=
        List.mem_of_getElem? (List.mem_zipIdx_iff_getElem?.mp hentry)
      refine List.pairwise_map.mpr ((ih entry.1 hchild).imp fun hlt => ?_)
      exact List.cons_lt_cons_iff.mpr (.inr ⟨rfl, hlt⟩)
    · intro a b hlt place hplace place' hplace'
      obtain ⟨rest, _, rfl⟩ := List.mem_map.mp hplace
      obtain ⟨rest', _, rfl⟩ := List.mem_map.mp hplace'
      exact List.cons_lt_cons_iff.mpr (.inl hlt)

/-- What is computed from a tree depends on the nodes that are visited only.  A fold gets to all
nodes there are: it has no other way to find the values of the children. -/
theorem fold_eq_of_visited {β : Type} {step step' : Position → Kind β → β} {node : Node}
    (h : ∀ n ∈ node.preorder, ∀ values : Node → β,
      step n.pos (n.kind.map values) = step' n.pos (n.kind.map values)) :
    node.fold step = node.fold step' := by
  induction node using induction with
  | step pos kind ih =>
    have hbelow (child : Node) (hchild : child ∈ kind.children) :
        child.fold step = child.fold step' :=
      ih child hchild fun n hn => h n (mem_preorder_iff.mpr (.inr ⟨child, hchild, hn⟩))
    rw [fold_mk, fold_mk, Kind.map_congr kind hbelow]
    exact h _ (mem_preorder_self _) (fold step')

/-! ## Heads of printed nodes -/

theorem headsIn_heading (pos : Position) (kind : Kind Node) :
    headsIn ('(' :: (heading false pos kind.name).toList) = [kind.name] := by
  have hname : kind.name ∉ listMarks := by
    cases kind with
    | binary op => cases op <;> simp only [Kind.name, BinaryOp.name] <;> decide
    | unary op => cases op <;> simp only [Kind.name, UnaryOp.name] <;> decide
    | _ => simp only [Kind.name]; decide
  rw [headsIn_open (plain_heading false pos kind), heading, if_neg Bool.false_ne_true]
  exact List.filter_cons_of_pos (decide_eq_true hname)

/-- The heads of the lists in a printed tree are the names of its nodes. -/
theorem heads_toSExpr {node : Node}
    (h : ∀ n ∈ node.preorder, ∀ text ∈ n.kind.texts, '(' ∉ text.toList) :
    (node.toSExpr false).heads = node.preorder.map fun n => n.kind.name := by
  induction node using induction with
  | step pos kind ih =>
    have hbelow (child : Node) (hchild : child ∈ kind.children) :
        (child.toSExpr false).heads = child.preorder.map fun n => n.kind.name :=
      ih child hchild fun n hn => h n (mem_preorder_iff.mpr (.inr ⟨child, hchild, hn⟩))
    have htexts : ∀ text ∈ (kind.map (toSExpr false)).texts, '(' ∉ text.toList := by
      rw [Kind.texts_map]
      exact h _ (mem_preorder_self _)
    calc (toSExpr false ⟨pos, kind⟩).heads
      _ = kind.name :: (kind.map (toSExpr false)).items.flatMap SExpr.heads := by
        rw [toSExpr_mk, SExpr.heads_list, headsIn_heading, List.singleton_append]
      _ = kind.name :: (kind.children.map (toSExpr false)).flatMap SExpr.heads := by
        rw [Kind.flatMap_heads_items htexts, Kind.children_map]
      _ = kind.name :: kind.children.flatMap fun child =>
            child.preorder.map fun n => n.kind.name := by
        rw [List.flatMap_map, List.flatMap_def, List.flatMap_def, List.map_congr_left hbelow]
      _ = (preorder ⟨pos, kind⟩).map fun n => n.kind.name := by
        rw [preorder_eq, List.map_cons, List.map_flatMap]
        rfl

/-- **A printed tree shows what a walk through it visits**, node by node.  The walk comes to every
place in the tree once and in order, and leaves out nothing that a fold could find. -/
theorem headsIn_print {node : Node}
    (h : ∀ n ∈ node.preorder, ∀ text ∈ n.kind.texts, '(' ∉ text.toList) :
    headsIn (node.print false).toList = node.preorder.map (fun n => n.kind.name) ∧
      (∃ places : List (List Nat), places.Pairwise (· < ·) ∧
        (∀ place, place ∈ places ↔ (node.nodeAt? place).isSome) ∧
        places.map node.nodeAt? = node.preorder.map some) ∧
      ∀ (β : Type) (step step' : Position → Kind β → β),
        (∀ n ∈ node.preorder, ∀ values : Node → β,
          step n.pos (n.kind.map values) = step' n.pos (n.kind.map values)) →
        node.fold step = node.fold step' := by
  refine ⟨?_, ?_, fun β step step' => fold_eq_of_visited⟩
  · rw [print, SExpr.render, String.toList_ofList]
    exact heads_toSExpr h
  · exact ⟨node.places, node.pairwise_places, fun _ => mem_places, node.map_nodeAt?_places⟩

/-- A body with a function in it, whose names are those of lists that are no nodes, and with a
string that looks like the end of a list. -/
def markSample : Node :=
  let place : Position := ⟨1, 1, 2⟩
  let result : Node := ⟨place, .returnStatement none⟩
  let inner : Node := ⟨place, .sourceElements ⟨["vars"], [], [result], "a.js"⟩⟩
  let function : Node := ⟨place, .functionStatement ⟨some "funcs", ["params"], some inner⟩⟩
  let text : Node := ⟨place, .exprStatement ⟨place, .string "vars) \"funcs"⟩⟩
  ⟨place, .sourceElements ⟨["vars"], [("funcs", function)], [text], "a.js"⟩⟩

/-- There is no loop in the sample, so it does not matter what a fold makes of loops. -/
theorem headsIn_print_marks :
    (∀ n ∈ markSample.preorder, ∀ text ∈ n.kind.texts, '(' ∉ text.toList) ∧
      headsIn (markSample.print false).toList =
        ["SourceElements", "FunctionStatement", "SourceElements", "Return", "ExprStatement",
          "String"] ∧
      (∃ places : List (List Nat), places.Pairwise (· < ·) ∧
        (∀ place, place ∈ places ↔ (markSample.nodeAt? place).isSome) ∧
        places.map markSample.nodeAt? = markSample.preorder.map some) ∧
      markSample.fold (fun _ kind => kind.name :: kind.children.flatten) =
        markSample.fold fun _ kind =>
          if kind.name = "While" then [] else kind.name :: kind.children.flatten := by
  have h : ∀ n ∈ markSample.preorder, ∀ text ∈ n.kind.texts, '(' ∉ text.toList := by decide
  obtain ⟨hheads, hplaces, hfold⟩ := headsIn_print h
  refine ⟨h, hheads, hplaces, hfold (List String) _ _ fun n hn values => ?_⟩
  have hloop : ∀ n ∈ markSample.preorder, n.kind.name ≠ "While" := by decide
  rw [Kind.name_map, if_neg (hloop n hn)]

/-- A bracket in a string looks like the head of a list. -/
example : headsIn (print false ⟨⟨1, 1, 2⟩, .string "a (b c"⟩).toList = ["String", "b"] := by
  decide

end Node

end ScriptAst
