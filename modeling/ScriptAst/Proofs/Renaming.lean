import ScriptAst.Proofs.Grammar.Acceptance
import ScriptAst.Proofs.Pairing.Lockstep

/-! # Names are opaque

A build looks at a name only to compare it with other names, and with the texts that it tells tokens
apart by.  So an injective change of names that leaves these texts alone changes the names of the
result and nothing else: a conforming tree with other names is built to the same nodes with other
names, or fails with the same error (`names_opaque`).

The span of a token ends where its text ends, so spans may end elsewhere under other names; where
they start stays (`Node.starts`).
-/
namespace ScriptAst

/-! ## Names of conforming trees -/

section Labels

variable {r : String → String}

/-- A word that is left alone is renamed as a name, whatever its class. -/
theorem Mark.named {text : String} (h : r text = text) (mark : Mark text) :
    mark.tree.Named r := by
  intro token htoken
  obtain rfl : text = token := Option.some.inj htoken
  show spelled r mark.symbol text = r text
  rw [h]
  unfold spelled
  split
  · exact h
  · rfl

theorem Word.named (word : Word) : word.tree.Named r := fun token _ => spelled_name r token

variable (hwords : ∀ word ∈ comparedTexts, r word = word)
include hwords

/-- What a row of links begins with is an operator or a list of arguments. -/
theorem Links.head_named {access : Bool} {name : ParseTree} {links : List ParseTree}
    {parts : List Part} (h : Links access (name :: links) parts) : name.Named r := by
  cases h with
  | operation op mark => exact mark.named (hwords _ op.token_mem_comparedTexts)
  | dot mark => exact mark.named (hwords _ (by decide))
  | index mark => exact mark.named (hwords _ (by decide))
  | call => exact nofun

variable {op name : ParseTree} {children rest : List ParseTree}

/-- Behind any first tree, a row of links adds only names that the row itself adds. -/
theorem Links.named_cons {access : Bool} {first : ParseTree} {links : List ParseTree}
    {parts : List Part} (h : Links access links parts)
    (hnamed : op :: name :: rest <:+ links → name.Named r)
    (hrow : op :: name :: rest <:+ first :: links) : name.Named r := by
  rcases List.suffix_cons_iff.mp hrow with heq | hrow
  · obtain ⟨rfl, rfl⟩ := List.cons.inj heq
    exact h.head_named hwords
  · exact hnamed hrow

/-- In a row of links a token for a name stands behind every dot. -/
theorem Links.named {access : Bool} {links : List ParseTree} {parts : List Part}
    (h : Links access links parts) (hrow : op :: name :: rest <:+ links)
    (hdot : op.isToken ".") : name.Named r := by
  have hmark {text : String} {mark : Mark text} (hop : op = mark.tree) : text = "." := by
    subst hop
    exact Option.some.inj (of_decide_eq_true hdot)
  induction h with
  | nil => exact nomatch List.suffix_nil.mp hrow
  | operation other mark operand hlinks ih =>
    rcases List.suffix_cons_iff.mp hrow with heq | hrow
    · exact absurd (hmark (List.cons.inj heq).1) other.token_ne.1
    · exact hlinks.named_cons hwords ih hrow
  | dot mark word hlinks ih =>
    rcases List.suffix_cons_iff.mp hrow with heq | hrow
    · obtain ⟨-, rfl, -⟩ := List.cons.inj heq |>.imp_right List.cons.inj
      exact word.named
    · exact hlinks.named_cons hwords ih hrow
  | index mark key hlinks ih =>
    rcases List.suffix_cons_iff.mp hrow with heq | hrow
    · exact absurd (hmark (List.cons.inj heq).1) (by decide)
    · exact hlinks.named_cons hwords ih hrow
  | call arguments _ ih =>
    rcases List.suffix_cons_iff.mp hrow with heq | hrow
    · obtain ⟨rfl, -⟩ := List.cons.inj heq
      exact nomatch hdot
    · exact ih hrow

/-- In a chain a token for a name stands behind every dot. -/
theorem Shape.access_named {g : Dialect} {symbol : Symbol} {parts : List Part}
    (h : Shape g symbol children parts) (hchain : symbol.isChain)
    (hrow : op :: name :: rest <:+ children) (hdot : op.isToken ".") : name.Named r := by
  cases h with
  | operation head _ hlinks | callExpression head hlinks | memberExpression head hlinks =>
    exact hlinks.named_cons hwords (fun hrow => hlinks.named hwords hrow hdot) hrow
  | newMemberExpression keyword callee hlinks =>
    rcases List.suffix_cons_iff.mp hrow with heq | hrow
    · obtain ⟨rfl, -⟩ := List.cons.inj heq
      exact nomatch hdot
    · exact hlinks.named_cons hwords (fun hrow => hlinks.named hwords hrow hdot) hrow
  | declarations _ h | declaration _ _ h | regularFor _ _ _ _ _ _ _ _ h | inFor _ _ _ _ h | jump _ h
  | assignment _ _ _ h =>
    cases symbol <;> first
      | exact absurd h Bool.false_ne_true
      | exact absurd hchain Bool.false_ne_true
  | _ => exact absurd hchain Bool.false_ne_true

omit hwords in
/-- The label of a jump is a token for a name. -/
theorem Shape.jump_named {g : Dialect} {symbol : Symbol} {parts : List Part}
    (h : Shape g symbol children parts) (hjump : symbol.isJump) {label : ParseTree}
    (hlabel : children[0]? = some label) : label.Named r := by
  cases h with
  | jump word =>
    cases word with
    | none => exact nomatch hlabel
    | some word =>
      obtain rfl := Option.some.inj hlabel
      exact word.named
  | declarations _ h | declaration _ _ h | regularFor _ _ _ _ _ _ _ _ h | inFor _ _ _ _ h
  | operation _ h | assignment _ _ _ h =>
    cases symbol <;> first
      | exact absurd h Bool.false_ne_true
      | exact absurd hjump Bool.false_ne_true
  | _ => exact absurd hjump Bool.false_ne_true

omit hwords in
/-- No name is read off the children of a token. -/
theorem ParseTree.labelled_of_isTerminal {tree : ParseTree} (h : tree.isTerminal) :
    tree.Labelled r := by
  cases tree with
  | token =>
    exact ⟨fun _ _ hrow => (nomatch List.suffix_nil.mp hrow), fun _ _ hlabel => nomatch hlabel⟩
  | node => exact nomatch h

/-- A conforming tree is renamed wherever a name is read off it. -/
theorem Conforms.labelled {g : Dialect} {slot : Slot} {tree : ParseTree}
    (h : Conforms g slot tree) : tree.Labelled r := by
  cases h with
  | token => exact ParseTree.labelled_of_isTerminal rfl
  | node _ hshape =>
    constructor
    · intro symbol op name links hsymbol hchain hrow
      obtain rfl := Symbol.name_inj.mp hsymbol
      exact hshape.access_named hwords hchain hrow
    · intro symbol label hsymbol hjump hlabel
      obtain rfl := Symbol.name_inj.mp hsymbol
      exact hshape.jump_named hjump hlabel

end Labels

/-! ## Nodes under other names -/

/-- The span cut down to the place where it starts. -/
def Position.start (pos : Position) : Position := ⟨pos.line, pos.columnStart, pos.columnStart⟩

/-- The tree with every span cut down to the place where it starts. -/
def Node.starts : Node → Node := fold fun pos kind => ⟨pos.start, kind⟩

/-- The tree with `r` applied to every name. -/
def Node.rename (r : String → String) : Node → Node := fold fun pos kind => ⟨pos, kind.rename r⟩

namespace Node

variable (r : String → String)

theorem starts_mk (pos : Position) (kind : Kind Node) :
    starts ⟨pos, kind⟩ = ⟨pos.start, kind.map starts⟩ := fold_mk ..

theorem rename_mk (pos : Position) (kind : Kind Node) :
    rename r ⟨pos, kind⟩ = ⟨pos, (kind.map (rename r)).rename r⟩ := fold_mk ..

/-- The tree under other names, with no more of its spans than where they start. -/
def renamedStarts (node : Node) : Node := (node.rename r).starts

theorem renamedStarts_mk (pos : Position) (kind : Kind Node) :
    renamedStarts r ⟨pos, kind⟩ = ⟨pos.start, (kind.map (renamedStarts r)).rename r⟩ := by
  rw [renamedStarts, rename_mk, starts_mk, Kind.map_rename, Kind.map_map]
  rfl

end Node

/-- A token starts where it did, however long its text is now. -/
theorem ParseTree.start_position_rename (r : String → String) (tree : ParseTree) :
    (tree.rename r).position.start = tree.position.start := by
  induction tree using ParseTree.induction with
  | token symbol text pos => rw [rename_token]; rfl
  | node symbol children ih =>
    rw [rename_node]
    cases children with
    | nil => rfl
    | cons first rest => exact ih first (List.mem_cons_self ..)

/-- The other frame has the same declarations under other names. -/
structure Frame.RenamedTo (r : String → String) (frame frame' : Frame) : Prop where
  vars : frame'.vars = frame.vars.map r
  funcs : (frame'.funcs.map fun (name, function) => (name, function.starts)) =
    frame.funcs.map fun (name, function) => (r name, function.renamedStarts r)

theorem Frame.RenamedTo.empty (r : String → String) : Frame.RenamedTo r .empty .empty := ⟨rfl, rfl⟩

/-- The same error, found where it was, with the texts of tokens renamed where it quotes any. -/
inductive BuildError.Renamed (r : String → String) : BuildError → BuildError → Prop
  | invalidTarget {pos pos' : Position} (fault : TargetFault) : pos'.start = pos.start →
      Renamed r (.invalidTarget pos fault) (.invalidTarget pos' fault)
  | nestingTooDeep {pos pos' : Position} (symbol : String) (limit : Nat) :
      pos'.start = pos.start →
      Renamed r (.nestingTooDeep symbol pos limit) (.nestingTooDeep symbol pos' limit)
  | unknownSymbol {pos pos' : Position} (symbol : String) : pos'.start = pos.start →
      Renamed r (.unknownSymbol symbol pos) (.unknownSymbol symbol pos')
  | malformed {pos pos' : Position} (symbol : String) (defect : Defect) (quoted : String) :
      pos'.start = pos.start →
      Renamed r (.malformed symbol pos defect)
        (.malformed symbol pos' (defect.map (spelled r quoted)))

/-- Lists with equal images are lists of pairs. -/
theorem exists_paired_images {α β : Type} {f g : α → β} {as bs : List α}
    (h : bs.map f = as.map g) : ∃ pairs : List (Paired fun a b => f b = g a),
      as = pairs.map Paired.left ∧ bs = pairs.map Paired.right := by
  induction as generalizing bs with
  | nil => exact ⟨[], rfl, List.map_eq_nil_iff.mp h⟩
  | cons a as ih =>
    obtain ⟨b, bs, rfl, hb, hbs⟩ := List.map_eq_cons_iff.mp h
    obtain ⟨pairs, rfl, rfl⟩ := ih hbs
    exact ⟨⟨a, b, hb⟩ :: pairs, rfl, rfl⟩

/-- Views with equal images are views of pairs. -/
theorem View.exists_paired_images {α β : Type} {r : String → String} {f g : α → β}
    {view view' : View α} (h : view'.map f = (view.map g).rename r) :
    ∃ pairs : View (Paired fun a b => f b = g a),
      view = pairs.map Paired.left ∧ view' = (pairs.map Paired.right).rename r := by
  cases view with
  | name x =>
    cases view' with
    | name => cases h; exact ⟨.name x, rfl, rfl⟩
    | _ => exact nomatch h
  | member object index =>
    cases view' with
    | member =>
      obtain ⟨hobject, hindex⟩ := View.member.inj h
      exact ⟨.member ⟨_, _, hobject⟩ ⟨_, _, hindex⟩, rfl, rfl⟩
    | _ => exact nomatch h
  | memberDot object x =>
    cases view' with
    | memberDot =>
      obtain ⟨hobject, rfl⟩ := View.memberDot.inj h
      exact ⟨.memberDot ⟨_, _, hobject⟩ x, rfl, rfl⟩
    | _ => exact nomatch h
  | argumentList items =>
    cases view' with
    | argumentList =>
      obtain ⟨pairs, rfl, rfl⟩ := ScriptAst.exists_paired_images (View.argumentList.inj h)
      exact ⟨.argumentList pairs, rfl, rfl⟩
    | _ => exact nomatch h
  | other =>
    cases view' with
    | other => exact ⟨.other, rfl, rfl⟩
    | _ => exact nomatch h

/-! ## The two builds side by side -/

/-- The right build is of the tree under other names.  What is visited is a token or conforms. -/
def renamed (r : String → String) (g : Dialect) : Pairing where
  rename := r
  place _ := True
  visited tree := tree.isTerminal ∨ ∃ slot, Conforms g slot tree
  node a b := b.starts = a.renamedStarts r
  depth _ d d' := d' = d
  body nodes frame nodes' frame' :=
    nodes'.map Node.starts = nodes.map (Node.renamedStarts r) ∧ frame.RenamedTo r frame'
  error := BuildError.Renamed r

variable {r : String → String} {g : Dialect}

/-- What is reached in a conforming tree is a token or conforms. -/
theorem Conforms.of_reached {slot : Slot} {tree child : ParseTree} (h : Conforms g slot tree)
    (hchild : child ∈ tree.reached) :
    child.isTerminal ∨ ∃ slot, Conforms g slot child := by
  cases h with
  | token => exact nomatch hchild
  | @node _ symbol children parts _ hshape hparts =>
    rw [ParseTree.reached_node] at hchild
    by_cases hterminal : child.isTerminal
    · exact .inl hterminal
    · have hnode : child ∈ ParseTree.nodesOf (parts.map Prod.snd) := by
        rw [← hshape.reached_eq]
        exact ParseTree.mem_nodesOf.mpr ⟨hchild, Bool.eq_false_iff.mpr hterminal⟩
      obtain ⟨part, hpart, rfl⟩ := List.mem_map.mp (ParseTree.mem_nodesOf.mp hnode).1
      exact .inr ⟨part.1, hparts part hpart⟩

@[simp] theorem renamed_rename : (renamed r g).rename = r := rfl

/-- Corresponding nodes start at the same place. -/
theorem renamed_start {a b : Node} (h : (renamed r g).node a b) : b.pos.start = a.pos.start := by
  obtain ⟨pos, kind⟩ := a
  obtain ⟨pos', kind'⟩ := b
  have heq : Node.starts ⟨pos', kind'⟩ = Node.renamedStarts r ⟨pos, kind⟩ := h
  rw [Node.starts_mk, Node.renamedStarts_mk] at heq
  exact congrArg Node.pos heq

theorem renamed_closed (hr : Function.Injective r) (hwords : ∀ word ∈ comparedTexts, r word = word)
    (source : String) : (renamed r g).Closed source source where
  words := .of_injective hr hwords
  below _ _ := trivial
  reached {tree child} htree hchild := by
    rcases htree with hterminal | ⟨slot, htree⟩
    · cases tree with
      | token => exact nomatch hchild
      | node => exact nomatch hterminal
    · exact htree.of_reached hchild
  labelled {tree} htree := by
    rcases htree with hterminal | ⟨slot, htree⟩
    · exact ParseTree.labelled_of_isTerminal hterminal
    · exact htree.labelled hwords
  make {tree} kind _ _ _ := by
    show Node.starts _ = Node.renamedStarts r _
    have hchildren : kind.map (fun pair => pair.right.starts) =
        kind.map fun pair => pair.left.renamedStarts r :=
      Kind.map_congr kind fun pair _ => pair.related
    rw [Node.starts_mk, Node.renamedStarts_mk, Kind.map_rename, Kind.map_map, Kind.map_map,
      hchildren]
    exact congrArg (Node.mk · _) (tree.start_position_rename r)
  reference {tree name d d'} _ hd := by
    obtain rfl : d' = d := hd
    show Node.starts _ = Node.renamedStarts r _
    rw [Node.starts_mk, Node.renamedStarts_mk]
    cases d' <;> exact congrArg (Node.mk · _) (tree.start_position_rename r)
  sourceElements {tree _ _ frame frame'} _ hbody := by
    obtain ⟨hnodes, hframe⟩ := hbody
    show Node.starts _ = Node.renamedStarts r _
    rw [Node.starts_mk, Node.renamedStarts_mk]
    rw [renamed_rename, tree.start_position_rename, Kind.map, Kind.map, Kind.rename, hnodes,
      hframe.vars, List.map_map]
    exact congrArg (fun funcs => Node.mk _ (.sourceElements ⟨_, funcs, _, source⟩)) hframe.funcs
  emptyBody := ⟨rfl, .empty r⟩
  view {a b} h := by
    obtain ⟨pos, kind⟩ := a
    obtain ⟨pos', kind'⟩ := b
    have hkind : kind'.map Node.starts = (kind.map (Node.renamedStarts r)).rename r := by
      have heq : Node.starts ⟨pos', kind'⟩ = Node.renamedStarts r ⟨pos, kind⟩ := h
      rw [Node.starts_mk, Node.renamedStarts_mk] at heq
      exact congrArg Node.kind heq
    have hview := congrArg Kind.view hkind
    rw [Kind.view_map, Kind.view_rename, Kind.view_map] at hview
    exact View.exists_paired_images hview
  malformed {tree at_ defect} quoted _ _ _ :=
    .malformed tree.symbol defect quoted (at_.start_position_rename r)
  malformedNode {tree a b defect} quoted _ h _ :=
    .malformed tree.symbol defect quoted (renamed_start h)
  unwritable {tree fault} _ _ := .invalidTarget fault (tree.start_position_rename r)
  unwritableNode {a b fault} h _ := .invalidTarget fault (renamed_start h)

/-- As many frames, each with the same declarations under other names. -/
inductive Scopes.RenamedTo (r : String → String) : Nat → Scopes → Scopes → Prop
  | nil : RenamedTo r 0 [] []
  | cons {opened : Nat} {frame frame' : Frame} {outer outer' : Scopes} :
      frame.RenamedTo r frame' → RenamedTo r opened outer outer' →
      RenamedTo r (opened + 1) (frame :: outer) (frame' :: outer')

theorem Scopes.RenamedTo.vars {opened : Nat} {scopes scopes' : Scopes}
    (h : RenamedTo r opened scopes scopes') :
    scopes'.map Frame.vars = scopes.map fun frame => frame.vars.map r := by
  induction h with
  | nil => rfl
  | cons hframe _ ih => rw [List.map_cons, List.map_cons, hframe.vars, ih]

/-- A name is found as far out as it was. -/
theorem Scopes.RenamedTo.resolve (hr : Function.Injective r) {opened : Nat}
    {scopes scopes' : Scopes} (h : RenamedTo r opened scopes scopes') (name : String) :
    scopes'.resolve (r name) = scopes.resolve name := by
  have hfind : (scopes'.map Frame.vars).findIdx? (fun names => decide (r name ∈ names)) =
      scopes.findIdx? fun frame => decide (name ∈ frame.vars) := by
    rw [h.vars, List.findIdx?_map]
    simp only [Function.comp_def, mem_map_names hr]
  rw [Scopes.resolve, Scopes.resolve, ← hfind, List.findIdx?_map]
  rfl

theorem renamed_lockstep (hr : Function.Injective r) (resolving : Bool) :
    Lockstep (fun _ => renamed r g) (Scopes.RenamedTo r) (BuildError.Renamed r) resolving
      resolving where
  error_eq _ := rfl
  rename_succ _ := rfl
  place_succ h := h
  visited_succ h := h
  lookup name hs := by
    show (if resolving then _ else none) = if resolving then _ else none
    rw [renamed_rename, hs.resolve hr]
  declareVar name hs := by
    cases hs with
    | nil => exact ⟨rfl, .nil⟩
    | cons hframe houter =>
      refine ⟨rfl, .cons ⟨?_, hframe.funcs⟩ houter⟩
      rw [map_addName hr, ← hframe.vars]
      rfl
  declareFunc {_ _ _ name _} pair _ _ hs := by
    cases hs with
    | nil => exact ⟨rfl, .nil⟩
    | cons hframe houter =>
      refine ⟨rfl, .cons ⟨hframe.vars, ?_⟩ houter⟩
      have hright := map_bindName Function.injective_id Node.starts (r name) pair.right
      have hleft := map_bindName hr (Node.renamedStarts r) name pair.left
      have hfunction : pair.right.starts = pair.left.renamedStarts r := pair.related
      refine (hright _).trans (Eq.trans ?_ (hleft _).symm)
      rw [hfunction, ← hframe.funcs]
      rfl
  push hs := .cons (.empty r) hs
  pop hs := by
    cases hs with
    | cons hframe houter =>
      refine ⟨_, _, _, _, rfl, rfl, houter, fun nodes nodes' hnodes => ?_⟩
      obtain ⟨pairs, rfl, rfl⟩ := hnodes
      refine ⟨?_, hframe⟩
      rw [List.map_map, List.map_map]
      exact List.map_congr_left fun pair _ => pair.related

/-! ## Whole builds -/

/-- **Names are opaque.**  Let `r` be an injective change of names that leaves the texts alone that
tokens are compared with.  If a conforming tree is built, the tree under other names is built to
the same nodes under other names; if the build of it fails, so does the other, with the same error.
Only where spans end can differ. -/
theorem names_opaque {r : String → String} (hr : Function.Injective r)
    (hwords : ∀ word ∈ comparedTexts, r word = word) (options : Options) {g : Dialect}
    {slot : Slot} {tree : ParseTree} (h : Conforms g slot tree) :
    (∀ root, build options tree = .ok root →
      ∃ root', build options (tree.rename r) = .ok root' ∧ root'.starts = (root.rename r).starts) ∧
    ∀ error, build options tree = .error error →
      ∃ error', build options (tree.rename r) = .error error' ∧ error.Renamed r error' := by
  have hrefusal : RefusalsCorrespond (fun _ => renamed r g) (BuildError.Renamed r) :=
    fun _ tree _ => ⟨.unknownSymbol tree.symbol (tree.start_position_rename r),
      .nestingTooDeep tree.symbol maxNesting (tree.start_position_rename r)⟩
  have h := build_lockstep options options (fun _ => renamed_closed hr hwords options.sourceName)
    (renamed_lockstep hr options.staticResolution) hrefusal .nil tree trivial
    (.inr ⟨slot, h⟩)
  rw [renamed_rename] at h
  generalize build options tree = result at h ⊢
  generalize build options (tree.rename r) = result' at h ⊢
  cases h with
  | ok hroot =>
    refine ⟨fun root h => ?_, nofun⟩
    cases h
    exact ⟨_, rfl, hroot⟩
  | error herror =>
    refine ⟨nofun, fun error h => ?_⟩
    cases h
    exact ⟨_, rfl, herror⟩

/-- `x` and `total` change places. -/
def swapped (name : String) : String :=
  if name = "x" then "total" else if name = "total" then "x" else name

theorem swapped_swapped (name : String) : swapped (swapped name) = name := by
  unfold swapped
  grind

theorem names_opaque_closure :
    Function.Injective swapped ∧ (∀ word ∈ comparedTexts, swapped word = word) ∧
      Conforms .contract .program closureSample ∧
      ∃ root', build ⟨"", true⟩ (closureSample.rename swapped) = .ok root' ∧
        root'.starts = (closureNode.rename swapped).starts := by
  have hinjective : Function.Injective swapped := by
    intro a b h
    rw [← swapped_swapped a, h, swapped_swapped]
  have hwords : ∀ word ∈ comparedTexts, swapped word = word := by decide
  have hconforms : Conforms .contract .program closureSample :=
    closureSample_conforms ⟨by decide, nofun, nofun⟩
  have hopaque := names_opaque hinjective hwords ⟨"", true⟩ hconforms
  exact ⟨hinjective, hwords, hconforms, hopaque.1 closureNode rfl⟩

end ScriptAst
