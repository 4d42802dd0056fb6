import ScriptAst.Proofs.Discipline
import ScriptAst.Proofs.Grammar.Shapes
import ScriptAst.Proofs.Outcome
import ScriptAst.Proofs.Pairing.Basic

/-! # How conforming trees are built

`Built table options parts before items after` is the build of conforming trees as a relation: over
the frames `before`, the parts are built one after the other into the items and leave the frames
`after`.  It says where the frames are looked at and where they change, and for all other trees only
that their parts are built in order and put together (`Made`).  What the parts of a tree are is read
off a table of shapes, the contract's own or one that admits fewer readings (`Follows`).

`dispatch_builds` shows that a conforming tree is built so, unless the room for nesting is less than
its height or the error is one that the dialect does not rule out.
-/
namespace ScriptAst

/-- What a token of a class of literals denotes. -/
def Symbol.literal? (symbol : Symbol) (text : String) : Option (Kind Node) :=
  match symbol with
  | decimalLiteral => some (Literal.decimal text)
  | hexIntegerLiteral => (Literal.radix? text 16).map .int
  | octalLiteral => (Literal.radix? text 8).map .int
  | doubleString | singleString => some (.string (Literal.string text))
  | _ => none

theorem Symbol.isLiteral_of_literal? {symbol : Symbol} {text : String} {kind : Kind Node}
    (h : symbol.literal? text = some kind) : symbol.isLiteral ∧ kind.IsLiteral := by
  cases symbol with
  | decimalLiteral =>
    cases h
    obtain ⟨value, hvalue⟩ | ⟨value, hvalue⟩ := Literal.decimal_eq text <;> rw [hvalue] <;>
      exact ⟨rfl, trivial⟩
  | hexIntegerLiteral | octalLiteral =>
    obtain ⟨value, _, rfl⟩ := Option.map_eq_some_iff.mp h
    exact ⟨rfl, trivial⟩
  | doubleString | singleString =>
    cases h
    exact ⟨rfl, trivial⟩
  | _ => exact nomatch h

/-- The distance to the nearest frame that declares the name, if names are resolved. -/
def Scopes.distance (options : Options) (name : String) (scopes : Scopes) : Option Nat :=
  if options.staticResolution then scopes.findIdx? fun frame => name ∈ frame.vars else none

/-! ## Tables -/

/-- Which parts the children of a symbol have. -/
abbrev Table := Symbol → List ParseTree → List Part → Prop

/-- The tree follows the table in its slot. -/
inductive Follows (table : Table) (spelling : Symbol → String → Prop) : Slot → ParseTree → Prop
  | token {slot : Slot} {symbol : Symbol} {text : String} (pos : SourcePos) : slot.admits symbol →
      symbol.isToken → spelling symbol text →
      Follows table spelling slot (.token symbol.name text pos)
  | node {slot : Slot} {symbol : Symbol} {children : List ParseTree} {parts : List Part} :
      slot.admits symbol → table symbol children parts →
      (∀ part ∈ parts, Follows table spelling part.1 part.2) →
      Follows table spelling slot (.node symbol.name children)

theorem Conforms.follows {g : Dialect} {slot : Slot} {tree : ParseTree} (h : Conforms g slot tree) :
    Follows (Shape g) g.spelling slot tree := by
  induction h with
  | token pos hadmits htoken hspelled => exact .token pos hadmits htoken hspelled
  | node hadmits hshape _ ih => exact .node hadmits hshape ih

/-- A table of shapes of the contract. -/
def Table.Within (table : Table) (g : Dialect) : Prop :=
  ∀ {symbol children parts}, table symbol children parts → Shape g symbol children parts

theorem Follows.conforms {table : Table} {g : Dialect} (htable : table.Within g) {slot : Slot}
    {tree : ParseTree} (h : Follows table g.spelling slot tree) : Conforms g slot tree := by
  induction h with
  | token pos hadmits htoken hspelled => exact .token pos hadmits htoken hspelled
  | node hadmits hrow _ ih => exact .node hadmits (htable hrow) ih

/-! ## Builds as a relation -/

/-- The node for a name met over the frames. -/
def Word.node (options : Options) (scopes : Scopes) (word : Word) : Node :=
  ⟨word.tree.position, .reference word.text (scopes.distance options word.text)⟩

theorem Word.literalName?_node (options : Options) (scopes : Scopes) (word : Word) :
    (word.node options scopes).literalName? = some word.text := by
  unfold node
  cases scopes.distance options word.text <;> rfl

/-- The parts are built in order over the frames `before`. -/
inductive Built (table : Table) (options : Options) :
    List Part → (before : Scopes) → List Item → (after : Scopes) → Prop
  | nil {scopes : Scopes} : Built table options [] scopes [] scopes
  | cons {part : Part} {parts : List Part} {before between after : Scopes}
      {items rest : List Item} : Built table options [part] before items between →
      Built table options parts between rest after →
      Built table options (part :: parts) before (items ++ rest) after
  | label {scopes : Scopes} (word : Word) :
      Built table options [(.label, word.tree)] scopes [.text word.text] scopes
  | reference {slot : Slot} {scopes : Scopes} (word : Word) : slot ≠ .label →
      Built table options [(slot, word.tree)] scopes [.node (word.node options scopes)] scopes
  | literal {slot : Slot} {scopes : Scopes} {symbol : Symbol} {text : String} {kind : Kind Node}
      (pos : SourcePos) : symbol.literal? text = some kind →
      Built table options [(slot, .token symbol.name text pos)] scopes
        [.node ⟨.ofToken pos text.utf8ByteSize, kind⟩] scopes
  | made {slot : Slot} {symbol : Symbol} {children : List ParseTree} {parts : List Part}
      {before after : Scopes} {items : List Item} {node : Node} : symbol.isScoped = false →
      table symbol children parts → Built table options parts before items after →
      Made options.sourceName items node →
      Built table options [(slot, .node symbol.name children)] before [.node node] after
  /-- The name is built before it is declared, and the value after that. -/
  | declaration {slot : Slot} {symbol : Symbol} (name : Word) {init : Option ParseTree}
      {before after : Scopes} {initNode : Option Node} : symbol.isDeclaration →
      Built table options (Slot.expression.each init.toList) (before.declareVar name.text).2
        (initNode.toList.map .node) after →
      Built table options [(slot, .node symbol.name (name.tree :: init.toList))] before
        [.node ⟨name.tree.position, .variableDeclaration (name.node options before) initNode⟩] after
  /-- The items are built in a frame of their own, which is what the body declares. -/
  | body {slot : Slot} {items : List ParseTree} {scopes : Scopes} {frame : Frame}
      {statements : List Node} :
      Built table options (Slot.item.each items) scopes.push (statements.map .node)
        (frame :: scopes) →
      Built table options [(slot, .node Symbol.sourceElements.name items)] scopes
        [.node ⟨(ParseTree.node Symbol.sourceElements.name items).position,
          .sourceElements ⟨frame.vars, frame.funcs, statements, options.sourceName⟩⟩] scopes
  | functionDeclaration {slot : Slot} {children : List ParseTree} {parts : List Part}
      {before after : Scopes} {items : List Item} {name : String} {params : List String}
      {body : Option Node} {pos : Position} : table .functionDeclaration children parts →
      Built table options parts before items after →
      Made options.sourceName items ⟨pos, .functionStatement ⟨some name, params, body⟩⟩ →
      (∀ node ∈ body, node.kind.IsBody) →
      Built table options [(slot, .node Symbol.functionDeclaration.name children)] before []
        (after.declareFunc name ⟨pos, .functionStatement ⟨some name, params, body⟩⟩).2

theorem Scopes.funcs_declareVar (name : String) (scopes : Scopes) :
    (scopes.declareVar name).2.map Frame.funcs = scopes.map Frame.funcs := by
  cases scopes <;> rfl

namespace Built

variable {table : Table} {options : Options} {parts : List Part} {before after : Scopes}
  {items : List Item}

theorem length_eq (h : Built table options parts before items after) :
    after.length = before.length := by
  induction h with
  | nil | label | reference | literal | body => rfl
  | cons _ _ ih ih' => rw [ih', ih]
  | made _ _ _ _ ih => exact ih
  | declaration _ _ _ ih => rw [ih, Scopes.length_declareVar]
  | functionDeclaration _ _ _ _ ih => rw [Scopes.length_declareFunc, ih]

/-- Where no functions are declared, no frame gets one. -/
theorem funcs_eq {g : Dialect} (htable : table.Within g) (hg : ¬ g.declarations)
    (h : Built table options parts before items after) :
    after.map Frame.funcs = before.map Frame.funcs := by
  induction h with
  | nil | label | reference | literal | body => rfl
  | cons _ _ ih ihRest => rw [ihRest, ih]
  | made _ _ _ _ ih => exact ih
  | declaration _ _ _ ih => rw [ih, Scopes.funcs_declareVar]
  | functionDeclaration hrow => exact absurd (htable hrow).of_functionDeclaration.1 hg

theorem of_nil (h : Built table options [] before items after) : items = [] ∧ after = before := by
  cases h with
  | nil => exact ⟨rfl, rfl⟩

/-- Building a name looks at the frames and leaves them as they are. -/
theorem of_word {slot : Slot} {word : Word}
    (h : Built table options [(slot, word.tree)] before items after) (hlabel : slot ≠ .label) :
    items = [.node (word.node options before)] ∧ after = before := by
  generalize hparts : [(slot, word.tree)] = parts at h
  induction h with
  | nil => exact nomatch hparts
  | cons _ hrest ih =>
    obtain ⟨rfl, rfl⟩ := List.cons.inj hparts
    obtain ⟨rfl, rfl⟩ := ih rfl
    obtain ⟨rfl, rfl⟩ := hrest.of_nil
    exact ⟨rfl, rfl⟩
  | label =>
    injection hparts with hpart
    injection hpart with hslot
    exact absurd hslot hlabel
  | reference other =>
    injection hparts with hpart
    injection hpart with _ htree
    injection htree with _ htext hpos
    obtain ⟨text, pos⟩ := word
    obtain rfl : text = other.text := htext
    obtain rfl : pos = other.pos := hpos
    exact ⟨rfl, rfl⟩
  | @literal _ _ symbol _ _ _ hliteral =>
    injection hparts with hpart
    injection hpart with _ htree
    injection htree with hsymbol
    have hname : symbol = .identifierName :=
      Option.some.inj ((Symbol.ofName?_name symbol).symm.trans
        (hsymbol ▸ Symbol.ofName?_name .identifierName))
    subst hname
    exact nomatch hliteral
  | made | declaration | body | functionDeclaration => exact nomatch hparts

end Built

/-- The visit of a part: an answer that fits the slot, built as the relation says, or one of the
given errors. -/
def VisitBuilds (table : Table) (options : Options) (error : BuildError → Prop)
    (visit : ParseTree → Scopes → Outcome (Option Node)) (scopes : Scopes) (part : Part) : Prop :=
  (visit part.2 scopes).Satisfies
    (fun answer after =>
      part.1.Fits answer ∧ Built table options [part] scopes (answer.toList.map .node) after) error

/-- What is asked of the visits of parts: over so many frames each is built as the relation says. -/
def PartsBuild (table : Table) (options : Options) (error : BuildError → Prop)
    (visit : ParseTree → Scopes → Outcome (Option Node)) (opened : Nat) (parts : List Part) :
    Prop :=
  ∀ part ∈ parts, part.1 ≠ .label → ∀ scopes : Scopes, scopes.length = opened →
    VisitBuilds table options error visit scopes part

theorem PartsBuild.tail {table : Table} {options : Options} {error : BuildError → Prop}
    {visit : ParseTree → Scopes → Outcome (Option Node)} {opened : Nat} {part : Part}
    {parts : List Part} (h : PartsBuild table options error visit opened (part :: parts)) :
    PartsBuild table options error visit opened parts :=
  fun p hp => h p (.tail _ hp)

/-- **A plan that reads parts builds them.** -/
theorem Plan.Reads.run {α : Type} {parts : List Part} {Q : List Item → α → Prop} {plan : Plan α}
    (h : Reads parts Q plan) {table : Table} {options : Options} {error : BuildError → Prop}
    {visit : ParseTree → Scopes → Outcome (Option Node)} (resolving : Bool) (scopes : Scopes)
    (hvisit : PartsBuild table options error visit scopes.length parts)
    (herror : ∀ pos fault, error (.invalidTarget pos fault)) :
    (plan.run resolving visit scopes).Satisfies
      (fun value after => ∃ items, Built table options parts scopes items after ∧ Q items value)
      error := by
  induction h generalizing scopes with
  | done hq => exact ⟨[], .nil, hq⟩
  | fail pos fault => exact herror pos fault
  | visit hlabel _ ih =>
    -- A visit leaves as many frames open, so the other parts can still be visited.
    have hfirst := hvisit _ (.head _) hlabel scopes rfl
    refine Outcome.Satisfies.andThen hfirst fun answer between ⟨hfits, hbuilt⟩ => ?_
    have hrest := hbuilt.length_eq ▸ hvisit.tail
    refine (ih answer hfits between hrest).mono (fun value after => ?_) fun _ he => he
    rintro ⟨items, hrest, hq⟩
    exact ⟨_, .cons hbuilt hrest, hq⟩
  | label word _ ih =>
    refine (ih scopes hvisit.tail).mono (fun value after => ?_) fun _ he => he
    rintro ⟨items, hrest, hq⟩
    exact ⟨_, .cons (.label word) hrest, hq⟩

/-! ## Conforming trees -/

/-- What the builds of a dialect rest on: names and literals are told from the tokens around them,
and an error that is no fault means a literal that denotes nothing. -/
structure Dialect.Supported (g : Dialect) (fault : BuildError → Prop) : Prop where
  unreserved {symbol : Symbol} {text : String} : g.spelling symbol text → text ∉ reservedTexts
  invalidTarget (pos : Position) (reason : TargetFault) : fault (.invalidTarget pos reason)
  literal {symbol : Symbol} {text : String} : g.spelling symbol text → symbol.isToken →
    symbol ≠ .identifierName → (symbol.literal? text).isSome ∨ ∀ error, fault error

theorem Conforms.unreserved {g : Dialect} {fault : BuildError → Prop} (hg : g.Supported fault)
    {slot : Slot} {tree : ParseTree} (h : Conforms g slot tree) : tree.Unreserved := by
  cases h with
  | token _ _ _ hspelled => exact fun text htext => Option.some.inj htext ▸ hg.unreserved hspelled
  | node => exact nofun

/-- As long as the frames can be counted in 32 bits, every distance is given. -/
theorem Scopes.resolve_eq {scopes : Scopes} (h : scopes.length ≤ UInt32.size) (name : String) :
    scopes.resolve name = scopes.findIdx? fun frame => name ∈ frame.vars := by
  rw [resolve]
  cases hfind : scopes.findIdx? fun frame => decide (name ∈ frame.vars) with
  | none => rfl
  | some i =>
    obtain ⟨hlt, _⟩ := List.findIdx?_eq_some_iff_getElem.mp hfind
    exact Option.filter_some_pos (decide_eq_true (Nat.lt_of_lt_of_le hlt h))

section Trees

variable {g : Dialect} {table : Table} {fault error : BuildError → Prop} {options : Options}
  {slot : Slot} {visit : ParseTree → Scopes → Outcome (Option Node)} {scopes : Scopes}

/-- The outcome of a plan that always has a node, as an answer. -/
theorem run_node {plan : Plan Node} {resolving : Bool} {ok : Node → Scopes → Prop}
    (h : (plan.run resolving visit scopes).Satisfies ok error) :
    ((Symbol.plan.node plan).run resolving visit scopes).Satisfies
      (fun answer after => ∃ node, answer = some node ∧ ok node after) error := by
  show (Plan.run _ _ (Plan.bind _ _) _).Satisfies _ _
  rw [Plan.run_bind]
  exact h.andThen fun node after hnode => ⟨node, rfl, hnode⟩

/-- The plan for a name answers with the name, resolved as far as it goes. -/
theorem identifier_eq (word : Word) :
    Production.identifier word.tree = .lookup word.text fun depth =>
      .done ⟨word.tree.position, .reference word.text depth⟩ := by
  show Plan.lookup _ _ = _
  congr 1
  funext depth
  cases depth <;> rfl

theorem identifier_builds (hlabel : slot ≠ .label) (word : Word)
    (hadmits : slot.admits .identifierName) (hlength : scopes.length ≤ UInt32.size) :
    ((Symbol.plan options.sourceName word.tree .identifierName).run options.staticResolution visit
      scopes).Satisfies
      (fun answer after => slot.Fits answer ∧
        Built table options [(slot, word.tree)] scopes (answer.toList.map .node) after) error := by
  have hrun : (Symbol.plan.node (Production.identifier word.tree)).run options.staticResolution
      visit scopes = ⟨.ok (some ⟨word.tree.position, .reference word.text
        (if options.staticResolution then scopes.resolve word.text else none)⟩), scopes⟩ := by
    rw [identifier_eq]
    rfl
  rw [Scopes.resolve_eq hlength] at hrun
  show (Plan.run _ _ (Symbol.plan.node _) _).Satisfies _ _
  rw [hrun]
  refine ⟨.node ?_, .reference word hlabel⟩
  cases slot with
  | name => exact Option.isSome_iff_exists.mpr ⟨_, word.literalName?_node options scopes⟩
  | parameters | body | literal => exact nomatch hadmits
  | _ => trivial

theorem radixLiteral_eq_done {radix : Nat} {text : String} {value : Int64}
    (h : Literal.radix? text radix = some value) (symbol : String) (pos : SourcePos) :
    Production.radixLiteral radix (.token symbol text pos) =
      .done ⟨.ofToken pos text.utf8ByteSize, .int value⟩ := by
  have htext : Production.text (.token symbol text pos) = .done text := rfl
  unfold Production.radixLiteral
  rw [htext, Production.done_bind, h]
  rfl

theorem radixLiteral_eq_fail {radix : Nat} {text : String}
    (h : Literal.radix? text radix = none) (symbol : String) (pos : SourcePos) :
    Production.radixLiteral radix (.token symbol text pos) =
      .fail (.malformed symbol (.ofToken pos text.utf8ByteSize) (.notAnInteger text radix)) := by
  have htext : Production.text (.token symbol text pos) = .done text := rfl
  unfold Production.radixLiteral
  rw [htext, Production.done_bind, h]
  rfl

theorem literal_plan (source : String) {symbol : Symbol} {text : String} {kind : Kind Node}
    (h : symbol.literal? text = some kind) (pos : SourcePos) :
    symbol.plan source (.token symbol.name text pos) =
      .done (some ⟨.ofToken pos text.utf8ByteSize, kind⟩) := by
  cases symbol with
  | decimalLiteral | doubleString | singleString =>
    cases h
    rfl
  | hexIntegerLiteral | octalLiteral =>
    obtain ⟨value, hvalue, rfl⟩ := Option.map_eq_some_iff.mp h
    exact congrArg Symbol.plan.node (radixLiteral_eq_done hvalue _ pos)
  | _ => exact absurd h (Option.some_ne_none kind).symm

/-- A token of a class of literals that denotes nothing is malformed. -/
theorem not_literal_plan (source : String) {symbol : Symbol} {text : String}
    (htoken : symbol.isToken) (hname : symbol ≠ .identifierName) (h : symbol.literal? text = none)
    (pos : SourcePos) :
    ∃ e, symbol.plan source (.token symbol.name text pos) = .fail e := by
  cases symbol with
  | identifierName => exact absurd rfl hname
  | hexIntegerLiteral | octalLiteral =>
    have hnone := Option.map_eq_none_iff.mp h
    exact ⟨_, congrArg Symbol.plan.node (radixLiteral_eq_fail hnone _ pos)⟩
  | decimalLiteral | doubleString | singleString => exact absurd h (Option.some_ne_none _)
  | _ => exact absurd htoken Bool.false_ne_true

theorem token_builds (hg : g.Supported fault) (hfault : ∀ e, fault e → error e)
    (hlabel : slot ≠ .label) {symbol : Symbol} {text : String} (pos : SourcePos)
    (hadmits : slot.admits symbol) (htoken : symbol.isToken) (hspelled : g.spelling symbol text)
    (hlength : scopes.length ≤ UInt32.size) :
    ((symbol.plan options.sourceName (.token symbol.name text pos)).run options.staticResolution
      visit scopes).Satisfies
      (fun answer after => slot.Fits answer ∧
        Built table options [(slot, .token symbol.name text pos)] scopes (answer.toList.map .node)
          after) error := by
  by_cases hname : symbol = .identifierName
  · subst hname
    exact identifier_builds hlabel ⟨text, pos⟩ hadmits hlength
  cases hliteral : symbol.literal? text with
  | some kind =>
    obtain ⟨hsymbol, hkind⟩ := Symbol.isLiteral_of_literal? hliteral
    rw [literal_plan _ hliteral]
    exact ⟨.node (Slot.takes_literal hadmits hsymbol hkind), .literal pos hliteral⟩
  | none =>
    obtain ⟨e, he⟩ := not_literal_plan options.sourceName htoken hname hliteral pos
    rw [he]
    have hall := hg.literal hspelled htoken hname
    rw [hliteral] at hall
    exact hfault e (hall.resolve_left nofun e)

/-! ### Nodes -/

theorem visitAll_builds (slot : Slot) (hlabel : slot ≠ .label) {trees : List ParseTree}
    (hvisit : PartsBuild table options error visit scopes.length (slot.each trees)) :
    (Plan.visitAll visit trees scopes).Satisfies
      (fun nodes after => Built table options (slot.each trees) scopes (nodes.map .node) after)
      error := by
  induction trees generalizing scopes with
  | nil => exact .nil
  | cons tree trees ih =>
    refine Outcome.Satisfies.andThen (hvisit _ (.head _) hlabel scopes rfl)
      fun answer between ⟨_, hfirst⟩ => ?_
    refine (ih (hfirst.length_eq ▸ hvisit.tail)).andThen fun nodes after hnodes => ?_
    show Built _ _ _ _ ((answer.toList ++ nodes).map .node) _
    rw [List.map_append]
    exact .cons hfirst hnodes

/-- A body is built in a frame of its own. -/
theorem sourceElements_builds (hdisciplined : ∀ tree scopes, (visit tree scopes).Disciplined scopes)
    (hadmits : slot.admits .sourceElements) {items : List ParseTree}
    (hvisit : PartsBuild table options error visit (scopes.length + 1) (Slot.item.each items)) :
    ((Symbol.plan options.sourceName (.node Symbol.sourceElements.name items) .sourceElements).run
      options.staticResolution visit scopes).Satisfies
      (fun answer after => slot.Fits answer ∧
        Built table options [(slot, .node Symbol.sourceElements.name items)] scopes
          (answer.toList.map .node) after) error := by
  have hall : (Plan.visitAll visit items scopes.push).Satisfies (fun nodes after =>
      Built table options (Slot.item.each items) scopes.push (nodes.map .node) after) error :=
    visitAll_builds .item nofun hvisit
  have hgrows := Plan.visitAll_disciplined hdisciplined items scopes.push
  show (Outcome.andThen (Plan.visitAll visit items scopes.push) _).Satisfies _ _
  generalize Plan.visitAll visit items scopes.push = all at hall hgrows
  obtain ⟨_ | nodes, after⟩ := all
  · exact hall
  · -- The frames below the one of the body are as they were.
    obtain ⟨frame, rfl⟩ := Scopes.Grows.of_push hgrows
    refine ⟨.node ?_, .body hall⟩
    cases slot with
    | body => exact trivial
    | name | parameters | literal => exact nomatch hadmits
    | _ => trivial

/-- What stands in the slot of a name is a name. -/
theorem Conforms.eq_word {g : Dialect} {tree : ParseTree} (h : Conforms g .name tree) :
    ∃ word : Word, tree = word.tree := by
  cases h with
  | @token _ symbol text pos hadmits =>
    have hsymbol : symbol = .identifierName := of_decide_eq_true hadmits
    subst hsymbol
    exact ⟨⟨text, pos⟩, rfl⟩
  | @node _ symbol _ _ hadmits hshape =>
    have hsymbol : symbol = .identifierName := of_decide_eq_true hadmits
    subst hsymbol
    cases hshape with
    | declarations _ h | declaration _ _ h | regularFor _ _ _ _ _ _ _ _ h | inFor _ _ _ _ h
      | jump _ h | operation _ h | assignment _ _ _ h => exact nomatch h

/-- A declaration of a variable reaches a frame, and the value is built behind it. -/
theorem variableDeclaration_builds (slot : Slot) {symbol : Symbol} (hsymbol : symbol.isDeclaration)
    (name : Word) {init : Option ParseTree}
    (hinvalid : ∀ pos reason, error (.invalidTarget pos reason))
    (hopen : scopes ≠ [] ∨ ∀ e, error e)
    (hvisit : PartsBuild table options error visit scopes.length
      ((.name, name.tree) :: Slot.expression.each init.toList)) :
    ((Production.variableDeclaration (.node symbol.name (name.tree :: init.toList))).run
      options.staticResolution visit scopes).Satisfies
      (fun node after => Built table options
        [(slot, .node symbol.name (name.tree :: init.toList))] scopes [.node node] after)
      error := by
  have htarget : Plan.Reads [(Slot.name, name.tree)] (fun items node => items = [.node node])
      (Production.value name.tree) := Production.value_done nofun nofun fun node _ => rfl
  show (Plan.run _ _ (Plan.bind _ (Production.value name.tree)) _).Satisfies _ _
  rw [Plan.run_bind]
  refine (htarget.run options.staticResolution scopes (fun part hpart =>
    hvisit part (List.mem_cons.mpr (.inl (List.mem_singleton.mp hpart)))) hinvalid).andThen
    fun targetNode between => ?_
  rintro ⟨_, hbuilt, rfl⟩
  obtain ⟨htargetNode, rfl⟩ := hbuilt.of_word nofun
  cases htargetNode
  have hname : Production.nameOf (.node symbol.name (name.tree :: init.toList))
      (name.node options between) = .ok name.text :=
    Production.nameOf_eq (name.literalName?_node options between)
  -- Without an open frame the declaration fails; `hopen` rules it out or excuses it.
  cases between with
  | nil =>
    simp only [hname]
    exact hopen.resolve_left (fun h => h rfl) _
  | cons frame outer =>
    have hinit : Plan.Reads (Slot.expression.each init.toList)
        (fun items (node : Node) => ∃ initNode : Option Node, items = initNode.toList.map .node ∧
          node = ⟨name.tree.position,
            .variableDeclaration (name.node options (frame :: outer)) initNode⟩)
        (Production.childValue? (.node symbol.name (name.tree :: init.toList)) 1 >>=
          fun initNode => .done ⟨name.tree.position,
            .variableDeclaration (name.node options (frame :: outer)) initNode⟩) :=
      Production.childValue?_done [name.tree] rfl nofun nofun fun initNode => ⟨initNode, rfl, rfl⟩
    simp only [hname]
    refine (hinit.run options.staticResolution (Scopes.declareVar name.text (frame :: outer)).2
      hvisit.tail hinvalid).mono ?_ fun _ he => he
    rintro _ after ⟨_, hrest, initNode, rfl, rfl⟩
    exact .declaration name hsymbol hrest

theorem declaration_builds {symbol : Symbol} (hsymbol : symbol.isDeclaration)
    (hadmits : slot.admits symbol) (name : Word) {init : Option ParseTree}
    (hinvalid : ∀ pos reason, error (.invalidTarget pos reason))
    (hopen : scopes ≠ [] ∨ ∀ e, error e)
    (hvisit : PartsBuild table options error visit scopes.length
      ((.name, name.tree) :: Slot.expression.each init.toList)) :
    ((symbol.plan options.sourceName (.node symbol.name (name.tree :: init.toList))).run
      options.staticResolution visit scopes).Satisfies
      (fun answer after => slot.Fits answer ∧
        Built table options [(slot, .node symbol.name (name.tree :: init.toList))] scopes
          (answer.toList.map .node) after) error := by
  have hspecial : symbol.isSpecial = false := by
    cases symbol <;> first | exact absurd hsymbol Bool.false_ne_true | rfl
  rw [Symbol.plan_of_isDeclaration hsymbol]
  have hbuilds := variableDeclaration_builds slot hsymbol name hinvalid hopen hvisit
  refine (run_node hbuilds).mono ?_ fun _ he => he
  rintro answer after ⟨node, rfl, hbuilt⟩
  exact ⟨.node (Slot.takes_of_admits hadmits hspecial node), hbuilt⟩

/-- The declaration of a function reaches a frame and has no node. -/
theorem functionDeclaration_builds {children : List ParseTree} {parts : List Part}
    (hrow : table .functionDeclaration children parts)
    (hshape : Shape g .functionDeclaration children parts)
    (hadmits : slot.admits .functionDeclaration)
    (hparts : ∀ part ∈ parts, part.2.Unreserved)
    (hinvalid : ∀ pos reason, error (.invalidTarget pos reason))
    (hopen : scopes ≠ [] ∨ ∀ e, error e)
    (hvisit : PartsBuild table options error visit scopes.length parts) :
    ((Symbol.plan options.sourceName (.node Symbol.functionDeclaration.name children)
      .functionDeclaration).run options.staticResolution visit scopes).Satisfies
      (fun answer after => slot.Fits answer ∧
        Built table options [(slot, .node Symbol.functionDeclaration.name children)] scopes
          (answer.toList.map .node) after) error := by
  have hslot : slot = .item := by cases slot <;> first | rfl | exact nomatch hadmits
  have hinversion := hshape.of_functionDeclaration
  obtain ⟨_, name, opening, parameters, closing, body, last, rfl, rfl⟩ := hinversion
  have hreads := Production.functionParts_reads (some name) parameters body opening closing last
    (.node Symbol.functionDeclaration.name _) rfl hparts
  show (Plan.run _ _ (Plan.bind _ (Production.functionParts _)) _).Satisfies _ _
  rw [Plan.run_bind]
  refine (hreads.run options.staticResolution scopes hvisit hinvalid).andThen ?_
  rintro ⟨_ | nameNode, paramsNode, bodyNode⟩ between
    ⟨_, hbuilt, rfl, ⟨hsome, _⟩, hnames, hlists, hbodies⟩
  · exact nomatch hsome
  obtain ⟨called, hcalled⟩ := Option.isSome_iff_exists.mp (hnames nameNode rfl)
  obtain ⟨params, rfl, hparams, hparameterNames⟩ := Production.exists_params hlists
  have hlength := hbuilt.length_eq
  simp only [Production.nameOf_eq hcalled, hparameterNames]
  cases between with
  | nil => exact hopen.resolve_left (fun h => h (List.length_eq_zero_iff.mp hlength.symm)) _
  | cons frame outer =>
    have hname : ∀ n ∈ some (nameNode, called), n.1.literalName? = some n.2 :=
      fun n hn => Option.some.inj hn ▸ hcalled
    exact ⟨.declared hslot,
      .functionDeclaration hrow hbuilt (.function hname hparams) hbodies⟩

/-- All other trees build their parts in order and put them together. -/
theorem Shape.builds {symbol : Symbol} {children : List ParseTree} {parts : List Part}
    (hshape : Shape g symbol children parts) (hrow : table symbol children parts)
    (hadmits : slot.admits symbol)
    (hparts : ∀ part ∈ parts, Conforms g part.1 part.2 ∧ part.2.Unreserved)
    (hsymbol : symbol.isScoped = false)
    (hinvalid : ∀ pos reason, error (.invalidTarget pos reason))
    (hvisit : PartsBuild table options error visit scopes.length parts) :
    ((symbol.plan options.sourceName (.node symbol.name children)).run options.staticResolution
      visit scopes).Satisfies
      (fun answer after => slot.Fits answer ∧ Built table options
        [(slot, .node symbol.name children)] scopes (answer.toList.map .node) after)
      error := by
  refine ((hshape.reads options.sourceName hparts hsymbol).run options.staticResolution scopes
    hvisit hinvalid).mono ?_ fun _ he => he
  rintro _ after ⟨items, hbuilt, node, rfl, hmade, htakes⟩
  exact ⟨.node (htakes slot hadmits), .made hsymbol hrow hbuilt hmade⟩

/-- The number of frames that a tree of the symbol opens for its parts. -/
def Symbol.opened (symbol : Symbol) : Nat := if symbol = .sourceElements then 1 else 0

theorem Symbol.opened_of_not_isScoped {symbol : Symbol} (h : symbol.isScoped = false) :
    symbol.opened = 0 :=
  if_neg (by rintro rfl; exact nomatch h)

theorem Symbol.opened_of_isDeclaration {symbol : Symbol} (h : symbol.isDeclaration) :
    symbol.opened = 0 :=
  if_neg (by rintro rfl; exact nomatch h)

theorem node_builds (hdisciplined : ∀ tree scopes, (visit tree scopes).Disciplined scopes)
    {symbol : Symbol} {children : List ParseTree} {parts : List Part}
    (hshape : Shape g symbol children parts) (hrow : table symbol children parts)
    (hadmits : slot.admits symbol)
    (hparts : ∀ part ∈ parts, Conforms g part.1 part.2 ∧ part.2.Unreserved)
    (hopen : symbol = .program ∨ 0 < scopes.length + symbol.opened ∨ ∀ e, error e)
    (hinvalid : ∀ pos reason, error (.invalidTarget pos reason))
    (hvisit : PartsBuild table options error visit (scopes.length + symbol.opened) parts) :
    ((symbol.plan options.sourceName (.node symbol.name children)).run options.staticResolution
      visit scopes).Satisfies
      (fun answer after => slot.Fits answer ∧ Built table options
        [(slot, .node symbol.name children)] scopes (answer.toList.map .node) after)
      error := by
  cases hscoped : symbol.isScoped with
  | false =>
    rw [Symbol.opened_of_not_isScoped hscoped] at hvisit
    exact hshape.builds hrow hadmits hparts hscoped hinvalid hvisit
  | true =>
    cases hshape.scoped hscoped with
    | body => exact sourceElements_builds hdisciplined hadmits hvisit
    | function hshape =>
      refine functionDeclaration_builds hrow hshape hadmits
        (fun part hpart => (hparts part hpart).2) hinvalid ?_ hvisit
      exact (hopen.resolve_left nofun).imp_left List.ne_nil_of_length_pos
    | declaration _ _ hsymbol =>
      rw [Symbol.opened_of_isDeclaration hsymbol] at hvisit hopen
      obtain ⟨name, rfl⟩ := (hparts _ (.head _)).1.eq_word
      refine declaration_builds hsymbol hadmits name hinvalid ?_ hvisit
      exact (hopen.resolve_left (by rintro rfl; exact nomatch hsymbol)).imp_left
        List.ne_nil_of_length_pos

end Trees

theorem ParseTree.height_pos (tree : ParseTree) : 0 < tree.height := by
  cases tree <;> rw [height]
  · exact Nat.one_pos
  · exact Nat.succ_pos _

/-- Wherever a frame is looked for, one is open; or an error does not matter. -/
def Slot.FindsFrame (slot : Slot) (opened : Nat) (fault : BuildError → Prop) : Prop :=
  slot = .program ∨ slot = .body ∨ 0 < opened ∨ ∀ e, fault e

/-- **Conforming trees are built as the relation says**, or fail with a fault of the dialect or for
want of room. -/
theorem dispatch_builds {g : Dialect} {fault : BuildError → Prop} (hg : g.Supported fault)
    {table : Table} (htable : table.Within g) (options : Options) (room : Nat) {slot : Slot}
    {tree : ParseTree} (h : Follows table g.spelling slot tree) (hlabel : slot ≠ .label)
    (scopes : Scopes) (hopen : slot.FindsFrame scopes.length fault)
    (hlength : scopes.length + room ≤ UInt32.size) :
    VisitBuilds table options (fun e => fault e ∨ room < tree.height) (dispatch options room) scopes
      (slot, tree) := by
  -- A level of the tree takes a level of the room, and a body in it takes a frame.
  induction room generalizing slot tree scopes with
  | zero =>
    obtain ⟨symbol, hsymbol, _⟩ := (h.conforms htable).admits
    rw [VisitBuilds, dispatch, hsymbol, Symbol.ofName?_name]
    exact .inr tree.height_pos
  | succ room ih =>
    rw [VisitBuilds, dispatch]
    cases h with
    | @token _ symbol text pos hadmits htoken hspelled =>
      simp only [ParseTree.symbol, Symbol.ofName?_name]
      exact token_builds hg (fun _ => .inl) hlabel pos hadmits htoken hspelled (by omega)
    | @node _ symbol children parts hadmits hrow hparts =>
      have hshape := htable hrow
      simp only [ParseTree.symbol, Symbol.ofName?_name]
      have hread (part : Part) (hpart : part ∈ parts) :
          Conforms g part.1 part.2 ∧ part.2.Unreserved :=
        have hconforms := (hparts part hpart).conforms htable
        ⟨hconforms, hconforms.unreserved hg⟩
      have hopened : symbol = .program ∨ 0 < scopes.length + symbol.opened ∨ ∀ e, fault e := by
        rcases hopen with rfl | rfl | hpos | hall
        · exact .inl (of_decide_eq_true hadmits)
        · cases of_decide_eq_true hadmits
          exact .inr (.inl (Nat.succ_pos _))
        · exact .inr (.inl (Nat.lt_of_lt_of_le hpos (Nat.le_add_right ..)))
        · exact .inr (.inr hall)
      have hfind (part : Part) (hpart : part ∈ parts) :
          part.1.FindsFrame (scopes.length + symbol.opened) fault := by
        rcases hopened with rfl | hopened
        · exact .inr (.inl (hshape.program_parts part hpart))
        · exact .inr (.inr hopened)
      have hroom : scopes.length + symbol.opened + room ≤ UInt32.size := by
        unfold Symbol.opened
        split <;> omega
      refine node_builds (dispatch_disciplined options room) hshape hrow hadmits hread
        (hopened.imp_right fun h => h.imp_right fun hall e => .inl (hall e))
        (fun pos reason => .inl (hg.invalidTarget pos reason)) fun part hpart hl s hs => ?_
      refine (ih (hparts part hpart) hl s (hs ▸ hfind part hpart) (hs ▸ hroom)).mono
        (fun _ _ h => h) fun e he => he.imp_right fun hlt => ?_
      exact Nat.lt_of_le_of_lt hlt (hshape.height_lt hpart)

/-- A name that is only read could be built as well. -/
theorem Follows.exists_slot {table : Table} {spelling : Symbol → String → Prop} {slot : Slot}
    {tree : ParseTree} (h : Follows table spelling slot tree) :
    ∃ slot' : Slot, slot' ≠ .label ∧ Follows table spelling slot' tree := by
  by_cases hlabel : slot = .label
  · subst hlabel
    refine ⟨.name, nofun, ?_⟩
    cases h with
    | token pos hadmits htoken hspelled => exact .token pos hadmits htoken hspelled
    | node hadmits hrow hparts => exact .node hadmits hrow hparts
  · exact ⟨slot, hlabel, h⟩

/-- The contract with tokens as they come, as long as they are not reserved. -/
def Dialect.unreserved (declarations lateClause : Prop) : Dialect where
  spelling _ text := text ∉ reservedTexts
  declarations := declarations
  lateClause := lateClause

theorem Dialect.unreserved_supported (declarations lateClause : Prop) :
    (Dialect.unreserved declarations lateClause).Supported fun _ => True where
  unreserved h := h
  invalidTarget _ _ := trivial
  literal _ _ _ := .inr fun _ => trivial

/-- A build that succeeds on a conforming tree is one that the relation describes. -/
theorem Follows.built_of_ok {g : Dialect} (hg : g.Supported fun _ => True) {table : Table}
    (htable : table.Within g) {slot : Slot} {tree : ParseTree}
    (h : Follows table g.spelling slot tree) {options : Options} {root : Node}
    (hbuild : build options tree = .ok root) :
    ∃ slot' after, Built table options [(slot', tree)] [] [.node root] after := by
  obtain ⟨slot', hlabel, h⟩ := h.exists_slot
  obtain ⟨after, hdispatch⟩ := build_eq_ok_iff.mp hbuild
  have hbuilds := dispatch_builds hg htable options maxNesting h hlabel []
    (.inr (.inr (.inr fun _ => trivial))) (by decide)
  rw [VisitBuilds, hdispatch] at hbuilds
  exact ⟨slot', after, hbuilds.2⟩

theorem Conforms.built_of_ok {g : Dialect} (hg : g.Supported fun _ => True) {slot : Slot}
    {tree : ParseTree} (h : Conforms g slot tree) {options : Options} {root : Node}
    (hbuild : build options tree = .ok root) :
    ∃ slot' after, Built (Shape g) options [(slot', tree)] [] [.node root] after :=
  h.follows.built_of_ok hg id hbuild

end ScriptAst
