import Mathlib.Data.List.Forall2
import ScriptAst.Proofs.Grammar.Acceptance
import ScriptAst.Proofs.Grammar.Threads
import ScriptAst.Proofs.Harvest

/-! # How functions are collected

A declaration of a function has no node where it stands: once its own body is built, the function is
bound in the innermost frame.  Which functions these are can be read off the tree.  They are those
declared in it, but not in a body further in (`ParseTree.declarations`), and each is what its
declaration says, with the body that was built for its body (`FunctionOf`).

A conforming tree that is built binds the functions of its declarations one after the other and no
others (`dispatch_collects`), by induction on the levels: the parts are visited in order, and only a
declaration binds a function of its own.
-/
namespace ScriptAst

/-! ## Declarations in a tree -/

namespace ParseTree

/-- The declarations of functions in a tree, in order, without those in bodies. -/
def declarations (tree : ParseTree) : List ParseTree :=
  if tree.isTerminal || tree.symbol = Symbol.sourceElements.name then []
  else if tree.symbol = Symbol.functionDeclaration.name then [tree]
  else tree.inside.attach.flatMap fun ⟨child, _⟩ => declarations child
termination_by tree.height
decreasing_by exact height_inside_lt (by assumption)

/-- The name that the declaration of a function declares. -/
def functionName? (tree : ParseTree) : Option String := (tree.child? 0).bind text?

/-- The names in a tree, if it is a list of parameters. -/
def listedNames (tree : ParseTree) : List String :=
  if tree.symbol = Symbol.formalParameterList.name then tree.children.filterMap text? else []

/-- The names of the parameters in the declaration of a function. -/
def functionParams (tree : ParseTree) : List String := (nodesOf tree.children).flatMap listedNames

/-- The body in the declaration of a function. -/
def functionBody? (tree : ParseTree) : Option ParseTree :=
  (nodesOf tree.children).find? fun child => child.symbol = Symbol.sourceElements.name

@[simp] theorem declarations_token (symbol text : String) (pos : SourcePos) :
    declarations (.token symbol text pos) = [] := by
  rw [declarations]
  rfl

theorem declarations_body (items : List ParseTree) :
    declarations (.node Symbol.sourceElements.name items) = [] := by
  rw [declarations]
  rfl

theorem declarations_function (children : List ParseTree) :
    declarations (.node Symbol.functionDeclaration.name children) =
      [.node Symbol.functionDeclaration.name children] := by
  rw [declarations]
  rfl

/-- The declarations in a tree that is no body and no declaration are those in the trees inside. -/
theorem declarations_node {symbol : Symbol} (hbody : symbol ≠ .sourceElements)
    (hfunction : symbol ≠ .functionDeclaration) (children : List ParseTree) :
    declarations (.node symbol.name children) = (symbol.inside children).flatMap declarations := by
  have hattach (trees : List ParseTree) :
      (trees.attach.flatMap fun tree => declarations tree.1) = trees.flatMap declarations := by
    rw [← List.flatMap_map, List.attach_map_subtype_val]
  have hinside : (ParseTree.node symbol.name children).symbol = symbol.name := rfl
  rw [declarations, hinside, if_neg (by simp [isTerminal, Symbol.name_inj, hbody]),
    if_neg (by simp [Symbol.name_inj, hfunction]), ← inside_node]
  exact hattach _

end ParseTree

open ParseTree

/-- The declarations in a tree are those in its parts. -/
theorem Shape.declarations_eq {g : Dialect} (hlate : ¬ g.lateClause) {symbol : Symbol}
    {children : List ParseTree} {parts : List Part} (hshape : Shape g symbol children parts)
    (hbody : symbol ≠ .sourceElements) (hfunction : symbol ≠ .functionDeclaration) :
    (ParseTree.node symbol.name children).declarations =
      parts.flatMap fun part => part.2.declarations := by
  rw [declarations_node hbody hfunction, ← flatMap_nodesOf declarations_token,
    hshape.inside_eq hlate, flatMap_nodesOf declarations_token, List.flatMap_map]

/-! ## Functions bound one after the other -/

/-- The entries are bound in turn. -/
def bindAll (entries known : List (String × Node)) : List (String × Node) :=
  entries.foldl (fun known entry => bindName entry.1 entry.2 known) known

theorem bindAll_append (entries more known : List (String × Node)) :
    bindAll (entries ++ more) known = bindAll more (bindAll entries known) :=
  List.foldl_append

/-- Each name is there once, where it first came. -/
theorem map_fst_bindAll (entries known : List (String × Node)) :
    (bindAll entries known).map Prod.fst =
      (entries.map Prod.fst).foldl (fun known name => addName name known) (known.map Prod.fst) := by
  induction entries generalizing known with
  | nil => rfl
  | cons entry entries ih =>
    rw [bindAll, List.foldl_cons, ← bindAll, ih, map_fst_bindName]
    rfl

theorem lookup_bindAll_of_notMem {name : String} {entries : List (String × Node)}
    (h : ∀ entry ∈ entries, entry.1 ≠ name) (known : List (String × Node)) :
    (bindAll entries known).lookup name = known.lookup name := by
  induction entries generalizing known with
  | nil => rfl
  | cons entry entries ih =>
    obtain ⟨hentry, hentries⟩ := List.forall_mem_cons.mp h
    rw [bindAll, List.foldl_cons, ← bindAll, ih hentries, lookup_bindName, if_neg hentry.symm]

/-- Under a name there is what was bound to it last. -/
theorem lookup_bindAll {name : String} (earlier : List (String × Node)) (function : Node)
    {later : List (String × Node)} (h : ∀ entry ∈ later, entry.1 ≠ name)
    (known : List (String × Node)) :
    (bindAll (earlier ++ (name, function) :: later) known).lookup name = some function := by
  rw [bindAll_append, bindAll, List.foldl_cons, ← bindAll, lookup_bindAll_of_notMem h,
    lookup_bindName, if_pos rfl]

/-- The innermost frame binds the entries, and the others are as before. -/
def bindInnermost (entries : List (String × Node)) :
    List (List (String × Node)) → List (List (String × Node))
  | [] => []
  | known :: outer => bindAll entries known :: outer

theorem bindInnermost_nil (frames : List (List (String × Node))) :
    bindInnermost [] frames = frames := by
  cases frames <;> rfl

theorem bindInnermost_append (entries more : List (String × Node))
    (frames : List (List (String × Node))) :
    bindInnermost (entries ++ more) frames = bindInnermost more (bindInnermost entries frames) := by
  cases frames with
  | nil => rfl
  | cons known outer => exact congrArg (· :: outer) (bindAll_append entries more known)

theorem Scopes.funcs_declareFunc (name : String) (function : Node) (scopes : Scopes) :
    (scopes.declareFunc name function).2.map Frame.funcs =
      bindInnermost [(name, function)] (scopes.map Frame.funcs) := by
  cases scopes <;> rfl

/-! ## Functions of declarations -/

/-- The node is what one of the visits to the tree has come to. -/
def BuiltFor (options : Options) (trace : List Visit) (tree : ParseTree) (node : Node) : Prop :=
  ∃ visit ∈ trace, visit.tree = tree ∧ (visit.outcome options).result = .ok (some node)

/-- The function that is built for a declaration, under its name: it is at the position of the
declaration, has its name and parameters, and the body built for its body. -/
inductive FunctionOf (options : Options) (trace : List Visit) (tree : ParseTree) :
    String × Node → Prop
  | intro {name : String} {body : Option Node} : tree.functionName? = some name →
      Option.Rel (BuiltFor options trace) tree.functionBody? body →
      FunctionOf options trace tree
        (name, ⟨tree.position, .functionStatement ⟨some name, tree.functionParams, body⟩⟩)

/-- The innermost frame has bound the functions of the declarations, in order. -/
def Collects (options : Options) (trace : List Visit) (declarations : List ParseTree)
    (before after : Scopes) : Prop :=
  ∃ entries, List.Forall₂ (FunctionOf options trace) declarations entries ∧
    after.map Frame.funcs = bindInnermost entries (before.map Frame.funcs)

section

variable {options : Options} {trace : List Visit}

theorem FunctionOf.mono {more : List Visit} (hmore : ∀ visit ∈ trace, visit ∈ more)
    {tree : ParseTree} {entry : String × Node} (h : FunctionOf options trace tree entry) :
    FunctionOf options more tree entry := by
  cases h with
  | intro hname hbody =>
    refine .intro hname ?_
    generalize tree.functionBody? = bodyTree at hbody ⊢
    cases hbody with
    | none => exact .none
    | some hbody =>
      obtain ⟨visit, hvisit, htree, hresult⟩ := hbody
      exact .some ⟨visit, hmore visit hvisit, htree, hresult⟩

namespace Collects

variable {declarations more : List ParseTree} {before between after : Scopes}

theorem nil (h : after.map Frame.funcs = before.map Frame.funcs) :
    Collects options trace [] before after :=
  ⟨[], .nil, h.trans (bindInnermost_nil _).symm⟩

theorem of_nil (h : Collects options trace [] before after) :
    after.map Frame.funcs = before.map Frame.funcs := by
  obtain ⟨_, hnil, hafter⟩ := h
  cases hnil
  exact hafter.trans (bindInnermost_nil _)

theorem append (h : Collects options trace declarations before between)
    (h' : Collects options trace more between after) :
    Collects options trace (declarations ++ more) before after := by
  obtain ⟨entries, hentries, hbetween⟩ := h
  obtain ⟨rest, hrest, hafter⟩ := h'
  refine ⟨entries ++ rest, List.rel_append hentries hrest, ?_⟩
  rw [hafter, hbetween, bindInnermost_append]

theorem mono {other : List Visit} (hmore : ∀ visit ∈ trace, visit ∈ other)
    (h : Collects options trace declarations before after) :
    Collects options other declarations before after := by
  obtain ⟨entries, hentries, hafter⟩ := h
  exact ⟨entries, hentries.imp fun _ _ hfunction => hfunction.mono hmore, hafter⟩

end Collects

/-- What the visits of parts collect one after the other. -/
theorem Threads.collects {visit : ParseTree → Scopes → Outcome (Option Node)} {parts : List Part}
    {before after : Scopes} {entries : List (ParseTree × Scopes)} {items : List Item}
    (h : Threads visit parts before entries items after)
    (hvisit : ∀ part ∈ parts, part.1 ≠ .label → ∀ scopes answer grown, (part.2, scopes) ∈ entries →
      visit part.2 scopes = ⟨.ok answer, grown⟩ →
      Collects options trace part.2.declarations scopes grown) :
    Collects options trace (parts.flatMap fun part => part.2.declarations) before after := by
  induction h with
  | nil => exact .nil rfl
  | visit hlabel hfirst _ _ ih =>
    refine (hvisit _ (.head _) hlabel _ _ _ (.head _) hfirst).append (ih ?_)
    intro part hpart hlabel scopes answer grown hentry
    exact hvisit part (.tail _ hpart) hlabel scopes answer grown (.tail _ hentry)
  | label word _ ih =>
    have hrest := ih fun part hpart => hvisit part (.tail _ hpart)
    rw [List.flatMap_cons, declarations_token]
    exact hrest

end

/-! ## What is visited in a declaration -/

section

variable {options : Options} {room : Nat} {scopes after : Scopes} {answer : Option Node}

/-- A token that is built leaves the frames as they are. -/
theorem dispatch_token {symbol : Symbol} {text : String} {pos : SourcePos} (htoken : symbol.isToken)
    (hrun : dispatch options room (.token symbol.name text pos) scopes = ⟨.ok answer, after⟩) :
    after = scopes := by
  obtain ⟨_, rfl, hplan⟩ := dispatch_eq_ok symbol rfl hrun
  by_cases hname : symbol = .identifierName
  · subst hname
    obtain ⟨node, _, hname⟩ := node_run_eq_ok hplan
    rw [identifier_eq ⟨text, pos⟩] at hname
    cases hname
    rfl
  · cases hliteral : symbol.literal? text with
    | some kind =>
      rw [literal_plan options.sourceName hliteral pos] at hplan
      cases hplan
      rfl
    | none =>
      obtain ⟨e, he⟩ := not_literal_plan options.sourceName htoken hname hliteral pos
      rw [he] at hplan
      exact nomatch hplan

/-- A name that is built is called what it is spelled. -/
theorem dispatch_word {word : Word} {node : Node}
    (hrun : dispatch options room word.tree scopes = ⟨.ok (some node), after⟩) :
    node.literalName? = some word.text := by
  obtain ⟨_, rfl, hplan⟩ := dispatch_eq_ok .identifierName rfl hrun
  obtain ⟨_, heq, hname⟩ := node_run_eq_ok hplan
  cases heq
  rw [identifier_eq] at hname
  cases hname
  generalize (if options.staticResolution then scopes.resolve word.text else none) = depth
  cases depth <;> rfl

/-- Names that are built in turn are called what they are spelled. -/
theorem Threads.names {g : Dialect} {trees : List ParseTree}
    (htrees : ∀ tree ∈ trees, Conforms g .name tree) {entries : List (ParseTree × Scopes)}
    {nodes : List Node}
    (h : Threads (dispatch options room) (Slot.name.each trees) scopes entries (nodes.map .node)
      after) :
    nodes.map Node.literalName? = (trees.filterMap text?).map some := by
  induction trees generalizing scopes entries nodes with
  | nil =>
    cases nodes with
    | nil => rfl
    | cons => exact nomatch h
  | cons tree trees ih =>
    obtain ⟨hname, hnames⟩ := List.forall_mem_cons.mp htrees
    obtain ⟨word, rfl⟩ := hname.eq_word
    obtain ⟨node, between, _, rest, hvisit, _, hitems, hrest⟩ := h.of_cons nofun nofun
    cases nodes with
    | nil => exact nomatch hitems
    | cons =>
      obtain ⟨hnode, rfl⟩ := List.cons.inj hitems
      cases hnode
      rw [List.map_cons, dispatch_word hvisit, ih hnames hrest]
      rfl

/-- What stands in the slot of parameters is a list of names. -/
theorem Conforms.eq_parameters {g : Dialect} {tree : ParseTree} (h : Conforms g .parameters tree) :
    ∃ names, tree = .node Symbol.formalParameterList.name names ∧
      ∀ name ∈ names, Conforms g .name name := by
  cases h with
  | token pos hadmits htoken =>
    cases of_decide_eq_true hadmits
    exact nomatch htoken
  | @node _ symbol names parts hadmits hshape hparts =>
    have hsymbol : symbol = .formalParameterList := of_decide_eq_true hadmits
    subst hsymbol
    cases hshape with
    | formalParameterList =>
      refine ⟨names, rfl, fun name hname => ?_⟩
      exact hparts (.name, name) (Slot.mem_each.mpr ⟨rfl, hname⟩)
    | declarations _ h | declaration _ _ h | regularFor _ _ _ _ _ _ _ _ h | inFor _ _ _ _ h
      | jump _ h | operation _ h | assignment _ _ _ h => exact nomatch h

/-- A list of parameters that is built lists the names in it. -/
theorem dispatch_parameters {g : Dialect} (hg : g.Supported fun _ => True) {tree : ParseTree}
    (htree : Conforms g .parameters tree) {node : Node}
    (hlength : scopes.length + room ≤ UInt32.size)
    (hrun : dispatch options room tree scopes = ⟨.ok (some node), after⟩) :
    node.Lists tree.listedNames := by
  obtain ⟨names, rfl, hnames⟩ := htree.eq_parameters
  obtain ⟨room, rfl, hplan⟩ := dispatch_eq_ok .formalParameterList rfl hrun
  obtain ⟨_, heq, hlist⟩ := node_run_eq_ok hplan
  cases heq
  have hreads : Plan.Reads (Slot.name.each names)
      (fun items (node : Node) => ∃ nodes : List Node, items = nodes.map .node ∧
        node.kind = .argumentList nodes)
      (Production.formalParameterList (.node Symbol.formalParameterList.name names)) :=
    Production.values_done nofun fun nodes _ => ⟨nodes, rfl, rfl⟩
  have hparts : ∀ part ∈ Slot.name.each names, Conforms g part.1 part.2 := by
    rintro ⟨slot, name⟩ hpart
    obtain ⟨rfl, hname⟩ := Slot.mem_each.mp hpart
    exact hnames name hname
  have hvisit : PartsBuild (Shape g) options (fun _ => True) (dispatch options room)
      scopes.length (Slot.name.each names) := parts_build hg options hparts (by omega)
  obtain ⟨_, hthreads, nodes, rfl, hkind⟩ := hreads.threads hvisit hlist
  exact ⟨nodes, hkind, hthreads.names hnames⟩

/-- What stands in the slot of a node is such a node. -/
theorem Conforms.isNode {g : Dialect} {slot : Slot} {tree : ParseTree} (h : Conforms g slot tree)
    {symbol : Symbol} (hslot : ∀ other : Symbol, slot.admits other → other = symbol)
    (htoken : symbol.isToken = false) :
    tree.isTerminal = false ∧ tree.symbol = symbol.name := by
  cases h with
  | token _ hadmits hname =>
    cases hslot _ hadmits
    rw [htoken] at hname
    exact nomatch hname
  | node hadmits =>
    cases hslot _ hadmits
    exact ⟨rfl, rfl⟩

/-- The parameters and the body of a declaration are read off its nodes. -/
theorem functionParts_eq {g : Dialect} (name : Word) (opening : Mark "(")
    (parameters : Option ParseTree) (closing : Mark ")") (body : Option ParseTree)
    (last : Mark "\x7d") (hparameters : ∀ list ∈ parameters, Conforms g .parameters list)
    (hbody : ∀ tree ∈ body, Conforms g .body tree) {tree : ParseTree}
    (htree : tree.children = name.tree :: opening.tree :: (parameters.toList ++ closing.tree ::
      (body.toList ++ [last.tree]))) :
    tree.functionParams = parameters.elim [] listedNames ∧ tree.functionBody? = body := by
  have hlist : ∀ list ∈ parameters,
      list.isTerminal = false ∧ list.symbol = Symbol.formalParameterList.name :=
    fun list h => (hparameters list h).isNode (fun _ h => of_decide_eq_true h) rfl
  have hitems : ∀ items ∈ body,
      items.isTerminal = false ∧ items.symbol = Symbol.sourceElements.name :=
    fun items h => (hbody items h).isNode (fun _ h => of_decide_eq_true h) rfl
  have hne : Symbol.formalParameterList.name ≠ Symbol.sourceElements.name := by decide
  have hbodyNames (items : ParseTree) (h : items ∈ body) : items.listedNames = [] :=
    if_neg fun hsymbol => hne (hsymbol.symm.trans (hitems items h).2)
  rw [functionParams, functionBody?, htree]
  cases parameters <;> cases body <;>
    simp_all [nodesOf_cons, isTerminal]

/-- A visit in the plan of a tree is a visit in its dispatch. -/
theorem mem_visits_of_plan {symbol : Symbol} {children : List ParseTree}
    {entry : ParseTree × Scopes}
    (hentry : entry ∈ (symbol.plan options.sourceName (.node symbol.name children)).visits
      options.staticResolution (dispatch options room) scopes) {visit : Visit}
    (h : visit ∈ visits options room entry.1 entry.2) :
    visit ∈ visits options (room + 1) (.node symbol.name children) scopes :=
  mem_visits_succ_iff.mpr (.inr ⟨symbol, Symbol.ofName?_name symbol, entry, hentry, h⟩)

/-- The parameters of a function are the names in the list of them. -/
theorem parameterNames_eq {g : Dialect} (hg : g.Supported fun _ => True) {tree : ParseTree}
    {parameters : Option ParseTree} (hparameters : ∀ list ∈ parameters, Conforms g .parameters list)
    {node : Option Node} (hlength : scopes.length + room ≤ UInt32.size)
    (hbuilt : Option.Rel
      (fun list answer => dispatch options room list scopes = ⟨.ok (some answer), after⟩)
      parameters node) {params : List String}
    (hlist : Production.parameterNames tree node = .ok params) :
    params = parameters.elim [] listedNames := by
  cases hbuilt with
  | none =>
    cases hlist
    rfl
  | some hrun =>
    obtain ⟨nodes, hkind, hnames⟩ := dispatch_parameters hg (hparameters _ rfl) hlength hrun
    simp only [Production.parameterNames, hkind, Production.nameOf_mapM_eq hnames] at hlist
    cases hlist
    rfl

/-- A part that may be absent is built for, if its visit is among those in the plan of a tree. -/
theorem builtFor_of_rel {symbol : Symbol} {children : List ParseTree} {frames : Scopes}
    {part : Option ParseTree} {node : Option Node}
    (h : Option.Rel
      (fun tree answer => dispatch options room tree frames = ⟨.ok (some answer), after⟩) part node)
    (hentries : ∀ tree ∈ part, (tree, frames) ∈
      (symbol.plan options.sourceName (.node symbol.name children)).visits
        options.staticResolution (dispatch options room) scopes) :
    Option.Rel (BuiltFor options (visits options (room + 1) (.node symbol.name children) scopes))
      part node := by
  cases h with
  | none => exact .none
  | @some tree _ hrun =>
    exact .some ⟨⟨room, tree, frames⟩, mem_visits_of_plan (hentries tree rfl) self_mem_visits, rfl,
      congrArg Outcome.result hrun⟩

/-- The declaration of a function that is built has visited its parts and then declared the function
it stands for. -/
theorem functionDeclaration_declares {g : Dialect} (hg : g.Supported fun _ => True)
    {children : List ParseTree} {parts : List Part}
    (hshape : Shape g .functionDeclaration children parts)
    (hparts : ∀ part ∈ parts, Conforms g part.1 part.2)
    (hlength : scopes.length + (room + 1) ≤ UInt32.size)
    (hrun : (Symbol.plan options.sourceName (.node Symbol.functionDeclaration.name children)
      .functionDeclaration).run options.staticResolution (dispatch options room) scopes =
        ⟨.ok answer, after⟩) :
    ∃ items between name function,
      Threads (dispatch options room) parts scopes
        ((Symbol.plan options.sourceName (.node Symbol.functionDeclaration.name children)
          .functionDeclaration).visits options.staticResolution (dispatch options room) scopes)
        items between ∧
      after = (between.declareFunc name function).2 ∧
      FunctionOf options
        (visits options (room + 1) (.node Symbol.functionDeclaration.name children) scopes)
        (.node Symbol.functionDeclaration.name children) (name, function) := by
  have hvisit : PartsBuild (Shape g) options (fun _ => True) (dispatch options room) scopes.length
      parts := parts_build hg options hparts (by omega)
  have hunreserved (part : Part) (hpart : part ∈ parts) : part.2.Unreserved :=
    (hparts part hpart).unreserved hg
  obtain ⟨_, name, opening, parameters, closing, body, last, hchildren, rfl⟩ :=
    hshape.of_functionDeclaration
  obtain ⟨nameNode, paramsNode, bodyNode, called, params, between, hthreads, hparamsSome, hbodySome,
    hcalled, hlist, _, hafter⟩ :=
      functionDeclaration_threads (congrArg _ hchildren) hunreserved hvisit hrun
  refine ⟨_, between, called, _, hthreads, hafter, ?_⟩
  have hparameters : ∀ list ∈ parameters, Conforms g .parameters list := fun list h =>
    hparts (.parameters, list) (by simp [Slot.mem_each, Option.mem_def.mp h])
  have hbody : ∀ items ∈ body, Conforms g .body items := fun items h =>
    hparts (.body, items) (by simp [Slot.mem_each, Option.mem_def.mp h])
  obtain ⟨word, rfl⟩ := (hparts _ (.head _)).eq_word
  have htree : (ParseTree.node Symbol.functionDeclaration.name children).children = _ := hchildren
  obtain ⟨hparams, hfunctionBody⟩ := functionParts_eq word opening parameters closing body last
    hparameters hbody htree
  -- The name, the parameters and the body are visited one after the other.
  obtain ⟨_, behindName, nameEntries, _, hname, hentries, hitems, hrest⟩ :=
    hthreads.of_cons nofun nofun
  cases hitems
  obtain ⟨behindParams, bodyEntries, hlast, rfl, hparamsVisit⟩ :=
    hrest.of_option hparamsSome nofun nofun
  rw [← List.append_nil (Slot.body.each _), ← List.append_nil (bodyNode.toList.map _)] at hlast
  obtain ⟨_, _, _, rfl, hbodyVisit⟩ := hlast.of_option hbodySome nofun nofun
  have hword := dispatch_word hname
  rw [hcalled] at hword
  cases hword
  have hframes : behindName.length + room ≤ UInt32.size := by
    rw [((dispatch_disciplined options room _ _).grows hname).length_eq]
    omega
  rw [parameterNames_eq hg hparameters hframes hparamsVisit hlist, ← hparams]
  refine .intro (by rw [functionName?, child?, hchildren]; rfl) ?_
  rw [hfunctionBody]
  refine builtFor_of_rel hbodyVisit fun items hitems => ?_
  rw [hentries]
  simp [Option.mem_def.mp hitems]

/-- Nothing is declared in the parts of a declaration, but in its body. -/
theorem Shape.declarations_eq_nil {g : Dialect} {children : List ParseTree} {parts : List Part}
    (hshape : Shape g .functionDeclaration children parts)
    (hparts : ∀ part ∈ parts, Conforms g part.1 part.2) :
    (parts.flatMap fun part => part.2.declarations) = [] := by
  obtain ⟨_, name, opening, parameters, closing, body, last, _, rfl⟩ :=
    hshape.of_functionDeclaration
  rw [List.flatMap_eq_nil_iff]
  rintro ⟨slot, tree⟩ hpart
  have hconforms := hparts _ hpart
  have hname {name : ParseTree} (h : Conforms g .name name) : name.declarations = [] := by
    obtain ⟨word, rfl⟩ := h.eq_word
    exact declarations_token ..
  rcases List.mem_cons.mp hpart with hpart | hpart
  · cases hpart
    exact hname hconforms
  rcases List.mem_append.mp hpart with hlist | hbody
  · obtain ⟨rfl, _⟩ := Slot.mem_each.mp hlist
    obtain ⟨names, rfl, hnames⟩ := hconforms.eq_parameters
    have hinside := @declarations_node .formalParameterList nofun nofun names
    exact hinside.trans (List.flatMap_eq_nil_iff.mpr fun name h => hname (hnames name h))
  · obtain ⟨rfl, _⟩ := Slot.mem_each.mp hbody
    obtain ⟨hnode, hsymbol⟩ := hconforms.isNode (fun _ h => of_decide_eq_true h) rfl
    cases tree with
    | token => exact nomatch hnode
    | node symbol items =>
      obtain rfl : symbol = Symbol.sourceElements.name := hsymbol
      exact declarations_body items

/-- Built in as much room over any frames, the parts collect what is declared in them. -/
def PartsCollect (options : Options) (room : Nat) (parts : List Part) : Prop :=
  ∀ part ∈ parts, ∀ frames answer grown, frames.length + room ≤ UInt32.size →
    dispatch options room part.2 frames = ⟨.ok answer, grown⟩ →
    Collects options (visits options room part.2 frames) part.2.declarations frames grown

/-- What the visits in a plan collect one after the other, if each collects what it declares. -/
theorem Threads.collects_of_plan {symbol : Symbol} {children : List ParseTree} {parts : List Part}
    {before between : Scopes} {entries : List (ParseTree × Scopes)} {items : List Item}
    (h : Threads (dispatch options room) parts before entries items between)
    (hentries : ∀ entry ∈ entries, entry ∈
      (symbol.plan options.sourceName (.node symbol.name children)).visits
        options.staticResolution (dispatch options room) scopes)
    (hlength : scopes.length + (room + 1) ≤ UInt32.size)
    (hcollects : PartsCollect options room parts) :
    Collects options (visits options (room + 1) (.node symbol.name children) scopes)
      (parts.flatMap fun part => part.2.declarations) before between := by
  refine h.collects fun part hpart _ frames answer grown hreached hrun => ?_
  have hentry := hentries _ hreached
  have hframes := Plan.length_of_mem_visits (dispatch_disciplined options room) hentry
  have hroom : frames.length + room ≤ UInt32.size := by
    simp only at hframes
    omega
  have hpartCollects := hcollects part hpart frames answer grown hroom hrun
  exact hpartCollects.mono fun visit hvisit => mem_visits_of_plan hentry hvisit

/-- The declaration of a variable collects what its name and its value collect. -/
theorem variableDeclaration_collects {g : Dialect} (hlate : ¬ g.lateClause) {symbol : Symbol}
    (hsymbol : symbol.isDeclaration) {name : ParseTree} {init : Option ParseTree}
    (hparts : ∀ part ∈ (Slot.name, name) :: Slot.expression.each init.toList,
      Conforms g part.1 part.2)
    (hg : g.Supported fun _ => True) (hlength : scopes.length + (room + 1) ≤ UInt32.size)
    (hrun : (symbol.plan options.sourceName (.node symbol.name (name :: init.toList))).run
      options.staticResolution (dispatch options room) scopes = ⟨.ok answer, after⟩)
    (hcollects :
      PartsCollect options room ((.name, name) :: Slot.expression.each init.toList)) :
    Collects options (visits options (room + 1) (.node symbol.name (name :: init.toList)) scopes)
      (ParseTree.node symbol.name (name :: init.toList)).declarations scopes after := by
  have hplan := Symbol.plan_of_isDeclaration hsymbol options.sourceName
  have hvisit : PartsBuild (Shape g) options (fun _ => True) (dispatch options room) scopes.length
      ((Slot.name, name) :: Slot.expression.each init.toList) :=
    parts_build hg options hparts (by omega)
  rw [hplan] at hrun
  obtain ⟨_, _, hdeclaration⟩ := node_run_eq_ok hrun
  obtain ⟨between, declared, entries, rest, _, _, hname, hinit, hvisits⟩ :=
    variableDeclaration_threads (dispatch_disciplined options room) hvisit hdeclaration
  have hentries (entry : ParseTree × Scopes) (h : entry ∈ entries ++ rest) : entry ∈
      (symbol.plan options.sourceName (.node symbol.name (name :: init.toList))).visits
        options.staticResolution (dispatch options room) scopes := by
    rw [hplan, visits_node, hvisits]
    exact h
  rw [Shape.declarations_eq hlate (.declaration name init hsymbol)
    (by rintro rfl; exact nomatch hsymbol) (by rintro rfl; exact nomatch hsymbol)]
  have hfirst := hname.collects_of_plan (fun e h => hentries e (List.mem_append_left _ h))
    hlength fun part h => hcollects part (List.mem_singleton.mp h ▸ .head _)
  -- The variable is declared between the two, and no function with it.
  obtain ⟨values, hvalues, hafter⟩ := hinit.collects_of_plan
    (fun e h => hentries e (List.mem_append_right _ h)) hlength fun part h =>
      hcollects part (.tail _ h)
  rw [Scopes.funcs_declareVar] at hafter
  have hboth := hfirst.append ⟨values, hvalues, hafter⟩
  rw [← List.flatMap_append] at hboth
  exact hboth

/-- **A conforming tree that is built binds the functions declared in it**, in their order, in the
innermost frame. -/
theorem dispatch_collects {g : Dialect} (hg : g.Supported fun _ => True) (hlate : ¬ g.lateClause)
    {slot : Slot} {tree : ParseTree} (h : Conforms g slot tree)
    (hlength : scopes.length + room ≤ UInt32.size)
    (hrun : dispatch options room tree scopes = ⟨.ok answer, after⟩) :
    Collects options (visits options room tree scopes) tree.declarations scopes after := by
  induction room generalizing slot tree scopes answer after with
  | zero =>
    obtain ⟨symbol, hsymbol, _⟩ := h.admits
    obtain ⟨_, hroom, _⟩ := dispatch_eq_ok symbol hsymbol hrun
    cases hroom
  | succ room ih =>
    cases h with
    | token _ _ htoken =>
      rw [declarations_token, dispatch_token htoken hrun]
      exact .nil rfl
    | @node _ symbol children parts hadmits hshape hparts =>
      obtain ⟨_, heq, hplan⟩ := dispatch_eq_ok symbol rfl hrun
      cases heq
      have hopened := symbol.opened_le
      have hvisit : PartsBuild (Shape g) options (fun _ => True) (dispatch options room)
          (scopes.length + symbol.opened) parts := parts_build hg options hparts (by omega)
      have hcollects : PartsCollect options room parts :=
        fun part hpart _ _ _ hlength hrun => ih (hparts part hpart) hlength hrun
      cases hscoped : symbol.isScoped with
      | false =>
        rw [Symbol.opened_of_not_isScoped hscoped] at hvisit
        have hread (part : Part) (hpart : part ∈ parts) :
            Conforms g part.1 part.2 ∧ part.2.Unreserved :=
          ⟨hparts part hpart, (hparts part hpart).unreserved hg⟩
        obtain ⟨_, hthreads, _⟩ :=
          (hshape.reads options.sourceName hread hscoped).threads hvisit hplan
        rw [hshape.declarations_eq hlate (by rintro rfl; exact nomatch hscoped)
          (by rintro rfl; exact nomatch hscoped)]
        exact hthreads.collects_of_plan (fun _ h => h) hlength hcollects
      | true =>
        cases hshape.scoped hscoped with
        | body =>
          obtain ⟨_, _, rfl, _⟩ :=
            sourceElements_threads (dispatch_disciplined options room) hvisit hplan
          rw [declarations_body]
          exact .nil rfl
        | function hshape =>
          obtain ⟨_, between, called, function, hthreads, rfl, hfunction⟩ :=
            functionDeclaration_declares hg hshape hparts hlength hplan
          have hbetween := hthreads.collects_of_plan (fun _ h => h) hlength hcollects
          rw [hshape.declarations_eq_nil hparts] at hbetween
          rw [declarations_function]
          refine ⟨[(called, function)], .cons hfunction .nil, ?_⟩
          rw [Scopes.funcs_declareFunc, hbetween.of_nil]
        | declaration name init hsymbol =>
          exact variableDeclaration_collects hlate hsymbol hparts hg hlength hplan hcollects

end

end ScriptAst
