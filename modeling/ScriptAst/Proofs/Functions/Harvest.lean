import ScriptAst.Proofs.Functions.Collect

/-! # What functions a body declares

A body starts with an empty frame and collects the functions that are declared among its items.
Binding a name again replaces the function where it stands, so each name is there once, where it
first comes, and with the function that comes last.  A declaration leaves no statement, and every
other item leaves one (`functions_harvested`).
-/
namespace ScriptAst

open ParseTree

section

variable {options : Options} {room : Nat} {scopes after : Scopes} {answer : Option Node}

/-- Only the declaration of a function is built without a node. -/
theorem isNone_answer_iff {symbol : Symbol} {tree : ParseTree} (hsymbol : tree.symbol = symbol.name)
    (hrun : dispatch options room tree scopes = ⟨.ok answer, after⟩) :
    answer = none ↔ symbol = .functionDeclaration := by
  obtain ⟨_, rfl, hplan⟩ := dispatch_eq_ok symbol hsymbol hrun
  cases symbol with
  | functionDeclaration =>
    refine ⟨fun _ => rfl, fun _ => ?_⟩
    have hbind : (Plan.bind _ (Production.functionParts tree)).run _ _ scopes = _ := hplan
    rw [Plan.run_bind] at hbind
    obtain ⟨⟨nameNode, paramsNode, bodyNode⟩, between, _, hdeclare⟩ := Outcome.andThen_eq_ok hbind
    cases nameNode with
    | none => exact nomatch hdeclare
    | some nameNode =>
      cases hname : Production.nameOf tree nameNode with
      | error => simp only [hname] at hdeclare; exact nomatch hdeclare
      | ok name =>
        cases hparams : Production.parameterNames tree paramsNode with
        | error => simp only [hname, hparams] at hdeclare; exact nomatch hdeclare
        | ok params =>
          simp only [hname, hparams] at hdeclare
          cases between with
          | nil => exact nomatch hdeclare
          | cons => cases hdeclare; rfl
  | _ =>
    obtain ⟨node, rfl, _⟩ := node_run_eq_ok hplan
    exact ⟨nofun, nofun⟩

/-- Each item that is no declaration has one node, and the nodes are in the order of the items. -/
theorem Threads.statements {trace : List Visit} {items : List ParseTree}
    (hitems : ∀ item ∈ items, ∃ symbol : Symbol, item.symbol = symbol.name)
    {entries : List (ParseTree × Scopes)} {nodes : List Node}
    (h : Threads (dispatch options room) (Slot.item.each items) scopes entries (nodes.map .node)
      after)
    (hentries : ∀ entry ∈ entries, ⟨room, entry.1, entry.2⟩ ∈ trace) :
    List.Forall₂ (BuiltFor options trace)
      (items.filter fun item => item.symbol ≠ Symbol.functionDeclaration.name) nodes := by
  generalize hnodes : nodes.map Item.node = all at h
  induction items generalizing scopes entries nodes all with
  | nil =>
    cases h
    cases List.map_eq_nil_iff.mp hnodes
    exact .nil
  | cons item items ih =>
    obtain ⟨⟨symbol, hsymbol⟩, hitems⟩ := List.forall_mem_cons.mp hitems
    cases h with
    | @visit _ _ _ _ between _ answer entries rest _ hvisit _ hrest =>
      obtain ⟨hentry, hentries⟩ := List.forall_mem_cons.mp hentries
      have hnone := isNone_answer_iff hsymbol hvisit
      have hname : item.symbol = Symbol.functionDeclaration.name ↔ symbol = .functionDeclaration :=
        hsymbol ▸ Symbol.name_inj
      cases answer with
      | none =>
        rw [List.filter_cons_of_neg (by simp [hname, hnone.mp rfl])]
        exact ih hitems hentries rest hnodes hrest
      | some node =>
        have hne : symbol ≠ .functionDeclaration := fun heq => nomatch hnone.mpr heq
        rw [List.filter_cons_of_pos (by simp [hname, hne])]
        cases nodes with
        | nil => exact nomatch hnodes
        | cons first nodes =>
          obtain ⟨hfirst, hbehind⟩ := List.cons.inj hnodes
          cases hfirst
          refine .cons ⟨_, hentry, rfl, congrArg Outcome.result hvisit⟩ ?_
          exact ih hitems hentries rest hbehind hrest

end

/-! ## What a body has harvested -/

/-- What a body built for the items declares and states. -/
structure Harvest (options : Options) (trace : List Visit) (items : List ParseTree)
    (body : Body Node) : Prop where
  /-- Every declaration among the items has a name. -/
  named : ∀ declaration ∈ items.flatMap declarations, declaration.functionName?.isSome
  /-- The names are declared in the order in which they first come. -/
  names : body.funcDecls.map Prod.fst =
    ((items.flatMap declarations).filterMap functionName?).eraseDups
  /-- Under each name is the function of the last of its declarations. -/
  functions : ∀ earlier declaration later name,
    items.flatMap declarations = earlier ++ declaration :: later →
    declaration.functionName? = some name → (∀ other ∈ later, other.functionName? ≠ some name) →
    ∃ function, body.funcDecls.lookup name = some function ∧
      FunctionOf options trace declaration (name, function)
  /-- Each item that is no declaration has one statement. -/
  statements : List.Forall₂ (BuiltFor options trace)
    (items.filter fun item => item.symbol ≠ Symbol.functionDeclaration.name) body.statements

theorem FunctionOf.name_eq {options : Options} {trace : List Visit} {tree : ParseTree}
    {entry : String × Node} (h : FunctionOf options trace tree entry) :
    tree.functionName? = some entry.1 := by
  cases h with
  | intro hname => exact hname

theorem filterMap_functionName? {options : Options} {trace : List Visit}
    {declarations : List ParseTree} {entries : List (String × Node)}
    (h : List.Forall₂ (FunctionOf options trace) declarations entries) :
    declarations.filterMap functionName? = entries.map Prod.fst := by
  induction h with
  | nil => rfl
  | cons hfirst _ ih => rw [List.filterMap_cons, hfirst.name_eq, ih, List.map_cons]

/-- A place in the one list is a place in the other. -/
theorem exists_split_of_forall₂ {α β : Type} {R : α → β → Prop} {earlier later : List α} {a : α}
    {entries : List β} (h : List.Forall₂ R (earlier ++ a :: later) entries) :
    ∃ before b rest, entries = before ++ b :: rest ∧ R a b ∧ List.Forall₂ R later rest := by
  induction earlier generalizing entries with
  | nil =>
    obtain ⟨b, rest, hab, hrest, rfl⟩ := List.forall₂_cons_left_iff.mp h
    exact ⟨[], b, rest, rfl, hab, hrest⟩
  | cons first earlier ih =>
    obtain ⟨e, _, _, hrest, rfl⟩ := List.forall₂_cons_left_iff.mp h
    obtain ⟨before, b, rest, rfl, hab, hrest⟩ := ih hrest
    exact ⟨e :: before, b, rest, rfl, hab, hrest⟩

/-- The functions bound one after the other in an empty frame are a harvest. -/
theorem Harvest.of_bindAll {options : Options} {trace : List Visit} {items : List ParseTree}
    {body : Body Node} {entries : List (String × Node)}
    (hentries : List.Forall₂ (FunctionOf options trace) (items.flatMap declarations) entries)
    (hfuncs : body.funcDecls = bindAll entries [])
    (hstatements : List.Forall₂ (BuiltFor options trace)
      (items.filter fun item => item.symbol ≠ Symbol.functionDeclaration.name) body.statements) :
    Harvest options trace items body where
  named declaration hdeclaration := by
    obtain ⟨earlier, later, hsplit⟩ := List.append_of_mem hdeclaration
    rw [hsplit] at hentries
    obtain ⟨_, entry, _, _, hfunction, _⟩ := exists_split_of_forall₂ hentries
    exact Option.isSome_iff_exists.mpr ⟨_, hfunction.name_eq⟩
  names := by
    rw [hfuncs, map_fst_bindAll, filterMap_functionName? hentries]
    exact foldl_addName _ []
  functions earlier declaration later name hsplit hname hlater := by
    rw [hsplit] at hentries
    obtain ⟨before, ⟨called, function⟩, rest, rfl, hfunction, hrest⟩ :=
      exists_split_of_forall₂ hentries
    obtain rfl : name = called := Option.some.inj (hname.symm.trans hfunction.name_eq)
    have hnone : ∀ entry ∈ rest, entry.1 ≠ name := by
      rintro entry hentry rfl
      have hmem : entry.1 ∈ later.filterMap functionName? := by
        rw [filterMap_functionName? hrest]
        exact List.mem_map_of_mem hentry
      obtain ⟨other, hother, heq⟩ := List.mem_filterMap.mp hmem
      exact hlater other hother heq
    exact ⟨function, hfuncs ▸ lookup_bindAll before function hnone [], hfunction⟩
  statements := hstatements

/-- What is built for the items of a body. -/
theorem Conforms.items {g : Dialect} {slot : Slot} {items : List ParseTree}
    (h : Conforms g slot (.node Symbol.sourceElements.name items)) :
    ∀ part ∈ Slot.item.each items, Conforms g part.1 part.2 := by
  generalize htree : ParseTree.node Symbol.sourceElements.name items = tree at h
  cases h with
  | token => exact nomatch htree
  | @node _ symbol children parts _ hshape hparts =>
    injection htree with hname hitems
    subst hitems
    cases Symbol.name_inj.mp hname
    cases hshape with
    | sourceElements => exact hparts
    | declarations _ h | declaration _ _ h | regularFor _ _ _ _ _ _ _ _ h | inFor _ _ _ _ h
      | jump _ h | operation _ h | assignment _ _ _ h => exact nomatch h

/-- The visit of a conforming body answers with a body that declares and states what its items
do. -/
theorem Conforms.harvest {options : Options} {slot : Slot} {items : List ParseTree} {room : Nat}
    {scopes after : Scopes} {answer : Option Node}
    (h : Conforms (.unreserved True False) slot (.node Symbol.sourceElements.name items))
    (hrun : dispatch options room (.node Symbol.sourceElements.name items) scopes =
      ⟨.ok answer, after⟩)
    (hframes : scopes.length + room ≤ UInt32.size) {all : List Visit}
    (hall : ∀ inner ∈ visits options room (.node Symbol.sourceElements.name items) scopes,
      inner ∈ all) :
    ∃ pos body, answer = some ⟨pos, .sourceElements body⟩ ∧ Harvest options all items body := by
  have hg := Dialect.unreserved_supported True False
  obtain ⟨room, rfl, hplan⟩ := dispatch_eq_ok .sourceElements rfl hrun
  have hitems := h.items
  have hparts : PartsBuild (Shape (.unreserved True False)) options (fun _ => True)
      (dispatch options room) (scopes.length + 1) (Slot.item.each items) :=
    parts_build hg options hitems (by omega)
  obtain ⟨frame, statements, _, rfl, hthreads⟩ :=
    sourceElements_threads (dispatch_disciplined options room) hparts hplan
  have hentry (entry : ParseTree × Scopes)
      (h : entry ∈ Plan.visitsOfAll (dispatch options room) items scopes.push) :
      entry ∈ (Symbol.sourceElements.plan options.sourceName
        (.node Symbol.sourceElements.name items)).visits options.staticResolution
          (dispatch options room) scopes := by
    rw [Symbol.plan, visits_node]
    exact List.mem_append_left _ h
  -- The frame of the body starts empty, so what it has bound is what the items declare.
  have hcollects := hthreads.collects_of_plan hentry hframes fun part hpart _ _ _ hlength hrun =>
    dispatch_collects hg id (hitems part hpart) hlength hrun
  obtain ⟨entries, hentries, hafter⟩ := hcollects.mono hall
  have hfuncs : frame.funcs = bindAll entries [] := (List.cons.inj hafter).1
  rw [Slot.each, List.flatMap_map] at hentries
  have hsymbol : ∀ item ∈ items, ∃ symbol : Symbol, item.symbol = symbol.name := by
    intro item hitem
    have hconforms := hitems (.item, item) (Slot.mem_each.mpr ⟨rfl, hitem⟩)
    obtain ⟨symbol, hsymbol, _⟩ := hconforms.admits
    exact ⟨symbol, hsymbol⟩
  have hstatements := hthreads.statements hsymbol fun entry h =>
    hall _ (mem_visits_of_plan (hentry entry h) self_mem_visits)
  exact ⟨_, _, rfl, .of_bindAll hentries hfuncs hstatements⟩

/-- **The harvest of functions is exact.**  In every conforming tree that is built, every body is
visited, and whatever a visit to it comes to declares the functions declared among its items, in
blocks and other statements too but not in bodies further in: each name where it first comes, with
the function of its last declaration.  It states the other items, one node for each, in order. -/
theorem functions_harvested {slot : Slot} {tree : ParseTree}
    (h : Conforms (.unreserved True False) slot tree) {options : Options} {root : Node}
    (hbuild : build options tree = .ok root) {items : List ParseTree}
    (hcontains : tree.Contains (.node Symbol.sourceElements.name items)) :
    (∃ visit ∈ visits options maxNesting tree [],
      visit.tree = .node Symbol.sourceElements.name items) ∧
    ∀ visit ∈ visits options maxNesting tree [],
      visit.tree = .node Symbol.sourceElements.name items →
      ∃ pos body, (visit.outcome options).result = .ok (some ⟨pos, .sourceElements body⟩) ∧
        Harvest options (visits options maxNesting tree []) items body := by
  have hg := Dialect.unreserved_supported True False
  obtain ⟨after, hdispatch⟩ := build_eq_ok_iff.mp hbuild
  obtain ⟨slot, hlabel, hfollows⟩ := h.follows.exists_slot
  obtain ⟨hvisited, slot', _, hbody⟩ := (hfollows.conforms id).visited hg id hlabel (by decide)
    hdispatch hcontains rfl
  refine ⟨hvisited, fun visit hvisit htree => ?_⟩
  have hframes := Visit.frames_le hvisit
  have hok := Visit.isOk hdispatch hvisit
  obtain ⟨room, _, scopes⟩ := visit
  cases htree
  cases hrun : dispatch options room (.node Symbol.sourceElements.name items) scopes with
  | mk result after =>
    cases result with
    | error => exact absurd hok (by simp [Visit.outcome, hrun, Except.isOk, Except.toBool])
    | ok answer =>
      have hlength : scopes.length + room ≤ UInt32.size := Nat.le_trans hframes (by decide)
      obtain ⟨pos, body, rfl, hharvest⟩ :=
        hbody.harvest hrun hlength fun _ hinner => visits_trans hvisit hinner
      exact ⟨pos, body, congrArg Outcome.result hrun, hharvest⟩

/-- The first declaration in `redeclaredSample`. -/
def firstDeclaration : ParseTree :=
  .node Symbol.functionDeclaration.name [.token "IDENTIFIERNAME" "f" ⟨9, 1, 9⟩,
    .token "(" "(" ⟨10, 1, 10⟩, .token ")" ")" ⟨11, 1, 11⟩, .token "\x7d" "\x7d" ⟨14, 1, 14⟩]

/-- The second declaration in `redeclaredSample`. -/
def redeclaration : ParseTree :=
  .node Symbol.functionDeclaration.name [.token "IDENTIFIERNAME" "f" ⟨27, 1, 27⟩,
    .token "(" "(" ⟨28, 1, 28⟩,
    .node Symbol.formalParameterList.name [.token "IDENTIFIERNAME" "a" ⟨29, 1, 29⟩],
    .token ")" ")" ⟨30, 1, 30⟩, .token "\x7d" "\x7d" ⟨33, 1, 33⟩]

/-- The items of `redeclaredSample`. -/
def redeclaredItems : List ParseTree := [
  firstDeclaration,
  .node Symbol.block.name [.token "\x7b" "\x7b" ⟨16, 1, 16⟩, redeclaration],
  .node Symbol.expressionStatement.name [.token "IDENTIFIERNAME" "f" ⟨37, 1, 37⟩]]

/-- A function that is declared again in a block, with a parameter:
`function f() {} { function f(a) {} } f`. -/
def redeclaredSample : ParseTree :=
  .node Symbol.program.name [.node Symbol.sourceElements.name redeclaredItems]

theorem redeclaredSample_conforms {g : Dialect} (hdeclarations : g.declarations)
    (hf : g.spelling .identifierName "f") (ha : g.spelling .identifierName "a") :
    Conforms g .program redeclaredSample := by
  have hname (slot : Slot) (hslot : slot.admits .identifierName) (pos : SourcePos) :
      Conforms g slot (.token Symbol.identifierName.name "f" pos) := .token pos hslot rfl hf
  have hparameter : Conforms g .name (.token Symbol.identifierName.name "a" ⟨29, 1, 29⟩) :=
    .token _ rfl rfl ha
  have hfirst : Conforms g .item firstDeclaration :=
    .of_part rfl (.functionDeclaration _ ⟨"(", 10, 1, 10⟩ none ⟨")", 11, 1, 11⟩ none
      ⟨"\x7d", 14, 1, 14⟩ hdeclarations) (hname .name rfl ⟨9, 1, 9⟩)
  have hparameters : Conforms g .parameters (.node Symbol.formalParameterList.name [_]) :=
    .of_part rfl (.formalParameterList [_]) hparameter
  have hsecond : Conforms g .item redeclaration :=
    .node rfl (.functionDeclaration _ ⟨"(", 28, 1, 28⟩ (some _) ⟨")", 30, 1, 30⟩ none
      ⟨"\x7d", 33, 1, 33⟩ hdeclarations) (List.forall_mem_cons.mpr
        ⟨hname .name rfl ⟨27, 1, 27⟩, List.forall_mem_singleton.mpr hparameters⟩)
  have hblock : Conforms g .item (.node Symbol.block.name [_, redeclaration]) :=
    .of_part rfl (.block ⟨"\x7b", 16, 1, 16⟩ [_]) hsecond
  have huse : Conforms g .item (.node Symbol.expressionStatement.name [_]) :=
    .of_part rfl (.expressionStatement _) (hname .expression rfl ⟨37, 1, 37⟩)
  have hbody : Conforms g .body (.node Symbol.sourceElements.name redeclaredItems) :=
    .node rfl (.sourceElements redeclaredItems) (List.forall_mem_cons.mpr
      ⟨hfirst, List.forall_mem_cons.mpr ⟨hblock, List.forall_mem_singleton.mpr huse⟩⟩)
  exact .of_part rfl (.program _) hbody

/-- The name is there once, with the function that has the parameter; the block and the use of the
name are the statements. -/
theorem redeclaredItems_declarations :
    redeclaredItems.flatMap declarations = [firstDeclaration, redeclaration] := by
  have hfirst : declarations firstDeclaration = [firstDeclaration] := declarations_function _
  have hsecond : declarations redeclaration = [redeclaration] := declarations_function _
  have hblock := @declarations_node .block nofun nofun
    [.token "\x7b" "\x7b" ⟨16, 1, 16⟩, redeclaration]
  have huse := @declarations_node .expressionStatement nofun nofun
    [.token "IDENTIFIERNAME" "f" ⟨37, 1, 37⟩]
  simp [redeclaredItems, hfirst, hblock, huse, hsecond, Symbol.inside]

theorem functions_harvested_redeclared :
    Conforms (.unreserved True False) .program redeclaredSample ∧
      (build ⟨"", false⟩ redeclaredSample).isOk ∧
      redeclaredSample.Contains (.node Symbol.sourceElements.name redeclaredItems) ∧
      ∃ visit ∈ visits ⟨"", false⟩ maxNesting redeclaredSample [], ∃ pos body,
        (visit.outcome ⟨"", false⟩).result = .ok (some ⟨pos, .sourceElements body⟩) ∧
        body.funcDecls.map Prod.fst = ["f"] ∧
        (∃ function, body.funcDecls.lookup "f" = some function ∧
          FunctionOf ⟨"", false⟩ (visits ⟨"", false⟩ maxNesting redeclaredSample []) redeclaration
            ("f", function)) ∧
        body.statements.length = 2 := by
  have hconforms : Conforms (.unreserved True False) .program redeclaredSample :=
    redeclaredSample_conforms trivial (show "f" ∉ reservedTexts by decide)
      (show "a" ∉ reservedTexts by decide)
  obtain ⟨root, hbuild⟩ : ∃ root, build ⟨"", false⟩ redeclaredSample = .ok root := ⟨_, rfl⟩
  have hcontains : redeclaredSample.Contains (.node Symbol.sourceElements.name redeclaredItems) :=
    .inside (.head _) (.self _)
  obtain ⟨⟨visit, hvisit, htree⟩, hharvested⟩ := functions_harvested hconforms hbuild hcontains
  obtain ⟨pos, body, hresult, hharvest⟩ := hharvested visit hvisit htree
  refine ⟨hconforms, hbuild ▸ rfl, hcontains, visit, hvisit, pos, body, hresult, ?_, ?_, ?_⟩
  · rw [hharvest.names, redeclaredItems_declarations]
    rfl
  · exact hharvest.functions [_] redeclaration [] "f" redeclaredItems_declarations rfl nofun
  · rw [← hharvest.statements.length_eq]
    rfl

end ScriptAst
