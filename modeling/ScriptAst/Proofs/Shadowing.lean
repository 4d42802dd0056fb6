import Mathlib.Data.List.Forall2
import ScriptAst.Proofs.Grammar.Contents
import ScriptAst.Proofs.Resolution

/-! # What a depth says

Frames answer for the variables declared so far and for nothing else: parameters, declared functions
and the names of caught exceptions bind names when the program runs, but no frame knows them.  A
depth can therefore lead past any of them (`bindings_passed`).

What a depth does say is stated over the parse tree.  `Scan` reads it from left to right with the
variables declared so far in the bodies around, and lists the names it meets (`Occurrence`).  Every
depth in the result belongs to such a name, and is the distance to the nearest body around it that
had declared the name when it was met (`nearest_declared`).

Along the derivation of a build, all depths in the nodes built so far belong to names met so far
(`Node.Traced`), those in the functions that wait in the frames too.
-/
namespace ScriptAst

/-! ## The names of a parse tree -/

/-- A name as it is met: its token, and the variables declared so far in the bodies around it,
innermost first. -/
structure Occurrence where
  word : Word
  declared : Environment

/-- Reading the parts from left to right, starting with the variables `before`, these names are met
and the variables `after` are declared in the end. -/
inductive Scan (table : Table) :
    List Part → (before : Environment) → List Occurrence → (after : Environment) → Prop
  | nil {env : Environment} : Scan table [] env [] env
  | cons {part : Part} {parts : List Part} {before between after : Environment}
      {names rest : List Occurrence} : Scan table [part] before names between →
      Scan table parts between rest after → Scan table (part :: parts) before (names ++ rest) after
  | label {env : Environment} (word : Word) : Scan table [(.label, word.tree)] env [] env
  | name {slot : Slot} {env : Environment} (word : Word) : slot ≠ .label →
      Scan table [(slot, word.tree)] env [⟨word, env⟩] env
  | literal {slot : Slot} {env : Environment} {symbol : Symbol} (text : String) (pos : SourcePos) :
      symbol.isLiteral → Scan table [(slot, .token symbol.name text pos)] env [] env
  | node {slot : Slot} {symbol : Symbol} {children : List ParseTree} {parts : List Part}
      {before after : Environment} {names : List Occurrence} : symbol ≠ .sourceElements →
      symbol.isDeclaration = false → table symbol children parts →
      Scan table parts before names after →
      Scan table [(slot, .node symbol.name children)] before names after
  /-- A variable is declared behind its name and before its value. -/
  | declaration {slot : Slot} {symbol : Symbol} (name : Word) {init : Option ParseTree}
      {before after : Environment} {names : List Occurrence} : symbol.isDeclaration →
      Scan table (Slot.expression.each init.toList) (before.declare name.text) names after →
      Scan table [(slot, .node symbol.name (name.tree :: init.toList))] before
        (⟨name, before⟩ :: names) after
  | body {slot : Slot} {items : List ParseTree} {env : Environment} {own : List String}
      {names : List Occurrence} :
      Scan table (Slot.item.each items) ([] :: env) names (own :: env) →
      Scan table [(slot, .node Symbol.sourceElements.name items)] env names env

namespace Environment

/-- Body by body, the variables of the first are the first variables of the second. -/
def Within (env env' : Environment) : Prop := List.Forall₂ (· <+: ·) env env'

theorem Within.refl (env : Environment) : env.Within env :=
  List.forall₂_same.mpr fun _ _ => List.prefix_rfl

theorem Within.trans {a b c : Environment} (hab : a.Within b) (hbc : b.Within c) : a.Within c := by
  induction hab generalizing c with
  | nil => exact hbc
  | cons hnames _ ih =>
    cases hbc with
    | cons hmore hrest => exact .cons (hnames.trans hmore) (ih hrest)

theorem within_declare (name : String) (env : Environment) : env.Within (env.declare name) := by
  cases env with
  | nil => exact .nil
  | cons names outer => exact .cons (prefix_addName name names) (Within.refl outer)

theorem Within.append (inner : Environment) {env env' : Environment} (h : env.Within env') :
    (inner ++ env).Within (inner ++ env') := by
  induction inner with
  | nil => exact h
  | cons names inner ih => exact .cons List.prefix_rfl ih

end Environment

theorem Scan.within {table : Table} {parts : List Part} {before after : Environment}
    {names : List Occurrence} (h : Scan table parts before names after) : before.Within after := by
  induction h with
  | nil | label | name | literal | body => exact .refl _
  | cons _ _ ih ihRest => exact ih.trans ihRest
  | node _ _ _ _ ih => exact ih
  | declaration name _ _ ih => exact (Environment.within_declare name.text _).trans ih

/-! ## Depths that belong to names -/

/-- The depth of a name, in a place inside of bodies that declare `bodies` in the end, is that of a
name that was met. -/
def Occurrence.Explains (occurrence : Occurrence) (bodies : Environment) (pos : Position)
    (depth : Nat) (name : String) : Prop :=
  occurrence.word.tree.position = pos ∧ occurrence.word.text = name ∧
    occurrence.declared.distance name = some depth ∧ occurrence.declared.Within bodies

/-- Every depth in the tree, which stands inside of bodies that declare `env`, is that of one of the
names. -/
def Node.Traced (names : List Occurrence) (env : Environment) (root : Node) : Prop :=
  ∀ bodies pos depth name, root.Encloses bodies ⟨pos, .variableIdentifier depth name⟩ →
    ∃ occurrence ∈ names,
      occurrence.Explains (bodies.map Body.varNames ++ env) pos depth name

variable {names more : List Occurrence} {env env' : Environment}

theorem Node.Traced.mono {root : Node} (h : root.Traced names env)
    (hnames : names ⊆ more) (henv : env.Within env') : root.Traced more env' := by
  intro bodies pos depth name hencloses
  obtain ⟨occurrence, hmem, hpos, hname, hdepth, hwithin⟩ := h bodies pos depth name hencloses
  exact ⟨occurrence, hnames hmem, hpos, hname, hdepth, hwithin.trans (henv.append _)⟩

/-- What is put together from traced nodes is traced. -/
theorem Made.traced {source : String} {items : List Item} {root : Node}
    (hmade : Made source items root) (h : ∀ node, .node node ∈ items → node.Traced names env) :
    root.Traced names env := by
  intro bodies pos depth name hencloses
  rcases hmade.encloses hencloses id with ⟨part, hpart, hencloses⟩ | hempty
  · exact h part hpart bodies pos depth name hencloses
  · exact nomatch hempty

theorem Node.Traced.of_plain {root : Node} (hroot : root.kind.IsPlain)
    (h : ∀ child ∈ root.children, child.Traced names env) : root.Traced names env := by
  intro bodies pos depth name hencloses
  obtain ⟨child, hchild, hencloses⟩ := hencloses.of_plain hroot id
  exact h child hchild bodies pos depth name hencloses

theorem Node.Traced.of_leaf {root : Node} (hroot : root.kind.IsPlain) (h : root.children = []) :
    root.Traced names env :=
  .of_plain hroot fun child hchild => by
    rw [h] at hchild
    exact nomatch hchild

/-- A body is traced if what is in it is, with the variables of the body. -/
theorem Node.Traced.of_body {pos : Position} {body : Body Node}
    (h : ∀ child ∈ (Kind.sourceElements body).children,
      child.Traced names (body.varNames :: env)) :
    Node.Traced names env ⟨pos, .sourceElements body⟩ := by
  intro bodies pos depth name hencloses
  rcases hencloses.root_or_child with ⟨_, hroot⟩ | ⟨child, hchild, inner, hinner, rfl⟩
  · exact nomatch hroot
  · have hexplained := h child hchild inner pos depth name hinner
    rwa [List.map_append, List.append_assoc]

/-- A name that is met is explained by itself. -/
theorem Word.traced {options : Options} (hresolve : options.staticResolution) (word : Word)
    (scopes : Scopes) :
    (word.node options scopes).Traced [⟨word, scopes.environment⟩] scopes.environment := by
  intro bodies pos depth name hencloses
  have hleaf : (word.node options scopes).children = [] := by
    unfold Word.node
    cases scopes.distance options word.text <;> rfl
  rcases hencloses.root_or_child with ⟨rfl, hroot⟩ | ⟨child, hchild, _⟩
  · refine ⟨_, List.mem_singleton_self _, ?_⟩
    injection hroot with hpos hkind
    have hdistance := Scopes.environment_distance hresolve word.text scopes
    cases hfound : scopes.distance options word.text with
    | none =>
      rw [hfound] at hkind
      exact nomatch hkind
    | some found =>
      rw [hfound] at hkind hdistance
      cases hkind
      exact ⟨hpos.symm, rfl, hdistance, .refl _⟩
  · rw [hleaf] at hchild
    exact nomatch hchild

/-! ## Functions that wait in frames -/

namespace Scopes

/-- The functions declared in the frames are traced. -/
def Traced (names : List Occurrence) : Scopes → Prop
  | [] => True
  | frame :: outer =>
    (∀ entry ∈ frame.funcs, entry.2.Traced names (environment (frame :: outer))) ∧
      Traced names outer

theorem Traced.mono {scopes : Scopes} (h : scopes.Traced names) (hnames : names ⊆ more) :
    scopes.Traced more := by
  induction scopes with
  | nil => trivial
  | cons frame outer ih =>
    exact ⟨fun entry hentry => (h.1 entry hentry).mono hnames (.refl _), ih h.2⟩

theorem Traced.declareVar {scopes : Scopes} (h : scopes.Traced names) (name : String) :
    Traced names (scopes.declareVar name).2 := by
  cases scopes with
  | nil => trivial
  | cons frame outer =>
    have hgrows : (environment (frame :: outer)).Within
        (environment (Scopes.declareVar name (frame :: outer)).2) := by
      rw [environment_declareVar]
      exact Environment.within_declare name _
    exact ⟨fun entry hentry => (h.1 entry hentry).mono (List.Subset.refl _) hgrows, h.2⟩

theorem environment_declareFunc (name : String) (function : Node) (scopes : Scopes) :
    environment (scopes.declareFunc name function).2 = scopes.environment := by
  cases scopes <;> rfl

theorem Traced.declareFunc {scopes : Scopes} (h : scopes.Traced names) (name : String)
    {function : Node} (hfunction : function.Traced names scopes.environment) :
    Traced names (scopes.declareFunc name function).2 := by
  cases scopes with
  | nil => trivial
  | cons frame outer =>
    refine ⟨fun entry hentry => ?_, h.2⟩
    rcases mem_bindName hentry with rfl | hentry
    · exact hfunction
    · exact h.1 entry hentry

end Scopes

/-! ## The build -/

/-- **A build meets the names of the scan**, and every depth in what it builds is that of one. -/
theorem Built.scan {table : Table} {options : Options} (hresolve : options.staticResolution)
    {parts : List Part} {before after : Scopes} {items : List Item}
    (h : Built table options parts before items after) :
    ∃ names, Scan table parts before.environment names after.environment ∧
      ∀ known, before.Traced known →
        (∀ node, .node node ∈ items → node.Traced (known ++ names) after.environment) ∧
          after.Traced (known ++ names) := by
  induction h with
  | nil =>
    refine ⟨[], .nil, fun known hknown => ⟨nofun, ?_⟩⟩
    rwa [List.append_nil]
  | label word =>
    refine ⟨[], .label word, fun known hknown => ⟨fun n hn => ?_, ?_⟩⟩
    · exact nomatch List.mem_singleton.mp hn
    · rwa [List.append_nil]
  | cons _ _ ih ihRest =>
    obtain ⟨names, hscan, htraced⟩ := ih
    obtain ⟨rest, hscanRest, htracedRest⟩ := ihRest
    refine ⟨names ++ rest, .cons hscan hscanRest, fun known hknown => ?_⟩
    obtain ⟨hitems, hbetween⟩ := htraced known hknown
    obtain ⟨hrest, hafter⟩ := htracedRest _ hbetween
    rw [List.append_assoc] at hrest hafter
    refine ⟨fun n hn => ?_, hafter⟩
    rcases List.mem_append.mp hn with hn | hn
    · refine (hitems n hn).mono ?_ hscanRest.within
      rw [← List.append_assoc]
      exact List.subset_append_left ..
    · exact hrest n hn
  | @reference _ scopes word hlabel =>
    refine ⟨_, .name word hlabel, fun known hknown => ⟨Item.forall_mem_singleton ?_, ?_⟩⟩
    · exact (word.traced hresolve scopes).mono (List.subset_append_right ..) (.refl _)
    · exact hknown.mono (List.subset_append_left ..)
  | @literal _ _ _ text kind pos hliteral =>
    obtain ⟨hsymbol, hkind⟩ := Symbol.isLiteral_of_literal? hliteral
    refine ⟨[], .literal text pos hsymbol, fun known hknown => ⟨Item.forall_mem_singleton ?_, ?_⟩⟩
    · cases kind <;> first | exact .of_leaf trivial rfl | exact False.elim hkind
    · rwa [List.append_nil]
  | @made _ symbol _ _ _ _ _ _ hscoped hrow _ hmade ih =>
    obtain ⟨names, hscan, htraced⟩ := ih
    have hbody : symbol ≠ .sourceElements := by rintro rfl; exact nomatch hscoped
    have hdeclaration : symbol.isDeclaration = false := by
      cases hsymbol : symbol.isDeclaration with
      | false => rfl
      | true =>
        rw [Symbol.isScoped_of_isDeclaration hsymbol] at hscoped
        cases hscoped
    refine ⟨names, .node hbody hdeclaration hrow hscan, fun known hknown => ?_⟩
    obtain ⟨hitems, hafter⟩ := htraced known hknown
    exact ⟨Item.forall_mem_singleton (hmade.traced hitems), hafter⟩
  | @declaration _ _ name _ before _ initNode hsymbol _ ih =>
    obtain ⟨names, hscan, htraced⟩ := ih
    rw [Scopes.environment_declareVar] at hscan
    refine ⟨_, .declaration name hsymbol hscan, fun known hknown => ?_⟩
    have hmet : (known ++ [⟨name, before.environment⟩]) ++ names =
        known ++ ⟨name, before.environment⟩ :: names := List.append_assoc ..
    obtain ⟨hinit, hafter⟩ :=
      htraced _ ((hknown.mono (List.subset_append_left ..)).declareVar name.text)
    rw [hmet] at hinit hafter
    refine ⟨Item.forall_mem_singleton (.of_plain trivial fun child hchild => ?_), hafter⟩
    rcases List.mem_cons.mp hchild with rfl | hchild
    · refine (name.traced hresolve before).mono (fun occurrence hmem => ?_)
        ((Environment.within_declare name.text _).trans hscan.within)
      cases List.mem_singleton.mp hmem
      exact List.mem_append_right _ (.head _)
    · exact hinit child (List.mem_map_of_mem hchild)
  | @body _ _ scopes frame statements _ ih =>
    obtain ⟨names, hscan, htraced⟩ := ih
    refine ⟨names, .body hscan, fun known hknown => ?_⟩
    obtain ⟨hstatements, hfuncs, houter⟩ := htraced known ⟨nofun, hknown⟩
    refine ⟨Item.forall_mem_singleton (.of_body fun child hchild => ?_), houter⟩
    rcases List.mem_append.mp hchild with hchild | hchild
    · obtain ⟨entry, hentry, rfl⟩ := List.mem_map.mp hchild
      exact hfuncs entry hentry
    · exact hstatements child (List.mem_map_of_mem hchild)
  | functionDeclaration hrow _ hmade _ ih =>
    obtain ⟨names, hscan, htraced⟩ := ih
    rw [Scopes.environment_declareFunc]
    refine ⟨names, .node nofun rfl hrow hscan, fun known hknown => ?_⟩
    obtain ⟨hitems, hafter⟩ := htraced known hknown
    exact ⟨nofun, hafter.declareFunc _ (hmade.traced hitems)⟩

/-! ## What a depth passes -/

/-- The steps that lead from a node up to the root, each from the second of its nodes to the first,
the nearest first. -/
inductive Node.Path (root : Node) : List (Node × Node) → Node → Prop
  | root : Path root [] root
  | child {steps : List (Node × Node)} {node child : Node} : Path root steps node →
      child ∈ node.children → Path root ((node, child) :: steps) child

/-- The steps on the way out to the body at the given depth. -/
def wayOut : Nat → List (Node × Node) → List (Node × Node)
  | _, [] => []
  | depth, step :: steps =>
    match step.1.kind.ownBody, depth with
    | [], depth => step :: wayOut depth steps
    | _, 0 => []
    | _, depth + 1 => step :: wayOut depth steps

/-- The step leaves a function that has the name among its parameters. -/
def LeavesParameter (name : String) (step : Node × Node) : Prop :=
  ∃ function, step.1.kind = .functionStatement function ∧ name ∈ function.params

/-- The step leaves a body that declares a function of the name. -/
def LeavesFunction (name : String) (step : Node × Node) : Prop :=
  ∃ body, step.1.kind = .sourceElements body ∧ name ∈ body.funcDecls.map Prod.fst

/-- The step leaves a block for exceptions that are caught under the name. -/
def LeavesCatch (name : String) (step : Node × Node) : Prop :=
  ∃ block param last, step.1.kind = .tryStatement block (some param) (some step.2) last ∧
    param.literalName? = some name

/-- No depth leads past a binding of its name of the given sort. -/
def Node.NeverPasses (binding : String → Node × Node → Prop) (root : Node) : Prop :=
  ∀ steps pos depth name, root.Path steps ⟨pos, .variableIdentifier depth name⟩ →
    ∀ step ∈ wayOut depth steps, ¬ binding name step

/-- A use of a name under a parameter, a function and a caught exception of that name:
`var x; (function (x) { function x() {} try {} catch (x) { x } })`. -/
def shadowedSample : ParseTree :=
  .node "program" [.node "sourceelements" [
    .node "variablestatement" [.node "variabledeclarationlist" [
      .node "variabledeclaration" [.token "IDENTIFIERNAME" "x" ⟨4, 1, 4⟩]]],
    .node "expressionstatement" [.node "functionexpression" [
      .token "(" "(" ⟨17, 1, 17⟩,
      .node "formalparameterlist" [.token "IDENTIFIERNAME" "x" ⟨18, 1, 18⟩],
      .token ")" ")" ⟨19, 1, 19⟩,
      .node "sourceelements" [
        .node "functiondeclaration" [.token "IDENTIFIERNAME" "x" ⟨32, 1, 32⟩,
          .token "(" "(" ⟨33, 1, 33⟩, .token ")" ")" ⟨34, 1, 34⟩, .token "\x7d" "\x7d" ⟨38, 1, 38⟩],
        .node "trystatement" [
          .node "block" [.token "\x7b" "\x7b" ⟨44, 1, 44⟩],
          .node "catch" [.token "catch" "catch" ⟨48, 1, 48⟩,
            .token "IDENTIFIERNAME" "x" ⟨55, 1, 55⟩,
            .node "block" [.token "\x7b" "\x7b" ⟨58, 1, 58⟩,
              .node "expressionstatement" [.token "IDENTIFIERNAME" "x" ⟨60, 1, 60⟩]]]]],
      .token "\x7d" "\x7d" ⟨64, 1, 64⟩]]]]

/-- What is built of `shadowedSample`. -/
def shadowedNode : Node :=
  let declared : Position := ⟨1, 4, 5⟩
  let function : Position := ⟨1, 17, 18⟩
  let inner : Position := ⟨1, 32, 33⟩
  let block : Position := ⟨1, 44, 45⟩
  let use : Position := ⟨1, 60, 61⟩
  ⟨declared, .program ⟨declared, .sourceElements ⟨["x"], [], [
    ⟨declared, .varStatement ⟨declared, .variableDeclList [
      ⟨declared, .variableDeclaration ⟨declared, .identifier "x"⟩ none⟩]⟩⟩,
    ⟨function, .exprStatement ⟨function, .functionStatement ⟨none, ["x"], some
      ⟨inner, .sourceElements ⟨[], [("x", ⟨inner, .functionStatement ⟨some "x", [], none⟩⟩)], [
        ⟨block, .tryStatement ⟨block, .block []⟩
          (some ⟨⟨1, 55, 56⟩, .variableIdentifier 1 "x"⟩)
          (some ⟨⟨1, 58, 59⟩, .block [
            ⟨use, .exprStatement ⟨use, .variableIdentifier 1 "x"⟩⟩]⟩) none⟩], ""⟩⟩⟩⟩⟩], ""⟩⟩⟩

theorem shadowedSample_conforms {g : Dialect} (h : g.spelling .identifierName "x")
    (hallowed : g.declarations) : Conforms g .program shadowedSample := by
  have hname (slot : Slot) (hslot : slot.admits .identifierName) (pos : SourcePos) :
      Conforms g slot (.token Symbol.identifierName.name "x" pos) := .token pos hslot rfl h
  have hdeclaration : Conforms g .declaration (.node Symbol.variableDeclaration.name [_]) :=
    .of_part rfl (.declaration _ none rfl) (hname _ rfl ⟨4, 1, 4⟩)
  have hdeclarations : Conforms g .declarations (.node Symbol.variableDeclarationList.name [_]) :=
    .of_part rfl (.declarations [_] rfl) hdeclaration
  have hvar : Conforms g .item (.node Symbol.variableStatement.name [_]) :=
    .of_part rfl (.variableStatement _) hdeclarations
  have hparameters : Conforms g .parameters (.node Symbol.formalParameterList.name [_]) :=
    .of_part rfl (.formalParameterList [_]) (hname _ rfl ⟨18, 1, 18⟩)
  have hfunction : Conforms g .item (.node Symbol.functionDeclaration.name _) :=
    .of_part rfl (.functionDeclaration _ ⟨"(", 33, 1, 33⟩ none ⟨")", 34, 1, 34⟩ none
      ⟨"\x7d", 38, 1, 38⟩ hallowed) (hname .name rfl ⟨32, 1, 32⟩)
  have hblock : Conforms g .block (.node Symbol.block.name [_]) :=
    .node rfl (.block ⟨"\x7b", 44, 1, 44⟩ []) nofun
  have huse : Conforms g .item (.node Symbol.expressionStatement.name [_]) :=
    .of_part rfl (.expressionStatement _) (hname _ rfl ⟨60, 1, 60⟩)
  have hhandler : Conforms g .block (.node Symbol.block.name [_, _]) :=
    .of_part rfl (.block ⟨"\x7b", 58, 1, 58⟩ [_]) huse
  have htry : Conforms g .item (.node Symbol.tryStatement.name [_, _]) :=
    .node rfl (.tryCatch _ "catch" ⟨"catch", 48, 1, 48⟩ _ _) (List.forall_mem_cons.mpr ⟨hblock,
      List.forall_mem_cons.mpr ⟨hname .name rfl ⟨55, 1, 55⟩,
        List.forall_mem_singleton.mpr hhandler⟩⟩)
  have hinner : Conforms g .body (.node Symbol.sourceElements.name [_, _]) :=
    .node rfl (.sourceElements [_, _]) (List.forall_mem_cons.mpr
      ⟨hfunction, List.forall_mem_singleton.mpr htry⟩)
  have hexpression : Conforms g .expression (.node Symbol.functionExpression.name _) :=
    .node rfl (.functionExpression none ⟨"(", 17, 1, 17⟩ (some _) ⟨")", 19, 1, 19⟩ (some _)
      ⟨"\x7d", 64, 1, 64⟩) (List.forall_mem_cons.mpr
        ⟨hparameters, List.forall_mem_singleton.mpr hinner⟩)
  have hstatement : Conforms g .item (.node Symbol.expressionStatement.name [_]) :=
    .of_part rfl (.expressionStatement _) hexpression
  have hbody : Conforms g .body (.node Symbol.sourceElements.name [_, _]) :=
    .node rfl (.sourceElements [_, _]) (List.forall_mem_cons.mpr
      ⟨hvar, List.forall_mem_singleton.mpr hstatement⟩)
  exact .of_part rfl (.program _) hbody

/-- **Depths pass bindings.**  The sample follows the contract, and the depth built for the use of
the name leads past the parameter, the function and the caught exception of that name. -/
theorem bindings_passed :
    Conforms .contract .program shadowedSample ∧
      build ⟨"", true⟩ shadowedSample = .ok shadowedNode ∧
      ¬ shadowedNode.NeverPasses LeavesParameter ∧ ¬ shadowedNode.NeverPasses LeavesFunction ∧
      ¬ shadowedNode.NeverPasses LeavesCatch := by
  have hprogram : shadowedNode.Path [] shadowedNode := .root
  have hbody := hprogram.child (.head _)
  have hfunction := (hbody.child (.tail _ (.head _))).child (.head _)
  have hinner := hfunction.child (.head _)
  have htry := hinner.child (.tail _ (.head _))
  have hhandler := htry.child (.tail _ (.tail _ (.head _)))
  have huse := (hhandler.child (.head _)).child (.head _)
  refine ⟨shadowedSample_conforms ⟨by decide, nofun, nofun⟩ trivial, rfl, fun h => ?_, fun h => ?_,
    fun h => ?_⟩
  · refine h _ _ _ _ huse _ (.tail _ (.tail _ (.tail _ (.tail _ (.head _))))) ⟨_, rfl, ?_⟩
    exact List.mem_singleton_self "x"
  · refine h _ _ _ _ huse _ (.tail _ (.tail _ (.tail _ (.head _)))) ⟨_, rfl, ?_⟩
    exact List.mem_singleton_self "x"
  · refine h _ _ _ _ huse _ (.tail _ (.tail _ (.head _))) ⟨_, _, _, rfl, ?_⟩
    rfl

/-! ## What a depth says -/

theorem Environment.distance_eq_some {env : Environment} {name : String} {depth : Nat}
    (h : env.distance name = some depth) :
    (∃ declared, env[depth]? = some declared ∧ name ∈ declared) ∧
      ∀ nearer < depth, ∀ declared, env[nearer]? = some declared → name ∉ declared := by
  obtain ⟨hlt, hname, hnearer⟩ := List.findIdx?_eq_some_iff_getElem.mp h
  refine ⟨⟨_, List.getElem?_eq_getElem hlt, of_decide_eq_true hname⟩,
    fun nearer hn declared hdeclared hmem => ?_⟩
  obtain ⟨hlt', rfl⟩ := List.getElem?_eq_some_iff.mp hdeclared
  exact hnearer nearer hn (decide_eq_true hmem)

/-- **A depth leads to the nearest variable declared so far.**  Every name with a depth in what is
built of a conforming tree is a name of the tree.  The body at that depth had declared it as a
variable when the name was met, and the bodies on the way there had not. -/
theorem nearest_declared {slot : Slot} {tree : ParseTree}
    (h : Conforms (.unreserved True True) slot tree) {options : Options}
    (hresolve : options.staticResolution) {root : Node} (hbuild : build options tree = .ok root) :
    ∃ slot' names, Scan (Shape (.unreserved True True)) [(slot', tree)] [] names [] ∧
      ∀ bodies pos depth name, root.Encloses bodies ⟨pos, .variableIdentifier depth name⟩ →
        ∃ occurrence ∈ names,
          occurrence.word.tree.position = pos ∧ occurrence.word.text = name ∧
          List.Forall₂ (fun declared (body : Body Node) => declared <+: body.varNames)
            occurrence.declared bodies ∧
          (∃ declared, occurrence.declared[depth]? = some declared ∧ name ∈ declared) ∧
          ∀ nearer < depth, ∀ declared, occurrence.declared[nearer]? = some declared →
            name ∉ declared := by
  obtain ⟨slot', after, hbuilt⟩ := h.built_of_ok (Dialect.unreserved_supported ..) hbuild
  have hafter : after = [] := List.length_eq_zero_iff.mp hbuilt.length_eq
  subst hafter
  obtain ⟨names, hscan, htraced⟩ := hbuilt.scan hresolve
  refine ⟨slot', names, hscan, fun bodies pos depth name hencloses => ?_⟩
  obtain ⟨hitems, _⟩ := htraced [] trivial
  obtain ⟨occurrence, hmem, hpos, hname, hdepth, hwithin⟩ :=
    hitems root (.head _) bodies pos depth name hencloses
  have hbodies : occurrence.declared.Within (bodies.map Body.varNames) := by
    rwa [← List.append_nil (bodies.map Body.varNames)]
  exact ⟨occurrence, hmem, hpos, hname, List.forall₂_map_right_iff.mp hbodies,
    Environment.distance_eq_some hdepth⟩

/-- The use of the name in `shadowedSample` gets the variable of the program. -/
theorem nearest_declared_shadowed :
    Conforms (.unreserved True True) .program shadowedSample ∧
      build ⟨"", true⟩ shadowedSample = .ok shadowedNode ∧
      ∃ slot names, Scan (Shape (.unreserved True True)) [(slot, shadowedSample)] [] names [] ∧
        ∃ occurrence ∈ names,
          occurrence.word.tree.position = ⟨1, 60, 61⟩ ∧ occurrence.word.text = "x" ∧
          (∃ declared, occurrence.declared[1]? = some declared ∧ "x" ∈ declared) ∧
          ∀ declared, occurrence.declared[0]? = some declared → "x" ∉ declared := by
  have hconforms : Conforms (.unreserved True True) .program shadowedSample :=
    shadowedSample_conforms (show "x" ∉ reservedTexts by decide) trivial
  have hbuild : build ⟨"", true⟩ shadowedSample = .ok shadowedNode := rfl
  have hprogram : shadowedNode.Encloses [] shadowedNode := .root
  have hfunction := ((hprogram.child (.head _)).child (.tail _ (.head _))).child (.head _)
  have htry := (hfunction.child (.head _)).child (.tail _ (.head _))
  have hhandler := htry.child (.tail _ (.tail _ (.head _)))
  have huse := (hhandler.child (.head _)).child (.head _)
  obtain ⟨slot, names, hscan, hnearest⟩ := nearest_declared hconforms rfl hbuild
  obtain ⟨occurrence, hmem, hpos, hname, _, hdeclared, hnearer⟩ := hnearest _ _ _ _ huse
  exact ⟨hconforms, hbuild, slot, names, hscan, occurrence, hmem, hpos, hname, hdeclared,
    hnearer 0 Nat.one_pos⟩

end ScriptAst
