import ScriptAst.Proofs.Grammar.Derivation
import ScriptAst.Proofs.Grammar.Inside
import ScriptAst.Proofs.Visits

/-! # How the parts of a tree are visited

In a build that succeeds the parts of a conforming tree are visited one after the other, each over
the frames that the one before it left (`Threads`).  So every node in such a tree is visited
(`Conforms.visited`).
-/
namespace ScriptAst

variable {table : Table} {options : Options} {resolving : Bool}
  {visit : ParseTree → Scopes → Outcome (Option Node)}

/-- The parts are visited in order from the frames `before` on, with these visits and answers. -/
inductive Threads (visit : ParseTree → Scopes → Outcome (Option Node)) :
    List Part → (before : Scopes) → List (ParseTree × Scopes) → List Item → (after : Scopes) → Prop
  | nil {scopes : Scopes} : Threads visit [] scopes [] [] scopes
  | visit {slot : Slot} {tree : ParseTree} {parts : List Part} {before between after : Scopes}
      {answer : Option Node} {entries : List (ParseTree × Scopes)} {items : List Item} :
      slot ≠ .label → visit tree before = ⟨.ok answer, between⟩ → slot.Fits answer →
      Threads visit parts between entries items after →
      Threads visit ((slot, tree) :: parts) before ((tree, before) :: entries)
        (answer.toList.map .node ++ items) after
  | label {parts : List Part} {before after : Scopes} {entries : List (ParseTree × Scopes)}
      {items : List Item} (word : Word) : Threads visit parts before entries items after →
      Threads visit ((.label, word.tree) :: parts) before entries (.text word.text :: items) after

namespace Threads

variable {parts more : List Part} {before after : Scopes} {entries : List (ParseTree × Scopes)}
  {items : List Item}

/-- Every part is among the visits, unless it is only read. -/
theorem mem (h : Threads visit parts before entries items after) {part : Part}
    (hpart : part ∈ parts) (hlabel : part.1 ≠ .label) : ∃ scopes, (part.2, scopes) ∈ entries := by
  induction h with
  | nil => exact nomatch hpart
  | visit _ _ _ _ ih =>
    rcases List.mem_cons.mp hpart with rfl | hpart
    · exact ⟨_, .head _⟩
    · obtain ⟨scopes, hmem⟩ := ih hpart
      exact ⟨scopes, .tail _ hmem⟩
  | label _ _ ih =>
    rcases List.mem_cons.mp hpart with rfl | hpart
    · exact absurd rfl hlabel
    · exact ih hpart

/-- As many frames are open behind the parts as before them. -/
theorem length_eq (hdisciplined : ∀ tree scopes, (visit tree scopes).Disciplined scopes)
    (h : Threads visit parts before entries items after) : after.length = before.length := by
  induction h with
  | nil => rfl
  | visit _ hvisit _ _ ih => rw [ih, ((hdisciplined _ _).grows hvisit).length_eq]
  | label _ _ ih => exact ih

/-- The visit of a part that has a node, and what comes behind it. -/
theorem of_cons {slot : Slot} {tree : ParseTree}
    (h : Threads visit ((slot, tree) :: parts) before entries items after)
    (hlabel : slot ≠ .label) (hitem : slot ≠ .item) :
    ∃ node between restEntries rest, visit tree before = ⟨.ok (some node), between⟩ ∧
      entries = (tree, before) :: restEntries ∧ items = .node node :: rest ∧
      Threads visit parts between restEntries rest after := by
  cases h with
  | @visit _ _ _ _ between _ answer restEntries rest _ hvisit hfits hrest =>
    cases hfits with
    | declared h => exact absurd h hitem
    | @node node => exact ⟨node, between, restEntries, rest, hvisit, rfl, rfl, hrest⟩
  | label => exact absurd rfl hlabel

/-- The visit of a part that may be absent, and what comes behind it. -/
theorem of_option {slot : Slot} {part : Option ParseTree} {node : Option Node}
    (h : Threads visit (slot.each part.toList ++ parts) before entries
      (node.toList.map .node ++ items) after)
    (hsome : node.isSome = part.isSome) (hlabel : slot ≠ .label) (hitem : slot ≠ .item) :
    ∃ between rest, Threads visit parts between rest items after ∧
      entries = part.toList.map (fun tree => (tree, before)) ++ rest ∧
      Option.Rel (fun tree answer => visit tree before = ⟨.ok (some answer), between⟩) part
        node := by
  cases part with
  | none =>
    cases node with
    | none => exact ⟨before, entries, h, rfl, .none⟩
    | some => exact nomatch hsome
  | some tree =>
    cases node with
    | none => exact nomatch hsome
    | some node =>
      obtain ⟨_, between, restEntries, rest, hvisit, hentries, hitems, hrest⟩ :=
        of_cons h hlabel hitem
      cases hitems
      exact ⟨between, restEntries, hrest, hentries, .some hvisit⟩

end Threads

/-- **A plan that reads parts and succeeds visits them in order**, and nothing else. -/
theorem Plan.Reads.threads {α : Type} {parts : List Part} {Q : List Item → α → Prop}
    {plan : Plan α} (h : Reads parts Q plan) {scopes after : Scopes} {value : α}
    (hvisit : PartsBuild table options (fun _ => True) visit scopes.length parts)
    (hrun : plan.run resolving visit scopes = ⟨.ok value, after⟩) :
    ∃ items, Threads visit parts scopes (plan.visits resolving visit scopes) items after ∧
      Q items value := by
  induction h generalizing scopes with
  | done hq =>
    cases hrun
    exact ⟨[], .nil, hq⟩
  | fail => exact nomatch hrun
  | visit hlabel _ ih =>
    obtain ⟨answer, between, hfirst, hrun⟩ := Outcome.andThen_eq_ok hrun
    have hbuilds := hvisit _ (.head _) hlabel scopes rfl
    obtain ⟨hfits, hbuilt⟩ := Outcome.Satisfies.of_eq_ok hbuilds hfirst
    obtain ⟨items, hrest, hq⟩ := ih answer hfits (hbuilt.length_eq ▸ hvisit.tail) hrun
    refine ⟨_, ?_, hq⟩
    rw [visits, hfirst]
    exact .visit hlabel hfirst hfits hrest
  | label word _ ih =>
    obtain ⟨items, hrest, hq⟩ := ih hvisit.tail hrun
    exact ⟨_, .label word hrest, hq⟩

/-- Trees in slots of one kind are visited in turn. -/
theorem visitAll_threads {slot : Slot} (hlabel : slot ≠ .label) {trees : List ParseTree}
    {scopes after : Scopes} {nodes : List Node}
    (hvisit : PartsBuild table options (fun _ => True) visit scopes.length (slot.each trees))
    (hrun : Plan.visitAll visit trees scopes = ⟨.ok nodes, after⟩) :
    Threads visit (slot.each trees) scopes (Plan.visitsOfAll visit trees scopes) (nodes.map .node)
      after := by
  induction trees generalizing scopes nodes with
  | nil =>
    cases hrun
    exact .nil
  | cons tree trees ih =>
    obtain ⟨answer, between, hfirst, hrun⟩ := Outcome.andThen_eq_ok hrun
    obtain ⟨rest, last, hall, hrun⟩ := Outcome.andThen_eq_ok hrun
    cases hrun
    have hbuilds := hvisit _ (.head _) hlabel scopes rfl
    obtain ⟨hfits, hbuilt⟩ := Outcome.Satisfies.of_eq_ok hbuilds hfirst
    rw [List.map_append, Plan.visitsOfAll, hfirst]
    exact .visit hlabel hfirst hfits (ih (hbuilt.length_eq ▸ hvisit.tail) hall)

/-! ## Shapes -/

/-- Parts of conforming trees are visited as the build relation says. -/
theorem parts_build {g : Dialect} (hg : g.Supported fun _ => True) (options : Options)
    {room opened : Nat} {parts : List Part} (hparts : ∀ part ∈ parts, Conforms g part.1 part.2)
    (hlength : opened + room ≤ UInt32.size) :
    PartsBuild (Shape g) options (fun _ => True) (dispatch options room) opened parts := by
  intro part hpart hlabel scopes hscopes
  have hbuilds := dispatch_builds hg id options room (hparts part hpart).follows hlabel scopes
    (.inr (.inr (.inr fun _ => trivial))) (hscopes ▸ hlength)
  exact hbuilds.mono (fun _ _ h => h) fun _ _ => trivial

/-- A plan that always has a node answers with the node it makes. -/
theorem node_run_eq_ok {plan : Plan Node} {scopes after : Scopes} {answer : Option Node}
    (hrun : (Symbol.plan.node plan).run resolving visit scopes = ⟨.ok answer, after⟩) :
    ∃ node, answer = some node ∧ plan.run resolving visit scopes = ⟨.ok node, after⟩ := by
  have hbind : (plan.bind fun node => .done (some node)).run resolving visit scopes =
    ⟨.ok answer, after⟩ := hrun
  rw [Plan.run_bind] at hbind
  obtain ⟨node, between, hplan, hdone⟩ := Outcome.andThen_eq_ok hbind
  cases hdone
  exact ⟨node, rfl, hplan⟩

theorem visits_node (plan : Plan Node) (scopes : Scopes) :
    (Symbol.plan.node plan).visits resolving visit scopes = plan.visits resolving visit scopes := by
  show (plan.bind fun node => .done (some node)).visits resolving visit scopes = _
  rw [Plan.visits_bind]
  obtain ⟨_ | _, _⟩ := plan.run resolving visit scopes <;> exact List.append_nil _

section

variable {g : Dialect} {scopes after : Scopes} {answer : Option Node}

/-- A body that is built has visited its items in a frame of its own. -/
theorem sourceElements_threads {items : List ParseTree} {source : String}
    (hdisciplined : ∀ tree scopes, (visit tree scopes).Disciplined scopes)
    (hvisit : PartsBuild table options (fun _ => True) visit (scopes.length + 1)
      (Slot.item.each items))
    (hrun : (Symbol.plan source (.node Symbol.sourceElements.name items) .sourceElements).run
      resolving visit scopes = ⟨.ok answer, after⟩) :
    ∃ frame statements, after = scopes ∧
      answer = some ⟨(ParseTree.node Symbol.sourceElements.name items).position,
        .sourceElements ⟨frame.vars, frame.funcs, statements, source⟩⟩ ∧
      Threads visit (Slot.item.each items) scopes.push (Plan.visitsOfAll visit items scopes.push)
        (statements.map .node) (frame :: scopes) := by
  obtain ⟨node, rfl, hrun⟩ := node_run_eq_ok hrun
  obtain ⟨statements, between, hall, hrun⟩ := Outcome.andThen_eq_ok hrun
  have hgrows := Plan.visitAll_disciplined hdisciplined items scopes.push
  -- The frame that was opened is the one that is closed.
  obtain ⟨frame, rfl⟩ := (hgrows.grows hall).of_push
  have hitem : Slot.item ≠ .label := nofun
  have hthreads := visitAll_threads hitem hvisit hall
  cases hrun
  exact ⟨frame, statements, rfl, rfl, hthreads⟩

/-- A declaration of a variable that is built has visited the name, declared a variable, and then
visited the value. -/
theorem variableDeclaration_threads {symbol : String} {name : ParseTree} {init : Option ParseTree}
    {node : Node} (hdisciplined : ∀ tree scopes, (visit tree scopes).Disciplined scopes)
    (hvisit : PartsBuild table options (fun _ => True) visit scopes.length
      ((.name, name) :: Slot.expression.each init.toList))
    (hrun : (Production.variableDeclaration (.node symbol (name :: init.toList))).run resolving
      visit scopes = ⟨.ok node, after⟩) :
    ∃ between declared entries rest items initItems,
      Threads visit [(.name, name)] scopes entries items between ∧
      Threads visit (Slot.expression.each init.toList) (between.declareVar declared).2 rest
        initItems after ∧
      (Production.variableDeclaration (.node symbol (name :: init.toList))).visits resolving visit
        scopes = entries ++ rest := by
  have htarget : Plan.Reads [(Slot.name, name)] (fun _ _ => True) (Production.value name) :=
    Production.value_done nofun nofun fun _ _ => trivial
  have hinit (target : Node) : Plan.Reads (Slot.expression.each init.toList) (fun _ _ => True)
      (Production.childValue? (.node symbol (name :: init.toList)) 1 >>= fun initNode =>
        .done (Production.nodeAt (.node symbol (name :: init.toList))
          (.variableDeclaration target initNode))) :=
    Production.childValue?_done [name] rfl nofun nofun fun _ => trivial
  have hplan : Production.variableDeclaration (.node symbol (name :: init.toList)) =
    Plan.bind _ (Production.value name) := rfl
  rw [hplan] at hrun ⊢
  rw [Plan.run_bind] at hrun
  obtain ⟨target, between, hname, hrun⟩ := Outcome.andThen_eq_ok hrun
  obtain ⟨items, hthreads, _⟩ := htarget.threads (fun part hpart =>
    hvisit part (List.mem_cons.mpr (.inl (List.mem_singleton.mp hpart)))) hname
  have hlength := hthreads.length_eq hdisciplined
  rw [Plan.visits_bind, hname]
  cases hnameOf : Production.nameOf (.node symbol (name :: init.toList)) target with
  | error error =>
    simp only [hnameOf] at hrun
    exact nomatch hrun
  | ok declared =>
    simp only [hnameOf] at hrun
    -- The declaration has found a frame, or the build had failed.
    cases between with
    | nil => exact nomatch hrun
    | cons frame outer =>
      have hparts : PartsBuild table options (fun _ => True) visit
          (Scopes.declareVar declared (frame :: outer)).2.length
          (Slot.expression.each init.toList) := by
        rw [Scopes.length_declareVar, hlength]
        exact hvisit.tail
      obtain ⟨initItems, hrest, _⟩ := (hinit target).threads hparts hrun
      refine ⟨_, declared, _, _, items, initItems, hthreads, hrest, ?_⟩
      simp only [Outcome.leads, hnameOf]
      rfl

/-- A function that is declared has visited its parts, and the names are those of the parts. -/
theorem functionDeclaration_threads {symbol source : String} {name : ParseTree}
    {parameters body : Option ParseTree} {opening : Mark "("} {closing : Mark ")"}
    {last : Mark "\x7d"} {tree : ParseTree}
    (htree : tree = .node symbol (name :: opening.tree :: (parameters.toList ++ closing.tree ::
      (body.toList ++ [last.tree]))))
    (hparts : ∀ part ∈ (Slot.name, name) ::
      (Slot.parameters.each parameters.toList ++ Slot.body.each body.toList), part.2.Unreserved)
    (hvisit : PartsBuild table options (fun _ => True) visit scopes.length
      ((.name, name) :: (Slot.parameters.each parameters.toList ++ Slot.body.each body.toList)))
    (hrun : (Symbol.plan source tree .functionDeclaration).run resolving visit scopes =
      ⟨.ok answer, after⟩) :
    ∃ nameNode paramsNode bodyNode called params between,
      Threads visit
        ((.name, name) :: (Slot.parameters.each parameters.toList ++ Slot.body.each body.toList))
        scopes ((Symbol.plan source tree .functionDeclaration).visits resolving visit scopes)
        (.node nameNode :: (paramsNode.toList.map .node ++ bodyNode.toList.map .node)) between ∧
      paramsNode.isSome = parameters.isSome ∧ bodyNode.isSome = body.isSome ∧
      nameNode.literalName? = some called ∧
      Production.parameterNames tree paramsNode = .ok params ∧ answer = none ∧
      after = (between.declareFunc called
        ⟨tree.position, .functionStatement ⟨some called, params, bodyNode⟩⟩).2 := by
  have hreads := Production.functionParts_reads (some name) parameters body opening closing last
    tree (congrArg ParseTree.children htree) hparts
  have hplan : Symbol.plan source tree .functionDeclaration =
    Plan.bind _ (Production.functionParts tree) := rfl
  rw [hplan] at hrun ⊢
  rw [Plan.run_bind] at hrun
  obtain ⟨⟨nameNode, paramsNode, bodyNode⟩, between, hfunction, hrun⟩ :=
    Outcome.andThen_eq_ok hrun
  obtain ⟨_, hthreads, rfl, ⟨hname, hparams, hbody⟩, _⟩ := hreads.threads hvisit hfunction
  rw [Plan.visits_bind, hfunction]
  cases nameNode with
  | none => exact nomatch hname
  | some nameNode =>
    cases hcalled : nameNode.literalName? with
    | none =>
      simp only [Production.nameOf, hcalled] at hrun
      cases hrun
    | some called =>
      have hnameOf : Production.nameOf tree nameNode = .ok called := Production.nameOf_eq hcalled
      cases hlist : Production.parameterNames tree paramsNode with
      | error error =>
        simp only [hnameOf, hlist] at hrun
        cases hrun
      | ok params =>
        simp only [hnameOf, hlist] at hrun
        refine ⟨nameNode, paramsNode, bodyNode, called, params, between, ?_, hparams, hbody,
          hcalled, hlist, ?_⟩
        · simp only [Outcome.leads, hnameOf, hlist]
          cases between <;> exact (List.append_nil _).symm ▸ hthreads
        · -- The function has found a frame, or the build had failed.
          cases between with
          | nil => cases hrun
          | cons frame outer =>
            cases hrun
            exact ⟨rfl, rfl⟩

/-- **All parts of a conforming tree are visited** in a build of it that succeeds. -/
theorem Shape.threads {symbol : Symbol} {children : List ParseTree} {parts : List Part}
    (hg : g.Supported fun _ => True)
    (hdisciplined : ∀ tree scopes, (visit tree scopes).Disciplined scopes)
    (hshape : Shape g symbol children parts)
    (hparts : ∀ part ∈ parts, Conforms g part.1 part.2)
    (hvisit : PartsBuild table options (fun _ => True) visit (scopes.length + symbol.opened) parts)
    {source : String}
    (hrun : (symbol.plan source (.node symbol.name children)).run resolving visit scopes =
      ⟨.ok answer, after⟩) {part : Part} (hpart : part ∈ parts) (hlabel : part.1 ≠ .label) :
    ∃ frames, (part.2, frames) ∈
      (symbol.plan source (.node symbol.name children)).visits resolving visit scopes := by
  have hread (part : Part) (hpart : part ∈ parts) :
      Conforms g part.1 part.2 ∧ part.2.Unreserved :=
    ⟨hparts part hpart, (hparts part hpart).unreserved hg⟩
  cases hscoped : symbol.isScoped with
  | false =>
    rw [Symbol.opened_of_not_isScoped hscoped] at hvisit
    obtain ⟨_, hthreads, _⟩ := (hshape.reads source hread hscoped).threads hvisit hrun
    exact hthreads.mem hpart hlabel
  | true =>
    cases hshape.scoped hscoped with
    | body items =>
      obtain ⟨_, _, _, _, hthreads⟩ := sourceElements_threads hdisciplined hvisit hrun
      obtain ⟨frames, hreached⟩ := hthreads.mem hpart hlabel
      refine ⟨frames, ?_⟩
      rw [Symbol.plan, visits_node]
      exact List.mem_append_left _ hreached
    | function hshape =>
      obtain ⟨_, _, _, _, _, _, _, rfl, rfl⟩ := hshape.of_functionDeclaration
      obtain ⟨_, _, _, _, _, _, hthreads, _⟩ :=
        functionDeclaration_threads rfl (fun part hpart => (hread part hpart).2) hvisit hrun
      exact hthreads.mem hpart hlabel
    | declaration name init hsymbol =>
      rw [Symbol.opened_of_isDeclaration hsymbol] at hvisit
      rw [Symbol.plan_of_isDeclaration hsymbol] at hrun ⊢
      obtain ⟨_, _, hrun⟩ := node_run_eq_ok hrun
      obtain ⟨_, _, entries, rest, _, _, hname, hinit, hvisits⟩ :=
        variableDeclaration_threads hdisciplined hvisit hrun
      rw [visits_node, hvisits]
      rcases List.mem_cons.mp hpart with rfl | hpart
      · obtain ⟨frames, hreached⟩ := hname.mem (.head _) hlabel
        exact ⟨frames, List.mem_append_left _ hreached⟩
      · obtain ⟨frames, hreached⟩ := hinit.mem hpart hlabel
        exact ⟨frames, List.mem_append_right _ hreached⟩

end

/-- What is only read is a token. -/
theorem Conforms.isTerminal_label {g : Dialect} {tree : ParseTree} (h : Conforms g .label tree) :
    tree.isTerminal = true := by
  cases h with
  | token => rfl
  | node hadmits hshape hparts =>
    have hname : Conforms g .name _ := .node hadmits hshape hparts
    obtain ⟨_, heq⟩ := hname.eq_word
    exact nomatch heq

theorem Symbol.opened_le (symbol : Symbol) : symbol.opened ≤ 1 := by
  unfold opened
  split <;> decide

/-- **Every node in a conforming tree is visited** in a build of it that succeeds. -/
theorem Conforms.visited {g : Dialect} (hg : g.Supported fun _ => True) (hlate : ¬ g.lateClause)
    {slot : Slot} {tree inner : ParseTree} (h : Conforms g slot tree) (hlabel : slot ≠ .label)
    {room : Nat} {scopes after : Scopes} {answer : Option Node}
    (hlength : scopes.length + room ≤ UInt32.size)
    (hrun : dispatch options room tree scopes = ⟨.ok answer, after⟩)
    (hcontains : tree.Contains inner) (hinner : inner.isTerminal = false) :
    (∃ visit ∈ visits options room tree scopes, visit.tree = inner) ∧
      ∃ slot', slot' ≠ .label ∧ Conforms g slot' inner := by
  induction hcontains generalizing slot room scopes answer after with
  | self tree => exact ⟨⟨_, self_mem_visits, rfl⟩, slot, hlabel, h⟩
  | @inside tree child inner hchild hcontains ih =>
    cases h with
    | token => exact nomatch hchild
    | @node _ symbol children parts hadmits hshape hparts =>
      have hnode : child.isTerminal = false := by
        cases hcontains with
        | self => exact hinner
        | inside hbelow =>
          cases child with
          | token => exact nomatch hbelow
          | node => rfl
      rw [ParseTree.inside_node] at hchild
      have hmem := ParseTree.mem_nodesOf.mpr ⟨hchild, hnode⟩
      rw [hshape.inside_eq hlate] at hmem
      obtain ⟨part, hpart, rfl⟩ := List.mem_map.mp (ParseTree.mem_nodesOf.mp hmem).1
      have hpartLabel : part.1 ≠ .label := by
        intro heq
        have hterminal := (heq ▸ hparts part hpart).isTerminal_label
        rw [hnode] at hterminal
        exact nomatch hterminal
      obtain ⟨room, rfl, hplan⟩ := dispatch_eq_ok symbol rfl hrun
      have hopened := symbol.opened_le
      have hvisit : PartsBuild (Shape g) options (fun _ => True) (dispatch options room)
          (scopes.length + symbol.opened) parts := parts_build hg options hparts (by omega)
      obtain ⟨frames, hreached⟩ := hshape.threads hg (dispatch_disciplined options room) hparts
        hvisit hplan hpart hpartLabel
      have hframes := Plan.length_of_mem_visits (dispatch_disciplined options room) hreached
      have hok := Plan.isOk_of_mem_visits hplan hreached
      cases hchild : dispatch options room part.2 frames with
      | mk result after =>
        rw [hchild] at hok
        cases result with
        | error => exact nomatch hok
        | ok answer =>
          obtain ⟨⟨visit, hmem, hvisited⟩, hconforms⟩ :=
            ih (hparts part hpart) hpartLabel (by simp only at hframes; omega) hchild hinner
          refine ⟨⟨visit, mem_visits_succ_iff.mpr (.inr ?_), hvisited⟩, hconforms⟩
          exact ⟨symbol, Symbol.ofName?_name symbol, _, hreached, hmem⟩

end ScriptAst
