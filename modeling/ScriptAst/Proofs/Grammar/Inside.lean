import ScriptAst.Proofs.Grammar.Contract

/-! # What stands in a tree

The parts of a tree depend on how its children are read, but the nodes among them do not: they are
the nodes that stand inside the tree (`Shape.inside_eq`), where nothing counts below an empty
statement, nor what opens a loop over keys, and the clauses of a `try` statement are looked through.
So it can be said of a tree alone which nodes it contains (`ParseTree.Contains`).  A clause behind a
`finally` stands inside the tree and is not reached (`Shape.reached_eq`).
-/
namespace ScriptAst

theorem Symbol.name_inj {symbol other : Symbol} : symbol.name = other.name ↔ symbol = other := by
  refine ⟨fun h => ?_, congrArg name⟩
  have hfound := ofName?_name symbol
  rw [h, ofName?_name] at hfound
  exact (Option.some.inj hfound).symm

/-- The children that the contract looks at, with those of clauses in the place of the clauses. -/
def Symbol.inside : Symbol → List ParseTree → List ParseTree
  | emptyStatement, _ => []
  | inFor, children | inVarFor, children => children.drop 1
  | tryStatement, children => children.take 1 ++ (children.drop 1).flatMap ParseTree.children
  | _, children => children

/-- The clauses of a `try` statement that are read.  Nothing is read behind a `finally`. -/
def Symbol.readClauses : List ParseTree → List ParseTree
  | [] => []
  | clause :: rest =>
    if (clause.child? 0).any fun keyword => keyword.isToken "catch" then clause :: rest
    else [clause]

/-- What stands inside a tree, but for a clause that comes too late. -/
def Symbol.reached : Symbol → List ParseTree → List ParseTree
  | tryStatement, children =>
    children.take 1 ++ (readClauses (children.drop 1)).flatMap ParseTree.children
  | symbol, children => symbol.inside children

theorem Symbol.mem_readClauses {clauses : List ParseTree} {clause : ParseTree}
    (h : clauses[0]? = some clause) : clause ∈ readClauses clauses := by
  cases clauses with
  | nil => exact nomatch h
  | cons first rest =>
    obtain rfl : first = clause := Option.some.inj h
    rw [readClauses]
    split <;> exact .head _

/-- Behind a `catch` clause another is read. -/
theorem Symbol.mem_readClauses_of_catch {clauses : List ParseTree} {clause keyword last : ParseTree}
    (h : clauses[0]? = some clause) (hkeyword : clause.child? 0 = some keyword)
    (hcatch : keyword.isToken "catch") (hlast : clauses[1]? = some last) :
    last ∈ readClauses clauses := by
  cases clauses with
  | nil => exact nomatch h
  | cons first rest =>
    obtain rfl : first = clause := Option.some.inj h
    have hread : (first.child? 0).any fun keyword => keyword.isToken "catch" := by
      rwa [hkeyword]
    rw [readClauses, if_pos hread]
    exact .tail _ (List.mem_of_getElem? hlast)

namespace ParseTree

/-- The trees that stand right inside a tree, in order. -/
def inside : ParseTree → List ParseTree
  | .token _ _ _ => []
  | .node name children =>
    match Symbol.ofName? name with
    | some symbol => symbol.inside children
    | none => children

theorem inside_node (symbol : Symbol) (children : List ParseTree) :
    inside (.node symbol.name children) = symbol.inside children := by
  rw [inside, Symbol.ofName?_name]

/-- The trees that the contract looks at right inside a tree. -/
def reached : ParseTree → List ParseTree
  | .token _ _ _ => []
  | .node name children =>
    match Symbol.ofName? name with
    | some symbol => symbol.reached children
    | none => children

theorem reached_node (symbol : Symbol) (children : List ParseTree) :
    reached (.node symbol.name children) = symbol.reached children := by
  rw [reached, Symbol.ofName?_name]

theorem reached_of_symbol {tree : ParseTree} {symbol : Symbol} (h : tree.symbol = symbol.name) :
    tree.reached = symbol.reached tree.children := by
  cases tree with
  | token => cases symbol <;> rfl
  | node name children =>
    obtain rfl : name = symbol.name := h
    exact reached_node symbol children

/-- The node stands somewhere in the tree, or is the tree. -/
inductive Contains : ParseTree → ParseTree → Prop
  | self (tree : ParseTree) : Contains tree tree
  | inside {tree child inner : ParseTree} : child ∈ tree.inside → Contains child inner →
      Contains tree inner

/-- What stands inside a tree is less high than the tree. -/
theorem height_inside_lt {tree child : ParseTree} (h : child ∈ tree.inside) :
    child.height < tree.height := by
  cases tree with
  | token => exact nomatch h
  | node name children =>
    have hchild {child : ParseTree} (h : child ∈ children) :
        child.height < (node name children).height := height_lt_of_mem h
    rw [inside] at h
    split at h
    · unfold Symbol.inside at h
      split at h
      · exact nomatch h
      · exact hchild (List.mem_of_mem_drop h)
      · exact hchild (List.mem_of_mem_drop h)
      · rcases List.mem_append.mp h with h | h
        · exact hchild (List.mem_of_mem_take h)
        · obtain ⟨clause, hclause, h⟩ := List.mem_flatMap.mp h
          exact Nat.lt_trans (height_lt_of_mem h) (hchild (List.mem_of_mem_drop hclause))
      · exact hchild h
    · exact hchild h

/-! ## The nodes among trees -/

/-- The nodes among trees. -/
def nodesOf (trees : List ParseTree) : List ParseTree := trees.filter fun tree => !tree.isTerminal

@[simp] theorem nodesOf_nil : nodesOf [] = [] := rfl

@[simp] theorem nodesOf_append (trees more : List ParseTree) :
    nodesOf (trees ++ more) = nodesOf trees ++ nodesOf more := List.filter_append ..

@[simp] theorem nodesOf_token (symbol text : String) (pos : SourcePos) (trees : List ParseTree) :
    nodesOf (.token symbol text pos :: trees) = nodesOf trees := rfl

theorem nodesOf_cons (tree : ParseTree) (trees : List ParseTree) :
    nodesOf (tree :: trees) = (if tree.isTerminal then [] else [tree]) ++ nodesOf trees := by
  cases tree <;> rfl

theorem mem_nodesOf {tree : ParseTree} {trees : List ParseTree} :
    tree ∈ nodesOf trees ↔ tree ∈ trees ∧ tree.isTerminal = false := by
  rw [nodesOf, List.mem_filter, Bool.not_eq_true']

/-- Where nothing is read off tokens, all is read off the nodes. -/
theorem flatMap_nodesOf {α : Type} {read : ParseTree → List α}
    (htoken : ∀ symbol text pos, read (.token symbol text pos) = []) (trees : List ParseTree) :
    (nodesOf trees).flatMap read = trees.flatMap read := by
  induction trees with
  | nil => rfl
  | cons tree trees ih =>
    rw [nodesOf_cons, List.flatMap_append, List.flatMap_cons, ih]
    cases tree with
    | token symbol text pos => rw [htoken]; rfl
    | node symbol children => exact congrArg (· ++ _) (List.append_nil _)

end ParseTree

open ParseTree

theorem Slot.map_snd_each (slot : Slot) (trees : List ParseTree) :
    (slot.each trees).map Prod.snd = trees :=
  (List.map_map ..).trans (List.map_id' _)

theorem Links.nodesOf_eq {access : Bool} {links : List ParseTree} {parts : List Part}
    (h : Links access links parts) : nodesOf links = nodesOf (parts.map Prod.snd) := by
  induction h with
  | nil => rfl
  | operation op mark operand _ ih | index mark operand _ ih =>
    rw [nodesOf_token, nodesOf_cons, ih, List.map_cons, nodesOf_cons]
  | dot mark name _ ih => rw [nodesOf_token, nodesOf_token, ih, List.map_cons, nodesOf_token]
  | call children _ ih => rw [nodesOf_cons, ih, List.map_cons, nodesOf_cons]

/-- **The nodes reached in a tree are the nodes among its parts**, whichever way it is read. -/
theorem Shape.reached_eq {g : Dialect} {symbol : Symbol} {children : List ParseTree}
    {parts : List Part} (h : Shape g symbol children parts) :
    nodesOf (symbol.reached children) = nodesOf (parts.map Prod.snd) := by
  cases h with
  | operation head h hlinks =>
    have hreached (children : List ParseTree) : symbol.reached children = children := by
      cases symbol <;> first | rfl | exact absurd h Bool.false_ne_true
    rw [hreached, List.map_cons, nodesOf_cons, nodesOf_cons, hlinks.nodesOf_eq]
  | callExpression head hlinks | memberExpression head hlinks =>
    rw [Symbol.reached, Symbol.inside, List.map_cons, nodesOf_cons, nodesOf_cons,
      hlinks.nodesOf_eq]
    all_goals exact nofun
  | newMemberExpression _ callee hlinks =>
    rw [Symbol.reached, Symbol.inside, nodesOf_token, List.map_cons, nodesOf_cons, nodesOf_cons,
      hlinks.nodesOf_eq]
    all_goals exact nofun
  | declarations _ h | declaration _ _ h | regularFor _ _ _ _ _ _ _ _ h | inFor _ _ _ _ h
  | assignment _ _ _ h | jump _ h =>
    cases symbol <;> first
      | exact absurd h Bool.false_ne_true
      | simp [Symbol.reached, Symbol.inside, Slot.map_snd_each, nodesOf_cons, isTerminal]
  | _ =>
    simp [Symbol.reached, Symbol.readClauses, Symbol.inside, Slot.map_snd_each, nodesOf_cons,
      isTerminal, isToken, child?, text?, ParseTree.children]

/-- All that stands inside a tree is reached, unless a clause comes too late. -/
theorem Shape.reached_eq_inside {g : Dialect} (hg : ¬ g.lateClause) {symbol : Symbol}
    {children : List ParseTree} {parts : List Part} (h : Shape g symbol children parts) :
    symbol.reached children = symbol.inside children := by
  cases h with
  | tryFinallyTwice _ _ _ _ _ _ _ hlate => exact absurd hlate hg
  | declarations _ h | declaration _ _ h | regularFor _ _ _ _ _ _ _ _ h | inFor _ _ _ _ h
  | operation _ h | assignment _ _ _ h | jump _ h =>
    cases symbol <;> first | rfl | exact absurd h Bool.false_ne_true
  | _ => rfl

/-- **The nodes that stand inside a tree are the nodes among its parts**; all but a clause that
comes too late. -/
theorem Shape.inside_eq {g : Dialect} (hg : ¬ g.lateClause) {symbol : Symbol}
    {children : List ParseTree} {parts : List Part} (h : Shape g symbol children parts) :
    nodesOf (symbol.inside children) = nodesOf (parts.map Prod.snd) := by
  rw [← h.reached_eq_inside hg, h.reached_eq]

end ScriptAst
