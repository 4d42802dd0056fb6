import ScriptAst.Proofs.Grammar.Inside

/-! # Trees inside a tree

`tree.Nests depth part` says that `part` stands in `tree` with `depth` proper ancestors.  A tree is
`Filled` if no node in it is without children; then every way down ends in a token, and the position
of the tree is the span of its first token (`Filled.exists_head`).
-/
namespace ScriptAst

/-- Only clauses are read as clauses. -/
theorem Symbol.readClauses_subset (clauses : List ParseTree) : readClauses clauses ⊆ clauses := by
  cases clauses with
  | nil => exact List.Subset.refl _
  | cons clause rest =>
    rw [readClauses]
    split
    · exact List.Subset.refl _
    · exact List.cons_subset_cons _ (List.nil_subset _)

/-- But for the clauses of a `try` statement, only children are read. -/
theorem Symbol.reached_subset {symbol : Symbol} (h : symbol ≠ .tryStatement)
    (children : List ParseTree) : symbol.reached children ⊆ children := by
  cases symbol with
  | tryStatement => exact absurd rfl h
  | emptyStatement => exact List.nil_subset _
  | inFor | inVarFor => exact List.drop_subset 1 _
  | _ => exact List.Subset.refl _

namespace ParseTree

/-- The part stands in the tree, `depth` levels below its root. -/
inductive Nests : ParseTree → Nat → ParseTree → Prop
  | self (tree : ParseTree) : Nests tree 0 tree
  | child {tree child part : ParseTree} {depth : Nat} : child ∈ tree.children →
      Nests child depth part → Nests tree (depth + 1) part

theorem Nests.of_mem {tree child : ParseTree} (h : child ∈ tree.children) : tree.Nests 1 child :=
  .child h (.self child)

theorem Nests.trans {tree part inner : ParseTree} {depth further : Nat}
    (h : tree.Nests depth part) (h' : part.Nests further inner) :
    tree.Nests (depth + further) inner := by
  induction h with
  | self tree => rwa [Nat.zero_add]
  | @child tree child part depth hmem _ ih =>
    rw [Nat.add_right_comm]
    exact .child hmem (ih h')

/-- A part stands less deep in a tree than the tree is high. -/
theorem Nests.lt_height {tree part : ParseTree} {depth : Nat} (h : tree.Nests depth part) :
    depth < tree.height := by
  induction h with
  | self tree => cases tree <;> simp [height]
  | child hmem _ ih =>
    have := height_lt_of_mem hmem
    omega

/-- What is read of a tree, as a part or as what stands in a clause, stands below its root. -/
theorem Nests.of_reached {tree part : ParseTree} (h : part ∈ tree.reached) :
    ∃ depth, tree.Nests (depth + 1) part := by
  cases tree with
  | token => exact nomatch h
  | node name children =>
    rw [reached] at h
    split at h
    · rename_i symbol _
      by_cases htry : symbol = .tryStatement
      · subst htry
        rcases List.mem_append.mp h with h | h
        · exact ⟨0, .of_mem (List.mem_of_mem_take h)⟩
        · obtain ⟨clause, hclause, hpart⟩ := List.mem_flatMap.mp h
          have hchild : clause ∈ children :=
            List.mem_of_mem_drop (Symbol.readClauses_subset _ hclause)
          exact ⟨1, .child hchild (.of_mem hpart)⟩
      · exact ⟨0, .of_mem (Symbol.reached_subset htry _ h)⟩
    · exact ⟨0, .of_mem h⟩

/-! ## Tokens -/

mutual

/-- The tokens of a tree from left to right, each with its text and its place. -/
def tokens : ParseTree → List (String × SourcePos)
  | .token _ text start => [(text, start)]
  | .node _ children => tokensIn children

/-- The tokens of the trees from left to right. -/
def tokensIn : List ParseTree → List (String × SourcePos)
  | [] => []
  | tree :: trees => tokens tree ++ tokensIn trees

end

theorem tokensIn_eq (trees : List ParseTree) : tokensIn trees = trees.flatMap tokens := by
  induction trees with
  | nil => rfl
  | cons tree trees ih => rw [tokensIn, ih, List.flatMap_cons]

/-- The tokens of a part are tokens of the tree. -/
theorem Nests.tokens_subset {tree part : ParseTree} {depth : Nat} (h : tree.Nests depth part) :
    part.tokens ⊆ tree.tokens := by
  induction h with
  | self => exact List.Subset.refl _
  | @child tree child part depth hmem _ ih =>
    intro token htoken
    cases tree with
    | token => exact nomatch hmem
    | node symbol children =>
      rw [tokens, tokensIn_eq]
      exact List.mem_flatMap.mpr ⟨child, hmem, ih htoken⟩

/-- No node in the tree is without children. -/
def Filled (tree : ParseTree) : Prop := ∀ depth symbol, ¬ tree.Nests depth (.node symbol [])

theorem Filled.part {tree part : ParseTree} {depth : Nat} (h : tree.Filled)
    (hpart : tree.Nests depth part) : part.Filled := by
  intro further symbol hempty
  exact h _ symbol (hpart.trans hempty)

@[simp] theorem filled_token (symbol text : String) (start : SourcePos) :
    (token symbol text start).Filled := by
  intro depth other hempty
  cases hempty with
  | child hmem _ => exact nomatch hmem

@[simp] theorem filled_node {symbol : String} {children : List ParseTree} :
    (node symbol children).Filled ↔ children ≠ [] ∧ ∀ child ∈ children, child.Filled := by
  constructor
  · intro h
    refine ⟨?_, fun child hmem => h.part (.of_mem hmem)⟩
    rintro rfl
    exact h 0 symbol (.self _)
  · rintro ⟨hne, h⟩ depth other hempty
    cases hempty with
    | self => exact hne rfl
    | child hmem hbelow => exact h _ hmem _ other hbelow

/-- **A tree is placed at its first token**, if all its nodes have children. -/
theorem Filled.exists_head {tree : ParseTree} (h : tree.Filled) :
    ∃ text start, tree.tokens.head? = some (text, start) ∧
      tree.position = .ofToken start text.utf8ByteSize := by
  induction tree using ParseTree.induction with
  | token symbol text start => exact ⟨text, start, rfl, rfl⟩
  | node symbol children ih =>
    cases children with
    | nil => exact absurd (.self _) (h 0 symbol)
    | cons first rest =>
      obtain ⟨text, start, hhead, hposition⟩ := ih first (.head _) (h.part (.of_mem (.head _)))
      refine ⟨text, start, ?_, hposition⟩
      rw [tokens, tokensIn, List.head?_append, hhead]
      rfl

end ParseTree
end ScriptAst
