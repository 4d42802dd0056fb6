import ScriptAst.Proofs.Grammar.Shapes
import ScriptAst.Proofs.InTurn
import ScriptAst.Proofs.Pairing.Rename

/-! # What a chain is made of

The children of a chain are a head and links (`Chain`): accesses by name and by key, operators with
their operands, and calls.  A chain is built exactly if its children split completely in this way
and the operands can be built one after the other from left to right, and its node is then the fold
of the links onto the head (`dispatch_chain_eq_ok_iff`).

What an operand is built to stands beside its tree in the head or the link, so that a chain has both
its children (`Chain.trees`) and its node (`Chain.node`).
-/
namespace ScriptAst

/-! ## Heads and links -/

/-- A link of a chain. -/
inductive Chain.Link where
  | dot (mark : Mark ".") (name : String) (label : Mark name)
  | index (mark : Mark "[") (key : ParseTree) (built : Node)
  | operation (op : BinaryOp) (mark : Mark op.token) (operand : ParseTree) (built : Node)
  | call (arguments : List ParseTree) (built : Node)

/-- What the links of a chain are folded onto: the first child, or an object made with `new`. -/
inductive Chain.Head where
  | operand (tree : ParseTree) (built : Node)
  | new (keyword : Mark "new") (callee : ParseTree) (built : Node)
  | newWithArgs (keyword : Mark "new") (callee : ParseTree) (built : Node)
      (arguments : List ParseTree) (builtArguments : Node)

/-- The head and the links of a chain, with what their operands are built to. -/
structure Chain where
  head : Chain.Head
  links : List Chain.Link

namespace Chain

namespace Link

/-- The children of the chain that the link is made of. -/
def trees : Link → List ParseTree
  | dot mark _ label => [mark.tree, label.tree]
  | index mark key _ => [mark.tree, key]
  | operation _ mark operand _ => [mark.tree, operand]
  | call arguments _ => [argumentsTree arguments]

/-- The tree that is built for the link, if there is one. -/
def operands : Link → List (ParseTree × Node)
  | dot _ _ _ => []
  | index _ key built => [(key, built)]
  | operation _ _ operand built => [(operand, built)]
  | call arguments built => [(argumentsTree arguments, built)]

/-- The link put onto what has been built so far of a chain at `pos`. -/
def onto (pos : Position) (left : Node) : Link → Node
  | dot mark name _ => ⟨mark.tree.position, .memberDot left name⟩
  | index mark _ built => ⟨mark.tree.position, .member left built⟩
  | operation op mark _ built => ⟨mark.tree.position, .binary op left built⟩
  | call _ built => ⟨pos, .call left built⟩

end Link

namespace Head

/-- The children of the chain that the head is made of. -/
def trees : Head → List ParseTree
  | operand tree _ => [tree]
  | new keyword callee _ => [keyword.tree, callee]
  | newWithArgs keyword callee _ arguments _ => [keyword.tree, callee, argumentsTree arguments]

/-- The trees that are built for the head. -/
def operands : Head → List (ParseTree × Node)
  | operand tree built => [(tree, built)]
  | new _ callee built => [(callee, built)]
  | newWithArgs _ callee built arguments builtArguments =>
    [(callee, built), (argumentsTree arguments, builtArguments)]

/-- What a chain at `pos` begins with. -/
def node (pos : Position) : Head → Node
  | operand _ built => built
  | new _ _ built => ⟨pos, .new built⟩
  | newWithArgs _ _ built _ builtArguments => ⟨pos, .newWithArgs built builtArguments⟩

/-- Whether a chain of the symbol has this head, with `behind` as its further children.  Only a
chain of accesses can begin with the word `new`, and then it does not have that word as an operand;
it takes the arguments that follow the callee. -/
def Suits (symbol : Symbol) (behind : List ParseTree) : Head → Prop
  | operand tree _ => ¬ (symbol = .memberExpression ∧ tree.isToken "new")
  | new _ _ _ => symbol = .memberExpression ∧ ∀ next ∈ behind.head?, ¬ Production.isArguments next
  | newWithArgs _ _ _ _ _ => symbol = .memberExpression

end Head

/-- The children of the chain. -/
def trees (chain : Chain) : List ParseTree :=
  chain.head.trees ++ chain.links.flatMap Link.trees

/-- The trees that are built for the chain, from left to right. -/
def operands (chain : Chain) : List (ParseTree × Node) :=
  chain.head.operands ++ chain.links.flatMap Link.operands

/-- The links of a chain at `pos`, folded from the left onto its head. -/
def node (pos : Position) (chain : Chain) : Node :=
  chain.links.foldl (Link.onto pos) (chain.head.node pos)

/-- Whether the chain can stand for the symbol. -/
def Suits (symbol : Symbol) (chain : Chain) : Prop :=
  chain.head.Suits symbol (chain.links.flatMap Link.trees)

/-! ## Reading the links -/

theorem Link.trees_ne_nil (link : Link) : link.trees ≠ [] := by
  cases link <;> exact List.cons_ne_nil _ _

/-- A list of arguments begins no link but a call. -/
theorem Link.trees_append_eq_node_cons_iff {link : Link} {symbol : String}
    {children rest behind : List ParseTree} :
    link.trees ++ rest = .node symbol children :: behind ↔
      ∃ built, link = .call children built ∧ symbol = Symbol.arguments.name ∧ rest = behind := by
  constructor
  · intro heq
    cases link with
    | dot | index | operation => cases (List.cons.inj heq).1
    | call arguments built =>
      obtain ⟨⟨⟩, hrest⟩ := List.cons.inj heq
      exact ⟨built, rfl, rfl, hrest⟩
  · rintro ⟨built, rfl, rfl, rfl⟩
    rfl

/-- A token begins a link of two children. -/
theorem Link.trees_append_eq_token_cons_iff {link : Link} {symbol token : String} {pos : SourcePos}
    {rest behind : List ParseTree} :
    link.trees ++ rest = .token symbol token pos :: behind ↔
      ∃ operand, link.trees = [.token symbol token pos, operand] ∧ behind = operand :: rest := by
  constructor
  · intro heq
    cases link with
    | dot | index | operation =>
      obtain ⟨hop, hrest⟩ := List.cons.inj heq
      exact ⟨_, congrArg (· :: _) hop, hrest.symm⟩
    | call => cases (List.cons.inj heq).1
  · rintro ⟨operand, htrees, rfl⟩
    rw [htrees]
    rfl

/-- A link of two children stands at its mark. -/
theorem Link.onto_eq {link : Link} {op operand : ParseTree} (h : link.trees = [op, operand])
    (pos : Position) (left : Node) :
    link.onto pos left = ⟨op.position, (link.onto pos left).kind⟩ := by
  cases link with
  | dot | index | operation =>
    cases h
    rfl
  | call => cases (List.cons.inj h).2

end Chain

/-- A token with the text is a mark of it. -/
theorem ParseTree.isToken_iff {tree : ParseTree} {text : String} :
    tree.isToken text ↔ ∃ mark : Mark text, tree = mark.tree := by
  rw [isToken, decide_eq_true_iff]
  constructor
  · intro h
    cases tree with
    | token symbol _ pos =>
      obtain rfl := Option.some.inj h
      exact ⟨⟨symbol, pos⟩, rfl⟩
    | node => cases h
  · rintro ⟨mark, rfl⟩
    rfl

/-! ## The plan of a chain -/

namespace Production

variable {symbol : Symbol} {first : ParseTree} {rest behind : List ParseTree}

/-- What is taken for arguments is a list of them. -/
theorem isArguments_iff {tree : ParseTree} :
    isArguments tree ↔ ∃ arguments, tree = argumentsTree arguments := by
  cases tree with
  | token => exact iff_of_false Bool.false_ne_true fun ⟨_, h⟩ => by cases h
  | node symbol children =>
    constructor
    · intro h
      obtain rfl := of_decide_eq_true h
      exact ⟨children, rfl⟩
    · rintro ⟨arguments, ⟨⟩⟩
      rfl

/-- The plan for a chain of the symbol. -/
def chainPlan (symbol : Symbol) (tree : ParseTree) : Plan Node :=
  if symbol = .memberExpression then memberExpression tree else chainFromHead tree

theorem plan_eq_chainPlan {symbol : Symbol} (hchain : symbol.isChain) (source : String)
    (tree : ParseTree) :
    symbol.plan source tree = Symbol.plan.node (chainPlan symbol tree) := by
  cases symbol <;> first | rfl | cases hchain

theorem chainPlan_operand {name : String}
    (h : ¬ (symbol = .memberExpression ∧ first.isToken "new")) :
    chainPlan symbol (.node name (first :: rest)) =
      value first >>= fun built => chain (.node name (first :: rest)) built 1 rest := by
  unfold chainPlan
  split
  · next hmember =>
    have hnew : ¬ first.isToken "new" := fun hnew => h ⟨hmember, hnew⟩
    exact if_neg hnew
  · rfl

theorem chainPlan_new {name : String} (keyword : Mark "new") (callee : ParseTree)
    (h : ∀ next ∈ behind.head?, ¬ isArguments next) :
    chainPlan .memberExpression (.node name (keyword.tree :: callee :: behind)) =
      value callee >>= fun built =>
        chain (.node name (keyword.tree :: callee :: behind)) ⟨keyword.tree.position, .new built⟩ 2
          behind := by
  refine bind_congr (m := Plan) (x := value callee) fun built => ?_
  split
  · next arguments hfound =>
    obtain ⟨hnext, hargs⟩ := Option.filter_eq_some_iff.mp hfound
    rw [ParseTree.child?, ParseTree.children, ← List.head?_drop] at hnext
    exact absurd hargs (h arguments hnext)
  · rfl

theorem chainPlan_newWithArgs {name : String} (keyword : Mark "new") (callee : ParseTree)
    (arguments : List ParseTree) :
    chainPlan .memberExpression
        (.node name (keyword.tree :: callee :: argumentsTree arguments :: behind)) =
      value callee >>= fun built => value (argumentsTree arguments) >>= fun builtArguments =>
        chain (.node name (keyword.tree :: callee :: argumentsTree arguments :: behind))
          ⟨keyword.tree.position, .newWithArgs built builtArguments⟩ 3 behind := rfl

end Production

/-! ## Links that are built -/

namespace Builder

open Production (link chain chainPlan chainPlan_operand chainPlan_new chainPlan_newWithArgs)
open Chain (Link Head)

variable {b after : Builder} {tree : ParseTree} {left answer : Node}

/-- A token and its operand make a link, of the kind that the token says. -/
theorem link_eq_ok_iff {symbol token : String} {pos : SourcePos} {operand : ParseTree}
    {kind : Kind Node} (place : Position) :
    b.carryOut (link tree (.token symbol token pos) token left operand) = (.ok kind, after) ↔
      ∃ made : Link, made.trees = [.token symbol token pos, operand] ∧
        b.Builds made.operands after ∧
        made.onto place left = ⟨(ParseTree.token symbol token pos).position, kind⟩ := by
  constructor
  · intro h
    unfold link at h
    split at h
    · next hdot =>
      subst hdot
      cases operand with
      | token label name labelPos =>
        obtain ⟨rfl, rfl⟩ := carryOut_done_eq_ok_iff.mp h
        exact ⟨.dot ⟨symbol, pos⟩ name ⟨label, labelPos⟩, rfl, .nil b, rfl⟩
      | node => exact absurd h carryOut_fail_ne_ok
    split at h
    · next hindex =>
      subst hindex
      obtain ⟨built, hbuilt, rfl⟩ := carryOut_value_map_eq_ok_iff.mp h
      exact ⟨.index ⟨symbol, pos⟩ operand built, rfl, hbuilt, rfl⟩
    split at h
    · next op hop =>
      obtain rfl := BinaryOp.ofToken?_eq_some_iff.mp hop
      obtain ⟨built, hbuilt, rfl⟩ := carryOut_value_map_eq_ok_iff.mp h
      exact ⟨.operation op ⟨symbol, pos⟩ operand built, rfl, hbuilt, rfl⟩
    · exact absurd h carryOut_fail_ne_ok
  · rintro ⟨made, htrees, hbuilds, honto⟩
    cases made with
    | dot mark name label =>
      cases htrees
      cases honto
      exact carryOut_done_eq_ok_iff.mpr ⟨rfl, builds_nil_iff.mp hbuilds⟩
    | index mark key built =>
      cases htrees
      cases honto
      exact carryOut_value_map_eq_ok_iff.mpr ⟨built, hbuilds, rfl⟩
    | operation op mark _ built =>
      cases htrees
      cases honto
      rw [link, if_neg op.token_ne.1, if_neg op.token_ne.2, BinaryOp.ofToken?_token]
      exact carryOut_value_map_eq_ok_iff.mpr ⟨built, hbuilds, rfl⟩
    | call => cases htrees

/-! ## Folding the links -/

/-- The trees are links that can be built and folded onto `left`. -/
def Folds (pos : Position) (b : Builder) (left : Node) (trees : List ParseTree) (answer : Node)
    (after : Builder) : Prop :=
  ∃ links : List Link, links.flatMap Link.trees = trees ∧
    b.Builds (links.flatMap Link.operands) after ∧ links.foldl (Link.onto pos) left = answer

variable {pos : Position} {first : ParseTree} {rest : List ParseTree}

theorem folds_nil_iff : b.Folds pos left [] answer after ↔ left = answer ∧ b = after := by
  constructor
  · rintro ⟨links, htrees, hbuilds, hanswer⟩
    cases links with
    | nil => exact ⟨hanswer, builds_nil_iff.mp hbuilds⟩
    | cons made links => exact absurd (List.append_eq_nil_iff.mp htrees).1 made.trees_ne_nil
  · rintro ⟨hanswer, rfl⟩
    exact ⟨[], rfl, .nil b, hanswer⟩

/-- A first link and then the others. -/
theorem folds_cons_iff :
    b.Folds pos left (first :: rest) answer after ↔
      ∃ (made : Link) (behind : List ParseTree) (between : Builder),
        made.trees ++ behind = first :: rest ∧ b.Builds made.operands between ∧
          between.Folds pos (made.onto pos left) behind answer after := by
  constructor
  · rintro ⟨links, htrees, hbuilds, hanswer⟩
    cases links with
    | nil => cases htrees
    | cons made links =>
      obtain ⟨between, hmade, hlinks⟩ := builds_append_iff.mp hbuilds
      exact ⟨made, _, between, htrees, hmade, links, rfl, hlinks, hanswer⟩
  · rintro ⟨made, _, between, htrees, hmade, links, rfl, hlinks, hanswer⟩
    exact ⟨made :: links, htrees, builds_append_iff.mpr ⟨between, hmade, hlinks⟩, hanswer⟩

/-- The children of a chain from some place on are folded exactly if they are links. -/
theorem chain_eq_ok_iff {b : Builder} :
    ∀ (trees : List ParseTree) (left : Node) (i : Nat),
      b.carryOut (chain tree left i trees) = (.ok answer, after) ↔
        b.Folds tree.position left trees answer after
  | [], left, i => by rw [folds_nil_iff]; exact carryOut_done_eq_ok_iff
  | [.token symbol token pos], left, i => by
    -- The operand is missing, and no link is a token alone.
    refine iff_of_false carryOut_fail_ne_ok fun h => ?_
    obtain ⟨made, behind, _, htrees, _⟩ := folds_cons_iff.mp h
    obtain ⟨_, _, hbehind⟩ := Link.trees_append_eq_token_cons_iff.mp htrees
    cases hbehind
  | .token symbol token pos :: operand :: behind, left, i => by
    rw [chain, carryOut_bind_eq_ok_iff, folds_cons_iff]
    constructor
    · rintro ⟨kind, between, hkind, hbehind⟩
      obtain ⟨made, htrees, hbuilds, honto⟩ := (link_eq_ok_iff tree.position).mp hkind
      refine ⟨made, behind, between, by rw [htrees]; rfl, hbuilds, ?_⟩
      rw [honto]
      exact (chain_eq_ok_iff behind _ (i + 2)).mp hbehind
    · rintro ⟨made, rest, between, hmade, hbuilds, hrest⟩
      obtain ⟨_, htrees, heq⟩ := Link.trees_append_eq_token_cons_iff.mp hmade
      obtain ⟨rfl, rfl⟩ := List.cons.inj heq
      have honto := Link.onto_eq htrees tree.position left
      refine ⟨_, between, (link_eq_ok_iff tree.position).mpr ⟨made, htrees, hbuilds, honto⟩, ?_⟩
      rw [← honto]
      exact (chain_eq_ok_iff behind _ (i + 2)).mpr hrest
  | .node symbol children :: behind, left, i => by
    rw [chain, folds_cons_iff]
    by_cases hargs : Production.isArguments (.node symbol children)
    · obtain rfl := of_decide_eq_true hargs
      rw [if_pos hargs, carryOut_bind_eq_ok_iff]
      constructor
      · rintro ⟨built, between, hbuilt, hbehind⟩
        exact ⟨.call children built, behind, between, rfl, builds_singleton_iff.mpr hbuilt,
          (chain_eq_ok_iff behind _ (i + 1)).mp hbehind⟩
      · rintro ⟨made, rest, between, hmade, hbuilds, hrest⟩
        obtain ⟨built, rfl, -, rfl⟩ := Link.trees_append_eq_node_cons_iff.mp hmade
        exact ⟨built, between, builds_singleton_iff.mp hbuilds,
          (chain_eq_ok_iff _ _ (i + 1)).mpr hrest⟩
    · rw [if_neg hargs]
      refine iff_of_false carryOut_fail_ne_ok ?_
      rintro ⟨made, _, _, hmade, _⟩
      obtain ⟨_, _, rfl, _⟩ := Link.trees_append_eq_node_cons_iff.mp hmade
      exact hargs rfl

/-! ## Finding the head -/

variable {symbol : Symbol} {behind : List ParseTree}

/-- A chain is built in turn if its head is, and then its links. -/
theorem exists_chain_iff {children : List ParseTree} :
    (∃ chain : Chain, chain.trees = children ∧ chain.Suits symbol ∧ b.Builds chain.operands after ∧
        chain.node pos = answer) ↔
      ∃ (head : Head) (behind : List ParseTree) (between : Builder),
        head.trees ++ behind = children ∧ head.Suits symbol behind ∧
          b.Builds head.operands between ∧
            between.Folds pos (head.node pos) behind answer after := by
  constructor
  · rintro ⟨chain, htrees, hsuits, hbuilds, hanswer⟩
    obtain ⟨between, hhead, hlinks⟩ := builds_append_iff.mp hbuilds
    exact ⟨chain.head, _, between, htrees, hsuits, hhead, chain.links, rfl, hlinks, hanswer⟩
  · rintro ⟨head, _, between, htrees, hsuits, hhead, links, rfl, hlinks, hanswer⟩
    exact ⟨⟨head, links⟩, htrees, hsuits, builds_append_iff.mpr ⟨between, hhead, hlinks⟩, hanswer⟩

/-- A chain that begins with the word `new` has a new object for its head. -/
theorem exists_new_head {name : String} {keyword : Mark "new"}
    (h : b.carryOut (chainPlan .memberExpression (.node name (keyword.tree :: rest))) =
      (.ok answer, after)) :
    ∃ (head : Head) (behind : List ParseTree) (between : Builder),
      head.trees ++ behind = keyword.tree :: rest ∧ head.Suits .memberExpression behind ∧
        b.Builds head.operands between ∧
          between.Folds (ParseTree.node name (keyword.tree :: rest)).position
            (head.node (ParseTree.node name (keyword.tree :: rest)).position) behind answer
            after := by
  cases rest with
  | nil => exact absurd h carryOut_fail_ne_ok
  | cons callee behind =>
    by_cases hargs : ∃ arguments further, behind = argumentsTree arguments :: further
    · obtain ⟨arguments, further, rfl⟩ := hargs
      rw [chainPlan_newWithArgs, carryOut_bind_eq_ok_iff] at h
      obtain ⟨built, middle, hcallee, h⟩ := h
      obtain ⟨builtArguments, between, harguments, h⟩ := carryOut_bind_eq_ok_iff.mp h
      exact ⟨.newWithArgs keyword callee built arguments builtArguments, further, between, rfl, rfl,
        .cons hcallee (builds_singleton_iff.mpr harguments), (chain_eq_ok_iff ..).mp h⟩
    · have hnone : ∀ next ∈ behind.head?, ¬ Production.isArguments next := by
        intro next hnext harguments
        obtain ⟨arguments, rfl⟩ := Production.isArguments_iff.mp harguments
        exact hargs ⟨arguments, List.head?_eq_some_iff.mp hnext⟩
      rw [chainPlan_new keyword callee hnone, carryOut_bind_eq_ok_iff] at h
      obtain ⟨built, between, hbuilt, h⟩ := h
      exact ⟨.new keyword callee built, behind, between, rfl, ⟨rfl, hnone⟩,
        builds_singleton_iff.mpr hbuilt, (chain_eq_ok_iff ..).mp h⟩

/-- What a chain that is built begins with. -/
theorem exists_head {name : String} {children : List ParseTree}
    (h : b.carryOut (chainPlan symbol (.node name children)) = (.ok answer, after)) :
    ∃ (head : Head) (behind : List ParseTree) (between : Builder),
      head.trees ++ behind = children ∧ head.Suits symbol behind ∧ b.Builds head.operands between ∧
        between.Folds (ParseTree.node name children).position
          (head.node (ParseTree.node name children).position) behind answer after := by
  cases children with
  | nil =>
    have hplan : chainPlan symbol (.node name []) =
        Production.malformed (.node name []) (.missingChild 0) := by
      unfold chainPlan
      split <;> rfl
    rw [hplan] at h
    exact absurd h carryOut_fail_ne_ok
  | cons first rest =>
    by_cases hnew : symbol = .memberExpression ∧ first.isToken "new"
    · obtain ⟨rfl, hfirst⟩ := hnew
      obtain ⟨keyword, rfl⟩ := ParseTree.isToken_iff.mp hfirst
      exact exists_new_head h
    · rw [chainPlan_operand hnew, carryOut_bind_eq_ok_iff] at h
      obtain ⟨built, between, hbuilt, hrest⟩ := h
      exact ⟨.operand first built, rest, between, rfl, hnew, builds_singleton_iff.mpr hbuilt,
        (chain_eq_ok_iff ..).mp hrest⟩

/-- A chain is built if its head is, and its links are then folded. -/
theorem carryOut_chainPlan {name : String} {head : Head} {between : Builder}
    (hsuits : head.Suits symbol behind) (hbuilds : b.Builds head.operands between)
    (hfolds : between.Folds (ParseTree.node name (head.trees ++ behind)).position
      (head.node (ParseTree.node name (head.trees ++ behind)).position) behind answer after) :
    b.carryOut (chainPlan symbol (.node name (head.trees ++ behind))) = (.ok answer, after) := by
  cases head with
  | operand tree built =>
    refine (congrArg b.carryOut (chainPlan_operand hsuits)).trans ?_
    exact carryOut_bind_eq_ok_iff.mpr
      ⟨built, between, builds_singleton_iff.mp hbuilds, (chain_eq_ok_iff ..).mpr hfolds⟩
  | new keyword callee built =>
    obtain ⟨rfl, hbehind⟩ := hsuits
    refine (congrArg b.carryOut (chainPlan_new keyword callee hbehind)).trans ?_
    exact carryOut_bind_eq_ok_iff.mpr
      ⟨built, between, builds_singleton_iff.mp hbuilds, (chain_eq_ok_iff ..).mpr hfolds⟩
  | newWithArgs keyword callee built arguments builtArguments =>
    obtain rfl := hsuits
    refine (congrArg b.carryOut (chainPlan_newWithArgs keyword callee arguments)).trans ?_
    obtain ⟨middle, hcallee, harguments⟩ := builds_cons_iff.mp hbuilds
    refine carryOut_bind_eq_ok_iff.mpr ⟨built, middle, hcallee, ?_⟩
    exact carryOut_bind_eq_ok_iff.mpr
      ⟨builtArguments, between, builds_singleton_iff.mp harguments, (chain_eq_ok_iff ..).mpr hfolds⟩

/-- A chain is built exactly if its children are a head and links that can be built in turn. -/
theorem chainPlan_eq_ok_iff {name : String} {children : List ParseTree} :
    b.carryOut (chainPlan symbol (.node name children)) = (.ok answer, after) ↔
      ∃ chain : Chain, chain.trees = children ∧ chain.Suits symbol ∧ b.Builds chain.operands after ∧
        chain.node (ParseTree.node name children).position = answer := by
  rw [exists_chain_iff]
  constructor
  · exact exists_head
  · rintro ⟨head, behind, between, rfl, hsuits, hbuilds, hfolds⟩
    exact carryOut_chainPlan hsuits hbuilds hfolds

end Builder

/-! ## Chains that are built -/

/-- **Chains are accepted by their grammar and folded to the left.**  A node of a chain is built if
and only if there is a level left, its children split completely into a head and links that suit the
symbol, and the operands among them are built one after the other from left to right, one level
further in and each on the frames that the one before leaves.  The answer is then the links folded
onto the head. -/
theorem dispatch_chain_eq_ok_iff {symbol : Symbol} (hchain : symbol.isChain) (b after : Builder)
    (children : List ParseTree) (answer : Option Node) :
    b.dispatch (.node symbol.name children) = (.ok answer, after) ↔
      b.depth < maxNesting ∧ ∃ (chain : Chain) (inner : Builder),
        chain.trees = children ∧ chain.Suits symbol ∧ b.deeper.Builds chain.operands inner ∧
          answer = some (chain.node (ParseTree.node symbol.name children).position) ∧
            after = { b with scopes := inner.scopes } := by
  rw [Builder.dispatch_node_eq_ok_iff rfl (Production.plan_eq_chainPlan hchain _ _)]
  simp only [Builder.chainPlan_eq_ok_iff]
  constructor
  · rintro ⟨hdepth, _, inner, ⟨chain, htrees, hsuits, hbuilds, rfl⟩, hanswer, hafter⟩
    exact ⟨hdepth, chain, inner, htrees, hsuits, hbuilds, hanswer, hafter⟩
  · rintro ⟨hdepth, chain, inner, htrees, hsuits, hbuilds, hanswer, hafter⟩
    exact ⟨hdepth, _, inner, ⟨chain, htrees, hsuits, hbuilds, rfl⟩, hanswer, hafter⟩

/-- The chain `new X(y).m[k](z)`, with what its operands are built to. -/
def chainSample : Chain where
  head := .newWithArgs ⟨"new", ⟨0, 1, 0⟩⟩
    (.token "IDENTIFIERNAME" "X" ⟨4, 1, 4⟩) ⟨⟨1, 4, 5⟩, .identifier "X"⟩
    [.token "(" "(" ⟨5, 1, 5⟩, .token "IDENTIFIERNAME" "y" ⟨6, 1, 6⟩]
    ⟨⟨1, 5, 6⟩, .argumentList [⟨⟨1, 6, 7⟩, .identifier "y"⟩]⟩
  links := [
    .dot ⟨".", ⟨8, 1, 8⟩⟩ "m" ⟨"IDENTIFIERNAME", ⟨9, 1, 9⟩⟩,
    .index ⟨"[", ⟨10, 1, 10⟩⟩ (.token "IDENTIFIERNAME" "k" ⟨11, 1, 11⟩)
      ⟨⟨1, 11, 12⟩, .identifier "k"⟩,
    .call [.token "(" "(" ⟨13, 1, 13⟩, .token "IDENTIFIERNAME" "z" ⟨14, 1, 14⟩]
      ⟨⟨1, 13, 14⟩, .argumentList [⟨⟨1, 14, 15⟩, .identifier "z"⟩]⟩]

/-- The call stands at the beginning of the chain, and the accesses at their marks. -/
theorem dispatch_chain_new_member_call :
    let b := Builder.ofOptions ⟨"", true⟩
    Symbol.memberExpression.isChain ∧
    b.dispatch (.node "memberexpression" chainSample.trees) =
      (.ok (some ⟨⟨1, 0, 3⟩, .call
        ⟨⟨1, 10, 11⟩, .member
          ⟨⟨1, 8, 9⟩, .memberDot
            ⟨⟨1, 0, 3⟩, .newWithArgs ⟨⟨1, 4, 5⟩, .identifier "X"⟩
              ⟨⟨1, 5, 6⟩, .argumentList [⟨⟨1, 6, 7⟩, .identifier "y"⟩]⟩⟩ "m"⟩
          ⟨⟨1, 11, 12⟩, .identifier "k"⟩⟩
        ⟨⟨1, 13, 14⟩, .argumentList [⟨⟨1, 14, 15⟩, .identifier "z"⟩]⟩⟩), b) := by
  intro b
  have hchain : Symbol.memberExpression.isChain := rfl
  have hbuilds : b.deeper.Builds chainSample.operands b.deeper := by
    refine Builder.builds_cons_iff.mpr ⟨b.deeper, rfl, ?_⟩
    refine Builder.builds_cons_iff.mpr ⟨b.deeper, rfl, ?_⟩
    refine Builder.builds_cons_iff.mpr ⟨b.deeper, rfl, ?_⟩
    exact Builder.builds_singleton_iff.mpr rfl
  exact ⟨hchain, (dispatch_chain_eq_ok_iff hchain b b _ _).mpr
    ⟨by decide, chainSample, b.deeper, rfl, rfl, hbuilds, rfl, rfl⟩⟩

end ScriptAst
