import ScriptAst.Proofs.Grammar.Reading

/-! # Every shape is read

For each shape of the contract, the plan of its symbol reads the parts of the shape and puts the
node together from them.
-/
namespace ScriptAst

theorem AssignOp.updateOfToken?_token {op : AssignOp} (h : op.isUpdate) :
    updateOfToken? op.token = some op := by
  rw [updateOfToken?, ofToken?_token, Option.filter_some, if_pos h]

theorem AssignOp.assignmentOfToken?_token {op : AssignOp} (h : op.isUpdate = false) :
    assignmentOfToken? op.token = some op := by
  rw [assignmentOfToken?, ofToken?_token, Option.filter_some, h]
  rfl

/-- No operator that only reads its operand is written like an update. -/
theorem UnaryOp.updateOfToken?_token (op : UnaryOp) : AssignOp.updateOfToken? op.token = none := by
  cases op <;> decide

theorem BinaryOp.token_ne (op : BinaryOp) : op.token ≠ "." ∧ op.token ≠ "[" := by
  cases op <;> decide

/-- A write fails only at what cannot be written to. -/
theorem Node.write_error {pos : Position} {target : Node} {op : AssignOp} {value : Option Node}
    {side : Option Side} {error : BuildError}
    (h : Node.write pos target op value side = .error error) :
    error = .invalidTarget pos .notAssignable := by
  unfold Node.write at h
  split at h
  case h_5 =>
    split at h
    · exact nomatch h
    · exact (Except.error.inj h).symm
  all_goals exact nomatch h

namespace Production

open Plan (Reads)

variable {source symbol : String} {α : Type} {Q : List Item → α → Prop}

theorem write_reads {pos : Position} {target : Node} {op : AssignOp} (value : Option Node)
    {side : Option Side} (hside : side.isSome → value = none) :
    Reads []
      (fun items node => Made source (.node target :: (value.toList.map .node ++ items)) node)
      (.ofExcept (Node.write pos target op value side)) := by
  cases h : Node.write pos target op value side with
  | error error =>
    rw [Node.write_error h]
    exact .fail _ _
  | ok node =>
    refine .done ?_
    rw [List.append_nil]
    exact .write hside h

/-! ## Expressions -/

/-- A word that is a literal. -/
theorem keywordLiteral_reads {word : String} (mark : Mark word)
    (hword : word = "true" ∨ word = "false" ∨ word = "null") :
    Reads [] (fun items node => Made source items node ∧ node.kind.IsLiteral)
      (keywordLiteral (.node symbol [mark.tree])) := by
  rcases hword with rfl | rfl | rfl
  · exact .done ⟨.inner (.boolean true) trivial, trivial⟩
  · exact .done ⟨.inner (.boolean false) trivial, trivial⟩
  · exact .done ⟨.inner .null trivial, trivial⟩

theorem primaryExpression_reads (tree : ParseTree) :
    Reads [] (Made source) (primaryExpression tree) :=
  .done (.inner .thisValue trivial)

theorem unaryExpression_reads (op : UnaryOp) (mark : Mark op.token) (operand : ParseTree) :
    Reads [(.expression, operand)] (Made source)
      (unaryExpression (.node symbol [mark.tree, operand])) := by
  refine value_bind nofun nofun fun node _ => ?_
  simp only [UnaryOp.updateOfToken?_token, UnaryOp.ofToken?_token]
  exact .done (.inner (.unary op node) trivial)

theorem updateBefore_reads {op : AssignOp} (h : op.isUpdate) (mark : Mark op.token)
    (operand : ParseTree) :
    Reads [(.expression, operand)] (Made source)
      (unaryExpression (.node symbol [mark.tree, operand])) := by
  refine value_bind nofun nofun fun node _ => ?_
  simp only [AssignOp.updateOfToken?_token h]
  exact write_reads none fun _ => rfl

theorem updateBehind_reads {op : AssignOp} (h : op.isUpdate) (operand : ParseTree)
    (mark : Mark op.token) :
    Reads [(.expression, operand)] (Made source)
      (postfixExpression (.node symbol [operand, mark.tree])) := by
  refine value_bind nofun nofun fun node _ => ?_
  simp only [AssignOp.updateOfToken?_token h]
  exact write_reads none fun _ => rfl

theorem assignmentExpression_reads {op : AssignOp} (h : op.isUpdate = false) (target : ParseTree)
    (mark : Mark op.token) (value : ParseTree) :
    Reads [(.expression, target), (.expression, value)] (Made source)
      (assignmentExpression (.node symbol [target, mark.tree, value])) := by
  refine value_bind nofun nofun fun targetNode _ => ?_
  have htoken : childText (.node symbol [target, mark.tree, value]) 1 = .done op.token := rfl
  simp only [htoken, done_bind, AssignOp.assignmentOfToken?_token h]
  exact value_bind nofun nofun fun node _ => write_reads (some node) nofun

theorem conditionalExpression_reads (condition : ParseTree) (mark : Mark "?")
    (thenBranch elseBranch : ParseTree) :
    Reads [(.expression, condition), (.expression, thenBranch), (.expression, elseBranch)]
      (Made source)
      (conditionalExpression (.node symbol [condition, mark.tree, thenBranch, elseBranch])) := by
  refine value_bind nofun nofun fun conditionNode _ => ?_
  refine value_bind nofun nofun fun thenNode _ => ?_
  refine value_bind nofun nofun fun elseNode _ => ?_
  exact .done (.inner (.conditional conditionNode thenNode (some elseNode)) trivial)

theorem operandAlone_reads (operand : ParseTree) :
    Reads [(.expression, operand)] (Made source) (newExpression (.node symbol [operand])) :=
  value_done nofun nofun fun node _ => .self node

theorem newExpression_reads (keyword : Mark "new") (callee : ParseTree) :
    Reads [(.expression, callee)] (Made source)
      (newExpression (.node symbol [keyword.tree, callee])) :=
  value_bind nofun nofun fun node _ => .done (.inner (.new node) trivial)

theorem arguments_reads (opening : ParseTree) (values : List ParseTree) :
    Reads (Slot.expression.each values) (Made source)
      (arguments (.node symbol (opening :: values))) :=
  values_done nofun fun nodes _ => .inner (.argumentList nodes) trivial

theorem arrayLiteral_reads (opening : ParseTree) (items : List ParseTree) :
    Reads (Slot.expression.each items) (Made source)
      (arrayLiteral (.node symbol (opening :: items))) :=
  values_done nofun fun nodes _ => .inner (.array nodes) trivial

theorem objectLiteral_reads (opening : ParseTree) (properties : List ParseTree) :
    Reads (Slot.property.each properties) (Made source)
      (objectLiteral (.node symbol (opening :: properties))) :=
  values_done nofun fun nodes _ => .inner (.objectInit nodes) trivial

theorem exists_names {nodes : List Node} (h : ∀ node ∈ nodes, node.literalName?.isSome) :
    ∃ names : List String, nodes.map Node.literalName? = names.map some := by
  induction nodes with
  | nil => exact ⟨[], rfl⟩
  | cons node nodes ih =>
    obtain ⟨hnode, hnodes⟩ := List.forall_mem_cons.mp h
    obtain ⟨name, hname⟩ := Option.isSome_iff_exists.mp hnode
    obtain ⟨names, hnames⟩ := ih hnodes
    exact ⟨name :: names, by rw [List.map_cons, hname, hnames, List.map_cons]⟩

theorem formalParameterList_reads (names : List ParseTree) :
    Reads (Slot.name.each names)
      (fun items node => Made source items node ∧ ∃ names, node.Lists names)
      (formalParameterList (.node symbol names)) := by
  refine values_done nofun fun nodes hnodes => ?_
  obtain ⟨names, hnames⟩ := exists_names (hnodes nofun)
  exact ⟨.inner (.argumentList nodes) trivial, names, nodes, rfl, hnames⟩

theorem namedProperty_reads (key : Word) (value : ParseTree) :
    Reads [(.label, key.tree), (.expression, value)] (Made source)
      (propertyNameAndValue (.node symbol [key.tree, value])) :=
  .label key (value_bind nofun nofun fun _ _ => .done .namedProperty)

theorem literalProperty_reads {key : ParseTree} (hkey : key.symbol ≠ Symbol.identifierName.name)
    (value : ParseTree) :
    Reads [(.literal, key), (.expression, value)] (Made source)
      (propertyNameAndValue (.node symbol [key, value])) := by
  show Reads _ _ (propertyKey key >>= _)
  rw [propertyKey, if_neg hkey]
  refine value_bind nofun nofun fun keyNode hliteral => ?_
  exact value_bind nofun nofun fun node _ => .done (.inner (.propertyInit keyNode node) hliteral)

/-! ## Chains -/

theorem chain_reads (source : String) {access : Bool} {links : List ParseTree} {parts : List Part}
    (h : Links access links parts) (tree : ParseTree) (left : Node) (i : Nat) :
    Reads parts (fun items => Made source (.node left :: items)) (chain tree left i links) := by
  induction h generalizing left i with
  | nil => exact .done (.self left)
  | @operation links parts op mark operand _ ih =>
    obtain ⟨hdot, hindex⟩ := op.token_ne
    simp only [chain, link, hdot, hindex, if_false, BinaryOp.ofToken?_token, bind_assoc, pure_bind]
    refine value_bind nofun nofun fun right _ => ?_
    refine (ih _ _).mono fun items node hnode => ?_
    exact hnode.head (.inner (.binary op left right) trivial)
  | dot mark name _ ih =>
    refine .label name ((ih _ _).mono fun items node hnode => ?_)
    exact hnode.head (.inner (.memberDot left name.text) trivial)
  | index mark key _ ih =>
    have hdot : "[" ≠ "." := by decide
    simp only [chain, link, hdot, if_false, if_true, bind_assoc, pure_bind]
    refine value_bind nofun nofun fun keyNode _ => ?_
    refine (ih _ _).mono fun items node hnode => ?_
    exact hnode.head (.inner (.member left keyNode) trivial)
  | call children _ ih =>
    have harguments : isArguments (argumentsTree children) = true := rfl
    simp only [chain, harguments, if_true]
    refine value_bind nofun nofun fun node _ => ?_
    refine (ih _ _).mono fun items _ hnode => ?_
    exact hnode.head (.inner (.call left node) trivial)

theorem chainFromHead_reads {access : Bool} {links : List ParseTree} {parts : List Part}
    (h : Links access links parts) (head : ParseTree) :
    Reads ((.expression, head) :: parts) (Made source)
      (chainFromHead (.node symbol (head :: links))) :=
  value_bind nofun nofun fun node _ => chain_reads source h _ node 1

theorem memberExpression_reads {access : Bool} {links : List ParseTree} {parts : List Part}
    (h : Links access links parts) {object : ParseTree} (hobject : object.Unreserved) :
    Reads ((.expression, object) :: parts) (Made source)
      (memberExpression (.node symbol (object :: links))) := by
  have hnew : object.isToken "new" = false := by
    refine decide_eq_false fun htext => ?_
    exact hobject "new" htext (List.mem_cons_self ..)
  show Reads _ _ (if object.isToken "new" then _ else _)
  rw [hnew]
  exact chainFromHead_reads h object

theorem newMemberExpression_reads {links : List ParseTree} {parts : List Part}
    (h : Links true links parts) (keyword : Mark "new") (callee : ParseTree) :
    Reads ((.expression, callee) :: parts) (Made source)
      (memberExpression (.node symbol (keyword.tree :: callee :: links))) := by
  refine value_bind nofun nofun fun calleeNode _ => ?_
  -- Arguments right behind the callee belong to `new`; any other link starts with a token.
  cases h with
  | call children h =>
    refine value_bind nofun nofun fun node _ => ?_
    refine (chain_reads source h _ _ 3).mono fun items _ hnode => ?_
    exact hnode.head (.inner (.newWithArgs calleeNode node) trivial)
  | nil =>
    exact .done (.inner (.new calleeNode) trivial)
  | dot mark name h =>
    refine (chain_reads source (.dot mark name h) _ _ 2).mono fun items _ hnode => ?_
    exact hnode.head (.inner (.new calleeNode) trivial)
  | index mark key h =>
    refine (chain_reads source (.index mark key h) _ _ 2).mono fun items _ hnode => ?_
    exact hnode.head (.inner (.new calleeNode) trivial)

/-! ## Statements -/

theorem program_reads (body : ParseTree) (hbody : body.isTerminal = false) :
    Reads [(.body, body)] (Made source) (program source (.node symbol [body])) := by
  -- A body is no token, so it is not taken for the end of the input.
  have hchild : ((ParseTree.node symbol [body]).child? 0).filter (fun first => !first.isTerminal) =
      some body := Option.filter_some_pos (congrArg Bool.not hbody)
  unfold program
  rw [hchild]
  exact value_bind nofun nofun fun node _ => .done (.inner (.program node) trivial)

/-- A program without a body gets an empty one. -/
theorem emptyProgram_reads {tree : ParseTree}
    (htree : (tree.child? 0).filter (fun first => !first.isTerminal) = none) :
    Reads [] (Made source) (program source tree) := by
  unfold program
  rw [htree]
  exact .done (Made.fill []
    (.inner (.program (nodeAt tree (.sourceElements ⟨[], [], [], source⟩))) trivial) .emptyBody)

theorem variableStatement_reads (list : ParseTree) :
    Reads [(.declarations, list)] (Made source) (variableStatement (.node symbol [list])) :=
  value_bind nofun nofun fun node _ => .done (.inner (.varStatement node) trivial)

theorem variableDeclarationList_reads (items : List ParseTree) :
    Reads (Slot.declaration.each items) (Made source)
      (variableDeclarationList (.node symbol items)) :=
  values_done nofun fun nodes _ => .inner (.variableDeclList nodes) trivial

theorem expressionStatement_reads (expression : ParseTree) :
    Reads [(.expression, expression)] (Made source)
      (expressionStatement (.node symbol [expression])) :=
  value_bind nofun nofun fun node _ => .done (.inner (.exprStatement node) trivial)

theorem throwStatement_reads (value : ParseTree) :
    Reads [(.expression, value)] (Made source) (throwStatement (.node symbol [value])) :=
  value_bind nofun nofun fun node _ => .done (.inner (.throwStatement node) trivial)

theorem emptyStatement_reads (tree : ParseTree) :
    Reads [] (Made source) (emptyStatement tree) :=
  .done (.inner .empty trivial)

theorem block_reads (opening : ParseTree) (items : List ParseTree) :
    Reads (Slot.item.each items) (Made source) (block (.node symbol (opening :: items))) :=
  values_done nofun fun nodes _ => .inner (.block nodes) trivial

theorem returnStatement_reads (value : Option ParseTree) :
    Reads (Slot.expression.each value.toList) (Made source)
      (returnStatement (.node symbol value.toList)) :=
  childValue?_done [] rfl nofun nofun fun node => .inner (.returnStatement node) trivial

theorem ifStatement_reads (condition thenBranch : ParseTree) (elseBranch : Option ParseTree) :
    Reads ((.expression, condition) :: (.statement, thenBranch) ::
        Slot.statement.each elseBranch.toList) (Made source)
      (ifStatement (.node symbol (condition :: thenBranch :: elseBranch.toList))) := by
  refine value_bind nofun nofun fun conditionNode _ => ?_
  refine value_bind nofun nofun fun thenNode _ => ?_
  refine childValue?_done [condition, thenBranch] rfl nofun nofun fun elseNode => ?_
  exact .inner (.conditional conditionNode thenNode elseNode) trivial

theorem label_reads (label : Option Word) {f : Option String → Kind Node}
    (hf : ∀ label, (f label).IsInner ∧ (f label).contents = label.toList.map .text)
    (tree : ParseTree) :
    Reads (Slot.label.each (label.toList.map Word.tree)) (Made source)
      (Production.label (.node symbol (label.toList.map Word.tree)) >>= fun label =>
        .done (nodeAt tree (f label))) := by
  have hmade (label : Option String) :
      Made source (label.toList.map .text) (nodeAt tree (f label)) := by
    obtain ⟨hinner, hcontents⟩ := hf label
    rw [← hcontents]
    exact .inner _ hinner
  cases label with
  | none => exact .done (hmade none)
  | some word => exact .label word (.done (hmade (some word.text)))

theorem iterationStatement_reads (loop : ParseTree) :
    Reads [(.loop, loop)] (Made source) (childValue (.node symbol [loop]) 0) :=
  value_done nofun nofun fun node _ => .self node

theorem withStatement_reads (object body : ParseTree) :
    Reads [(.expression, object), (.statement, body)] (Made source)
      (withStatement (.node symbol [object, body])) := by
  refine value_bind nofun nofun fun objectNode _ => ?_
  refine value_bind nofun nofun fun bodyNode _ => ?_
  exact .done (.inner (.withStatement objectNode bodyNode) trivial)

theorem whileLoop_reads (keyword : Mark "while") (condition body : ParseTree) :
    Reads [(.expression, condition), (.statement, body)] (Made source)
      (whiles (.node symbol [keyword.tree, condition, body])) := by
  refine value_bind nofun nofun fun conditionNode _ => ?_
  refine value_bind nofun nofun fun bodyNode _ => ?_
  exact .done (.inner (.whileLoop conditionNode bodyNode) trivial)

theorem doLoop_reads (keyword : Mark "do") (body condition : ParseTree) :
    Reads [(.statement, body), (.expression, condition)] (Made source)
      (whiles (.node symbol [keyword.tree, body, condition])) := by
  refine value_bind nofun nofun fun bodyNode _ => ?_
  refine value_bind nofun nofun fun conditionNode _ => ?_
  exact .done (.inner (.doLoop bodyNode conditionNode) trivial)

theorem inFor_reads (opening target iterable body : ParseTree) :
    Reads [(.header, target), (.expression, iterable), (.statement, body)] (Made source)
      (inFor (.node symbol [opening, target, iterable, body])) := by
  refine value_bind nofun nofun fun targetNode _ => ?_
  split
  · exact .fail _ _
  · next name hname =>
    refine value_bind nofun nofun fun iterableNode _ => ?_
    exact value_bind nofun nofun fun bodyNode _ => .done (.forIn hname)

theorem inVarFor_reads (opening target iterable body : ParseTree) :
    Reads [(.header, target), (.expression, iterable), (.statement, body)] (Made source)
      (inVarFor (.node symbol [opening, target, iterable, body])) := by
  refine value_bind nofun nofun fun targetNode _ => ?_
  refine value_bind nofun nofun fun iterableNode _ => ?_
  refine value_bind nofun nofun fun bodyNode _ => ?_
  exact .done (.inner (.forVarIn targetNode iterableNode bodyNode) trivial)

theorem tryCatch_reads (body : ParseTree) (clause : String) (keyword : Mark "catch")
    (param handler : ParseTree) :
    Reads [(.block, body), (.name, param), (.block, handler)] (Made source)
      (tryStatement (.node symbol [body, .node clause [keyword.tree, param, handler]])) := by
  refine value_bind nofun nofun fun bodyNode _ => ?_
  refine value_bind nofun nofun fun paramNode _ => ?_
  refine value_bind nofun nofun fun handlerNode _ => ?_
  exact .done (.inner
    (.tryStatement bodyNode (some paramNode) (some handlerNode) none) trivial)

theorem tryCatchFinally_reads (body : ParseTree) (clause : String) (keyword : Mark "catch")
    (param handler : ParseTree) (lastClause : String) (lastKeyword last : ParseTree) :
    Reads [(.block, body), (.name, param), (.block, handler), (.block, last)] (Made source)
      (tryStatement (.node symbol
        [body, .node clause [keyword.tree, param, handler],
          .node lastClause [lastKeyword, last]])) := by
  refine value_bind nofun nofun fun bodyNode _ => ?_
  refine value_bind nofun nofun fun paramNode _ => ?_
  refine value_bind nofun nofun fun handlerNode _ => ?_
  show Reads _ _ (Plan.bind _ (Plan.bind _ (value last)))
  simp only [← Plan.bind_eq, bind_assoc]
  refine value_bind nofun nofun fun lastNode _ => ?_
  exact .done (.inner
    (.tryStatement bodyNode (some paramNode) (some handlerNode) (some lastNode)) trivial)

/-- Behind a `finally` clause nothing is read. -/
theorem tryFinally_reads (body : ParseTree) (clause : String) (keyword : Mark "finally")
    (last : ParseTree) (late : List ParseTree) :
    Reads [(.block, body), (.block, last)] (Made source)
      (tryStatement (.node symbol (body :: .node clause [keyword.tree, last] :: late))) := by
  refine value_bind nofun nofun fun bodyNode _ => ?_
  refine value_bind nofun nofun fun lastNode _ => ?_
  exact .done (.inner (.tryStatement bodyNode none none (some lastNode)) trivial)

/-! ## Functions and loops with a header -/

/-- The name, the parameters and the body of a function, with what they are called. -/
theorem functionParts_reads (name parameters body : Option ParseTree) (opening : Mark "(")
    (closing : Mark ")") (last : Mark "\x7d") (tree : ParseTree)
    (htree : tree.children =
      name.toList ++ opening.tree :: (parameters.toList ++ closing.tree ::
        (body.toList ++ [last.tree])))
    (hparts : ∀ part ∈ Slot.name.each name.toList ++
      (Slot.parameters.each parameters.toList ++ Slot.body.each body.toList), part.2.Unreserved) :
    Reads (Slot.name.each name.toList ++
        (Slot.parameters.each parameters.toList ++ Slot.body.each body.toList))
      (fun items nodes => items = nodes.1.toList.map .node ++
          (nodes.2.1.toList.map .node ++ nodes.2.2.toList.map .node) ∧
        (nodes.1.isSome = name.isSome ∧ nodes.2.1.isSome = parameters.isSome ∧
          nodes.2.2.isSome = body.isSome) ∧
        (∀ n ∈ nodes.1, Slot.name.Takes n) ∧ (∀ p ∈ nodes.2.1, Slot.parameters.Takes p) ∧
          ∀ b ∈ nodes.2.2, Slot.body.Takes b)
      (functionParts tree) := by
  obtain ⟨hname, hrest⟩ := List.forall_mem_append.mp hparts
  obtain ⟨hparameters, hbody⟩ := List.forall_mem_append.mp hrest
  -- Each part starts behind the mark that ends the one before.
  refine slot_bind [] opening htree (by decide) hname nofun nofun fun nameNode hsome hnameNode => ?_
  refine slot_bind _ closing (by simpa using htree) (by decide) hparameters nofun nofun
    fun paramsNode hparamsSome hparamsNode => ?_
  rw [← List.append_nil (Slot.body.each _)]
  refine slot_bind _ last (by simpa using htree) (by decide) hbody nofun nofun
    fun bodyNode hbodySome hbodyNode => ?_
  exact .done ⟨by simp, ⟨hsome, hparamsSome, hbodySome⟩, hnameNode, hparamsNode, hbodyNode⟩

theorem nameOf_eq {tree : ParseTree} {node : Node} {name : String}
    (h : node.literalName? = some name) : nameOf tree node = .ok name := by
  rw [nameOf, h]

theorem nameOf_mapM_eq {tree : ParseTree} {nodes : List Node} {names : List String}
    (h : nodes.map Node.literalName? = names.map some) :
    nodes.mapM (nameOf tree) = .ok names := by
  induction nodes generalizing names with
  | nil =>
    cases names with
    | nil => rfl
    | cons => exact nomatch h
  | cons node nodes ih =>
    cases names with
    | nil => exact nomatch h
    | cons name names =>
      obtain ⟨hname, hnames⟩ := List.cons.inj h
      rw [List.mapM_cons, nameOf_eq hname, ih hnames]
      rfl

/-- The name part of a function is called something. -/
theorem exists_name {part : Option Node} (h : ∀ node ∈ part, Slot.name.Takes node) :
    ∃ name : Option (Node × String), part = name.map Prod.fst ∧
      (∀ n ∈ name, n.1.literalName? = some n.2) ∧
      ∀ tree, part.mapM (nameOf tree) = .ok (name.map Prod.snd) := by
  cases part with
  | none => exact ⟨none, rfl, nofun, fun _ => rfl⟩
  | some node =>
    obtain ⟨name, hname⟩ := Option.isSome_iff_exists.mp (h node rfl)
    refine ⟨some (node, name), rfl, fun n hn => Option.some.inj hn ▸ hname, fun tree => ?_⟩
    rw [Option.mapM_some, nameOf_eq hname]
    rfl

/-- The parameters of a function are called something. -/
theorem exists_params {part : Option Node} (h : ∀ node ∈ part, Slot.parameters.Takes node) :
    ∃ params : Option (Node × List String), part = params.map Prod.fst ∧
      (∀ p ∈ params, p.1.Lists p.2) ∧
      ∀ tree, parameterNames tree part = .ok ((params.map Prod.snd).getD []) := by
  cases part with
  | none => exact ⟨none, rfl, nofun, fun _ => rfl⟩
  | some node =>
    obtain ⟨names, nodes, hkind, hnames⟩ := h node rfl
    refine ⟨some (node, names), rfl, fun p hp => Option.some.inj hp ▸ ⟨nodes, hkind, hnames⟩,
      fun tree => ?_⟩
    simp only [parameterNames, hkind]
    exact nameOf_mapM_eq hnames

theorem functionExpression_reads (name parameters body : Option ParseTree) (opening : Mark "(")
    (closing : Mark ")") (last : Mark "\x7d") {tree : ParseTree}
    (htree : tree.children =
      name.toList ++ opening.tree :: (parameters.toList ++ closing.tree ::
        (body.toList ++ [last.tree])))
    (hparts : ∀ part ∈ Slot.name.each name.toList ++
      (Slot.parameters.each parameters.toList ++ Slot.body.each body.toList), part.2.Unreserved) :
    Reads (Slot.name.each name.toList ++
        (Slot.parameters.each parameters.toList ++ Slot.body.each body.toList)) (Made source)
      (functionExpression tree) := by
  rw [← List.append_nil (_ ++ _)]
  refine (functionParts_reads name parameters body opening closing last tree htree hparts).bind
    fun items ⟨nameNode, paramsNode, bodyNode⟩ ⟨hcontents, _, hnameNode, hparamsNode, _⟩ => ?_
  obtain ⟨name, rfl, hname, hnameOf⟩ := exists_name hnameNode
  obtain ⟨params, rfl, hparams, hparameterNames⟩ := exists_params hparamsNode
  subst hcontents
  simp only [hnameOf, hparameterNames]
  refine .done ?_
  rw [List.append_nil]
  exact .function hname hparams

theorem regularFor_reads (opening : ParseTree) (setup condition update : Option ParseTree)
    (behindSetup behindCondition : Mark ";") (closing : Mark ")") (body tree : ParseTree)
    (htree : tree.children = opening :: (setup.toList ++ behindSetup.tree ::
      (condition.toList ++ behindCondition.tree :: (update.toList ++ [closing.tree, body]))))
    (hparts : ∀ part ∈ Slot.header.each setup.toList ++ (Slot.expression.each condition.toList ++
      (Slot.expression.each update.toList ++ [(.statement, body)])), part.2.Unreserved) :
    Reads (Slot.header.each setup.toList ++ (Slot.expression.each condition.toList ++
        (Slot.expression.each update.toList ++ [(.statement, body)]))) (Made source)
      (regularFor tree) := by
  obtain ⟨hsetup, hrest⟩ := List.forall_mem_append.mp hparts
  obtain ⟨hcondition, hrest⟩ := List.forall_mem_append.mp hrest
  obtain ⟨hupdate, hbody⟩ := List.forall_mem_append.mp hrest
  refine slot_bind [opening] behindSetup htree (by decide) hsetup nofun nofun
    fun setupNode _ _ => ?_
  refine slot_bind _ behindCondition (by simpa using htree) (by decide) hcondition nofun nofun
    fun conditionNode _ _ => ?_
  refine slot_bind _ closing (by simpa using htree) (by decide) hupdate nofun nofun
    fun updateNode _ _ => ?_
  refine slot_bind_some (by simp [ParseTree.child?, htree]) (hbody _ (.head _)) nofun nofun
    fun bodyNode _ => .done ?_
  have hloop (condition : Node) : Made source
      (setupNode.toList.map .node ++ .node condition :: (updateNode.toList.map .node ++
        [.node bodyNode]))
      (nodeAt tree (.forLoop setupNode condition updateNode bodyNode)) := by
    simpa [nodeAt, Kind.contents, Kind.children] using
      Made.inner (.forLoop setupNode condition updateNode bodyNode) trivial
  -- A loop without a condition has the condition `true`, which nothing was read for.
  cases conditionNode with
  | none => exact (hloop _).fill _ (.inner (.boolean true) trivial)
  | some condition => exact hloop condition

end Production

/-! ## All shapes -/

/-- The answer to the visit of a tree of the symbol: a node put together from the items, such as
any slot for the symbol takes. -/
def Symbol.Answers (source : String) (symbol : Symbol) (items : List Item)
    (answer : Option Node) : Prop :=
  ∃ node, answer = some node ∧ Made source items node ∧
    ∀ slot : Slot, slot.admits symbol → slot.Takes node

/-- Names, lists of parameters, bodies and literals: what slots ask more of than that it is a
node. -/
def Symbol.isSpecial (symbol : Symbol) : Bool :=
  symbol = identifierName || symbol = formalParameterList || symbol = sourceElements ||
    symbol.isLiteral

theorem Slot.takes_of_admits {slot : Slot} {symbol : Symbol} (hadmits : slot.admits symbol)
    (hsymbol : symbol.isSpecial = false) (node : Node) : slot.Takes node := by
  cases slot with
  | name | parameters | body =>
    rw [of_decide_eq_true hadmits] at hsymbol
    exact nomatch hsymbol
  | literal =>
    simp only [admits] at hadmits
    simp [Symbol.isSpecial, hadmits] at hsymbol
  | _ => trivial

theorem Slot.takes_literal {slot : Slot} {symbol : Symbol} (hadmits : slot.admits symbol)
    (hsymbol : symbol.isLiteral) {node : Node} (hnode : node.kind.IsLiteral) : slot.Takes node := by
  cases slot with
  | name | parameters | body =>
    rw [of_decide_eq_true hadmits] at hsymbol
    exact nomatch hsymbol
  | literal => exact hnode
  | _ => trivial

namespace Conforms

variable {g : Dialect} {tree : ParseTree}

theorem isTerminal_body (h : Conforms g .body tree) : tree.isTerminal = false := by
  cases h with
  | token _ hadmits htoken =>
    rw [of_decide_eq_true hadmits] at htoken
    exact nomatch htoken
  | node => rfl

theorem symbol_literal (h : Conforms g .literal tree) :
    tree.symbol ≠ Symbol.identifierName.name := by
  obtain ⟨symbol, hsymbol, hadmits⟩ := h.admits
  intro hname
  have := Symbol.ofName?_name symbol
  rw [← hsymbol, hname, Symbol.ofName?_name] at this
  cases this
  exact nomatch hadmits

end Conforms

namespace Plan.Reads

variable {source : String} {symbol : Symbol} {parts : List Part} {plan : Plan Node}

theorem answers_of (h : Reads parts (fun items node => Made source items node ∧
    ∀ slot : Slot, slot.admits symbol → slot.Takes node) plan) :
    Reads parts (symbol.Answers source) (Symbol.plan.node plan) := by
  rw [← List.append_nil parts]
  refine h.bind fun items node hnode => .done ?_
  rw [List.append_nil]
  exact ⟨node, rfl, hnode⟩

theorem answers (h : Reads parts (Made source) plan) (hsymbol : symbol.isSpecial = false) :
    Reads parts (symbol.Answers source) (Symbol.plan.node plan) :=
  answers_of (h.mono fun _ node hmade =>
    ⟨hmade, fun _ hadmits => Slot.takes_of_admits hadmits hsymbol node⟩)

end Plan.Reads

/-- Names, bodies and declarations look at the frames. -/
def Symbol.isScoped (symbol : Symbol) : Bool :=
  symbol = sourceElements || symbol = functionDeclaration || symbol.isDeclaration

theorem Symbol.isScoped_of_isDeclaration {symbol : Symbol} (h : symbol.isDeclaration) :
    symbol.isScoped := by
  simp [isScoped, h]

theorem Symbol.plan_of_isDeclaration {symbol : Symbol} (h : symbol.isDeclaration) (source : String)
    (tree : ParseTree) :
    symbol.plan source tree = Symbol.plan.node (Production.variableDeclaration tree) := by
  cases symbol <;> first | exact absurd h Bool.false_ne_true | rfl

/-- The shapes of trees that look at the frames. -/
inductive Shape.Scoped (g : Dialect) : Symbol → List ParseTree → List Part → Prop
  | body (items : List ParseTree) : Scoped g .sourceElements items (Slot.item.each items)
  | function {children : List ParseTree} {parts : List Part} :
      Shape g .functionDeclaration children parts → Scoped g .functionDeclaration children parts
  | declaration {symbol : Symbol} (name : ParseTree) (init : Option ParseTree) :
      symbol.isDeclaration →
      Scoped g symbol (name :: init.toList) ((.name, name) :: Slot.expression.each init.toList)

theorem Shape.scoped {g : Dialect} {symbol : Symbol} {children : List ParseTree}
    {parts : List Part} (h : Shape g symbol children parts) (hsymbol : symbol.isScoped) :
    Shape.Scoped g symbol children parts := by
  cases h with
  | sourceElements => exact .body _
  | functionDeclaration name opening parameters closing body last hallowed =>
    exact .function (.functionDeclaration name opening parameters closing body last hallowed)
  | declaration name init hdeclaration => exact .declaration name init hdeclaration
  | declarations _ h | regularFor _ _ _ _ _ _ _ _ h | inFor _ _ _ _ h | jump _ h | operation _ h
    | assignment _ _ _ h =>
    cases symbol <;> first
      | exact absurd h Bool.false_ne_true
      | exact absurd hsymbol Bool.false_ne_true
  | _ => exact absurd hsymbol Bool.false_ne_true

open Production Plan.Reads in
/-- **Every shape is read.**  The plan of a symbol takes in the parts of any shape the symbol has
and answers with a node put together from them. -/
theorem Shape.reads {g : Dialect} {symbol : Symbol} {children : List ParseTree}
    {parts : List Part} (h : Shape g symbol children parts) (source : String)
    (hparts : ∀ part ∈ parts, Conforms g part.1 part.2 ∧ part.2.Unreserved)
    (hsymbol : symbol.isScoped = false) :
    Plan.Reads parts (symbol.Answers source) (symbol.plan source (.node symbol.name children)) := by
  cases h with
  | sourceElements => exact nomatch hsymbol
  | functionDeclaration => exact nomatch hsymbol
  | declaration _ _ h =>
    rw [Symbol.isScoped_of_isDeclaration h] at hsymbol
    cases hsymbol
  | emptyProgram => exact answers (emptyProgram_reads rfl) rfl
  | endOfFile => exact answers (emptyProgram_reads rfl) rfl
  | program body =>
    exact answers (program_reads body (hparts _ (.head _)).1.isTerminal_body) rfl
  | functionExpression name opening parameters closing body last =>
    exact answers (functionExpression_reads name parameters body opening closing last rfl
      fun part hpart => (hparts part hpart).2) rfl
  | formalParameterList =>
    refine answers_of ((@formalParameterList_reads source _ _).mono fun items node hnode => ?_)
    refine ⟨hnode.1, fun slot hadmits => ?_⟩
    cases slot with
    | parameters => exact hnode.2
    | name | body | literal => exact nomatch hadmits
    | _ => trivial
  | variableStatement list => exact answers (variableStatement_reads list) rfl
  | declarations _ h =>
    cases symbol <;> first
      | exact absurd h Bool.false_ne_true
      | exact answers (variableDeclarationList_reads _) rfl
  | expressionStatement expression => exact answers (expressionStatement_reads expression) rfl
  | emptyStatement => exact answers (emptyStatement_reads _) rfl
  | block opening items => exact answers (block_reads opening.tree items) rfl
  | ifStatement condition thenBranch elseBranch =>
    exact answers (ifStatement_reads condition thenBranch elseBranch) rfl
  | iterationStatement loop => exact answers (iterationStatement_reads loop) rfl
  | whileLoop keyword condition body => exact answers (whileLoop_reads keyword condition body) rfl
  | doLoop keyword body condition => exact answers (doLoop_reads keyword body condition) rfl
  | regularFor opening setup behindSetup condition behindCondition update closing body h =>
    have hreads := @regularFor_reads source opening.tree setup condition update behindSetup
      behindCondition closing body (.node symbol.name _) rfl fun part hpart => (hparts part hpart).2
    cases symbol <;> first | exact absurd h Bool.false_ne_true | exact answers hreads rfl
  | inFor opening target iterable body h =>
    cases symbol <;> first
      | exact absurd h Bool.false_ne_true
      | exact answers (inFor_reads opening target iterable body) rfl
      | exact answers (inVarFor_reads opening target iterable body) rfl
  | jump label h =>
    cases symbol <;> first
      | exact absurd h Bool.false_ne_true
      | exact answers (label_reads label (f := .breakStatement) (fun _ => ⟨trivial, rfl⟩) _) rfl
      | exact answers (label_reads label (f := .continueStatement) (fun _ => ⟨trivial, rfl⟩) _) rfl
  | returnStatement value => exact answers (returnStatement_reads value) rfl
  | withStatement object body => exact answers (withStatement_reads object body) rfl
  | throwStatement value => exact answers (throwStatement_reads value) rfl
  | tryCatch body clause keyword param handler =>
    exact answers (tryCatch_reads body clause keyword param handler) rfl
  | tryCatchFinally body clause keyword param handler lastClause lastKeyword last =>
    exact answers (tryCatchFinally_reads body clause keyword param handler lastClause
      lastKeyword.tree last) rfl
  | tryFinally body clause keyword last =>
    exact answers (tryFinally_reads body clause keyword last []) rfl
  | tryFinallyTwice body clause keyword last =>
    exact answers (tryFinally_reads body clause keyword last _) rfl
  | operation head h hlinks =>
    cases symbol <;> first
      | exact absurd h Bool.false_ne_true
      | exact answers (chainFromHead_reads hlinks head) rfl
  | callExpression callee hlinks => exact answers (chainFromHead_reads hlinks callee) rfl
  | memberExpression object hlinks =>
    exact answers (memberExpression_reads hlinks (hparts _ (.head _)).2) rfl
  | newMemberExpression keyword callee hlinks =>
    exact answers (newMemberExpression_reads hlinks keyword callee) rfl
  | assignment target mark value h hop =>
    cases symbol <;> first
      | exact absurd h Bool.false_ne_true
      | exact answers (assignmentExpression_reads hop target mark value) rfl
  | conditionalExpression condition mark thenBranch elseBranch =>
    exact answers (conditionalExpression_reads condition mark thenBranch elseBranch) rfl
  | unaryExpression op mark operand => exact answers (unaryExpression_reads op mark operand) rfl
  | updateBefore mark operand hop => exact answers (updateBefore_reads hop mark operand) rfl
  | updateBehind operand mark hop => exact answers (updateBehind_reads hop operand mark) rfl
  | operandAlone operand => exact answers (operandAlone_reads operand) rfl
  | newExpression keyword callee => exact answers (newExpression_reads keyword callee) rfl
  | arguments opening values => exact answers (arguments_reads opening.tree values) rfl
  | arrayLiteral opening items => exact answers (arrayLiteral_reads opening.tree items) rfl
  | objectLiteral opening properties =>
    exact answers (objectLiteral_reads opening.tree properties) rfl
  | namedProperty key value => exact answers (namedProperty_reads key value) rfl
  | literalProperty key value =>
    exact answers (literalProperty_reads (hparts _ (.head _)).1.symbol_literal value) rfl
  | primaryExpression => exact answers (primaryExpression_reads _) rfl
  | nullLiteral keyword =>
    exact answers_of ((keywordLiteral_reads keyword (by decide)).mono fun _ _ hnode =>
      ⟨hnode.1, fun _ hadmits => Slot.takes_literal hadmits rfl hnode.2⟩)
  | trueLiteral keyword =>
    exact answers_of ((keywordLiteral_reads keyword (by decide)).mono fun _ _ hnode =>
      ⟨hnode.1, fun _ hadmits => Slot.takes_literal hadmits rfl hnode.2⟩)
  | falseLiteral keyword =>
    exact answers_of ((keywordLiteral_reads keyword (by decide)).mono fun _ _ hnode =>
      ⟨hnode.1, fun _ hadmits => Slot.takes_literal hadmits rfl hnode.2⟩)

end ScriptAst
