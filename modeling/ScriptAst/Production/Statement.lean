import ScriptAst.Production.Expression

/-!
# Statements

The plans for bodies, functions, declarations and statements.  A body opens a frame for as long as
its statements are visited and takes its declarations from it.
-/
namespace ScriptAst.Production

/-! ### Bodies -/

/-- A program; one without statements has no body below it, or only a token. -/
def program (sourceName : String) (tree : ParseTree) : Plan Node := do
  match (tree.child? 0).filter (fun first => !first.isTerminal) with
  | some body => return nodeAt tree (.program (← value body))
  | none => return nodeAt tree (.program (nodeAt tree (.sourceElements ⟨[], [], [], sourceName⟩)))

/-- The statements of a program or a function, with what they declare. -/
def sourceElements (sourceName : String) (tree : ParseTree) : Plan Node :=
  .body tree.children fun statements frame =>
    match frame with
    | some frame =>
      .done (nodeAt tree (.sourceElements ⟨frame.vars, frame.funcs, statements, sourceName⟩))
    | none => malformed tree .frameClosed

/-! ### Functions -/

/-- The name, the parameters and the body of a function, each of which may be absent. -/
def functionParts (tree : ParseTree) : Plan (Option Node × Option Node × Option Node) := do
  let (name, i) ← slot tree 0
  let (parameters, i) ← slot tree i
  let (body, _) ← slot tree i
  return (name, parameters, body)

/-- The names in a list of parameters. -/
def parameterNames (tree : ParseTree) : Option Node → Except BuildError (List String)
  | none => .ok []
  | some list =>
    match list.kind with
    | .argumentList items => items.mapM (nameOf tree)
    | _ => .error (.malformed tree.symbol list.pos .expectedParameterList)

/-- A function as a value. -/
def functionExpression (tree : ParseTree) : Plan Node := do
  let (identifier, parameters, body) ← functionParts tree
  let name ← Plan.ofExcept (identifier.mapM (nameOf tree))
  let params ← Plan.ofExcept (parameterNames tree parameters)
  return nodeAt tree (.functionStatement ⟨name, params, body⟩)

/-- A function that is declared in the innermost body and has no node where it stands. -/
def functionDeclaration (tree : ParseTree) : Plan (Option Node) := do
  let (identifier, parameters, body) ← functionParts tree
  match identifier with
  | none => malformed tree .unnamedDeclaration
  | some identifier =>
    let name ← Plan.ofExcept (nameOf tree identifier)
    let params ← Plan.ofExcept (parameterNames tree parameters)
    .declareFunc name (nodeAt tree (.functionStatement ⟨some name, params, body⟩)) fun isOpen =>
      if isOpen then .done none else malformed tree .functionOutsideBody

/-! ### Variables -/

/-- A `var` statement. -/
def variableStatement (tree : ParseTree) : Plan Node := do
  return nodeAt tree (.varStatement (← childValue tree 0))

/-- The declarations of a `var` statement. -/
def variableDeclarationList (tree : ParseTree) : Plan Node := do
  return nodeAt tree (.variableDeclList (← values tree.children))

/-- The declaration of one variable.  Its name is built before it is declared and its value after
that. -/
def variableDeclaration (tree : ParseTree) : Plan Node := do
  let target ← childValue tree 0
  let name ← Plan.ofExcept (nameOf tree target)
  .declareVar name fun isOpen =>
    if isOpen then do return nodeAt tree (.variableDeclaration target (← childValue? tree 1))
    else malformed tree .variableOutsideBody

/-! ### Simple statements -/

/-- An expression as a statement. -/
def expressionStatement (tree : ParseTree) : Plan Node := do
  return nodeAt tree (.exprStatement (← childValue tree 0))

/-- A statement that does nothing. -/
def emptyStatement (tree : ParseTree) : Plan Node := .done (nodeAt tree .empty)

/-- Statements behind an opening token. -/
def block (tree : ParseTree) : Plan Node := do
  return nodeAt tree (.block (← values (tree.children.drop 1)))

/-- The end of a function, with its value if there is one. -/
def returnStatement (tree : ParseTree) : Plan Node := do
  return nodeAt tree (.returnStatement (← childValue? tree 0))

/-- An exception. -/
def throwStatement (tree : ParseTree) : Plan Node := do
  return nodeAt tree (.throwStatement (← childValue tree 0))

/-- The label of a jump, as it is written. -/
def label (tree : ParseTree) : Plan (Option String) :=
  match tree.child? 0 with
  | some name => do return some (← text name)
  | none => .done none

/-- The end of a loop. -/
def breakStatement (tree : ParseTree) : Plan Node := do
  return nodeAt tree (.breakStatement (← label tree))

/-- The next turn of a loop. -/
def continueStatement (tree : ParseTree) : Plan Node := do
  return nodeAt tree (.continueStatement (← label tree))

/-- A statement under the names of an object. -/
def withStatement (tree : ParseTree) : Plan Node := do
  let object ← childValue tree 0
  let body ← childValue tree 1
  return nodeAt tree (.withStatement object body)

/-! ### Control flow -/

/-- A choice between two statements, of which the second may be absent. -/
def ifStatement (tree : ParseTree) : Plan Node := do
  let condition ← childValue tree 0
  let thenBranch ← childValue tree 1
  let elseBranch ← childValue? tree 2
  return nodeAt tree (.conditional condition thenBranch elseBranch)

/-- A loop with its condition before or behind the body, as its keyword says. -/
def whiles (tree : ParseTree) : Plan Node := do
  let keyword ← childText tree 0
  if keyword = "while" then
    let condition ← childValue tree 1
    let body ← childValue tree 2
    return nodeAt tree (.whileLoop condition body)
  else if keyword = "do" then
    let body ← childValue tree 1
    let condition ← childValue tree 2
    return nodeAt tree (.doLoop body condition)
  else malformed tree (.unknownLoopKeyword keyword)

/-- A loop with a header of three parts, any of which may be absent; without a condition it goes on
for ever. -/
def regularFor (tree : ParseTree) : Plan Node := do
  let (init, i) ← slot tree 1
  let (condition, i) ← slot tree i
  let (update, i) ← slot tree i
  let (body, _) ← slot tree i
  let condition := condition.getD (nodeAt tree (.boolean true))
  let body := body.getD (nodeAt tree .empty)
  return nodeAt tree (.forLoop init condition update body)

/-- A loop over the keys of an object, which are put under a name. -/
def inFor (tree : ParseTree) : Plan Node := do
  let target ← childValue tree 1
  match target.literalName? with
  | none => .fail (.invalidTarget target.pos .notAName)
  | some name =>
    let iterable ← childValue tree 2
    let body ← childValue tree 3
    return nodeAt tree (.forIn name iterable body)

/-- A loop over the keys of an object, which are put into a variable declared with the loop. -/
def inVarFor (tree : ParseTree) : Plan Node := do
  let target ← childValue tree 1
  let iterable ← childValue tree 2
  let body ← childValue tree 3
  return nodeAt tree (.forVarIn target iterable body)

/-- The block of a clause that stands behind all others, if there is one. -/
def finallyBlock? (tree : ParseTree) : Plan (Option Node) :=
  match tree.child? 2 with
  | some clause => do return some (← childValue clause 1)
  | none => .done none

/-- A block with a clause for exceptions, a clause that is always run, or both in this order. -/
def tryStatement (tree : ParseTree) : Plan Node := do
  let body ← childValue tree 0
  let clause ← child tree 1
  if (← child clause 0).isToken "catch" then
    let param ← childValue clause 1
    let handler ← childValue clause 2
    let last ← finallyBlock? tree
    return nodeAt tree (.tryStatement body (some param) (some handler) last)
  else
    let last ← childValue clause 1
    return nodeAt tree (.tryStatement body none none (some last))

end ScriptAst.Production
