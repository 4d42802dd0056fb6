import ScriptAst.Proofs.Reports

/-! # Errors in words

An error is put in words twice.  `BuildError.message` writes them out, and `BuildError.toDiagnostic`
fills the places of a template, one argument after the other.  What an earlier argument brings along
is filled by a later one, so the two differ when the symbol of a malformed node reads like the place
of the defect (`renderings_agree`).  Nothing keeps such a symbol out: the parts of a tree that are
not dispatched may have any.

In all other errors the texts are the same.  A fault of a target has the words of its message, and a
symbol that is nested too deep is one of the grammar, none of which has a brace.
-/
namespace ScriptAst

namespace Message

/-! ## Replacing -/

variable {pattern value : List Char}

theorem replaceFrom_cons_pos {c : Char} {text : List Char} (h : pattern <+: c :: text) :
    replaceFrom pattern value 0 (c :: text) =
      value ++ replaceFrom pattern value (pattern.length - 1) text := by
  rw [replaceFrom, if_pos (List.isPrefixOf_iff_prefix.mpr h)]

theorem replaceFrom_cons_neg {c : Char} {text : List Char} (h : ¬ pattern <+: c :: text) :
    replaceFrom pattern value 0 (c :: text) = c :: replaceFrom pattern value 0 text := by
  rw [replaceFrom, if_neg (mt List.isPrefixOf_iff_prefix.mp h)]

/-- A pattern does not go across a character that is not in it. -/
theorem prefix_of_prefix_append {c : Char} (hc : c ∉ pattern) (before after : List Char)
    (h : pattern <+: before ++ c :: after) : pattern <+: before := by
  rcases List.prefix_or_prefix_of_prefix h (List.prefix_append before (c :: after)) with h' | h'
  · exact h'
  · obtain ⟨further, rfl⟩ := h'
    cases further with
    | nil => exact ⟨[], by simp only [List.append_nil]⟩
    | cons d further =>
      obtain ⟨rfl, _⟩ := List.cons_prefix_cons.mp ((List.prefix_append_right_inj before).mp h)
      exact absurd (List.mem_append_right before (.head _)) hc

/-- Text is replaced apart on the two sides of a character that is not in the pattern. -/
theorem replaceFrom_append_cons (hne : pattern ≠ []) {c : Char} (hc : c ∉ pattern)
    (before after : List Char) {skip : Nat} (hskip : skip ≤ before.length) :
    replaceFrom pattern value skip (before ++ c :: after) =
      replaceFrom pattern value skip before ++ c :: replaceFrom pattern value 0 after := by
  induction before generalizing skip with
  | nil =>
    obtain rfl : skip = 0 := Nat.le_zero.mp hskip
    apply replaceFrom_cons_neg
    intro h
    exact hne (List.prefix_nil.mp (prefix_of_prefix_append hc [] after h))
  | cons d before ih =>
    cases skip with
    | succ skip => exact ih (Nat.le_of_succ_le_succ hskip)
    | zero =>
      by_cases h : pattern <+: d :: before
      · have hlength : pattern.length - 1 ≤ before.length := Nat.sub_le_of_le_add h.length_le
        have hlonger : pattern <+: d :: (before ++ c :: after) :=
          h.trans (List.prefix_append (d :: before) (c :: after))
        rw [List.cons_append, replaceFrom_cons_pos hlonger, replaceFrom_cons_pos h, ih hlength,
          List.append_assoc]
      · have hlonger : ¬ pattern <+: d :: (before ++ c :: after) :=
          fun hp => h (prefix_of_prefix_append hc (d :: before) after hp)
        rw [List.cons_append, replaceFrom_cons_neg hlonger, replaceFrom_cons_neg h,
          ih (Nat.zero_le _), List.cons_append]

/-- Where the pattern does not occur nothing is replaced. -/
theorem replaceFrom_of_not_infix {text : List Char} (h : ¬ pattern <:+: text) :
    replaceFrom pattern value 0 text = text := by
  induction text with
  | nil => rfl
  | cons c text ih =>
    rw [replaceFrom_cons_neg (fun hp => h hp.isInfix),
      ih (fun hp => h (List.infix_cons hp))]

theorem length_le_length_replaceFrom (hne : pattern ≠ []) (h : pattern.length ≤ value.length)
    (skip : Nat) (text : List Char) :
    text.length ≤ (replaceFrom pattern value skip text).length + skip := by
  have hpos : 0 < pattern.length := List.length_pos_iff.mpr hne
  induction text generalizing skip with
  | nil => exact Nat.zero_le _
  | cons c text ih =>
    cases skip with
    | succ skip => exact Nat.succ_le_succ (ih skip)
    | zero =>
      by_cases hp : pattern <+: c :: text
      · have := ih (pattern.length - 1)
        rw [replaceFrom_cons_pos hp, List.length_append, List.length_cons]
        omega
      · rw [replaceFrom_cons_neg hp]
        exact Nat.succ_le_succ (ih 0)

/-- Text grows where a pattern is replaced by something longer. -/
theorem length_lt_length_replaceFrom (hne : pattern ≠ []) (h : pattern.length < value.length)
    {text : List Char} (hp : pattern <:+: text) :
    text.length < (replaceFrom pattern value 0 text).length := by
  have hpos : 0 < pattern.length := List.length_pos_iff.mpr hne
  induction text with
  | nil => exact absurd (List.infix_nil.mp hp) hne
  | cons c text ih =>
    by_cases hprefix : pattern <+: c :: text
    · have := length_le_length_replaceFrom hne (Nat.le_of_lt h) (pattern.length - 1) text
      rw [replaceFrom_cons_pos hprefix, List.length_append, List.length_cons]
      omega
    · rw [replaceFrom_cons_neg hprefix]
      exact Nat.succ_lt_succ (ih ((List.infix_cons_iff.mp hp).resolve_left hprefix))

/-- Replacing a pattern by something longer leaves just those texts alone in which it does not
occur. -/
theorem replaceFrom_eq_self_iff (hne : pattern ≠ []) (h : pattern.length < value.length)
    (text : List Char) : replaceFrom pattern value 0 text = text ↔ ¬ pattern <:+: text := by
  constructor
  · intro hsame hp
    have hgrown := length_lt_length_replaceFrom hne h hp
    rw [hsame] at hgrown
    exact Nat.lt_irrefl _ hgrown
  · exact replaceFrom_of_not_infix

/-! ## Filling -/

/-- What stands between quotes in a template is filled apart from the rest. -/
theorem replaceFrom_quoted (argument symbol before after : List Char) :
    replaceFrom (place 1) argument 0 (before ++ '\'' :: (symbol ++ '\'' :: after)) =
      replaceFrom (place 1) argument 0 before ++ '\'' ::
        (replaceFrom (place 1) argument 0 symbol ++ '\'' ::
          replaceFrom (place 1) argument 0 after) := by
  have hne : place 1 ≠ [] := List.cons_ne_nil _ _
  have hquote : '\'' ∉ place 1 := by decide
  rw [replaceFrom_append_cons hne hquote _ _ (Nat.zero_le _),
    replaceFrom_append_cons hne hquote _ _ (Nat.zero_le _)]

/-- The symbol as it is in a filled template: the second argument stands in all places for it. -/
def refilled (symbol argument : String) : String :=
  String.ofList (replaceFrom (place 1) argument.toList 0 symbol.toList)

theorem refilled_of_not_infix {symbol : String} (h : ¬ place 1 <:+: symbol.toList)
    (argument : String) : refilled symbol argument = symbol := by
  rw [refilled, replaceFrom_of_not_infix h, String.ofList_toList]

/-- If the argument is longer than the place for it, only symbols without one stay as they are. -/
theorem refilled_eq_self_iff {argument : String} (h : 3 < argument.length) (symbol : String) :
    refilled symbol argument = symbol ↔ ¬ place 1 <:+: symbol.toList := by
  have hne : place 1 ≠ [] := List.cons_ne_nil _ _
  have hlonger : (place 1).length < argument.toList.length := by rwa [String.length_toList]
  rw [← replaceFrom_eq_self_iff hne hlonger, refilled, ← String.toList_inj, String.toList_ofList]

theorem fill_unknownSymbol (symbol : String) :
    fill unknownSymbol.template [symbol] =
      "no handler registered for grammar symbol '" ++ symbol ++ "'" := by
  apply String.toList_injective
  rw [fill, String.toList_ofList, String.toList_append, String.toList_append]
  rfl

theorem fill_nestingTooDeep (symbol argument : String) :
    fill nestingTooDeep.template [symbol, argument] =
      "'" ++ refilled symbol argument ++ "' is nested more than " ++ argument ++
        " levels deep" := by
  have hfirst : replaceFrom (place 0) symbol.toList 0 nestingTooDeep.template.toList =
      [] ++ '\'' :: (symbol.toList ++
        '\'' :: " is nested more than \x7b1\x7d levels deep".toList) := rfl
  apply String.toList_injective
  rw [fill, String.toList_ofList, fillFrom, fillFrom, fillFrom, hfirst, replaceFrom_quoted]
  simp only [String.toList_append, refilled, String.toList_ofList, List.append_assoc]
  rfl

theorem fill_malformedNode (symbol argument : String) :
    fill malformedNode.template [symbol, argument] =
      "malformed '" ++ refilled symbol argument ++ "' node: " ++ argument := by
  have hfirst : replaceFrom (place 0) symbol.toList 0 malformedNode.template.toList =
      "malformed ".toList ++ '\'' :: (symbol.toList ++ '\'' :: " node: \x7b1\x7d".toList) := rfl
  apply String.toList_injective
  rw [fill, String.toList_ofList, fillFrom, fillFrom, fillFrom, hfirst, replaceFrom_quoted]
  simp only [String.toList_append, refilled, String.toList_ofList, List.append_assoc]
  have hafter : replaceFrom (place 1) argument.toList 0 " node: \x7b1\x7d".toList =
      " node: ".toList ++ (argument.toList ++ []) := rfl
  rw [hafter, List.append_nil]
  rfl

end Message

/-! ## Errors -/

/-- No symbol of the grammar has a brace in its name. -/
theorem Symbol.place_not_infix (symbol : Symbol) :
    ¬ Message.place 1 <:+: symbol.name.toList := by
  intro h
  have hbrace : '\x7b' ∈ symbol.name.toList := h.mem (.head _)
  revert hbrace
  cases symbol <;> decide

theorem Defect.length_append_left {a : String} (h : 3 < a.length) (b : String) :
    3 < (a ++ b).length := by
  rw [String.length_append]
  exact Nat.lt_add_right b.length h

/-- The words for a defect that occurs are longer than a place in a template. -/
theorem Defect.Occurs.length_text {defect : Defect} (h : defect.Occurs) :
    3 < defect.text.length := by
  cases defect with
  | frameClosed | described => exact h.elim
  | notAnInteger text radix =>
    -- These words begin with what was found, so it is the end that makes them long enough.
    show 3 < (_ ++ " integer").length
    rw [String.length_append]
    exact Nat.lt_add_left _ (by decide)
  | missingChild | unknownLiteral | unknownLoopKeyword | unknownBinaryOperator
  | unknownUnaryOperator | unknownPostfixOperator | unknownAssignmentOperator | expectedOperator =>
    exact Defect.length_append_left (by decide) _
  | expectedToken | declarationAsValue | expectedName | expectedParameterList | unnamedDeclaration
  | functionOutsideBody | variableOutsideBody => decide

@[simp] theorem Diagnostic.text_located (sourceName : String) (pos : Position) (message : Message)
    (args : List String) :
    (located sourceName pos message args).text = Message.fill message.template args := rfl

namespace BuildError

/-- The error names a node whose symbol reads like a place in a template. -/
def NamesPlace : BuildError → Prop
  | malformed symbol _ _ => Message.place 1 <:+: symbol.toList
  | _ => False

theorem toDiagnostic_located (sourceName : String) (error : BuildError) :
    ∃ message args, error.toDiagnostic sourceName =
      .located sourceName error.position message args := by
  cases error with
  | invalidTarget | nestingTooDeep | unknownSymbol | malformed => exact ⟨_, _, rfl⟩

/-- A diagnostic is about the program just when the parse tree is not at fault. -/
theorem isError_toDiagnostic (sourceName : String) (error : BuildError) :
    (error.toDiagnostic sourceName).isError = !error.isInternal := by
  cases error with
  | invalidTarget pos fault =>
    by_cases h : fault.text = Message.invalidForInTarget.template
    · rw [toDiagnostic, if_pos h]
      rfl
    · rw [toDiagnostic, if_neg h]
      rfl
  | nestingTooDeep | unknownSymbol | malformed => rfl

/-- **The words of a diagnostic** are those of the error, unless the error names a node whose symbol
reads like a place. -/
theorem Reported.text_toDiagnostic_iff {error : BuildError} {tree : ParseTree} {levels : Nat}
    (h : error.Reported tree levels) (sourceName : String) :
    (error.toDiagnostic sourceName).text = error.message ↔ ¬ error.NamesPlace := by
  cases h with
  | @unknownSymbol _ part =>
    refine iff_of_true ?_ not_false
    exact Message.fill_unknownSymbol part.symbol
  | @nestingTooDeep _ part symbol _ _ hsymbol =>
    refine iff_of_true ?_ not_false
    have hplain : Message.refilled part.symbol (toString maxNesting) = part.symbol := by
      rw [← Symbol.name_of_ofName? hsymbol]
      exact Message.refilled_of_not_infix symbol.place_not_infix _
    have hfill := Message.fill_nestingTooDeep part.symbol (toString maxNesting)
    rw [hplain] at hfill
    exact hfill
  | found hfound =>
    cases hfound with
    | @malformed _ defect symbol _ hdefect =>
      show _ = "malformed '" ++ symbol ++ "' node: " ++ defect.text ↔
        ¬ Message.place 1 <:+: symbol.toList
      rw [toDiagnostic, Diagnostic.text_located, Message.fill_malformedNode,
        ← Message.refilled_eq_self_iff hdefect.length_text]
      simp only [String.append_left_inj, String.append_right_inj]
    | @invalidTarget _ fault _ hfault =>
      refine iff_of_true ?_ not_false
      cases fault with
      | described => exact hfault.elim
      | notAssignable | notAName => rfl

end BuildError

/-- **The two renderings of an error agree** but for places that its symbol brings along: the
diagnostic has the words of the error, is an error of the program if the parse tree is not at fault,
and is about the same place of the named source. -/
theorem renderings_agree {options : Options} {tree : ParseTree} {error : BuildError}
    (h : build options tree = .error error) (sourceName : String) :
    ((error.toDiagnostic sourceName).text = error.message ↔ ¬ error.NamesPlace) ∧
    ((error.toDiagnostic sourceName).isError ↔ ¬ error.isInternal) ∧
    ((error.toDiagnostic sourceName).position =
      if error.position = .unknown then none else some error.position) ∧
    ((error.toDiagnostic sourceName).sourceName =
      if sourceName = "" then none else some sourceName) := by
  obtain ⟨message, args, hlocated⟩ := error.toDiagnostic_located sourceName
  refine ⟨(build_reports h).text_toDiagnostic_iff sourceName, ?_, ?_, ?_⟩
  · rw [BuildError.isError_toDiagnostic]
    simp
  · rw [hlocated]
    simp [Diagnostic.located, Position.isUnknown]
  · rw [hlocated]
    rfl

/-- A `try` statement whose clause bears the given symbol and ends at its word. -/
def brokenTrySample (clause : String) : ParseTree :=
  .node "trystatement" [
    .node "block" [.token "\x7b" "\x7b" ⟨4, 1, 4⟩],
    .node clause [.token "finally" "finally" ⟨8, 1, 8⟩]]

theorem build_brokenTrySample (clause : String) :
    build ⟨"", true⟩ (brokenTrySample clause) =
      .error (.malformed clause ⟨1, 8, 15⟩ (.missingChild 1)) := rfl

/-- A symbol that reads like the place of the first argument does no harm. -/
theorem renderings_agree_brokenTry :
    ∃ error, build ⟨"", true⟩ (brokenTrySample "\x7b0\x7d") = .error error ∧
      (error.toDiagnostic "a.js").text = error.message ∧
      ¬ (error.toDiagnostic "a.js").isError ∧
      (error.toDiagnostic "a.js").position = some ⟨1, 8, 15⟩ ∧
      (error.toDiagnostic "a.js").sourceName = some "a.js" := by
  have hbuild := build_brokenTrySample "\x7b0\x7d"
  have hplain : ¬ Message.place 1 <:+: "\x7b0\x7d".toList := by decide
  obtain ⟨htext, herror, hposition, hsource⟩ := renderings_agree hbuild "a.js"
  refine ⟨_, hbuild, htext.mpr hplain, ?_, hposition, hsource⟩
  rw [herror]
  decide

/-- A symbol that reads like the place of the second argument is lost in the diagnostic. -/
theorem renderings_differ :
    ∃ tree error, build ⟨"", true⟩ tree = .error error ∧
      error.message = "malformed '\x7b1\x7d' node: missing child 1" ∧
      (error.toDiagnostic "a.js").text = "malformed 'missing child 1' node: missing child 1" ∧
      (error.toDiagnostic "a.js").text ≠ error.message := by
  refine ⟨_, _, build_brokenTrySample "\x7b1\x7d", ?_, ?_, ?_⟩
  · decide
  · decide
  · decide

end ScriptAst
