import ScriptAst.Proofs.Binding
import ScriptAst.Proofs.Grammar.Derivation

/-! # Conforming programs are accepted

A program that follows the contract and does not nest too deep is built, unless it writes to what
cannot be written to: no symbol of it is unknown, no node is malformed, and no tree lies too deep.
-/
namespace ScriptAst

/-! ## Integers in a base -/

namespace Literal

/-- The letter that marks the base behind a zero. -/
def IsMark (radix : Nat) (c : Char) : Prop :=
  (radix = 16 ∧ (c = 'x' ∨ c = 'X')) ∨ (radix = 8 ∧ (c = 'o' ∨ c = 'O'))

/-- A mark or none, and then digits of the base, at least one. -/
def IsInteger (radix : Nat) (text : String) : Prop :=
  ∃ mark digits, (mark = [] ∨ ∃ c, mark = ['0', c] ∧ IsMark radix c) ∧ digits ≠ [] ∧
    (∀ c ∈ digits, (digit? radix c).isSome) ∧ text.toList = mark ++ digits

variable {radix : Nat}

/-- No mark is a digit of its base. -/
theorem IsMark.digit?_eq_none {c : Char} (h : IsMark radix c) : digit? radix c = none := by
  rcases h with ⟨rfl, rfl | rfl⟩ | ⟨rfl, rfl | rfl⟩ <;> rfl

theorem unmarked_mark {c : Char} (h : IsMark radix c) (cs : List Char) :
    unmarked radix ('0' :: c :: cs) = cs := if_pos h

theorem unmarked_digits {digits : List Char} (h : ∀ c ∈ digits, (digit? radix c).isSome) :
    unmarked radix digits = digits := by
  unfold unmarked
  split
  · next c cs =>
    refine if_neg fun hmark => ?_
    have hdigit := h c (.tail _ (.head _))
    rw [IsMark.digit?_eq_none hmark] at hdigit
    exact nomatch hdigit
  · rfl

theorem foldlM_shiftIn_isSome {digits : List Char} (h : ∀ c ∈ digits, (digit? radix c).isSome)
    (value : Int64) : (digits.foldlM (shiftIn radix) value).isSome := by
  induction digits generalizing value with
  | nil => rfl
  | cons c digits ih =>
    obtain ⟨hc, hdigits⟩ := List.forall_mem_cons.mp h
    obtain ⟨d, hd⟩ := Option.isSome_iff_exists.mp hc
    rw [List.foldlM_cons, shiftIn, hd]
    exact ih hdigits _

/-- What looks like an integer of the base is one. -/
theorem IsInteger.radix?_isSome {text : String} (h : IsInteger radix text) :
    (radix? text radix).isSome := by
  obtain ⟨mark, digits, hmark, hne, hdigits, htext⟩ := h
  have hunmarked : unmarked radix text.toList = digits := by
    rcases hmark with rfl | ⟨c, rfl, hmark⟩
    · rw [htext]
      exact unmarked_digits hdigits
    · rw [htext]
      exact unmarked_mark hmark digits
  simp only [radix?, hunmarked, if_neg hne]
  exact foldlM_shiftIn_isSome hdigits 0

end Literal

/-! ## The contract -/

/-- The contract to the letter: tokens of integers are integers of their base, functions may be
declared, and nothing follows a `finally` clause. -/
def Dialect.contract : Dialect where
  spelling symbol text := text ∉ reservedTexts ∧
    (symbol = .hexIntegerLiteral → Literal.IsInteger 16 text) ∧
    (symbol = .octalLiteral → Literal.IsInteger 8 text)
  declarations := True
  lateClause := False

theorem Dialect.contract_supported :
    Dialect.contract.Supported fun error => ∃ pos reason, error = .invalidTarget pos reason where
  unreserved h := h.1
  invalidTarget pos reason := ⟨pos, reason, rfl⟩
  literal {symbol text} h htoken hname := by
    refine .inl ?_
    cases symbol with
    | hexIntegerLiteral => exact Option.isSome_map.trans (h.2.1 rfl).radix?_isSome
    | octalLiteral => exact Option.isSome_map.trans (h.2.2 rfl).radix?_isSome
    | identifierName => exact absurd rfl hname
    | decimalLiteral | doubleString | singleString => rfl
    | _ => exact nomatch htoken

/-- **A conforming program is accepted.**  If it follows the contract and no way down its tree is
longer than a thousand trees, it is built, or fails at the target of a write. -/
theorem contract_accepted (options : Options) {tree : ParseTree}
    (h : Conforms .contract .program tree) (hheight : tree.height ≤ 1000) :
    (∃ root, build options tree = .ok root) ∨
      ∃ pos reason, build options tree = .error (.invalidTarget pos reason) := by
  have hbuilds := dispatch_builds Dialect.contract_supported id options maxNesting h.follows nofun
    [] (.inl rfl) (by decide)
  rw [build_eq]
  rw [VisitBuilds] at hbuilds
  generalize dispatch options maxNesting tree [] = outcome at hbuilds ⊢
  obtain ⟨error | answer, scopes⟩ := outcome
  · obtain ⟨pos, reason, rfl⟩ | hroom := hbuilds
    · exact .inr ⟨pos, reason, rfl⟩
    · exact absurd hheight (Nat.not_le_of_lt hroom)
  · obtain ⟨hfits, _⟩ := hbuilds
    cases hfits with
    | node => exact .inl ⟨_, rfl⟩
    | declared hslot => cases hslot

/-- A tree with one part conforms if the part does. -/
theorem Conforms.of_part {g : Dialect} {slot : Slot} {symbol : Symbol} {children : List ParseTree}
    {part : Part} (hadmits : slot.admits symbol) (hshape : Shape g symbol children [part])
    (h : Conforms g part.1 part.2) : Conforms g slot (.node symbol.name children) :=
  .node hadmits hshape (List.forall_mem_singleton.mpr h)

theorem closureSample_conforms {g : Dialect} (h : g.spelling .identifierName "x") :
    Conforms g .program closureSample := by
  have hname (slot : Slot) (hslot : slot.admits .identifierName) (pos : SourcePos) :
      Conforms g slot (.token Symbol.identifierName.name "x" pos) := .token pos hslot rfl h
  have hdeclaration : Conforms g .declaration (.node Symbol.variableDeclaration.name [_]) :=
    .of_part rfl (.declaration _ none rfl) (hname _ rfl ⟨4, 1, 4⟩)
  have hdeclarations : Conforms g .declarations (.node Symbol.variableDeclarationList.name [_]) :=
    .of_part rfl (.declarations [_] rfl) hdeclaration
  have hvar : Conforms g .item (.node Symbol.variableStatement.name [_]) :=
    .of_part rfl (.variableStatement _) hdeclarations
  have huse : Conforms g .item (.node Symbol.expressionStatement.name [_]) :=
    .of_part rfl (.expressionStatement _) (hname _ rfl ⟨22, 1, 22⟩)
  have hinner : Conforms g .body (.node Symbol.sourceElements.name [_]) :=
    .of_part rfl (.sourceElements [_]) huse
  have hfunction : Conforms g .expression (.node Symbol.functionExpression.name _) :=
    .of_part rfl (.functionExpression none ⟨"(", 17, 1, 17⟩ none ⟨")", 18, 1, 18⟩ (some _)
      ⟨"\x7d", 25, 1, 25⟩) hinner
  have hstatement : Conforms g .item (.node Symbol.expressionStatement.name [_]) :=
    .of_part rfl (.expressionStatement _) hfunction
  have hbody : Conforms g .body (.node Symbol.sourceElements.name [_, _]) :=
    .node rfl (.sourceElements [_, _]) (List.forall_mem_cons.mpr
      ⟨hvar, List.forall_mem_singleton.mpr hstatement⟩)
  exact .of_part rfl (.program _) hbody

theorem contract_accepted_closure :
    Conforms .contract .program closureSample ∧ closureSample.height ≤ 1000 ∧
      ((∃ root, build ⟨"", true⟩ closureSample = .ok root) ∨
        ∃ pos reason, build ⟨"", true⟩ closureSample = .error (.invalidTarget pos reason)) := by
  have hconforms : Conforms .contract .program closureSample :=
    closureSample_conforms ⟨by decide, nofun, nofun⟩
  exact ⟨hconforms, by decide, contract_accepted _ hconforms (by decide)⟩

end ScriptAst
