import ScriptAst.Proofs.Printing.Quotes

/-! # Reading an S-expression back

Different S-expressions have different texts (`SExpr.render_injective`), if their atoms are plain.
A string is the exception, and is known by its heading: its list holds one atom, between quotes.

An expression is followed by the end of the text, or by a space or a bracket, and an atom stops
there.  So the induction is on an expression together with what follows it (`SExpr.charsThen_inj`).
-/
namespace ScriptAst.SExpr

/-- The expression can be read back: its atoms are plain, or they are strings in quotes. -/
inductive Legible : SExpr → Prop
  | atom {text : String} : Plain text → Legible (.atom text)
  | string {head value : String} : Plain head → Node.headName head = "String".toList →
      Legible (.list head [.atom (quoted value)])
  | list {head : String} {items : List SExpr} : Plain head →
      Node.headName head ≠ "String".toList → (∀ item ∈ items, Legible item) →
      Legible (.list head items)

theorem Legible.plain_head {head : String} {items : List SExpr} (h : Legible (.list head items)) :
    Plain head := by
  cases h with
  | string hhead => exact hhead
  | list hhead => exact hhead

/-- Items are led in by a space and followed by a bracket. -/
theorem stops_itemsThen (rest : List Char) (items : List SExpr) :
    Stops isPlainChar (itemsThen (')' :: rest) items) := by
  cases items with
  | nil => exact stops_cons rfl _
  | cons item items => exact stops_cons rfl _

mutual

/-- An expression is told from what follows it. -/
theorem charsThen_inj {rest rest' : List Char} (hrest : Stops isPlainChar rest)
    (hrest' : Stops isPlainChar rest') : ∀ {e e' : SExpr}, e.Legible → e'.Legible →
      charsThen rest e = charsThen rest' e' → e = e' ∧ rest = rest'
  | .atom text, .atom text', h, h', heq => by
    cases h with
    | atom hplain =>
      cases h' with
      | atom hplain' =>
        obtain ⟨rfl, hrest⟩ := hplain.append_inj hplain' hrest hrest' heq
        exact ⟨rfl, hrest⟩
  | .atom text, .list head items, h, h', heq => by
    cases h with
    | atom hplain => exact absurd heq hplain.ne_bracket
  | .list head items, .atom text, h, h', heq => by
    cases h' with
    | atom hplain => exact absurd heq.symm hplain.ne_bracket
  | .list head items, .list head' items', h, h', heq => by
    obtain ⟨-, hafter⟩ := List.cons_eq_cons.mp heq
    obtain ⟨rfl, hitems⟩ := h.plain_head.append_inj h'.plain_head (stops_itemsThen rest items)
      (stops_itemsThen rest' items') hafter
    cases h with
    | string _ hname =>
      cases h' with
      | string =>
        obtain ⟨-, hquoted⟩ := List.cons_eq_cons.mp hitems
        obtain ⟨rfl, hclose⟩ := quoted_append_inj hquoted
        exact ⟨rfl, (List.cons_eq_cons.mp hclose).2⟩
      | list _ hname' => exact absurd hname hname'
    | list _ hname hlegible =>
      cases h' with
      | string _ hname' => exact absurd hname' hname
      | list _ _ hlegible' =>
        obtain ⟨rfl, hrest⟩ := itemsThen_inj hlegible hlegible' hitems
        exact ⟨rfl, hrest⟩

/-- Items are told from each other, and from the bracket behind them. -/
theorem itemsThen_inj {rest rest' : List Char} : ∀ {items items' : List SExpr},
    (∀ item ∈ items, item.Legible) → (∀ item ∈ items', item.Legible) →
      itemsThen (')' :: rest) items = itemsThen (')' :: rest') items' →
        items = items' ∧ rest = rest'
  | [], [], _, _, heq => ⟨rfl, (List.cons_eq_cons.mp heq).2⟩
  | [], _ :: _, _, _, heq => absurd (List.cons_eq_cons.mp heq).1 (by decide)
  | _ :: _, [], _, _, heq => absurd (List.cons_eq_cons.mp heq).1 (by decide)
  | item :: items, item' :: items', h, h', heq => by
    obtain ⟨hitem, hitems⟩ := List.forall_mem_cons.mp h
    obtain ⟨hitem', hitems'⟩ := List.forall_mem_cons.mp h'
    obtain ⟨rfl, hafter⟩ := charsThen_inj (stops_itemsThen rest items)
      (stops_itemsThen rest' items') hitem hitem' (List.cons_eq_cons.mp heq).2
    obtain ⟨rfl, hrest⟩ := itemsThen_inj hitems hitems' hafter
    exact ⟨rfl, hrest⟩

end

/-- **Legible expressions with the same text are the same.** -/
theorem render_injective {e e' : SExpr} (h : e.Legible) (h' : e'.Legible)
    (heq : e.render = e'.render) : e = e' := by
  have hend : Stops isPlainChar [] := nofun
  rw [render, render, ← String.toList_inj, String.toList_ofList, String.toList_ofList] at heq
  exact (charsThen_inj hend hend h h' heq).1

end ScriptAst.SExpr
