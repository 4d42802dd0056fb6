import ScriptAst.Proofs.Binding
import ScriptAst.Proofs.Lookups
import ScriptAst.Proofs.Nesting
import ScriptAst.Proofs.Reports

/-! # The limit of nesting

The limit is exact: a build fails for want of levels only at a part with at least `maxNesting`
proper ancestors, and a tower of expressions shows that one tree more in a row is too many
(`build_tower`).  Below the limit nobody can tell how many levels have been used up already.

There are never more frames open at a lookup than dispatches active, and so never as many that their
distance would not fit 32 bits.  A build that looks names up in the frames without that limit is the
same (`build_finds_nearest`).
-/
namespace ScriptAst

/-! ## Distances -/

/-- The number of frames between the innermost one and the nearest that declares the variable. -/
def Scopes.nearest (name : String) (scopes : Scopes) : Option Nat :=
  scopes.findIdx? (fun frame => name ∈ frame.vars)

/-- While the frames can be counted in 32 bits, no distance is withheld. -/
theorem Scopes.resolve_eq_nearest (name : String) {scopes : Scopes}
    (h : scopes.length ≤ UInt32.size) : scopes.resolve name = scopes.nearest name := by
  rw [resolve, ← nearest]
  cases hfound : scopes.nearest name with
  | none => rfl
  | some distance =>
    obtain ⟨hdistance, _⟩ := List.findIdx?_eq_some_iff_getElem.mp hfound
    rw [Option.filter_some, if_pos (decide_eq_true (Nat.lt_of_lt_of_le hdistance h))]

/-- At a lookup of a build no more frames are open than dispatches active, and no more dispatches
are active than there are levels. -/
theorem Lookup.frames_le {options : Options} {tree : ParseTree} {lookup : Lookup}
    (h : lookup ∈ lookups options maxNesting 0 tree []) :
    lookup.scopes.length ≤ lookup.active ∧ lookup.active ≤ maxNesting := by
  have hframes := lookup.frames_lt h
  have hactive := lookup.active_le h
  rw [List.length_nil, Nat.add_zero, Nat.zero_add] at hframes
  rw [Nat.zero_add] at hactive
  exact ⟨Nat.le_of_lt hframes, hactive⟩

theorem Lookup.resolve_eq_nearest {options : Options} {tree : ParseTree} {lookup : Lookup}
    (h : lookup ∈ lookups options maxNesting 0 tree []) :
    lookup.scopes.resolve lookup.name = lookup.scopes.nearest lookup.name := by
  obtain ⟨hframes, hactive⟩ := Lookup.frames_le h
  apply Scopes.resolve_eq_nearest
  exact Nat.le_trans (Nat.le_trans hframes hactive) (by decide)

/-- The limit on distances is never met: a build finds the nearest frame that declares a name. -/
theorem build_finds_nearest (options : Options) (tree : ParseTree) :
    dispatchFinding
        (fun name scopes => if options.staticResolution then scopes.nearest name else none)
        options maxNesting tree [] =
      dispatch options maxNesting tree [] := by
  apply dispatchFinding_eq
  intro lookup hlookup
  rw [Lookup.resolve_eq_nearest hlookup]

/-! ## Towers -/

/-- A number in so many expressions, one in the other. -/
def tower : Nat → ParseTree
  | 0 => .token "DECIMALLITERAL" "1" ⟨0, 1, 1⟩
  | levels + 1 => .node "expression" [tower levels]

/-- What a tower is built to: the number. -/
def towerNode : Node := ⟨⟨1, 1, 2⟩, .int 1⟩

theorem tower_position (levels : Nat) : (tower levels).position = ⟨1, 1, 2⟩ := by
  induction levels with
  | zero => rfl
  | succ levels ih => exact ih

/-- An expression with one operand is that operand. -/
theorem dispatch_expression (options : Options) (room : Nat) (tree : ParseTree) (scopes : Scopes)
    (h : (dispatch options room tree scopes).result ≠ .ok none) :
    dispatch options (room + 1) (.node "expression" [tree]) scopes =
      dispatch options room tree scopes := by
  have hplan : dispatch options (room + 1) (.node "expression" [tree]) scopes =
      ((Symbol.expression.plan options.sourceName (.node "expression" [tree])).run
        options.staticResolution (dispatch options room) scopes) := rfl
  rw [hplan]
  show (dispatch options room tree scopes).andThen _ = _
  generalize dispatch options room tree scopes = outcome at h
  obtain ⟨_ | _ | _, _⟩ := outcome
  · rfl
  · exact absurd rfl h
  · rfl

theorem dispatch_tower (options : Options) (room levels : Nat) (scopes : Scopes) :
    (dispatch options room (tower levels) scopes) =
      if levels < room then ⟨.ok (some towerNode), scopes⟩
      else ⟨.error (.nestingTooDeep (tower (levels - room)).symbol ⟨1, 1, 2⟩ maxNesting), scopes⟩ := by
  induction room generalizing levels with
  | zero =>
    rw [if_neg (Nat.not_lt_zero _), ← tower_position levels]
    cases levels <;> rfl
  | succ room ih =>
    cases levels with
    | zero => rfl
    | succ levels =>
      rw [tower, dispatch_expression, ih]
      · simp only [Nat.add_lt_add_iff_right, Nat.add_sub_add_right]
      · rw [ih]
        split <;> nofun

/-- **The limit is exact**: a tower of `maxNesting` trees is built, and one of more is not. -/
theorem build_tower (options : Options) (levels : Nat) :
    build options (tower levels) =
      if levels < maxNesting then .ok towerNode
      else .error (.nestingTooDeep (tower (levels - maxNesting)).symbol ⟨1, 1, 2⟩ maxNesting) := by
  rw [build_eq, dispatch_tower]
  by_cases h : levels < maxNesting
  · rw [if_pos h, if_pos h]
  · rw [if_neg h, if_neg h]

/-! ## The limit -/

/-- A build fails for want of levels at a part with as many others above it. -/
theorem nests_of_nestingTooDeep {options : Options} {tree : ParseTree} {symbol : String}
    {pos : Position} {limit : Nat}
    (h : build options tree = .error (.nestingTooDeep symbol pos limit)) :
    limit = maxNesting ∧ ∃ depth part, tree.Nests depth part ∧ maxNesting ≤ depth ∧
      part.symbol = symbol ∧ part.position = pos := by
  cases build_reports h with
  | found hfound => cases hfound
  | nestingTooDeep hpart hlevels _ => exact ⟨rfl, _, _, hpart, hlevels, rfl, rfl⟩

/-- The level that a builder is at decides nothing but whether a dispatch runs out of levels. -/
theorem Builder.dispatch_depth (options : Options) (scopes : Scopes) {depth depth' : Nat}
    (h : depth' ≤ depth) (tree : ParseTree)
    (hroom : ∀ symbol pos limit, ((⟨options, scopes, depth⟩ : Builder).dispatch tree).1 ≠
      .error (.nestingTooDeep symbol pos limit)) :
    ((⟨options, scopes, depth'⟩ : Builder).dispatch tree).1 =
        ((⟨options, scopes, depth⟩ : Builder).dispatch tree).1 ∧
      ((⟨options, scopes, depth'⟩ : Builder).dispatch tree).2.scopes =
        ((⟨options, scopes, depth⟩ : Builder).dispatch tree).2.scopes := by
  simp only [dispatch_on, Outcome.on] at hroom ⊢
  rcases dispatch_room options (Nat.sub_le_sub_left h maxNesting) tree scopes with hwants | hsame
  · obtain ⟨symbol, pos, limit, hwants⟩ := hwants
    exact absurd hwants (hroom symbol pos limit)
  · rw [hsame]
    exact ⟨rfl, rfl⟩

/-- **The limit of nesting is exact and otherwise invisible.**  A build that runs out of levels does
so at a part with at least 1000 proper ancestors.  A dispatch that does not run out of levels does
the same from any smaller depth.  And whenever a name is looked up, no more frames are open than
dispatches are active, so the nearest frame that declares it is found. -/
theorem nesting_limit (options : Options) (tree : ParseTree) :
    (∀ symbol pos limit, build options tree = .error (.nestingTooDeep symbol pos limit) →
      limit = 1000 ∧ ∃ depth part, tree.Nests depth part ∧ 1000 ≤ depth ∧
        part.symbol = symbol ∧ part.position = pos) ∧
    (tree.height ≤ 1000 → ∀ symbol pos limit,
      build options tree ≠ .error (.nestingTooDeep symbol pos limit)) ∧
    (∀ scopes depth depth', depth' ≤ depth → depth ≤ 1000 →
      (∀ symbol pos limit, ((⟨options, scopes, depth⟩ : Builder).dispatch tree).1 ≠
        .error (.nestingTooDeep symbol pos limit)) →
      ((⟨options, scopes, depth'⟩ : Builder).dispatch tree).1 =
          ((⟨options, scopes, depth⟩ : Builder).dispatch tree).1 ∧
        ((⟨options, scopes, depth'⟩ : Builder).dispatch tree).2.scopes =
          ((⟨options, scopes, depth⟩ : Builder).dispatch tree).2.scopes) ∧
    (∀ lookup ∈ lookups options maxNesting 0 tree [],
      lookup.scopes.length ≤ lookup.active ∧ lookup.active ≤ 1000 ∧
        lookup.scopes.resolve lookup.name = lookup.scopes.nearest lookup.name) ∧
    dispatchFinding
        (fun name scopes => if options.staticResolution then scopes.nearest name else none)
        options maxNesting tree [] =
      dispatch options maxNesting tree [] := by
  refine ⟨fun symbol pos limit h => nests_of_nestingTooDeep h, ?_, ?_, ?_,
    build_finds_nearest options tree⟩
  · intro hheight symbol pos limit h
    obtain ⟨_, depth, part, hpart, hdepth, _⟩ := nests_of_nestingTooDeep h
    have hlt : depth < 1000 := Nat.lt_of_lt_of_le hpart.lt_height hheight
    exact absurd hdepth (Nat.not_le_of_lt hlt)
  · intro scopes depth depth' hdepth _ hroom
    exact Builder.dispatch_depth options scopes hdepth tree hroom
  · intro lookup hlookup
    obtain ⟨hframes, hactive⟩ := Lookup.frames_le hlookup
    exact ⟨hframes, hactive, Lookup.resolve_eq_nearest hlookup⟩

/-- A tower of 1001 trees, and a function that uses a variable from outside. -/
theorem nesting_limit_closure :
    (∃ depth part, (tower 1000).Nests depth part ∧ 1000 ≤ depth ∧
      part.symbol = "DECIMALLITERAL" ∧ part.position = ⟨1, 1, 2⟩) ∧
    closureSample.height ≤ 1000 ∧
    (∀ symbol pos limit,
      build ⟨"", true⟩ closureSample ≠ .error (.nestingTooDeep symbol pos limit)) ∧
    ((⟨⟨"", true⟩, [], 0⟩ : Builder).dispatch closureSample).1 =
      ((⟨⟨"", true⟩, [], 993⟩ : Builder).dispatch closureSample).1 ∧
    ∃ lookup ∈ lookups ⟨"", true⟩ maxNesting 0 closureSample [],
      lookup.active = 7 ∧ lookup.scopes.length ≤ 7 ∧ lookup.scopes.resolve "x" = some 1 ∧
        lookup.scopes.nearest "x" = some 1 := by
  have htower : build ⟨"", true⟩ (tower maxNesting) =
      .error (.nestingTooDeep "DECIMALLITERAL" ⟨1, 1, 2⟩ 1000) := by
    rw [build_tower, if_neg (Nat.lt_irrefl maxNesting)]
    rfl
  have hroom : ((⟨⟨"", true⟩, [], 993⟩ : Builder).dispatch closureSample).1.isOk := rfl
  let lookup : Lookup := ⟨7, "x", [.empty, ⟨["x"], []⟩]⟩
  have hlookup : lookup ∈ lookups ⟨"", true⟩ maxNesting 0 closureSample [] := .tail _ (.head _)
  obtain ⟨hdeep, _⟩ := nesting_limit ⟨"", true⟩ (tower 1000)
  obtain ⟨_, hlow, hsame, hlookups, _⟩ := nesting_limit ⟨"", true⟩ closureSample
  obtain ⟨_, hpart⟩ := hdeep _ _ _ htower
  obtain ⟨hactive, _, hresolve⟩ := hlookups lookup hlookup
  refine ⟨hpart, by decide, hlow (by decide), ?_, lookup, hlookup, rfl, hactive, rfl, ?_⟩
  · refine (hsame [] 993 0 (by decide) (by decide) ?_).1
    intro symbol pos limit herror
    rw [herror] at hroom
    cases hroom
  · rw [← hresolve]
    rfl

end ScriptAst
