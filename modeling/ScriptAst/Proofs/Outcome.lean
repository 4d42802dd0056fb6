import ScriptAst.Plan

/-! # Outcomes that satisfy a specification

`Outcome.Satisfies ok error` says what a value and the frames left with it are like, and what an
error is like.  It is built up the way outcomes are, step after step (`Satisfies.andThen`).
-/
namespace ScriptAst.Outcome

variable {α β : Type} {ok ok' : α → Scopes → Prop} {error error' : BuildError → Prop}
  {outcome : Outcome α}

/-- A value comes with frames as `ok` says, an error is as `error` says. -/
def Satisfies (ok : α → Scopes → Prop) (error : BuildError → Prop) (outcome : Outcome α) : Prop :=
  match outcome.result with
  | .ok value => ok value outcome.scopes
  | .error e => error e

theorem Satisfies.mono (h : outcome.Satisfies ok error)
    (hok : ∀ value scopes, ok value scopes → ok' value scopes)
    (herror : ∀ e, error e → error' e) : outcome.Satisfies ok' error' := by
  obtain ⟨_ | _, _⟩ := outcome
  · exact herror _ h
  · exact hok _ _ h

theorem Satisfies.andThen {next : α → Scopes → Outcome β} {done : β → Scopes → Prop}
    (h : outcome.Satisfies ok error)
    (hnext : ∀ value scopes, ok value scopes → (next value scopes).Satisfies done error) :
    (outcome.andThen next).Satisfies done error := by
  obtain ⟨_ | _, _⟩ := outcome
  · exact h
  · exact hnext _ _ h

theorem Satisfies.of_eq_ok (h : outcome.Satisfies ok error) {value : α} {scopes : Scopes}
    (heq : outcome = ⟨.ok value, scopes⟩) : ok value scopes := by
  subst heq
  exact h

end ScriptAst.Outcome
