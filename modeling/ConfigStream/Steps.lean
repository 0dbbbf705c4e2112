/-!
# Steps up to the first failure

Input files are worked through line by line, and a line that fails ends the work but keeps what was
done before it. `runSteps` is that rule.
-/

namespace ConfigStream

/-- Take steps from a state until one fails. A step gives the state it leaves, also if it fails, and
the failure. -/
def runSteps (step : σ → α → σ × Option ε) (state : σ) : List α → σ × Option ε
  | [] => (state, none)
  | item :: items =>
    match step state item with
    | (next, none) => runSteps step next items
    | (next, some failure) => (next, some failure)

/-- The steps at the end of a list are taken if all before them succeed. -/
theorem runSteps_append (step : σ → α → σ × Option ε) (state : σ) (first second : List α) :
    runSteps step state (first ++ second) =
      match runSteps step state first with
      | (next, none) => runSteps step next second
      | (next, some failure) => (next, some failure) := by
  induction first generalizing state with
  | nil => rfl
  | cons item items ih =>
    simp only [List.cons_append, runSteps]
    cases step state item with
    | mk next failure =>
      cases failure with
      | none => exact ih next
      | some failure => rfl

end ConfigStream
