import ConfigStream.Steps
import Mathlib.Data.List.Basic
import Mathlib.Data.Set.List

/-!
# Runs of steps

A run of steps has not failed if and only if no step has (`runSteps_cons_eq_none`), and a run that
fails has got through the steps before the one that does (`runSteps_eq_some`). What every step
keeps, of one run or of two, the runs keep (`runSteps_keeps`, `runSteps_related`), and what items
are called does not count (`runSteps_map`). Where each item of a list gives a result, the results
are told item by item (`mem_iff_of_map_eq`), and a fold that fails does so at the first item that
gives none (`Except.foldlM_eq_error`).
-/

namespace ConfigStream

/-- A run of steps has not failed if and only if its first step has not and the others, from where
that leads, have not. -/
theorem runSteps_cons_eq_none {σ α ε : Type} {step : σ → α → σ × Option ε} {state final : σ}
    {item : α} {items : List α} :
    runSteps step state (item :: items) = (final, none) ↔
      ∃ next, step state item = (next, none) ∧ runSteps step next items = (final, none) := by
  rw [runSteps]
  cases step state item with
  | mk next failure =>
      cases failure with
      | none => simp
      | some failure => simp

/-- A run of steps fails if and only if it gets through those at its front and the next one fails
there. -/
theorem runSteps_eq_some {σ α ε : Type} {step : σ → α → σ × Option ε} {state final : σ}
    {items : List α} {failure : ε} :
    runSteps step state items = (final, some failure) ↔
      ∃ before item after middle, items = before ++ item :: after ∧
        runSteps step state before = (middle, none) ∧
        step middle item = (final, some failure) := by
  constructor
  · intro h
    induction items generalizing state with
    | nil => cases (Prod.mk.inj h).2
    | cons first items ih =>
        rw [runSteps] at h
        cases hfirst : step state first with
        | mk next stopped =>
            rw [hfirst] at h
            cases stopped with
            | none =>
                obtain ⟨before, item, after, middle, rfl, hbefore, hitem⟩ := ih h
                exact ⟨first :: before, item, after, middle, rfl,
                  runSteps_cons_eq_none.2 ⟨next, hfirst, hbefore⟩, hitem⟩
            | some stopped => exact ⟨[], first, items, state, rfl, rfl, hfirst.trans h⟩
  · rintro ⟨before, item, after, middle, rfl, hbefore, hitem⟩
    rw [runSteps_append, hbefore]
    simp only [runSteps, hitem]

/-- What every step keeps, a run keeps. -/
theorem runSteps_keeps {σ α ε : Type} {step : σ → α → σ × Option ε} {motive : σ → Prop}
    (hstep : ∀ state item, motive state → motive (step state item).1) {state : σ} (h : motive state)
    (items : List α) : motive (runSteps step state items).1 := by
  induction items generalizing state with
  | nil => exact h
  | cons item items ih =>
      have hnext := hstep state item h
      unfold runSteps
      split
      · rename_i next hresult
        rw [hresult] at hnext
        exact ih hnext
      · rename_i next failure hresult
        rw [hresult] at hnext
        exact hnext

/-- Two runs whose steps keep a relation between their states, and fail alike, end in related states
and fail alike. -/
theorem runSteps_related {σ τ α ε : Type} {first : σ → α → σ × Option ε}
    {second : τ → α → τ × Option ε} {related : σ → τ → Prop}
    (hstep : ∀ state other item, related state other →
      related (first state item).1 (second other item).1 ∧
        (first state item).2 = (second other item).2)
    {state : σ} {other : τ} (h : related state other) (items : List α) :
    related (runSteps first state items).1 (runSteps second other items).1 ∧
      (runSteps first state items).2 = (runSteps second other items).2 := by
  induction items generalizing state other with
  | nil => exact ⟨h, rfl⟩
  | cons item items ih =>
      obtain ⟨hnext, hsame⟩ := hstep state other item h
      unfold runSteps
      cases hfirst : first state item with
      | mk next failure =>
          cases hsecond : second other item with
          | mk following fault =>
              rw [hfirst, hsecond] at hnext hsame
              obtain rfl : failure = fault := hsame
              cases failure with
              | none => exact ih hnext
              | some failure => exact ⟨hnext, rfl⟩

/-! ## Renamed items -/

section Renamed

variable {σ α β ε : Type} {rename : α → α} {relabel : ε → ε}

/-- Where steps do alike with an item under another name, and only tell of a failure by another
label, so does a run. -/
theorem runSteps_map {step : σ → α → σ × Option ε}
    (h : ∀ state item, step state (rename item) =
      ((step state item).1, (step state item).2.map relabel)) (state : σ) (items : List α) :
    runSteps step state (items.map rename) =
      ((runSteps step state items).1, (runSteps step state items).2.map relabel) := by
  induction items generalizing state with
  | nil => rfl
  | cons item items ih =>
      rw [List.map_cons, runSteps, h, runSteps]
      cases step state item with
      | mk next failure =>
          cases failure with
          | none => exact ih next
          | some failure => rfl

/-- So does a fold. -/
theorem foldlM_map_rename {step : σ → α → Except ε σ}
    (h : ∀ state item, step state (rename item) = (step state item).mapError relabel) (state : σ)
    (items : List α) :
    (items.map rename).foldlM step state = (items.foldlM step state).mapError relabel := by
  induction items generalizing state with
  | nil => rfl
  | cons item items ih =>
      rw [List.map_cons, List.foldlM_cons, List.foldlM_cons, h]
      cases step state item with
      | error failure => rfl
      | ok next => exact ih next

/-- And so does a list of results. -/
theorem mapM_map_rename {action : α → Except ε β}
    (h : ∀ item, action (rename item) = (action item).mapError relabel) (items : List α) :
    (items.map rename).mapM action = (items.mapM action).mapError relabel := by
  induction items with
  | nil => rfl
  | cons item items ih =>
      rw [List.map_cons, List.mapM_cons, List.mapM_cons, h, ih]
      cases action item with
      | error failure => rfl
      | ok result => cases items.mapM action <;> rfl

end Renamed

section Results

variable {α β γ ε : Type} {f : α → γ} {g : β → γ} {items : List α} {results : List β}

/-- Two steps succeed if the first does and the second does with its result. -/
theorem Except.bind_eq_ok {action : Except ε α} {next : α → Except ε β} {result : β} :
    action >>= next = .ok result ↔ ∃ value, action = .ok value ∧ next value = .ok result := by
  cases action with
  | error fault =>
      constructor
      · intro h
        cases h
      · rintro ⟨value, hvalue, -⟩
        cases hvalue
  | ok value =>
      constructor
      · intro h
        exact ⟨value, rfl, h⟩
      · rintro ⟨other, hother, h⟩
        obtain rfl := Except.ok.inj hother
        exact h

/-- What comes out of a list comes from one of its items. -/
theorem mem_iff_of_map_eq (hg : Function.Injective g) (h : items.map f = results.map g)
    {result : β} : result ∈ results ↔ ∃ item ∈ items, f item = g result := by
  rw [← List.mem_map_of_injective hg, ← h, List.mem_map]

/-- Every item of a list gives a result. -/
theorem exists_of_map_eq (h : items.map f = results.map g) {item : α} (hitem : item ∈ items) :
    ∃ result ∈ results, f item = g result := by
  have hmem : f item ∈ results.map g := h ▸ List.mem_map_of_mem hitem
  obtain ⟨result, hresult, heq⟩ := List.mem_map.1 hmem
  exact ⟨result, hresult, heq.symm⟩

/-- Items that all give results give a list of them. -/
theorem exists_map_eq (h : ∀ item ∈ items, ∃ result, f item = g result) :
    ∃ results : List β, items.map f = results.map g := by
  have hrange : items.map f ∈ Set.range (List.map g) := by
    rw [Set.range_list_map]
    intro given hgiven
    obtain ⟨item, hitem, rfl⟩ := List.mem_map.1 hgiven
    obtain ⟨result, hresult⟩ := h item hitem
    exact ⟨result, hresult.symm⟩
  obtain ⟨results, hresults⟩ := hrange
  exact ⟨results, hresults.symm⟩

/-- A list has a list of results if every item has one, where a chain of computations has a result
if and only if all of them have. -/
theorem mapM_eq_pure {m : Type → Type} [Monad m] [LawfulMonad m]
    (hpure : ∀ {α : Type} {first second : α}, (pure first : m α) = pure second → first = second)
    (hbind : ∀ {α β : Type} {first : m α} {next : α → m β} {result : β},
      first >>= next = pure result ↔ ∃ value, first = pure value ∧ next value = pure result)
    {action : α → m β} :
    items.mapM action = pure results ↔ items.map action = results.map pure := by
  induction items generalizing results with
  | nil =>
      rw [List.mapM_nil, List.map_nil, List.nil_eq, List.map_eq_nil_iff]
      exact ⟨fun h => (hpure h).symm, fun h => congrArg pure h.symm⟩
  | cons item items ih =>
      rw [List.mapM_cons]
      simp only [hbind, ih]
      constructor
      · rintro ⟨first, hfirst, others, hothers, hlast⟩
        obtain rfl := hpure hlast
        exact congrArg₂ List.cons hfirst hothers
      · intro h
        cases results with
        | nil => cases h
        | cons first others =>
            obtain ⟨hfirst, hothers⟩ := List.cons.inj h
            exact ⟨first, hfirst, others, hothers, rfl⟩

/-- A list is worked through if every item is. -/
theorem Except.mapM_eq_ok {action : α → Except ε β} :
    items.mapM action = .ok results ↔ items.map action = results.map .ok :=
  mapM_eq_pure Except.ok.inj Except.bind_eq_ok

theorem mapM_eq_some {action : α → Option β} :
    items.mapM action = some results ↔ items.map action = results.map some :=
  mapM_eq_pure Option.some.inj Option.bind_eq_some_iff

theorem Except.map_eq_ok {action : Except ε α} {f : α → β} {result : β} :
    action.map f = .ok result ↔ ∃ value, action = .ok value ∧ f value = result := by
  cases action <;> simp [Except.map]

theorem Except.map_eq_error {action : Except ε α} {f : α → β} {failure : ε} :
    action.map f = .error failure ↔ action = .error failure := by
  cases action <;> simp [Except.map]

theorem Except.mapError_eq_ok {ε' : Type} {action : Except ε α} {relabel : ε → ε'} {result : α} :
    action.mapError relabel = .ok result ↔ action = .ok result := by
  cases action <;> simp [Except.mapError]

theorem Except.mapError_eq_error {ε' : Type} {action : Except ε α} {relabel : ε → ε'}
    {failure : ε'} :
    action.mapError relabel = .error failure ↔
      ∃ cause, action = .error cause ∧ relabel cause = failure := by
  cases action <;> simp [Except.mapError]

/-- What is done with a result does not touch how a failure is told. -/
theorem Except.map_mapError {ε' : Type} (action : Except ε α) (f : α → β) (relabel : ε → ε') :
    (action.mapError relabel).map f = (action.map f).mapError relabel := by
  cases action <;> rfl

/-- Two steps fail if the first does, or the second with its result. -/
theorem Except.bind_eq_error {action : Except ε α} {next : α → Except ε β} {failure : ε} :
    action >>= next = .error failure ↔ action = .error failure ∨
      ∃ value, action = .ok value ∧ next value = .error failure := by
  cases action with
  | error cause =>
      show Except.error cause = _ ↔ _
      simp
  | ok value =>
      show next value = _ ↔ _
      simp

/-- A fold fails if and only if it gets through the items at the front and the next one fails
there. -/
theorem Except.foldlM_eq_error {σ : Type} {step : σ → α → Except ε σ} {state : σ} {failure : ε} :
    items.foldlM step state = .error failure ↔
      ∃ before item after middle, items = before ++ item :: after ∧
        before.foldlM step state = .ok middle ∧ step middle item = .error failure := by
  constructor
  · intro h
    induction items generalizing state with
    | nil => cases h
    | cons first items ih =>
        rw [List.foldlM_cons] at h
        rcases Except.bind_eq_error.1 h with hfirst | ⟨next, hfirst, hrest⟩
        · exact ⟨[], first, items, state, rfl, rfl, hfirst⟩
        · obtain ⟨before, item, after, middle, rfl, hbefore, hitem⟩ := ih hrest
          refine ⟨first :: before, item, after, middle, rfl, ?_, hitem⟩
          rw [List.foldlM_cons, hfirst]
          exact hbefore
  · intro h
    obtain ⟨before, item, after, middle, rfl, hbefore, hitem⟩ := h
    rw [List.foldlM_append, hbefore]
    show List.foldlM step middle (item :: after) = _
    rw [List.foldlM_cons, hitem]
    rfl

end Results

end ConfigStream
