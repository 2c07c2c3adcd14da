namespace StackLang

/-!
# Steps that may fail

The compiler, the machine and the evaluator share the form of their steps: a
step starts in a state, and ends in a value or an error and the state that is
left. Here the primitive steps are run on a given state.
-/

variable {ε σ α β : Type} (state : σ)

/-- What follows a look at the state is given the state twice. -/
@[simp] theorem bind_get (next : σ → EStateM ε σ α) :
    (get >>= next) state = next state state :=
  rfl

/-- What follows a change of the state starts in the changed one. -/
@[simp] theorem bind_modify
    (update : σ → σ) (next : PUnit → EStateM ε σ α) :
    (modify update >>= next) state = next ⟨⟩ (update state) :=
  rfl

/-- A value is returned without touching the state. -/
@[simp] theorem pure_apply (value : α) :
    (pure value : EStateM ε σ α) state = .ok value state :=
  rfl

/-- Two steps succeed one after the other if each of them does. -/
theorem bind_eq_ok_iff
    {state after : σ} {step : EStateM ε σ α} {next : α → EStateM ε σ β}
    {value : β} :
    (step >>= next) state = .ok value after ↔
      ∃ found middle,
        step state = .ok found middle ∧
          next found middle = .ok value after := by
  simp only [Bind.bind, EStateM.bind]
  cases shape : step state with
  | ok found middle =>
      constructor
      · intro succeeded
        exact ⟨found, middle, rfl, succeeded⟩
      · rintro ⟨_, _, ⟨⟩, succeeded⟩
        exact succeeded
  | error error middle =>
      constructor
      · nofun
      · rintro ⟨_, _, ⟨⟩, _⟩

/-- What follows a step that succeeds starts in the state that it leaves. -/
theorem bind_of_ok
    {state after : σ} {step : EStateM ε σ α} {value : α}
    (succeeded : step state = .ok value after) (next : α → EStateM ε σ β) :
    (step >>= next) state = next value after := by
  simp only [Bind.bind, EStateM.bind, succeeded]

/-- What follows a step that fails is not done. -/
theorem bind_of_error
    {state after : σ} {step : EStateM ε σ α} {error : ε}
    (failed : step state = .error error after) (next : α → EStateM ε σ β) :
    (step >>= next) state = .error error after := by
  simp only [Bind.bind, EStateM.bind, failed]

/-- Two steps fail one after the other if the first fails, or the second. -/
theorem bind_eq_error_iff
    {state after : σ} {step : EStateM ε σ α} {next : α → EStateM ε σ β}
    {error : ε} :
    (step >>= next) state = .error error after ↔
      step state = .error error after ∨
        ∃ found middle,
          step state = .ok found middle ∧
            next found middle = .error error after := by
  simp only [Bind.bind, EStateM.bind]
  cases shape : step state with
  | ok found middle =>
      constructor
      · intro failed
        exact .inr ⟨found, middle, rfl, failed⟩
      · rintro (failed | ⟨_, _, ⟨⟩, failed⟩)
        · cases failed
        · exact failed
  | error raised middle =>
      constructor
      · rintro ⟨⟩
        exact .inl rfl
      · rintro (failed | ⟨_, _, ⟨⟩, _⟩)
        cases failed
        rfl

end StackLang
