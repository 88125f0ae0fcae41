set_option autoImplicit false

namespace PhaseCheck

variable {ε σ α β : Type}

def answerOf : EStateM.Result ε σ α → Except ε α
  | .ok value _ => .ok value
  | .error cause _ => .error cause

def stateOf : EStateM.Result ε σ α → σ
  | .ok _ state => state
  | .error _ state => state

theorem bind_of_ok {first : EStateM ε σ α} {rest : α → EStateM ε σ β} {state middle : σ} {value : α}
    (step : first state = .ok value middle) : (first >>= rest) state = rest value middle := by
  change EStateM.bind first rest state = _
  simp only [EStateM.bind, step]

theorem bind_of_error {first : EStateM ε σ α} {rest : α → EStateM ε σ β} {state middle : σ} {cause : ε}
    (step : first state = .error cause middle) : (first >>= rest) state = .error cause middle := by
  change EStateM.bind first rest state = _
  simp only [EStateM.bind, step]

theorem steps_of_bind_ok {first : EStateM ε σ α} {rest : α → EStateM ε σ β} {state final : σ} {result : β}
    (ran : (first >>= rest) state = .ok result final) :
    ∃ value middle, first state = .ok value middle ∧ rest value middle = .ok result final := by
  cases step : first state with
  | ok value middle => exact ⟨value, middle, rfl, by rwa [bind_of_ok step] at ran⟩
  | error cause middle => rw [bind_of_error step] at ran; contradiction

theorem steps_of_bind_error {first : EStateM ε σ α} {rest : α → EStateM ε σ β} {state final : σ} {cause : ε}
    (ran : (first >>= rest) state = .error cause final) :
    first state = .error cause final ∨
      ∃ value middle, first state = .ok value middle ∧ rest value middle = .error cause final := by
  cases step : first state with
  | ok value middle => exact .inr ⟨value, middle, rfl, by rwa [bind_of_ok step] at ran⟩
  | error other middle =>
    rw [bind_of_error step] at ran
    cases ran
    exact .inl rfl

theorem ok_of_answer {outcome : EStateM.Result ε σ α} {value : α} (answered : answerOf outcome = .ok value) :
    ∃ final, outcome = .ok value final := by
  cases outcome with
  | ok other final => cases answered; exact ⟨final, rfl⟩
  | error cause final => cases answered

theorem error_of_answer {outcome : EStateM.Result ε σ α} {cause : ε} (answered : answerOf outcome = .error cause) :
    ∃ final, outcome = .error cause final := by
  cases outcome with
  | ok value final => cases answered
  | error other final => cases answered; exact ⟨final, rfl⟩

def succeeds (test : α → σ → Bool) : EStateM.Result ε σ α → Bool
  | .ok value state => test value state
  | .error _ _ => false

theorem exists_of_succeeds {test : α → σ → Bool} {outcome : EStateM.Result ε σ α}
    (passed : succeeds test outcome = true) : ∃ value final, outcome = .ok value final ∧ test value final = true := by
  cases outcome with
  | ok value final => exact ⟨value, final, rfl, passed⟩
  | error cause final => cases passed

theorem answer_map (action : EStateM ε σ α) (finish : α → β) (state : σ) :
    answerOf ((do return finish (← action)) state) = (answerOf (action state)).map finish := by
  cases ran : action state with
  | ok value final => rw [bind_of_ok ran]; rfl
  | error cause final => rw [bind_of_error ran]; rfl

-- If the rest answers the same from every state, then all the answers can be taken from one state.
theorem answer_bind {first : EStateM ε σ α} {rest : α → EStateM ε σ β}
    (same : ∀ value state other, answerOf (rest value state) = answerOf (rest value other)) (state : σ) :
    answerOf ((first >>= rest) state) = answerOf (first state) >>= fun value => answerOf (rest value state) := by
  cases ran : first state with
  | ok value middle => rw [bind_of_ok ran]; exact same value middle state
  | error cause middle => rw [bind_of_error ran]; rfl

theorem forM_ok {action : α → EStateM ε σ PUnit} {items : List α}
    (each : ∀ item ∈ items, ∀ state, ∃ after, action item state = .ok () after) (state : σ) :
    ∃ after, items.forM action state = .ok () after := by
  induction items generalizing state with
  | nil => exact ⟨state, rfl⟩
  | cons item rest ih =>
    obtain ⟨middle, ran⟩ := each item (List.mem_cons_self ..) state
    obtain ⟨after, later⟩ := ih (fun other present => each other (List.mem_cons_of_mem _ present)) middle
    exact ⟨after, (bind_of_ok ran).trans later⟩

theorem ok_of_toOption {outcome : Except ε α} {value : α} (found : outcome.toOption = some value) :
    outcome = .ok value := by
  cases outcome with
  | ok other =>
    cases found
    rfl
  | error cause => cases found

theorem ok_of_mapError_ok {outcome : Except ε α} {report : ε → σ} {value : α}
    (made : outcome.mapError report = .ok value) : outcome = .ok value := by
  cases outcome with
  | ok other =>
    cases made
    rfl
  | error cause => cases made

theorem values_of_bind_ok {first : Except ε α} {rest : α → Except ε β} {result : β}
    (ran : first >>= rest = .ok result) : ∃ value, first = .ok value ∧ rest value = .ok result := by
  cases first with
  | ok value => exact ⟨value, rfl, ran⟩
  | error cause => contradiction

theorem value_of_mapM_ok {step : α → Except ε β} {items : List α} {values : List β} {item : α}
    (ran : items.mapM step = .ok values) (present : item ∈ items) : ∃ value ∈ values, step item = .ok value := by
  induction items generalizing values with
  | nil => exact absurd present List.not_mem_nil
  | cons first rest ih =>
    rw [List.mapM_cons] at ran
    obtain ⟨value, here, ran⟩ := values_of_bind_ok ran
    obtain ⟨others, there, ran⟩ := values_of_bind_ok ran
    cases ran
    rcases List.mem_cons.mp present with rfl | later
    · exact ⟨value, List.mem_cons_self .., here⟩
    · obtain ⟨other, among, found⟩ := ih there later
      exact ⟨other, List.mem_cons_of_mem _ among, found⟩

theorem mapM_flatten_append (step : α → Except ε (List β)) (items others : List α) :
    (do return (← (items ++ others).mapM step).flatten : Except ε (List β)) = (do
      let first ← (do return (← items.mapM step).flatten : Except ε (List β))
      let second ← (do return (← others.mapM step).flatten : Except ε (List β))
      return first ++ second) := by
  rw [List.mapM_append]
  cases items.mapM step <;> cases others.mapM step <;> simp [bind, Except.bind, pure, Except.pure]

theorem mapM_ok_or_error (step : α → Except ε β) (items : List α) :
    (∃ values, items.mapM step = .ok values ∧ items.map step = values.map .ok) ∨
      ∃ before item after cause, items = before ++ item :: after ∧ (∀ other ∈ before, ∃ value, step other = .ok value) ∧
        step item = .error cause ∧ items.mapM step = .error cause := by
  induction items with
  | nil => exact .inl ⟨[], rfl, rfl⟩
  | cons first rest ih =>
    rw [List.mapM_cons]
    cases head : step first with
    | error cause => exact .inr ⟨[], first, rest, cause, rfl, by simp, head, rfl⟩
    | ok value =>
      rcases ih with ⟨values, ran, same⟩ | ⟨before, item, after, cause, rfl, passed, failed, ran⟩
      · left
        rw [ran, List.map_cons, head, same]
        exact ⟨value :: values, rfl, rfl⟩
      · right
        rw [ran]
        exact ⟨first :: before, item, after, cause, rfl, List.forall_mem_cons.mpr ⟨⟨value, head⟩, passed⟩, failed, rfl⟩

end PhaseCheck
