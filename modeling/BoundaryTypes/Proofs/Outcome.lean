/-
  `Outcome` — when a sequence of steps ends well.

  A chain of steps gives a result exactly when each step of it does. The first group
  says so for results that may be a fault, the second for steps that also change a
  state.
-/

namespace BoundaryTypes.Outcome

variable {ε σ α β : Type}

/-! ### Results that may be a fault -/

theorem map_eq_ok {x : Except ε α} {f : α → β} {b : β} :
    x.map f = .ok b ↔ ∃ a, x = .ok a ∧ f a = b := by
  constructor
  · intro h
    match x, h with
    | .ok a, h => exact ⟨a, rfl, Except.ok.inj h⟩
  · rintro ⟨a, rfl, rfl⟩
    rfl

/-- If the only result of a step is `b`, and that under the condition `p`, so it is after a map. -/
theorem map_eq_ok_iff {x : Except ε α} {f : α → β} {b : α} {p : Prop}
    (h : ∀ a, x = .ok a ↔ a = b ∧ p) (c : β) : x.map f = .ok c ↔ c = f b ∧ p := by
  rw [map_eq_ok]
  constructor
  · rintro ⟨a, ha, rfl⟩
    obtain ⟨rfl, hp⟩ := (h a).1 ha
    exact ⟨rfl, hp⟩
  · rintro ⟨rfl, hp⟩
    exact ⟨b, (h b).2 ⟨rfl, hp⟩, rfl⟩

/-- A sequence ends well exactly when both its steps do. -/
theorem bind_eq_ok {x : Except ε α} {f : α → Except ε β} {b : β} :
    (x >>= f) = .ok b ↔ ∃ a, x = .ok a ∧ f a = .ok b := by
  constructor
  · intro h
    match x, h with
    | .ok a, h => exact ⟨a, rfl, h⟩
  · rintro ⟨a, rfl, h⟩
    exact h

theorem ok_bind (a : α) (f : α → Except ε β) : (Except.ok a >>= f) = f a := rfl

@[simp] theorem mapError_ok {ε' : Type} (a : α) (f : ε → ε') :
    (Except.ok a).mapError f = .ok a := rfl

@[simp] theorem mapError_error {ε' : Type} (e : ε) (f : ε → ε') :
    (Except.error e : Except ε α).mapError f = .error (f e) := rfl

/-- A fault that is told otherwise leaves good ends as they are. -/
theorem mapError_eq_ok {ε' : Type} {x : Except ε α} {f : ε → ε'} {a : α} :
    x.mapError f = .ok a ↔ x = .ok a := by
  cases x with
  | ok b => simp
  | error e => simp

theorem except_map_bind {γ : Type} (x : Except ε α) (f : α → Except ε β) (g : β → γ) :
    (x >>= f).map g = x >>= fun a => (f a).map g := by
  cases x <;> rfl

/-! ### Steps that change a state -/

/-- A sequence ends well exactly when both its steps do, the second from the state that the first
leaves. -/
theorem bind_run_eq_ok {x : EStateM ε σ α} {f : α → EStateM ε σ β} {s s' : σ} {b : β} :
    (x >>= f) s = .ok b s' ↔ ∃ a t, x s = .ok a t ∧ f a t = .ok b s' := by
  show EStateM.bind x f s = _ ↔ _
  unfold EStateM.bind
  cases h : x s with
  | error e t => simp
  | ok a t =>
    constructor
    · intro hf
      exact ⟨a, t, rfl, hf⟩
    · rintro ⟨_, _, heq, hf⟩
      cases heq
      exact hf

/-- A sequence fails with its first step, or with its second from the state that the first leaves.
-/
theorem bind_run_eq_error {x : EStateM ε σ α} {f : α → EStateM ε σ β} {s s' : σ} {e : ε} :
    (x >>= f) s = .error e s' ↔
      x s = .error e s' ∨ ∃ a t, x s = .ok a t ∧ f a t = .error e s' := by
  show EStateM.bind x f s = _ ↔ _
  unfold EStateM.bind
  cases h : x s with
  | error e t => simp
  | ok a t =>
    constructor
    · intro hf
      exact .inr ⟨a, t, rfl, hf⟩
    · rintro (hx | ⟨_, _, heq, hf⟩)
      · cases hx
      · cases heq
        exact hf

/-- What follows a step that ends well starts from the state that the step leaves. -/
theorem bind_run_of_ok {x : EStateM ε σ α} (f : α → EStateM ε σ β) {s t : σ} {a : α}
    (h : x s = .ok a t) : (x >>= f) s = f a t := by
  show EStateM.bind x f s = _
  rw [EStateM.bind, h]

/-- Nothing follows a step that ends in a fault. -/
theorem bind_run_of_error {x : EStateM ε σ α} (f : α → EStateM ε σ β) {s t : σ} {e : ε}
    (h : x s = .error e t) : (x >>= f) s = .error e t := by
  show EStateM.bind x f s = _
  rw [EStateM.bind, h]

theorem pure_run_eq_ok {a b : α} {s s' : σ} :
    (pure a : EStateM ε σ α) s = .ok b s' ↔ a = b ∧ s = s' := by
  show EStateM.Result.ok a s = _ ↔ _
  rw [EStateM.Result.ok.injEq]

theorem modify_run (f : σ → σ) (s : σ) : (modify f : EStateM ε σ PUnit) s = .ok ⟨⟩ (f s) := rfl

theorem modify_run_eq_ok {f : σ → σ} {u : PUnit} {s s' : σ} :
    (modify f : EStateM ε σ PUnit) s = .ok u s' ↔ f s = s' := by
  rw [modify_run]
  simp

end BoundaryTypes.Outcome
