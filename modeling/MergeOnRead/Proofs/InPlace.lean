import MergeOnRead.InPlace

/-!
# What steps in place leave

A step either reads only, or cannot fail, or is made of such steps. If all that may fail comes before
the first change, then a step that fails has changed nothing (`KeepsOnFailure.after_reads`,
`KeepsOnFailure.before_total`).
-/

namespace MergeOnRead.InPlace

variable {σ τ α β : Type} {step : InPlace σ α} {next : α → InPlace σ β} {s s' : σ} {a : α} {b : β}
  {e : Error}

/-! ## Runs -/

theorem run_bind_of_ok (h : step.run s = .ok a s') (next : α → InPlace σ β) :
    (step >>= next).run s = (next a).run s' := by
  change EStateM.bind step next s = _
  unfold EStateM.bind
  rw [show step s = .ok a s' from h]
  rfl

theorem run_bind_of_error (h : step.run s = .error e s') (next : α → InPlace σ β) :
    (step >>= next).run s = .error e s' := by
  change EStateM.bind step next s = _
  unfold EStateM.bind
  rw [show step s = .error e s' from h]

/-- A step after another succeeds on what the first leaves if it succeeds. -/
theorem run_bind_eq_ok_iff :
    (step >>= next).run s = .ok b s' ↔
      ∃ a mid, step.run s = .ok a mid ∧ (next a).run mid = .ok b s' := by
  cases h : step.run s with
  | ok a mid =>
    rw [run_bind_of_ok h]
    constructor
    · exact fun hb => ⟨a, mid, rfl, hb⟩
    · rintro ⟨a', mid', heq, hb⟩
      cases heq
      exact hb
  | error e mid =>
    rw [run_bind_of_error h]
    simp

theorem run_get_bind (next : σ → InPlace σ β) : ((get : InPlace σ σ) >>= next).run s = (next s).run s :=
  rfl

theorem run_ofExcept_bind_of_ok {result : Except Error α} (h : result = .ok a)
    (next : α → InPlace σ β) :
    ((ofExcept result : InPlace σ α) >>= next).run s = (next a).run s := by
  rw [h]
  rfl

/-- A step after a check succeeds if the check does and the step itself. -/
theorem run_ofExcept_bind_eq_ok_iff {result : Except Error α} :
    ((ofExcept result : InPlace σ α) >>= next).run s = .ok b s' ↔
      ∃ a, result = .ok a ∧ (next a).run s = .ok b s' := by
  cases result with
  | error e =>
    change EStateM.Result.error e s = _ ↔ _
    simp
  | ok a =>
    rw [run_ofExcept_bind_of_ok rfl]
    simp

/-- What comes after a test is run if the test is passed. -/
theorem run_check_eq_ok_iff {c : Prop} [Decidable c] {next : Unit → InPlace σ β} :
    (if c then throw e >>= next else next ()).run s = .ok b s' ↔
      ¬c ∧ (next ()).run s = .ok b s' := by
  by_cases hc : c
  · rw [if_pos hc]
    change EStateM.Result.error e s = _ ↔ _
    simp [hc]
  · simp [hc]

theorem run_onPart_of_ok {part : σ → τ} {step : InPlace τ α} {t : τ}
    (h : step.run (part s) = .ok a t) (put : σ → τ → σ) :
    (step.onPart part put).run s = .ok a (put s t) := by
  change onPart part put step s = _
  rw [onPart, h]

theorem run_onPart_of_error {part : σ → τ} {step : InPlace τ α} {t : τ}
    (h : step.run (part s) = .error e t) (put : σ → τ → σ) :
    (step.onPart part put).run s = .error e (put s t) := by
  change onPart part put step s = _
  rw [onPart, h]

theorem run_onPart_eq_ok_iff {part : σ → τ} {put : σ → τ → σ} {step : InPlace τ α} :
    (step.onPart part put).run s = .ok a s' ↔
      ∃ t, step.run (part s) = .ok a t ∧ s' = put s t := by
  cases h : step.run (part s) with
  | ok a' t =>
    rw [run_onPart_of_ok h]
    constructor
    · rintro ⟨⟩
      exact ⟨t, rfl, rfl⟩
    · rintro ⟨t', heq, rfl⟩
      cases heq
      rfl
  | error e t =>
    rw [run_onPart_of_error h]
    simp

/-- If the next step cannot fail, then the first decides whether both succeed. -/
theorem exists_run_bind_eq_ok_iff (hnext : ∀ a s, ∃ b s', (next a).run s = .ok b s') :
    (∃ b s', (step >>= next).run s = .ok b s') ↔ ∃ a s', step.run s = .ok a s' := by
  simp only [run_bind_eq_ok_iff]
  constructor
  · rintro ⟨b, s', a, mid, h, -⟩
    exact ⟨a, mid, h⟩
  · rintro ⟨a, mid, h⟩
    obtain ⟨b, s', hb⟩ := hnext a mid
    exact ⟨b, s', a, mid, h, hb⟩

theorem exists_run_onPart_eq_ok_iff {part : σ → τ} {put : σ → τ → σ} {step : InPlace τ α} :
    (∃ a s', (step.onPart part put).run s = .ok a s') ↔ ∃ a t, step.run (part s) = .ok a t := by
  simp only [run_onPart_eq_ok_iff]
  constructor
  · rintro ⟨a, s', t, h, -⟩
    exact ⟨a, t, h⟩
  · rintro ⟨a, t, h⟩
    exact ⟨a, put s t, t, h, rfl⟩

theorem result_eq_ok_iff : step.result s = .ok (a, s') ↔ step.run s = .ok a s' := by
  unfold result
  cases step.run s <;> simp

theorem result_of_run_error (h : step.run s = .error e s') : step.result s = .error e := by
  rw [result, h]

/-! ## Steps that read, and steps that do not fail -/

/-- A step that leaves the state as it is. -/
def Reads (step : InPlace σ α) : Prop :=
  ∀ s, (∃ a, step.run s = .ok a s) ∨ ∃ e, step.run s = .error e s

/-- A step that does not fail. -/
def Total (step : InPlace σ α) : Prop := ∀ s, ∃ a s', step.run s = .ok a s'

/-- A step that has changed nothing if it fails. -/
def KeepsOnFailure (step : InPlace σ α) : Prop := ∀ ⦃s e s'⦄, step.run s = .error e s' → s' = s

theorem reads_pure (a : α) : Reads (pure a : InPlace σ α) := fun _ => .inl ⟨a, rfl⟩

theorem reads_get : Reads (get : InPlace σ σ) := fun s => .inl ⟨s, rfl⟩

theorem reads_throw (e : Error) : Reads (throw e : InPlace σ α) := fun _ => .inr ⟨e, rfl⟩

theorem reads_ofExcept : (result : Except Error α) → Reads (ofExcept result : InPlace σ α)
  | .ok a => reads_pure a
  | .error e => reads_throw e

theorem total_pure (a : α) : Total (pure a : InPlace σ α) := fun s => ⟨a, s, rfl⟩

theorem total_get : Total (get : InPlace σ σ) := fun s => ⟨s, s, rfl⟩

theorem total_modifyGet (f : σ → α × σ) : Total (modifyGet f : InPlace σ α) :=
  fun s => ⟨(f s).1, (f s).2, rfl⟩

theorem total_modify (f : σ → σ) : Total (modify f : InPlace σ Unit) := total_modifyGet _

theorem Reads.bind (h : Reads step) (hnext : ∀ a, Reads (next a)) : Reads (step >>= next) := by
  intro s
  rcases h s with ⟨a, ha⟩ | ⟨e, he⟩
  · rw [run_bind_of_ok ha]
    exact hnext a s
  · exact .inr ⟨e, run_bind_of_error he next⟩

theorem Total.bind (h : Total step) (hnext : ∀ a, Total (next a)) : Total (step >>= next) := by
  intro s
  obtain ⟨a, mid, ha⟩ := h s
  rw [run_bind_of_ok ha]
  exact hnext a mid

/-- A step on a part of the state that does not fail does not fail on the whole. -/
theorem Total.onPart {part : σ → τ} {put : σ → τ → σ} {step : InPlace τ α} (h : Total step) :
    Total (step.onPart part put) := by
  intro s
  obtain ⟨a, t, ha⟩ := h (part s)
  exact ⟨a, put s t, run_onPart_of_ok ha put⟩

theorem Reads.keepsOnFailure (h : Reads step) : KeepsOnFailure step := by
  intro s e s' he
  rcases h s with ⟨a, ha⟩ | ⟨e', he'⟩
  · rw [ha] at he
    cases he
  · rw [he'] at he
    cases he
    rfl

theorem Total.keepsOnFailure (h : Total step) : KeepsOnFailure step := by
  intro s e s' he
  obtain ⟨a, mid, ha⟩ := h s
  rw [ha] at he
  cases he

namespace KeepsOnFailure

/-- What fails after steps that only read has changed nothing if it keeps the state itself. -/
theorem after_reads (h : Reads step) (hnext : ∀ a, KeepsOnFailure (next a)) :
    KeepsOnFailure (step >>= next) := by
  intro s e s' he
  rcases h s with ⟨a, ha⟩ | ⟨e', he'⟩
  · rw [run_bind_of_ok ha] at he
    exact hnext a he
  · rw [run_bind_of_error he'] at he
    cases he
    rfl

/-- A check that fails ends the step. -/
theorem after_check {c : Prop} [Decidable c] {next : Unit → InPlace σ β}
    (hnext : ¬c → KeepsOnFailure (next ())) :
    KeepsOnFailure (if c then throw e >>= next else next ()) := by
  split
  · intro s e' s' he
    cases he
    rfl
  · rename_i hc
    exact hnext hc

/-- What cannot fail any more may change the state. -/
theorem before_total (h : KeepsOnFailure step) (hnext : ∀ a, Total (next a)) :
    KeepsOnFailure (step >>= next) := by
  intro s e s' he
  cases hstep : step.run s with
  | ok a mid =>
    obtain ⟨b, last, hb⟩ := hnext a mid
    rw [run_bind_of_ok hstep, hb] at he
    cases he
  | error e' mid =>
    rw [run_bind_of_error hstep] at he
    cases he
    exact h hstep

/-- A part that is kept leaves the whole as it is. -/
theorem onPart {part : σ → τ} {put : σ → τ → σ} {step : InPlace τ α} (h : KeepsOnFailure step)
    (hput : ∀ s, put s (part s) = s) : KeepsOnFailure (step.onPart part put) := by
  intro s e s' he
  cases hstep : step.run (part s) with
  | ok a t =>
    rw [run_onPart_of_ok hstep] at he
    cases he
  | error e' t =>
    rw [run_onPart_of_error hstep, h hstep, hput] at he
    cases he
    rfl

end KeepsOnFailure

end MergeOnRead.InPlace
