import MergeOnRead.Reply

/-!
# How calls end

A bounded call ends with its answer if that is there in time, and otherwise with the limit (`Ends`).
What calls that are made one after the other or side by side end with, and when, is told by one
equivalence for each kind of ending.

Main statements: `within_eq_after_iff`, `andThen_eq_after_iff`, `both_eq_ok_iff`,
`both_eq_error_iff`, `both_eq_never_iff`.
-/

namespace MergeOnRead

namespace Reply

variable {α β : Type} {limit : Option Duration} {reply : Reply α} {time : Nat} {e : Error}

/-- How a bounded call ends, on its own clock: with its answer if that is there in time, and
otherwise with the limit. -/
inductive Ends (limit : Option Duration) (reply : Reply α) : Nat → Except Error α → Prop
  | answered {delay : Nat} {result : Except Error α} (hreply : reply = .after delay result)
      (hlimit : ∀ d, limit = some d → delay ≤ d.ticks) : Ends limit reply delay result
  | timedOut {d : Duration} (hlimit : limit = some d)
      (hreply : ∀ delay result, reply = .after delay result → d.ticks < delay) :
      Ends limit reply d.ticks (.error (.unavailable (.timedOut d)))

theorem within_eq_after_iff {result : Except Error α} :
    reply.within limit = .after time result ↔ reply.Ends limit time result := by
  constructor
  · intro h
    cases limit with
    | none => exact .answered h (fun _ hd => nomatch hd)
    | some d =>
      cases reply with
      | never =>
        cases h
        exact .timedOut rfl (fun _ _ hreply => nomatch hreply)
      | after delay result =>
        unfold within at h
        dsimp only at h
        split at h
        · rename_i hlate
          cases h
          exact .timedOut rfl fun _ _ hreply => by cases hreply; exact hlate
        · rename_i hlate
          cases h
          exact .answered rfl fun _ hd => by cases hd; exact Nat.not_lt.1 hlate
  · rintro (⟨rfl, hlimit⟩ | ⟨rfl, hreply⟩)
    · cases limit with
      | none => rfl
      | some d =>
        unfold within
        dsimp only
        rw [if_neg (Nat.not_lt.2 (hlimit d rfl))]
    · cases reply with
      | never => rfl
      | after delay result =>
        unfold within
        dsimp only
        rw [if_pos (hreply delay result rfl)]

theorem within_eq_never_iff : reply.within limit = .never ↔ limit = none ∧ reply = .never := by
  cases limit with
  | none => simp [within]
  | some d =>
    cases reply with
    | never => simp [within]
    | after delay result =>
      unfold within
      dsimp only
      split <;> simp

theorem Ends.le {d : Duration} {result : Except Error α} (h : reply.Ends (some d) time result) :
    time ≤ d.ticks := by
  cases h with
  | answered _ hlimit => exact hlimit d rfl
  | timedOut hlimit _ =>
    cases hlimit
    exact Nat.le_refl _

/-- A bounded call ends in one way only. -/
theorem Ends.unique {time' : Nat} {result result' : Except Error α}
    (h : reply.Ends limit time result) (h' : reply.Ends limit time' result') :
    time = time' ∧ result = result' := by
  have heq := (within_eq_after_iff.2 h).symm.trans (within_eq_after_iff.2 h')
  exact ⟨(after.inj heq).1, (after.inj heq).2⟩

/-- An answer without any waiting is always in time. -/
theorem ends_now_iff {result result' : Except Error α} :
    (now result).Ends limit time result' ↔ time = 0 ∧ result' = result := by
  have hnow : (now result).Ends limit 0 result := .answered rfl fun d _ => Nat.zero_le d.ticks
  constructor
  · intro h
    exact h.unique hnow
  · rintro ⟨rfl, rfl⟩
    exact hnow

theorem andThen_eq_never_iff {first : Reply α} {second : α → Reply β} :
    first.andThen second = .never ↔
      first = .never ∨ ∃ start a, first = .after start (.ok a) ∧ second a = .never := by
  rcases first with _ | ⟨start, e | a⟩
  · simp [andThen]
  · simp [andThen]
  · simp only [after.injEq, Except.ok.injEq, reduceCtorEq, false_or]
    constructor
    · intro h
      refine ⟨start, a, ⟨rfl, rfl⟩, ?_⟩
      cases hsecond : second a with
      | never => rfl
      | after more result => simp [andThen, hsecond] at h
    · rintro ⟨_, _, ⟨rfl, rfl⟩, h⟩
      simp [andThen, h]

theorem andThen_eq_after_iff {first : Reply α} {second : α → Reply β} {result : Except Error β} :
    first.andThen second = .after time result ↔
      (∃ e, first = .after time (.error e) ∧ result = .error e) ∨
        ∃ start a more, first = .after start (.ok a) ∧ second a = .after more result ∧
          start + more = time := by
  rcases first with _ | ⟨start, e | a⟩
  · simp [andThen]
  · simp [andThen, eq_comm, and_assoc]
  · simp only [after.injEq, Except.ok.injEq, reduceCtorEq, and_false, false_and, exists_false,
      false_or]
    constructor
    · intro h
      cases hsecond : second a with
      | never => simp [andThen, hsecond] at h
      | after more later =>
        simp only [andThen, hsecond, after.injEq] at h
        obtain ⟨rfl, rfl⟩ := h
        exact ⟨start, a, more, ⟨rfl, rfl⟩, hsecond, rfl⟩
    · rintro ⟨_, _, more, ⟨rfl, rfl⟩, h, rfl⟩
      simp [andThen, h]

variable {left : Reply α} {right : Reply β}

theorem both_eq_ok_iff {a : α} {b : β} :
    left.both right = .after time (.ok (a, b)) ↔
      ∃ t₁ t₂, left = .after t₁ (.ok a) ∧ right = .after t₂ (.ok b) ∧ max t₁ t₂ = time := by
  rcases left with _ | ⟨d₁, e₁ | a'⟩ <;> rcases right with _ | ⟨d₂, e₂ | b'⟩
  case after.ok.after.ok =>
    simp only [both, after.injEq, Except.ok.injEq, Prod.mk.injEq]
    constructor
    · rintro ⟨h, rfl, rfl⟩
      refine ⟨d₁, d₂, ⟨rfl, rfl⟩, ⟨rfl, rfl⟩, ?_⟩
      split at h <;> omega
    · rintro ⟨_, _, ⟨rfl, rfl⟩, ⟨rfl, rfl⟩, h⟩
      refine ⟨?_, rfl, rfl⟩
      split <;> omega
  case after.error.after.error =>
    unfold both
    dsimp only
    split <;> simp
  all_goals simp [both]

/-- The earlier failure ends both calls, the left one if both fail at the same tick. -/
theorem both_eq_error_iff :
    left.both right = .after time (.error e) ↔
      left = .after time (.error e) ∧ (∀ t e', right = .after t (.error e') → time ≤ t) ∨
        right = .after time (.error e) ∧ ∀ t e', left = .after t (.error e') → time < t := by
  rcases left with _ | ⟨d₁, e₁ | a'⟩ <;> rcases right with _ | ⟨d₂, e₂ | b'⟩
  case after.error.after.error =>
    unfold both
    dsimp only
    split
    · rename_i hlt
      constructor
      · intro h
        cases h
        exact .inr ⟨rfl, fun _ _ hleft => by cases hleft; exact hlt⟩
      · rintro (⟨hleft, hright⟩ | ⟨hright, -⟩)
        · cases hleft
          exact absurd hlt (Nat.not_lt.2 (hright d₂ e₂ rfl))
        · cases hright
          rfl
    · rename_i hle
      constructor
      · intro h
        cases h
        exact .inl ⟨rfl, fun _ _ hright => by cases hright; exact Nat.not_lt.1 hle⟩
      · rintro (⟨hleft, -⟩ | ⟨hright, hleft⟩)
        · cases hleft
          rfl
        · cases hright
          exact absurd (hleft d₁ e₁ rfl) hle
  all_goals simp [both]

theorem both_eq_never_iff :
    left.both right = .never ↔
      (left = .never ∨ right = .never) ∧ (∀ t e, left ≠ .after t (.error e)) ∧
        ∀ t e, right ≠ .after t (.error e) := by
  rcases left with _ | ⟨d₁, e₁ | a'⟩ <;> rcases right with _ | ⟨d₂, e₂ | b'⟩
  case after.error.after.error =>
    unfold both
    dsimp only
    split <;> simp
  all_goals simp [both]

end Reply

end MergeOnRead
