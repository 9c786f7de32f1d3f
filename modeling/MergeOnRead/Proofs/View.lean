import MergeOnRead.View

/-!
# Why a view cannot be loaded

Loading a view makes up to three calls to the table store. If it fails, then one of these calls did,
or one took longer than the limit: no other error comes in.

Main statement: `Source.cases_of_tableView_error`.
-/

namespace MergeOnRead

namespace Reply

variable {α β : Type} {e : Error}

theorem result?_within_error {limit : Option Duration} {reply : Reply α}
    (h : (reply.within limit).result? = some (.error e)) :
    reply.result? = some (.error e) ∨ ∃ limit, e = .unavailable (.timedOut limit) := by
  cases limit with
  | none => exact .inl h
  | some limit =>
    cases reply with
    | never =>
      cases h
      exact .inr ⟨limit, rfl⟩
    | after delay result =>
      unfold within at h
      dsimp only at h
      split at h
      · cases h
        exact .inr ⟨limit, rfl⟩
      · exact .inl h

theorem result?_andThen_error {first : Reply α} {second : α → Reply β}
    (h : (first.andThen second).result? = some (.error e)) :
    first.result? = some (.error e) ∨
      ∃ a, first.result? = some (.ok a) ∧ (second a).result? = some (.error e) := by
  cases first with
  | never => cases h
  | after delay result =>
    cases result with
    | error e' =>
      cases h
      exact .inl rfl
    | ok a =>
      refine .inr ⟨a, rfl, ?_⟩
      unfold andThen at h
      dsimp only at h
      cases hsecond : second a with
      | never =>
        rw [hsecond] at h
        cases h
      | after more result =>
        rw [hsecond] at h
        exact h

theorem result?_andThen_of_ok {first : Reply α} {second : α → Reply β} {a : α}
    (h : first.result? = some (.ok a)) : (first.andThen second).result? = (second a).result? := by
  cases first with
  | never => cases h
  | after delay result =>
    cases h
    unfold andThen
    dsimp only
    cases second a with
    | never => rfl
    | after more result => rfl

theorem result?_andThen_of_error {first : Reply α} {second : α → Reply β}
    (h : first.result? = some (.error e)) : (first.andThen second).result? = some (.error e) := by
  cases first with
  | never => cases h
  | after delay result =>
    cases h
    rfl

theorem result?_andThen_of_none {first : Reply α} {second : α → Reply β}
    (h : first.result? = none) : (first.andThen second).result? = none := by
  cases first with
  | never => rfl
  | after delay result => cases h

/-- A call that is followed by one that answers at once has its answer turned into another. -/
theorem result?_andThen_now (reply : Reply α) (f : α → β) :
    (reply.andThen fun a => .now (.ok (f a))).result? = reply.result?.map (Except.map f) := by
  cases reply with
  | never => rfl
  | after delay result => cases result <;> rfl

theorem result?_both_error {left : Reply α} {right : Reply β}
    (h : (left.both right).result? = some (.error e)) :
    left.result? = some (.error e) ∨ right.result? = some (.error e) := by
  unfold both at h
  split at h
  · cases h
    exact .inr rfl
  · cases h
    exact .inl rfl
  -- if both fail, the earlier failure is the one that is seen
  · split at h
    · cases h
      exact .inr rfl
    · cases h
      exact .inl rfl
  · cases h
    exact .inl rfl
  · cases h
    exact .inr rfl
  · cases h
  · cases h
  · cases h

end Reply

open Reply

/-- If a view cannot be loaded, then one of the calls to the table store failed, or timed out. -/
theorem Source.cases_of_tableView_error {source : Source} {limit : Option Duration} {e : Error}
    (h : (source.tableView limit).result? = some (.error e)) :
    (source.hasSide .change).result? = some (.error e) ∨
      (∃ side, (source.view side).result? = some (.error e)) ∨
      ∃ limit, e = .unavailable (.timedOut limit) := by
  unfold tableView at h
  rcases result?_andThen_error h with h | ⟨sides, -, h⟩
  · rcases result?_both_error h with h | h
    · rcases result?_within_error h with h | h
      · exact .inr (.inl ⟨.base, h⟩)
      · exact .inr (.inr h)
    · unfold changeView at h
      rcases result?_andThen_error h with h | ⟨present, -, h⟩
      · rcases result?_within_error h with h | h
        · exact .inl h
        · exact .inr (.inr h)
      · cases present with
        | false => cases h
        | true =>
          rcases result?_within_error h with h | h
          · exact .inr (.inl ⟨.change, h⟩)
          · exact .inr (.inr h)
  · cases h

theorem Store.cases_of_view_error {s : Store} {side : Side} {e : Error}
    (h : s.view side = .error e) :
    e = .notFound (.side side) ∨ e = .unavailable (.unreachable side) := by
  unfold view reach at h
  cases hstate : s.side? side with
  | none =>
    rw [hstate] at h
    cases h
    exact .inl rfl
  | some state =>
    rw [hstate] at h
    dsimp only at h
    split at h
    · cases h
      exact .inr rfl
    · cases h

/-- A store in memory binds no predicates, so loading a view of it never fails in this way. -/
theorem Store.tableView_ne_unbound (s : Store) (limit : Option Duration) (e : BindError) :
    (s.source.tableView limit).result? ≠ some (.error (.unbound e)) := by
  intro h
  rcases Source.cases_of_tableView_error h with h | ⟨side, h⟩ | ⟨limit, h⟩
  · cases h
  · have hview : s.view side = .error (.unbound e) := Option.some.inj h
    rcases cases_of_view_error hview with h | h
    · cases h
    · cases h
  · cases h

end MergeOnRead
