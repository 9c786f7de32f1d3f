import MergeOnRead.Proofs.Reply

/-!
# Replies as they are polled

Whoever waits for a call asks it at one tick after the other whether its answer is there, and goes
on with the first answer found. To ask a bounded call is to ask the call and then the clock; to ask
for a call after another is to ask the other until its answer is there, and from then on the call;
to ask two calls that are made side by side is to ask the left one and then the right one, up to the
first error. What such questions find (`Finds`) is what `Reply.within`, `Reply.andThen` and
`Reply.both` answer, at the tick when these answer.

Main statements: `Finds.within`, `Finds.andThen`, `Finds.both`.
-/

namespace MergeOnRead.Reply

variable {α β : Type}

/-- What is found at each tick since the start when a call is asked for its answer. -/
abbrev Polls (α : Type) := Nat → Option (Except Error α)

/-- The first answer that was found up to a tick, and when it was found. -/
def Polls.seen (polls : Polls α) : Nat → Option (Nat × Except Error α)
  | 0 => (polls 0).map fun result => (0, result)
  | tick + 1 =>
    match seen polls tick with
    | some found => some found
    | none => (polls (tick + 1)).map fun result => (tick + 1, result)

/-- Asks a call: its answer is there from its tick on. -/
def poll (reply : Reply α) : Polls α := fun tick =>
  match reply with
  | never => none
  | after delay result => if delay ≤ tick then some result else none

/-- Asks a bounded call, and then the clock whether the limit is over. -/
def pollWithin (limit : Option Duration) (polls : Polls α) : Polls α := fun tick =>
  match polls tick, limit with
  | some result, _ => some result
  | none, none => none
  | none, some d =>
    if d.nanos ≤ (Duration.ofMillis tick).nanos then some (.error (.unavailable (.timedOut d)))
    else none

/-- Asks a call until its answer is there, and from then on the call that is made after it. -/
def pollAndThen (first : Polls α) (second : α → Polls β) : Polls β := fun tick =>
  match first.seen tick with
  | none => none
  | some (_, .error e) => some (.error e)
  | some (start, .ok a) => second a (tick - start)

/-- Asks two calls, the left one first, and stops at the first error. -/
def pollBoth (left : Polls α) (right : Polls β) : Polls (α × β) := fun tick =>
  match left.seen tick with
  | some (_, .error e) => some (.error e)
  | some (_, .ok a) =>
    match right.seen tick with
    | some (_, .error e) => some (.error e)
    | some (_, .ok b) => some (.ok (a, b))
    | none => none
  | none =>
    match right.seen tick with
    | some (_, .error e) => some (.error e)
    | _ => none

/-- The first answer that is found by asking at one tick after the other. -/
def FirstFound (polls : Polls α) (time : Nat) (result : Except Error α) : Prop :=
  polls time = some result ∧ ∀ tick, tick < time → polls tick = none

/-- Questions that find what a reply answers, at its tick, and nothing if it does not answer. -/
def Finds (polls : Polls α) (reply : Reply α) : Prop :=
  ∀ time result, FirstFound polls time result ↔ reply = .after time result

variable {polls : Polls α} {reply : Reply α} {time tick : Nat} {result : Except Error α}

theorem FirstFound.unique {time' : Nat} {result' : Except Error α}
    (h : FirstFound polls time result) (h' : FirstFound polls time' result') :
    time = time' ∧ result = result' := by
  obtain ⟨hfound, hnone⟩ := h
  obtain ⟨hfound', hnone'⟩ := h'
  have htime : time = time' := by
    rcases Nat.lt_trichotomy time time' with hlt | heq | hlt
    · exact nomatch hfound.symm.trans (hnone' time hlt)
    · exact heq
    · exact nomatch hfound'.symm.trans (hnone time' hlt)
  subst htime
  exact ⟨rfl, Option.some.inj (hfound.symm.trans hfound')⟩

/-- Nothing is seen as long as nothing is found. -/
theorem Polls.seen_eq_none_iff : polls.seen tick = none ↔ ∀ t, t ≤ tick → polls t = none := by
  induction tick with
  | zero => simp [seen]
  | succ tick ih =>
    simp only [seen, Nat.le_succ_iff, or_imp, forall_and, forall_eq]
    split
    · rename_i found hseen
      rw [← ih, hseen]
      simp
    · rename_i hseen
      rw [← ih, hseen]
      simp

/-- What is seen is the first answer that is found. -/
theorem Polls.seen_eq_some_iff :
    polls.seen tick = some (time, result) ↔ time ≤ tick ∧ FirstFound polls time result := by
  induction tick generalizing time result with
  | zero =>
    simp only [seen, Option.map_eq_some_iff, Prod.mk.injEq, Nat.le_zero_eq]
    constructor
    · rintro ⟨answer, hfound, rfl, rfl⟩
      exact ⟨rfl, hfound, fun t ht => absurd ht (Nat.not_lt_zero t)⟩
    · rintro ⟨rfl, hfound, -⟩
      exact ⟨result, hfound, rfl, rfl⟩
  | succ tick ih =>
    unfold seen
    split
    · rename_i found hseen
      obtain ⟨hle, hfirst⟩ := ih.1 hseen
      constructor
      · intro h
        cases h
        exact ⟨Nat.le_succ_of_le hle, hfirst⟩
      · rintro ⟨-, hfirst'⟩
        obtain ⟨htime, hresult⟩ := hfirst.unique hfirst'
        rw [← htime, ← hresult]
    · rename_i hseen
      rw [seen_eq_none_iff] at hseen
      rw [Option.map_eq_some_iff]
      constructor
      · rintro ⟨answer, hfound, h⟩
        cases h
        exact ⟨Nat.le_refl _, hfound, fun t ht => hseen t (Nat.lt_succ_iff.1 ht)⟩
      · rintro ⟨hle, hfound, -⟩
        -- nothing was found before, so this is the tick
        have htime : time = tick + 1 := by
          refine Nat.le_antisymm hle (Nat.lt_of_not_le fun hearly => ?_)
          exact nomatch hfound.symm.trans (hseen time hearly)
        subst htime
        exact ⟨result, hfound, rfl⟩

/-! ## One call -/

/-- Questions find the answer of a reply if they do so at its tick, and find nothing if there is
none. -/
theorem finds_of_firstFound
    (hafter : ∀ delay answer, reply = .after delay answer → FirstFound polls delay answer)
    (hnever : reply = .never → ∀ tick, polls tick = none) : Finds polls reply := by
  intro time result
  constructor
  · intro h
    cases hreply : reply with
    | never => exact nomatch h.1.symm.trans (hnever hreply time)
    | after delay answer =>
      obtain ⟨rfl, rfl⟩ := (hafter delay answer hreply).unique h
      rfl
  · exact hafter time result

theorem finds_poll (reply : Reply α) : Finds reply.poll reply := by
  refine finds_of_firstFound ?_ ?_
  · rintro delay answer rfl
    exact ⟨if_pos (Nat.le_refl _), fun tick htick => if_neg (Nat.not_le.2 htick)⟩
  · rintro rfl tick
    rfl

theorem Finds.seen_eq_some_iff (h : Finds polls reply) :
    polls.seen tick = some (time, result) ↔ time ≤ tick ∧ reply = .after time result := by
  rw [Polls.seen_eq_some_iff, h]

theorem Finds.seen_eq_none_iff (h : Finds polls reply) :
    polls.seen tick = none ↔ ∀ delay answer, reply = .after delay answer → tick < delay := by
  constructor
  · intro hnone delay answer hreply
    refine Nat.lt_of_not_le fun hle => ?_
    exact nomatch hnone.symm.trans (h.seen_eq_some_iff.2 ⟨hle, hreply⟩)
  · intro hlate
    cases hseen : polls.seen tick with
    | none => rfl
    | some found =>
      obtain ⟨hle, hreply⟩ := h.seen_eq_some_iff.1 hseen
      exact absurd hle (Nat.not_le.2 (hlate _ _ hreply))

/-- Nothing is found before the answer is there. -/
theorem Finds.eq_none (h : Finds polls reply)
    (hlate : ∀ delay answer, reply = .after delay answer → tick < delay) : polls tick = none :=
  Polls.seen_eq_none_iff.1 (h.seen_eq_none_iff.2 hlate) tick (Nat.le_refl _)

section

variable {limit : Option Duration}

/-- Nothing is found before the answer is there or the limit is over. -/
theorem pollWithin_eq_none (hcall : polls tick = none)
    (hclock : ∀ d, limit = some d → tick < d.ticks) : pollWithin limit polls tick = none := by
  unfold pollWithin
  rw [hcall]
  cases limit with
  | none => rfl
  | some d =>
    have hearly : ¬ d.nanos ≤ (Duration.ofMillis tick).nanos := by
      rw [← Duration.ticks_le_iff]
      exact Nat.not_le.2 (hclock d rfl)
    dsimp only
    rw [if_neg hearly]

/-- The questions to a bounded call find what `within` answers: a limit is over at its last tick,
and an answer that is there by then is found first. -/
theorem Finds.within (h : Finds polls reply) (limit : Option Duration) :
    Finds (pollWithin limit polls) (reply.within limit) := by
  refine finds_of_firstFound ?_ ?_
  · intro delay answer hwithin
    cases within_eq_after_iff.1 hwithin with
    | answered hreply hlimit =>
      obtain ⟨hfound, hbefore⟩ := (h delay answer).2 hreply
      constructor
      · unfold pollWithin
        rw [hfound]
      · intro tick htick
        exact pollWithin_eq_none (hbefore tick htick) fun d hd =>
          Nat.lt_of_lt_of_le htick (hlimit d hd)
    | @timedOut d hlimit hreply =>
      subst hlimit
      constructor
      · unfold pollWithin
        rw [h.eq_none hreply]
        dsimp only
        rw [if_pos (Duration.ticks_le_iff.1 (Nat.le_refl _))]
      · intro tick htick
        refine pollWithin_eq_none
          (h.eq_none fun _ _ hlate => Nat.lt_trans htick (hreply _ _ hlate)) fun _ hd => ?_
        cases hd
        exact htick
  · intro hnever tick
    obtain ⟨rfl, rfl⟩ := within_eq_never_iff.1 hnever
    exact pollWithin_eq_none (h.eq_none fun _ _ hreply => nomatch hreply) fun _ hd => nomatch hd

end

/-! ## One call after another -/

section

variable {first : Polls α} {second : α → Polls β} {next : α → Reply β} {start : Nat} {a : α}

theorem pollAndThen_eq_none (hseen : first.seen tick = none) :
    pollAndThen first second tick = none := by
  unfold pollAndThen
  rw [hseen]

/-- After a call that succeeds the second call is asked, on its own clock. -/
theorem pollAndThen_of_ok (h : Finds first (.after start (.ok a))) :
    pollAndThen first second tick = if start ≤ tick then second a (tick - start) else none := by
  split
  · rename_i hle
    unfold pollAndThen
    rw [h.seen_eq_some_iff.2 ⟨hle, rfl⟩]
  · rename_i hearly
    refine pollAndThen_eq_none (h.seen_eq_none_iff.2 fun _ _ hreply => ?_)
    cases hreply
    exact Nat.lt_of_not_le hearly

/-- The questions to calls that are made one after the other find what `andThen` answers. -/
theorem Finds.andThen (hfirst : Finds first reply) (hsecond : ∀ a, Finds (second a) (next a)) :
    Finds (pollAndThen first second) (reply.andThen next) := by
  refine finds_of_firstFound ?_ ?_
  · intro delay answer hthen
    rcases andThen_eq_after_iff.1 hthen with ⟨e, rfl, rfl⟩ | ⟨start, a, more, rfl, hnext, rfl⟩
    · constructor
      · unfold pollAndThen
        rw [hfirst.seen_eq_some_iff.2 ⟨Nat.le_refl _, rfl⟩]
      · intro tick htick
        refine pollAndThen_eq_none (hfirst.seen_eq_none_iff.2 fun _ _ hreply => ?_)
        cases hreply
        exact htick
    · obtain ⟨hfound, hbefore⟩ := (hsecond a more answer).2 hnext
      constructor
      · rw [pollAndThen_of_ok hfirst, if_pos (Nat.le_add_right _ _), Nat.add_sub_cancel_left]
        exact hfound
      · intro tick htick
        rw [pollAndThen_of_ok hfirst]
        split
        · exact hbefore _ (by omega)
        · rfl
  · intro hnever tick
    rcases andThen_eq_never_iff.1 hnever with rfl | ⟨start, a, rfl, hnext⟩
    · exact pollAndThen_eq_none (hfirst.seen_eq_none_iff.2 fun _ _ hreply => nomatch hreply)
    · rw [pollAndThen_of_ok hfirst]
      split
      · exact (hsecond a).eq_none fun _ _ hreply => nomatch hnext.symm.trans hreply
      · rfl

end

/-! ## Two calls side by side -/

section

variable {leftPolls : Polls α} {rightPolls : Polls β} {left : Reply α} {right : Reply β}

/-- No error is seen before it is there. -/
theorem Finds.seen_ne_error (hfinds : Finds polls reply)
    (h : ∀ delay e, reply = .after delay (.error e) → tick < delay) (time : Nat) (e : Error) :
    polls.seen tick ≠ some (time, .error e) := by
  intro hseen
  obtain ⟨hle, hreply⟩ := hfinds.seen_eq_some_iff.1 hseen
  exact Nat.not_le.2 (h time e hreply) hle

theorem pollBoth_eq_none_of_left (hleft : leftPolls.seen tick = none)
    (hright : ∀ t e, rightPolls.seen tick ≠ some (t, .error e)) :
    pollBoth leftPolls rightPolls tick = none := by
  unfold pollBoth
  rw [hleft]
  dsimp only
  split
  · exact absurd ‹_› (hright _ _)
  · rfl

theorem pollBoth_eq_none_of_right (hleft : ∀ t e, leftPolls.seen tick ≠ some (t, .error e))
    (hright : rightPolls.seen tick = none) : pollBoth leftPolls rightPolls tick = none := by
  unfold pollBoth
  rw [hright]
  dsimp only
  split
  · exact absurd ‹_› (hleft _ _)
  · rfl
  · rfl

theorem firstFound_pollBoth_of_left_error {e : Error} (hleft : Finds leftPolls left)
    (hright : Finds rightPolls right) (hfails : left = .after time (.error e))
    (hlater : ∀ t e', right = .after t (.error e') → time ≤ t) :
    FirstFound (pollBoth leftPolls rightPolls) time (.error e) := by
  constructor
  · unfold pollBoth
    rw [hleft.seen_eq_some_iff.2 ⟨Nat.le_refl _, hfails⟩]
  · intro tick htick
    refine pollBoth_eq_none_of_left (hleft.seen_eq_none_iff.2 fun t _ h => ?_)
      (hright.seen_ne_error fun t e' h => Nat.lt_of_lt_of_le htick (hlater t e' h))
    obtain ⟨rfl, -⟩ := after.inj (hfails.symm.trans h)
    exact htick

theorem firstFound_pollBoth_of_right_error {e : Error} (hleft : Finds leftPolls left)
    (hright : Finds rightPolls right) (hfails : right = .after time (.error e))
    (hlater : ∀ t e', left = .after t (.error e') → time < t) :
    FirstFound (pollBoth leftPolls rightPolls) time (.error e) := by
  constructor
  · have hnotLeft := hleft.seen_ne_error hlater
    unfold pollBoth
    rw [hright.seen_eq_some_iff.2 ⟨Nat.le_refl _, hfails⟩]
    dsimp only
    split
    · exact absurd ‹_› (hnotLeft _ _)
    · rfl
    · rfl
  · intro tick htick
    refine pollBoth_eq_none_of_right
      (hleft.seen_ne_error fun t e' h => Nat.lt_trans htick (hlater t e' h))
      (hright.seen_eq_none_iff.2 fun t _ h => ?_)
    obtain ⟨rfl, -⟩ := after.inj (hfails.symm.trans h)
    exact htick

theorem firstFound_pollBoth_of_ok {t₁ t₂ : Nat} {a : α} {b : β}
    (hleft : Finds leftPolls (.after t₁ (.ok a))) (hright : Finds rightPolls (.after t₂ (.ok b))) :
    FirstFound (pollBoth leftPolls rightPolls) (max t₁ t₂) (.ok (a, b)) := by
  constructor
  · unfold pollBoth
    rw [hleft.seen_eq_some_iff.2 ⟨Nat.le_max_left _ _, rfl⟩,
      hright.seen_eq_some_iff.2 ⟨Nat.le_max_right _ _, rfl⟩]
  · intro tick htick
    have hearly : tick < t₁ ∨ tick < t₂ := by omega
    rcases hearly with hlt | hlt
    · exact pollBoth_eq_none_of_left
        (hleft.seen_eq_none_iff.2 fun _ _ h => by cases h; exact hlt)
        (hright.seen_ne_error fun _ _ h => by cases h)
    · exact pollBoth_eq_none_of_right (hleft.seen_ne_error fun _ _ h => by cases h)
        (hright.seen_eq_none_iff.2 fun _ _ h => by cases h; exact hlt)

/-- The questions to two calls find what `both` answers: the first error, the left one if two are
there at one tick, and otherwise the later of two answers. -/
theorem Finds.both (hleft : Finds leftPolls left) (hright : Finds rightPolls right) :
    Finds (pollBoth leftPolls rightPolls) (left.both right) := by
  refine finds_of_firstFound ?_ ?_
  · rintro delay (e | ⟨a, b⟩) hboth
    · rcases both_eq_error_iff.1 hboth with ⟨hfails, hlater⟩ | ⟨hfails, hlater⟩
      · exact firstFound_pollBoth_of_left_error hleft hright hfails hlater
      · exact firstFound_pollBoth_of_right_error hleft hright hfails hlater
    · obtain ⟨t₁, t₂, rfl, rfl, rfl⟩ := both_eq_ok_iff.1 hboth
      exact firstFound_pollBoth_of_ok hleft hright
  · intro hnever tick
    obtain ⟨hhangs, hnotLeft, hnotRight⟩ := both_eq_never_iff.1 hnever
    have hleftError := @hleft.seen_ne_error _ _ _ tick fun t e h => absurd h (hnotLeft t e)
    have hrightError := @hright.seen_ne_error _ _ _ tick fun t e h => absurd h (hnotRight t e)
    rcases hhangs with rfl | rfl
    · exact pollBoth_eq_none_of_left (hleft.seen_eq_none_iff.2 fun _ _ h => nomatch h) hrightError
    · exact pollBoth_eq_none_of_right hleftError (hright.seen_eq_none_iff.2 fun _ _ h => nomatch h)

end

end MergeOnRead.Reply
