import MergeOnRead.Proofs.Polling
import MergeOnRead.View

/-!
# Loading a view in time

Loading a view makes up to three calls: the base view, and beside it the question whether there is a
change side, then the change view. Each call is bounded on its own clock by the same limit. From how
a bounded call ends (`Reply.Ends`) it is told what becomes of a side (`Source.Loads`,
`Source.Fails`, `Source.Hangs`), and from that what a reader gets, and when. A reader who asks for
the view at one tick after the other (`Source.pollTable`) finds the same.

Main statement: `Source.loads_or_fails_in_time`. A limit is over at a tick of the clock, so one that
is no whole number of milliseconds is not kept to the letter: `Source.SlowClock.loads_after_limit`.
-/

namespace MergeOnRead

namespace Source

open Reply

variable {source : Source} {limit : Option Duration} {side : Side} {time : Nat} {view : SideView}
  {e : Error}

/-- A side is loaded at a tick since the start: the calls for it succeed one after the other, each
in time. A missing change side is empty, and its view is not asked for. -/
inductive Loads (source : Source) (limit : Option Duration) : Side → Nat → SideView → Prop
  | base {time : Nat} {view : SideView} (hview : (source.view .base).Ends limit time (.ok view)) :
      Loads source limit .base time view
  | missing {time : Nat} (hpresent : (source.hasSide .change).Ends limit time (.ok false)) :
      Loads source limit .change time SideView.empty
  | change {start more : Nat} {view : SideView}
      (hpresent : (source.hasSide .change).Ends limit start (.ok true))
      (hview : (source.view .change).Ends limit more (.ok view)) :
      Loads source limit .change (start + more) view

/-- A call for a side fails at a tick since the start, by itself or by the limit. -/
inductive Fails (source : Source) (limit : Option Duration) : Side → Nat → Error → Prop
  | base {time : Nat} {e : Error} (hview : (source.view .base).Ends limit time (.error e)) :
      Fails source limit .base time e
  | presence {time : Nat} {e : Error}
      (hpresent : (source.hasSide .change).Ends limit time (.error e)) :
      Fails source limit .change time e
  | change {start more : Nat} {e : Error}
      (hpresent : (source.hasSide .change).Ends limit start (.ok true))
      (hview : (source.view .change).Ends limit more (.error e)) :
      Fails source limit .change (start + more) e

/-- A call for a side is made and never answers, and nothing bounds it. -/
inductive Hangs (source : Source) (limit : Option Duration) : Side → Prop
  | base (hlimit : limit = none) (hview : source.view .base = .never) : Hangs source limit .base
  | presence (hlimit : limit = none) (hpresent : source.hasSide .change = .never) :
      Hangs source limit .change
  | change {start : Nat} (hlimit : limit = none)
      (hpresent : (source.hasSide .change).Ends limit start (.ok true))
      (hview : source.view .change = .never) : Hangs source limit .change

/-- The failure of a call that no other comes before. At one tick that of the base side is first. -/
def FirstFailure (source : Source) (limit : Option Duration) (time : Nat) (e : Error) : Prop :=
  ∃ side, source.Fails limit side time e ∧
    ∀ {other later e'}, source.Fails limit other later e' →
      time ≤ later ∧ (time = later → other = .base → side = .base)

/-- The calls for a side, one after the other. -/
def sideView (source : Source) (limit : Option Duration) : Side → Reply SideView
  | .base => (source.view .base).within limit
  | .change => source.changeView limit

theorem sideView_eq_ok_iff :
    source.sideView limit side = .after time (.ok view) ↔ source.Loads limit side time view := by
  constructor
  · intro h
    cases side with
    | base => exact .base (within_eq_after_iff.1 h)
    | change =>
      rcases andThen_eq_after_iff.1 h with ⟨_, -, h⟩ | ⟨start, present, more, hpresent, hview, rfl⟩
      · cases h
      rw [within_eq_after_iff] at hpresent
      cases present with
      | false =>
        cases hview
        exact .missing hpresent
      | true => exact .change hpresent (within_eq_after_iff.1 hview)
  · intro h
    cases h with
    | base hview => exact within_eq_after_iff.2 hview
    | missing hpresent =>
      exact andThen_eq_after_iff.2
        (.inr ⟨time, false, 0, within_eq_after_iff.2 hpresent, rfl, rfl⟩)
    | change hpresent hview =>
      exact andThen_eq_after_iff.2
        (.inr ⟨_, true, _, within_eq_after_iff.2 hpresent, within_eq_after_iff.2 hview, rfl⟩)

theorem sideView_eq_error_iff :
    source.sideView limit side = .after time (.error e) ↔ source.Fails limit side time e := by
  constructor
  · intro h
    cases side with
    | base => exact .base (within_eq_after_iff.1 h)
    | change =>
      rcases andThen_eq_after_iff.1 h with
        ⟨_, hpresent, h⟩ | ⟨start, present, more, hpresent, hview, rfl⟩
      · cases h
        exact .presence (within_eq_after_iff.1 hpresent)
      rw [within_eq_after_iff] at hpresent
      cases present with
      | false => cases hview
      | true => exact .change hpresent (within_eq_after_iff.1 hview)
  · intro h
    cases h with
    | base hview => exact within_eq_after_iff.2 hview
    | presence hpresent =>
      exact andThen_eq_after_iff.2 (.inl ⟨e, within_eq_after_iff.2 hpresent, rfl⟩)
    | change hpresent hview =>
      exact andThen_eq_after_iff.2
        (.inr ⟨_, true, _, within_eq_after_iff.2 hpresent, within_eq_after_iff.2 hview, rfl⟩)

theorem sideView_eq_never_iff :
    source.sideView limit side = .never ↔ source.Hangs limit side := by
  constructor
  · intro h
    cases side with
    | base =>
      obtain ⟨hlimit, hview⟩ := within_eq_never_iff.1 h
      exact .base hlimit hview
    | change =>
      rcases andThen_eq_never_iff.1 h with hpresent | ⟨start, present, hpresent, hview⟩
      · obtain ⟨hlimit, hpresent⟩ := within_eq_never_iff.1 hpresent
        exact .presence hlimit hpresent
      rw [within_eq_after_iff] at hpresent
      cases present with
      | false => cases hview
      | true =>
        obtain ⟨hlimit, hview⟩ := within_eq_never_iff.1 hview
        exact .change hlimit hpresent hview
  · intro h
    cases h with
    | base hlimit hview => exact within_eq_never_iff.2 ⟨hlimit, hview⟩
    | presence hlimit hpresent =>
      exact andThen_eq_never_iff.2 (.inl (within_eq_never_iff.2 ⟨hlimit, hpresent⟩))
    | change hlimit hpresent hview =>
      exact andThen_eq_never_iff.2
        (.inr ⟨_, true, within_eq_after_iff.2 hpresent, within_eq_never_iff.2 ⟨hlimit, hview⟩⟩)

/-- A side fails at one tick only, and not if it is loaded. -/
theorem Fails.unique {time' : Nat} {e' : Error} (h : source.Fails limit side time e)
    (h' : source.Fails limit side time' e') : time = time' ∧ e = e' := by
  have heq := (sideView_eq_error_iff.2 h).symm.trans (sideView_eq_error_iff.2 h')
  simpa using heq

theorem Fails.not_loads (h : source.Fails limit side time e) {time' : Nat} :
    ¬ source.Loads limit side time' view := by
  intro hloads
  have heq := (sideView_eq_error_iff.2 h).symm.trans (sideView_eq_ok_iff.2 hloads)
  simp at heq

theorem tableView_eq_andThen (source : Source) (limit : Option Duration) :
    source.tableView limit =
      ((source.sideView limit .base).both (source.sideView limit .change)).andThen
        fun sides => .now (.ok ⟨sides.1, sides.2⟩) := rfl

/-- Asks for a side: the calls for it one after the other, each with its limit. -/
def pollSide (source : Source) (limit : Option Duration) : Side → Polls SideView
  | .base => pollWithin limit (source.view .base).poll
  | .change =>
    pollAndThen (pollWithin limit (source.hasSide .change).poll) fun present =>
      if present then pollWithin limit (source.view .change).poll
      else (now (.ok SideView.empty)).poll

/-- Asks for both sides. -/
def pollTable (source : Source) (limit : Option Duration) : Polls TableView :=
  pollAndThen (pollBoth (source.pollSide limit .base) (source.pollSide limit .change)) fun sides =>
    (now (.ok ⟨sides.1, sides.2⟩)).poll

theorem finds_pollSide (source : Source) (limit : Option Duration) (side : Side) :
    Finds (source.pollSide limit side) (source.sideView limit side) := by
  cases side with
  | base => exact (finds_poll _).within limit
  | change =>
    refine ((finds_poll _).within limit).andThen fun present => ?_
    split
    · exact (finds_poll _).within limit
    · exact finds_poll _

theorem finds_pollTable (source : Source) (limit : Option Duration) :
    Finds (source.pollTable limit) (source.tableView limit) :=
  ((source.finds_pollSide limit .base).both (source.finds_pollSide limit .change)).andThen
    fun _ => finds_poll _

theorem tableView_eq_ok_iff {view : TableView} :
    source.tableView limit = .after time (.ok view) ↔
      ∃ t₁ t₂, source.Loads limit .base t₁ view.base ∧ source.Loads limit .change t₂ view.change ∧
        max t₁ t₂ = time := by
  rw [tableView_eq_andThen, andThen_eq_after_iff]
  constructor
  · rintro (⟨_, -, h⟩ | ⟨start, ⟨base, change⟩, more, hboth, hview, rfl⟩)
    · cases h
    cases hview
    obtain ⟨t₁, t₂, hbase, hchange, rfl⟩ := both_eq_ok_iff.1 hboth
    exact ⟨t₁, t₂, sideView_eq_ok_iff.1 hbase, sideView_eq_ok_iff.1 hchange, rfl⟩
  · rintro ⟨t₁, t₂, hbase, hchange, rfl⟩
    have hboth := both_eq_ok_iff.2
      ⟨t₁, t₂, sideView_eq_ok_iff.2 hbase, sideView_eq_ok_iff.2 hchange, rfl⟩
    exact .inr ⟨_, _, 0, hboth, rfl, rfl⟩

theorem tableView_eq_error_iff :
    source.tableView limit = .after time (.error e) ↔ source.FirstFailure limit time e := by
  rw [tableView_eq_andThen, andThen_eq_after_iff]
  constructor
  · rintro (⟨_, hboth, h⟩ | ⟨_, _, _, -, h, -⟩)
    · cases h
      rcases both_eq_error_iff.1 hboth with ⟨hbase, hchange⟩ | ⟨hchange, hbase⟩
      · have hfails := sideView_eq_error_iff.1 hbase
        refine ⟨.base, hfails, fun {other later e'} hother => ⟨?_, fun _ _ => rfl⟩⟩
        cases other with
        | base => exact Nat.le_of_eq (hfails.unique hother).1
        | change => exact hchange later e' (sideView_eq_error_iff.2 hother)
      · have hfails := sideView_eq_error_iff.1 hchange
        refine ⟨.change, hfails, fun {other later e'} hother => ?_⟩
        cases other with
        | base =>
          have hlt := hbase later e' (sideView_eq_error_iff.2 hother)
          exact ⟨Nat.le_of_lt hlt, fun heq => absurd heq (Nat.ne_of_lt hlt)⟩
        | change => exact ⟨Nat.le_of_eq (hfails.unique hother).1, fun _ h => nomatch h⟩
    · cases h
  · rintro ⟨side, hfails, hfirst⟩
    refine .inl ⟨e, both_eq_error_iff.2 ?_, rfl⟩
    cases side with
    | base =>
      exact .inl ⟨sideView_eq_error_iff.2 hfails, fun t e' hchange =>
        (hfirst (sideView_eq_error_iff.1 hchange)).1⟩
    | change =>
      refine .inr ⟨sideView_eq_error_iff.2 hfails, fun t e' hbase => ?_⟩
      obtain ⟨hle, hties⟩ := hfirst (sideView_eq_error_iff.1 hbase)
      exact Nat.lt_of_le_of_ne hle fun heq => nomatch hties heq rfl

theorem tableView_eq_never_iff :
    source.tableView limit = .never ↔
      (∃ side, source.Hangs limit side) ∧ ∀ side time e, ¬ source.Fails limit side time e := by
  rw [tableView_eq_andThen, andThen_eq_never_iff]
  constructor
  · rintro (hboth | ⟨_, _, -, h⟩)
    · obtain ⟨hhangs, hbase, hchange⟩ := both_eq_never_iff.1 hboth
      refine ⟨?_, fun side time e hfails => ?_⟩
      · rcases hhangs with h | h
        · exact ⟨.base, sideView_eq_never_iff.1 h⟩
        · exact ⟨.change, sideView_eq_never_iff.1 h⟩
      · cases side with
        | base => exact hbase time e (sideView_eq_error_iff.2 hfails)
        | change => exact hchange time e (sideView_eq_error_iff.2 hfails)
    · cases h
  · rintro ⟨⟨side, hhangs⟩, hfails⟩
    have hnever := sideView_eq_never_iff.2 hhangs
    refine .inl (both_eq_never_iff.2 ⟨?_, fun t e h => hfails _ t e (sideView_eq_error_iff.1 h),
      fun t e h => hfails _ t e (sideView_eq_error_iff.1 h)⟩)
    cases side with
    | base => exact .inl hnever
    | change => exact .inr hnever

theorem Loads.le {d : Duration} (h : source.Loads (some d) side time view) :
    time ≤ 2 * d.ticks := by
  cases h with
  | base hview =>
    have := hview.le
    omega
  | missing hpresent =>
    have := hpresent.le
    omega
  | change hpresent hview =>
    have := hpresent.le
    have := hview.le
    omega

theorem Fails.le {d : Duration} (h : source.Fails (some d) side time e) : time ≤ 2 * d.ticks := by
  cases h with
  | base hview =>
    have := hview.le
    omega
  | presence hpresent =>
    have := hpresent.le
    omega
  | change hpresent hview =>
    have := hpresent.le
    have := hview.le
    omega

theorem Hangs.limit_eq_none (h : source.Hangs limit side) : limit = none := by
  cases h <;> assumption

/-- A missing change side is loaded as an empty one. -/
theorem Loads.eq_empty {start : Nat} (h : source.Loads limit .change time view)
    (hpresent : (source.hasSide .change).Ends limit start (.ok false)) : view = SideView.empty := by
  cases h with
  | missing _ => rfl
  | change hfound _ => exact nomatch (hfound.unique hpresent).2

/-- A failure ends the loading, at the latest at its own tick. -/
theorem Fails.tableView_eq_error (h : source.Fails limit side time e) :
    ∃ first e', first ≤ time ∧ source.tableView limit = .after first (.error e') := by
  rcases htable : source.tableView limit with _ | ⟨first, e' | view⟩
  · exact absurd h ((tableView_eq_never_iff.1 htable).2 side time e)
  · obtain ⟨_, -, hfirst⟩ := tableView_eq_error_iff.1 htable
    exact ⟨first, e', (hfirst h).1, rfl⟩
  · obtain ⟨t₁, t₂, hbase, hchange, -⟩ := tableView_eq_ok_iff.1 htable
    cases side with
    | base => exact absurd hbase h.not_loads
    | change => exact absurd hchange h.not_loads

/-- The same source with another answer to the question for the change view. -/
def withChangeView (source : Source) (reply : Reply SideView) : Source :=
  { source with view := fun side => if side = .change then reply else source.view side }

/-- The change view is asked for only when the side is found. -/
theorem tableView_withChangeView
    (h : ∀ start, ¬ (source.hasSide .change).Ends limit start (.ok true)) (reply : Reply SideView) :
    (source.withChangeView reply).tableView limit = source.tableView limit := by
  have hchange : (source.withChangeView reply).changeView limit = source.changeView limit := by
    unfold changeView
    change ((source.hasSide .change).within limit).andThen _ = _
    rcases hpresent : (source.hasSide .change).within limit with _ | ⟨start, e | present⟩
    · rfl
    · rfl
    · cases present with
      | false => rfl
      | true => exact absurd (within_eq_after_iff.1 hpresent) (h start)
  unfold tableView
  rw [hchange]
  rfl

/-- What a reader gets from the calls for the two sides, and when. -/
structure LoadsInTime (source : Source) (limit : Option Duration) : Prop where
  /-- Whoever asks at one tick after the other, each bounded call before its clock and the base side
  before the change side, finds this, and at this tick. -/
  polled : Reply.Finds (source.pollTable limit) (source.tableView limit)
  /-- Both views, exactly if every call that is made succeeds in time: when the later is there. -/
  loaded {time : Nat} {view : TableView} :
    source.tableView limit = .after time (.ok view) ↔
      ∃ t₁ t₂, source.Loads limit .base t₁ view.base ∧ source.Loads limit .change t₂ view.change ∧
        max t₁ t₂ = time
  /-- An error, exactly if a call fails: that of the first failure. -/
  failed {time : Nat} {e : Error} :
    source.tableView limit = .after time (.error e) ↔ source.FirstFailure limit time e
  /-- A failure is not waited out, also if the other side hangs. -/
  fails_by {side : Side} {time : Nat} {e : Error} (hfails : source.Fails limit side time e) :
    ∃ first e', first ≤ time ∧ source.tableView limit = .after first (.error e')
  /-- Nothing, exactly if there is no limit, a call hangs and none fails. -/
  hangs :
    source.tableView limit = .never ↔
      limit = none ∧ (∃ side, source.Hangs limit side) ∧
        ∀ side time e, ¬ source.Fails limit side time e
  /-- With a limit there is an answer when the limit is over twice. -/
  bounded {d : Duration} (hlimit : limit = some d) :
    ∃ time result, source.tableView limit = .after time result ∧ time ≤ 2 * d.ticks
  /-- A limit is over at the first tick that is not before it. -/
  ticks_over {d : Duration} {tick : Nat} : d.ticks ≤ tick ↔ d.nanos ≤ (Duration.ofMillis tick).nanos
  /-- A call that answers without waiting ends with its answer, whatever the limit. -/
  immediate {α : Type} {result result' : Except Error α} {time : Nat} :
    (Reply.now result).Ends limit time result' ↔ time = 0 ∧ result' = result
  /-- A missing change side is empty. -/
  missing {start time : Nat} {view : TableView}
    (hpresent : (source.hasSide .change).Ends limit start (.ok false))
    (hview : source.tableView limit = .after time (.ok view)) : view.change = SideView.empty
  /-- Unless the change side is found, its view is not asked for. -/
  unasked (hpresent : ∀ start, ¬ (source.hasSide .change).Ends limit start (.ok true))
    (reply : Reply SideView) :
    (source.withChangeView reply).tableView limit = source.tableView limit

/-- Whatever the calls for a table answer, and whenever they do: both sides are read if every call
succeeds in time, and otherwise the first failure is what a reader gets. -/
theorem loads_or_fails_in_time (source : Source) (limit : Option Duration) :
    source.LoadsInTime limit where
  polled := source.finds_pollTable limit
  loaded := tableView_eq_ok_iff
  failed := tableView_eq_error_iff
  fails_by := Fails.tableView_eq_error
  hangs := by
    rw [tableView_eq_never_iff]
    constructor
    · rintro ⟨⟨side, hhangs⟩, hfails⟩
      exact ⟨hhangs.limit_eq_none, ⟨side, hhangs⟩, hfails⟩
    · exact And.right
  bounded := by
    rintro d rfl
    rcases htable : source.tableView (some d) with _ | ⟨time, e | view⟩
    · obtain ⟨⟨side, hhangs⟩, -⟩ := tableView_eq_never_iff.1 htable
      exact nomatch hhangs.limit_eq_none
    · obtain ⟨side, hfails, -⟩ := tableView_eq_error_iff.1 htable
      exact ⟨time, _, rfl, hfails.le⟩
    · obtain ⟨t₁, t₂, hbase, hchange, rfl⟩ := tableView_eq_ok_iff.1 htable
      exact ⟨_, _, rfl, Nat.max_le.2 ⟨hbase.le, hchange.le⟩⟩
  ticks_over := Duration.ticks_le_iff
  immediate := ends_now_iff
  missing := by
    intro start time view hpresent hview
    obtain ⟨_, _, -, hchange, -⟩ := tableView_eq_ok_iff.1 hview
    exact hchange.eq_empty hpresent
  unasked := tableView_withChangeView

namespace SlowClock

/-- A base side that is there after nine milliseconds, and no change side. -/
def slowBase : Source where
  hasSide _ := .now (.ok false)
  snapshots _ := .never
  currentSnapshot _ := .never
  view _ := .after 9 (.ok SideView.empty)

/-- A change side that is found after a millisecond, and then does not answer. -/
def silentChange : Source where
  hasSide _ := .after 1 (.ok true)
  snapshots _ := .never
  currentSnapshot _ := .never
  view side := if side = .base then .now (.ok SideView.empty) else .never

/-- A limit of eight milliseconds and a half is over after nine, so a view that takes nine is read.
A limit of half a millisecond is over after one, so two calls that it bounds take longer than two
such limits. -/
theorem loads_after_limit :
    ((Duration.ofMicros 8500).nanos < (Duration.ofMillis 9).nanos ∧
        slowBase.view .base = .after 9 (.ok SideView.empty) ∧
        slowBase.tableView (some (.ofMicros 8500)) =
          .after 9 (.ok ⟨SideView.empty, SideView.empty⟩)) ∧
      2 * (Duration.ofMicros 500).nanos < (Duration.ofMillis 2).nanos ∧
        silentChange.tableView (some (.ofMicros 500)) =
          .after 2 (.error (.unavailable (.timedOut (.ofMicros 500)))) :=
  ⟨⟨by decide, rfl, rfl⟩, by decide, rfl⟩

end SlowClock

end Source

end MergeOnRead
