import MergeOnRead.Error

/-!
# Replies in time

A call to a table store answers after some delay, or never. Delays are counted from the start of the
call on a clock that nothing else moves, so what a combination of calls answers, and when, is a
function of what the calls answer. The clock ticks once in a millisecond, and all that happens
happens at a tick: a time limit that is over between two ticks ends a call at the later one.

`Reply.within` bounds a call by a limit, `Reply.andThen` makes one call after another, and
`Reply.both` makes two calls side by side and stops at the first failure.
-/

namespace MergeOnRead

/-- What a call answers, and how many ticks that takes. -/
inductive Reply (α : Type) where
  | never
  | after (delay : Nat) (result : Except Error α)
deriving Repr

namespace Reply

variable {α β : Type}

/-- An answer without any waiting. -/
def now (result : Except Error α) : Reply α := after 0 result

/-- The answer that comes in the end. -/
def result? : Reply α → Option (Except Error α)
  | never => none
  | after _ result => some result

/-- Bounds a call. A call that has not answered at the tick when the limit is over fails at that
tick; one that answers without waiting, or just at that tick, is not affected. -/
def within (limit : Option Duration) (reply : Reply α) : Reply α :=
  match limit, reply with
  | none, reply => reply
  | some limit, never => after limit.ticks (.error (.unavailable (.timedOut limit)))
  | some limit, after delay result =>
    if limit.ticks < delay then after limit.ticks (.error (.unavailable (.timedOut limit)))
    else after delay result

/-- Makes a second call when the first has answered. -/
def andThen (first : Reply α) (second : α → Reply β) : Reply β :=
  match first with
  | never => never
  | after delay (.error e) => after delay (.error e)
  | after delay (.ok a) =>
    match second a with
    | never => never
    | after more result => after (delay + more) result

/-- A call that answers without waiting is not affected by a limit. -/
theorem within_now (limit : Option Duration) (result : Except Error α) :
    (now result).within limit = now result := by
  cases limit with
  | none => rfl
  | some limit => simp [now, within]

/-- After a call that answers without waiting the second call decides. -/
theorem now_andThen (a : α) (second : α → Reply β) : (now (.ok a)).andThen second = second a := by
  rw [now, andThen]
  cases second a with
  | never => rfl
  | after delay result =>
    dsimp only
    rw [Nat.zero_add]

instance : Monad Reply where
  pure a := now (.ok a)
  bind := andThen

/-- Makes two calls side by side. The first failure ends both, the left one if both fail at the same
time; otherwise both answers are there when the later one is. -/
def both (left : Reply α) (right : Reply β) : Reply (α × β) :=
  match left, right with
  | never, after delay (.error e) => after delay (.error e)
  | after delay (.error e), never => after delay (.error e)
  | after d₁ (.error e₁), after d₂ (.error e₂) =>
    if d₂ < d₁ then after d₂ (.error e₂) else after d₁ (.error e₁)
  | after delay (.error e), after _ (.ok _) => after delay (.error e)
  | after _ (.ok _), after delay (.error e) => after delay (.error e)
  | after d₁ (.ok a), after d₂ (.ok b) => after (if d₁ < d₂ then d₂ else d₁) (.ok (a, b))
  | never, _ => never
  | _, never => never

end Reply

end MergeOnRead
