/-!
# Undecided truth values

Truth values of which nothing may be known yet: `none` stands for a value that cannot be decided.
A connective is decided as soon as the operands that are decided settle it.
-/

namespace MergeOnRead.Kleene

/-- True, false or undecided. -/
abbrev Truth := Option Bool

/-- The negation, undecided when the operand is. -/
def not (a : Truth) : Truth := a.map Bool.not

/-- The conjunction: false decides it. -/
def and : Truth → Truth → Truth
  | some false, _ => some false
  | _, some false => some false
  | some true, b => b
  | a, some true => a
  | none, none => none

/-- The disjunction: true decides it. -/
def or : Truth → Truth → Truth
  | some true, _ => some true
  | _, some true => some true
  | some false, b => b
  | a, some false => a
  | none, none => none

def all : List Truth → Truth
  | [] => some true
  | a :: rest => and a (all rest)

def any : List Truth → Truth
  | [] => some false
  | a :: rest => or a (any rest)

theorem not_not (a : Truth) : not (not a) = a := by cases a <;> simp [not]

theorem not_and (a b : Truth) : not (and a b) = or (not a) (not b) := by
  rcases a with _ | (_ | _) <;> rcases b with _ | (_ | _) <;> rfl

theorem not_or (a b : Truth) : not (or a b) = and (not a) (not b) := by
  rcases a with _ | (_ | _) <;> rcases b with _ | (_ | _) <;> rfl

theorem not_all (as : List Truth) : not (all as) = any (as.map not) := by
  induction as with
  | nil => rfl
  | cons a as ih => simp only [all, not_and, ih, List.map_cons, any]

theorem not_any (as : List Truth) : not (any as) = all (as.map not) := by
  induction as with
  | nil => rfl
  | cons a as ih => simp only [any, not_or, ih, List.map_cons, all]

end MergeOnRead.Kleene
