import Mathlib.Data.List.Forall2
import MergeOnRead.Kleene

/-!
# Decided conjunctions and disjunctions

When a list of undecided truth values is decided, that the order of its elements does not matter, and
what a decision of some values says about the values that stand behind them. `Approximates a b` says
that `a` never decides against `b`: it may be decided where `b` is not, but it is false only of a value
that is not true, and true only of one that is not false. This is what the connectives keep, negation
included.

Main statements: `all_perm` and `any_perm`; `not_approximates`, `all_approximates` and
`any_approximates`.
-/

namespace MergeOnRead.Kleene

theorem and_eq_false_iff {a b : Truth} :
    and a b = some false ↔ a = some false ∨ b = some false := by
  rcases a with _ | (_ | _) <;> rcases b with _ | (_ | _) <;> simp [and]

theorem and_eq_true_iff {a b : Truth} : and a b = some true ↔ a = some true ∧ b = some true := by
  rcases a with _ | (_ | _) <;> rcases b with _ | (_ | _) <;> simp [and]

theorem or_eq_true_iff {a b : Truth} : or a b = some true ↔ a = some true ∨ b = some true := by
  rcases a with _ | (_ | _) <;> rcases b with _ | (_ | _) <;> simp [or]

theorem or_eq_false_iff {a b : Truth} : or a b = some false ↔ a = some false ∧ b = some false := by
  rcases a with _ | (_ | _) <;> rcases b with _ | (_ | _) <;> simp [or]

theorem not_eq_some_iff {a : Truth} {b : Bool} : not a = some b ↔ a = some !b := by
  rcases a with _ | (_ | _) <;> cases b <;> simp [not]

/-- A conjunction is false exactly when one of its operands is. -/
theorem all_eq_false_iff {as : List Truth} : all as = some false ↔ some false ∈ as := by
  induction as with
  | nil => simp [all]
  | cons a as ih => rw [all, and_eq_false_iff, ih, List.mem_cons, eq_comm]

/-- A conjunction is true exactly when all its operands are. -/
theorem all_eq_true_iff {as : List Truth} : all as = some true ↔ ∀ a ∈ as, a = some true := by
  induction as with
  | nil => simp [all]
  | cons a as ih => rw [all, and_eq_true_iff, ih, List.forall_mem_cons]

/-- A disjunction is true exactly when one of its operands is. -/
theorem any_eq_true_iff {as : List Truth} : any as = some true ↔ some true ∈ as := by
  induction as with
  | nil => simp [any]
  | cons a as ih => rw [any, or_eq_true_iff, ih, List.mem_cons, eq_comm]

theorem not_ne_none {a : Truth} (h : a ≠ none) : not a ≠ none := by
  cases a with
  | none => exact absurd rfl h
  | some b => simp [not]

theorem and_ne_none {a b : Truth} (ha : a ≠ none) (hb : b ≠ none) : and a b ≠ none := by
  rcases a with _ | (_ | _) <;> rcases b with _ | (_ | _) <;> simp_all [and]

theorem or_ne_none {a b : Truth} (ha : a ≠ none) (hb : b ≠ none) : or a b ≠ none := by
  rcases a with _ | (_ | _) <;> rcases b with _ | (_ | _) <;> simp_all [or]

/-- A conjunction of decided operands is decided. -/
theorem all_ne_none {as : List Truth} (h : ∀ a ∈ as, a ≠ none) : all as ≠ none := by
  induction as with
  | nil => simp [all]
  | cons a as ih =>
    obtain ⟨ha, hrest⟩ := List.forall_mem_cons.1 h
    exact and_ne_none ha (ih hrest)

/-- A disjunction of decided operands is decided. -/
theorem any_ne_none {as : List Truth} (h : ∀ a ∈ as, a ≠ none) : any as ≠ none := by
  induction as with
  | nil => simp [any]
  | cons a as ih =>
    obtain ⟨ha, hrest⟩ := List.forall_mem_cons.1 h
    exact or_ne_none ha (ih hrest)

/-- A disjunction of undecided operands is undecided. -/
theorem any_of_forall_none {as : List Truth} (hne : as ≠ []) (h : ∀ a ∈ as, a = none) :
    any as = none := by
  induction as with
  | nil => exact absurd rfl hne
  | cons a as ih =>
    obtain ⟨ha, hrest⟩ := List.forall_mem_cons.1 h
    subst ha
    by_cases has : as = []
    · rw [has]
      rfl
    · rw [any, ih has hrest]
      rfl

/-! ## The order of operands -/

theorem and_assoc (a b c : Truth) : and (and a b) c = and a (and b c) := by
  rcases a with _ | (_ | _) <;> rcases b with _ | (_ | _) <;> rcases c with _ | (_ | _) <;> rfl

theorem or_assoc (a b c : Truth) : or (or a b) c = or a (or b c) := by
  rcases a with _ | (_ | _) <;> rcases b with _ | (_ | _) <;> rcases c with _ | (_ | _) <;> rfl

theorem and_left_comm (a b c : Truth) : and a (and b c) = and b (and a c) := by
  rcases a with _ | (_ | _) <;> rcases b with _ | (_ | _) <;> rcases c with _ | (_ | _) <;> rfl

theorem or_left_comm (a b c : Truth) : or a (or b c) = or b (or a c) := by
  rcases a with _ | (_ | _) <;> rcases b with _ | (_ | _) <;> rcases c with _ | (_ | _) <;> rfl

theorem true_and (a : Truth) : and (some true) a = a := by rcases a with _ | (_ | _) <;> rfl

theorem false_or (a : Truth) : or (some false) a = a := by rcases a with _ | (_ | _) <;> rfl

theorem all_append (as bs : List Truth) : all (as ++ bs) = and (all as) (all bs) := by
  induction as with
  | nil => rw [List.nil_append, all, true_and]
  | cons a as ih => rw [List.cons_append, all, all, ih, and_assoc]

theorem any_append (as bs : List Truth) : any (as ++ bs) = or (any as) (any bs) := by
  induction as with
  | nil => rw [List.nil_append, any, false_or]
  | cons a as ih => rw [List.cons_append, any, any, ih, or_assoc]

/-- The order of the operands of a conjunction does not matter, undecided ones included. -/
theorem all_perm {as bs : List Truth} (h : as.Perm bs) : all as = all bs := by
  induction h with
  | nil => rfl
  | cons a _ ih => rw [all, all, ih]
  | swap a b as => rw [all, all, all, all, and_left_comm]
  | trans _ _ ih₁ ih₂ => exact ih₁.trans ih₂

/-- The order of the operands of a disjunction does not matter, undecided ones included. -/
theorem any_perm {as bs : List Truth} (h : as.Perm bs) : any as = any bs := by
  induction h with
  | nil => rfl
  | cons a _ ih => rw [any, any, ih]
  | swap a b as => rw [any, any, any, any, or_left_comm]
  | trans _ _ ih₁ ih₂ => exact ih₁.trans ih₂

/-! ## Approximation -/

/-- `a` never decides against `b`. -/
structure Approximates (a b : Truth) : Prop where
  of_true : a = some true → b ≠ some false
  of_false : a = some false → b ≠ some true

/-- What is undecided decides against nothing. -/
theorem none_approximates (b : Truth) : Approximates none b := ⟨nofun, nofun⟩

theorem approximates_refl (a : Truth) : Approximates a a := by
  refine ⟨fun h => ?_, fun h => ?_⟩ <;> simp [h]

/-- A decision never goes against an undecided value. -/
theorem approximates_none (a : Truth) : Approximates a none := ⟨fun _ => nofun, fun _ => nofun⟩

theorem not_approximates {a b : Truth} (h : Approximates a b) : Approximates (not a) (not b) := by
  refine ⟨fun ha hb => ?_, fun ha hb => ?_⟩
  · exact h.of_false (not_eq_some_iff.1 ha) (not_eq_some_iff.1 hb)
  · exact h.of_true (not_eq_some_iff.1 ha) (not_eq_some_iff.1 hb)

theorem and_approximates {a b c d : Truth} (hab : Approximates a b) (hcd : Approximates c d) :
    Approximates (and a c) (and b d) := by
  refine ⟨fun ht hf => ?_, fun hf ht => ?_⟩
  · obtain ⟨ha, hc⟩ := and_eq_true_iff.1 ht
    rcases and_eq_false_iff.1 hf with hb | hd
    · exact hab.of_true ha hb
    · exact hcd.of_true hc hd
  · obtain ⟨hb, hd⟩ := and_eq_true_iff.1 ht
    rcases and_eq_false_iff.1 hf with ha | hc
    · exact hab.of_false ha hb
    · exact hcd.of_false hc hd

theorem or_approximates {a b c d : Truth} (hab : Approximates a b) (hcd : Approximates c d) :
    Approximates (or a c) (or b d) := by
  refine ⟨fun ht hf => ?_, fun hf ht => ?_⟩
  · obtain ⟨hb, hd⟩ := or_eq_false_iff.1 hf
    rcases or_eq_true_iff.1 ht with ha | hc
    · exact hab.of_true ha hb
    · exact hcd.of_true hc hd
  · obtain ⟨ha, hc⟩ := or_eq_false_iff.1 hf
    rcases or_eq_true_iff.1 ht with hb | hd
    · exact hab.of_false ha hb
    · exact hcd.of_false hc hd

theorem all_approximates {as bs : List Truth} (h : List.Forall₂ Approximates as bs) :
    Approximates (all as) (all bs) := by
  induction h with
  | nil => exact approximates_refl _
  | cons hab _ ih => exact and_approximates hab ih

theorem any_approximates {as bs : List Truth} (h : List.Forall₂ Approximates as bs) :
    Approximates (any as) (any bs) := by
  induction h with
  | nil => exact approximates_refl _
  | cons hab _ ih => exact or_approximates hab ih

end MergeOnRead.Kleene
