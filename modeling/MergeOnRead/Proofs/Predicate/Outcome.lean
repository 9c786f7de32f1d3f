import MergeOnRead.Predicate.Pruning
import MergeOnRead.Proofs.Kleene

/-!
# Outcomes of predicates

The outcome of a conjunction or disjunction is told by those of its operands, and a partition is ruled
out only by an outcome that is false.

Main statements: `BoundPredicate.induct`, induction over predicates with one case for each constructor,
and `Partition.Spec.mayMatch_iff`.
-/

namespace MergeOnRead

/-- Values are equal as comparisons tell it exactly when they are the same. -/
theorem Comparison.holds_eq_compare (a b : Partition.Value) :
    Comparison.holds .eq (Ord.compare a b) = (a == b) := by
  rw [holds, Bool.eq_iff_iff, beq_iff_eq, beq_iff_eq, Std.LawfulEqCmp.compare_eq_iff_eq]

namespace BoundPredicate

/-- Induction over predicates: what holds of all operands of a list is there for the connective. -/
@[elab_as_elim]
theorem induct {motive : BoundPredicate → Prop} (always : motive always)
    (compare : ∀ bound op value, motive (compare bound op value))
    (inList : ∀ bound values negated, motive (inList bound values negated))
    (isNull : ∀ bound negated, motive (isNull bound negated))
    (not : ∀ p, motive p → motive (not p))
    (all : ∀ ps, (∀ p ∈ ps, motive p) → motive (all ps))
    (any : ∀ ps, (∀ p ∈ ps, motive p) → motive (any ps)) (p : BoundPredicate) : motive p :=
  @BoundPredicate.rec motive (fun ps => ∀ p ∈ ps, motive p) always compare inList isNull not all any
    (fun _ h => absurd h List.not_mem_nil) (fun _ _ hp hps => List.forall_mem_cons.2 ⟨hp, hps⟩) p

variable {valueOf : String → Option Partition.Value} {bs : List BoundPredicate}

theorem outcomes_eq_map (valueOf : String → Option Partition.Value) (bs : List BoundPredicate) :
    outcomes valueOf bs = bs.map (outcome valueOf) := by
  induction bs with
  | nil => rfl
  | cons b bs ih => rw [outcomes, ih, List.map_cons]

theorem outcome_all : (all bs).outcome valueOf = Kleene.all (bs.map (outcome valueOf)) := by
  rw [outcome, outcomes_eq_map]

theorem outcome_any : (any bs).outcome valueOf = Kleene.any (bs.map (outcome valueOf)) := by
  rw [outcome, outcomes_eq_map]

end BoundPredicate

namespace Partition.Spec

variable {spec : Spec} {key : Key}

theorem mayMatch_iff {b : BoundPredicate} :
    spec.mayMatch b key = true ↔ b.outcome (spec.valueOf? key) ≠ some false := by
  rw [mayMatch, bne_iff_ne]

/-- A conjunction rules a partition out exactly when one of its operands does. -/
theorem mayMatch_all_iff {bs : List BoundPredicate} :
    spec.mayMatch (.all bs) key = true ↔ ∀ b ∈ bs, spec.mayMatch b key = true := by
  rw [mayMatch_iff, BoundPredicate.outcome_all, ne_eq, Kleene.all_eq_false_iff]
  constructor
  · intro h b hb
    exact mayMatch_iff.2 fun hfalse => h (List.mem_map.2 ⟨b, hb, hfalse⟩)
  · intro h hmem
    obtain ⟨b, hb, hfalse⟩ := List.mem_map.1 hmem
    exact mayMatch_iff.1 (h b hb) hfalse

end Partition.Spec

end MergeOnRead
