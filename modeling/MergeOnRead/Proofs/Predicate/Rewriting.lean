import Mathlib.Logic.Relation
import MergeOnRead.Proofs.Predicate.Binding

/-!
# Rewriting predicates

Predicates that are equivalent in logic rule out the same partitions, also where a key leaves columns
undecided or tells that they are null: double negations, De Morgan duals, the order of operands and
nested operators of one kind make no difference, wherever they stand (`Rewrite`). A membership is the
disjunction of its equations, whether it can be bound or not.

Main statement: `Predicate.rewriting_prunes_alike`.
-/

namespace MergeOnRead

namespace BoundPredicate

/-- The laws by which a predicate may be rewritten. -/
inductive Law : BoundPredicate → BoundPredicate → Prop
  | notNot (p) : Law p (not (not p))
  | notAll (ps) : Law (not (all ps)) (any (ps.map not))
  | notAny (ps) : Law (not (any ps)) (all (ps.map not))
  | reorderAll {ps qs} (h : ps.Perm qs) : Law (all ps) (all qs)
  | reorderAny {ps qs} (h : ps.Perm qs) : Law (any ps) (any qs)
  | flattenAll (before inner after) :
    Law (all (before ++ all inner :: after)) (all (before ++ inner ++ after))
  | flattenAny (before inner after) :
    Law (any (before ++ any inner :: after)) (any (before ++ inner ++ after))

/-- One subterm of a predicate is rewritten by a law. -/
inductive Rewrite : BoundPredicate → BoundPredicate → Prop
  | here {p q} (h : Law p q) : Rewrite p q
  | not {p q} (h : Rewrite p q) : Rewrite (not p) (not q)
  | all (before after) {p q} (h : Rewrite p q) :
    Rewrite (all (before ++ p :: after)) (all (before ++ q :: after))
  | any (before after) {p q} (h : Rewrite p q) :
    Rewrite (any (before ++ p :: after)) (any (before ++ q :: after))

/-- No partition is ruled out by one of the predicates only. -/
def PrunesLike (p q : BoundPredicate) : Prop :=
  ∀ (spec : Partition.Spec) (key : Partition.Key), spec.mayMatch p key = spec.mayMatch q key

section

variable {p q : BoundPredicate} {valueOf : String → Option Partition.Value}

theorem prunesLike_of_outcome_eq (h : ∀ valueOf, p.outcome valueOf = q.outcome valueOf) :
    p.PrunesLike q := by
  intro spec key
  rw [Partition.Spec.mayMatch, Partition.Spec.mayMatch, h]

theorem map_outcome_not (ps : List BoundPredicate) :
    (ps.map not).map (outcome valueOf) = (ps.map (outcome valueOf)).map Kleene.not := by
  rw [List.map_map, List.map_map]
  rfl

theorem Law.outcome_eq (h : Law p q) : p.outcome valueOf = q.outcome valueOf := by
  cases h with
  | notNot => rw [outcome, outcome, Kleene.not_not]
  | notAll ps => rw [outcome, outcome_all, outcome_any, Kleene.not_all, map_outcome_not]
  | notAny ps => rw [outcome, outcome_all, outcome_any, Kleene.not_any, map_outcome_not]
  | reorderAll h =>
    rw [outcome_all, outcome_all]
    exact Kleene.all_perm (h.map _)
  | reorderAny h =>
    rw [outcome_any, outcome_any]
    exact Kleene.any_perm (h.map _)
  | flattenAll before inner after =>
    simp only [outcome_all, List.map_append, List.map_cons, Kleene.all_append, Kleene.all,
      Kleene.and_assoc]
  | flattenAny before inner after =>
    simp only [outcome_any, List.map_append, List.map_cons, Kleene.any_append, Kleene.any,
      Kleene.or_assoc]

theorem Rewrite.outcome_eq (h : Rewrite p q) : p.outcome valueOf = q.outcome valueOf := by
  induction h with
  | here h => exact h.outcome_eq
  | not _ ih => rw [outcome, outcome, ih]
  | all before after _ ih =>
    rw [outcome_all, outcome_all, List.map_append, List.map_append, List.map_cons, List.map_cons, ih]
  | any before after _ ih =>
    rw [outcome_any, outcome_any, List.map_append, List.map_append, List.map_cons, List.map_cons, ih]

/-- Any number of rewritings, in both directions, leaves the outcome as it is. -/
theorem outcome_eq_of_eqvGen (h : Relation.EqvGen Rewrite p q) :
    p.outcome valueOf = q.outcome valueOf := by
  induction h with
  | rel _ _ h => exact h.outcome_eq
  | refl => rfl
  | symm _ _ _ ih => exact ih.symm
  | trans _ _ _ _ _ ih₁ ih₂ => exact ih₁.trans ih₂

end

/-! ## A membership is a disjunction of equations -/

section

variable {bound : BoundColumn} {values : List Partition.Value}
  {valueOf : String → Option Partition.Value}

/-- One of the equations holds of a value that is not null exactly when the value is listed. -/
theorem any_equations (actual : Partition.Value) (values : List Partition.Value) :
    Kleene.any (values.map fun value =>
        some (ofNonNull (fun a => Comparison.holds .eq (Ord.compare a value)) actual)) =
      some (ofNonNull (fun a => values.contains a != false) actual) := by
  induction values with
  | nil => simp [Kleene.any, ofNonNull]
  | cons value values ih =>
    rw [List.map_cons, Kleene.any, ih]
    simp only [ofNonNull, Comparison.holds_eq_compare, List.contains_cons]
    cases actual.isNull <;> cases actual == value <;> cases values.contains actual <;> rfl

theorem outcome_inList_eq (hne : values ≠ []) :
    (inList bound values false).outcome valueOf =
      (any (values.map (compare bound .eq))).outcome valueOf := by
  rw [outcome_any, List.map_map, outcome]
  cases hvalue : valueOf bound.column.name with
  | none =>
    -- without equations the disjunction would be false
    refine (Kleene.any_of_forall_none (by simpa using hne) ?_).symm
    intro outcome houtcome
    obtain ⟨value, -, rfl⟩ := List.mem_map.1 houtcome
    simp [outcome, hvalue]
  | some actual =>
    rw [Option.map_some, ← any_equations]
    congr 2
    funext value
    simp [outcome, hvalue]

end

end BoundPredicate

namespace Predicate

variable {schema : Schema} {caseSensitive : Bool} {name : String} {bound : BoundColumn}

/-- Either both bindings fail with the same error, or what they give rules out the same partitions. -/
inductive BindsLike : Except BindError BoundPredicate → Except BindError BoundPredicate → Prop
  | error (e : BindError) : BindsLike (.error e) (.error e)
  | ok {b c : BoundPredicate} (h : b.PrunesLike c) : BindsLike (.ok b) (.ok c)

theorem defects?_equations (name : String) (literals : List Literal) :
    defects? (literals.map (compare name .eq)) = none := by
  induction literals with
  | nil => rfl
  | cons literal literals ih =>
    rw [List.map_cons, defects?, ih]
    simp [defect?]

theorem defect?_any_equations (name : String) {literals : List Literal} (hne : literals ≠ []) :
    (any (literals.map (compare name .eq))).defect? = none := by
  cases literals with
  | nil => exact absurd rfl hne
  | cons literal literals => exact defects?_equations name (literal :: literals)

theorem bindList_equations (hresolve : resolve schema caseSensitive name = .ok bound)
    (literals : List Literal) :
    bindList schema caseSensitive (literals.map (compare name .eq)) =
      (literals.mapM fun literal : Literal => literal.bind bound.column).map
        (List.map (.compare bound .eq)) := by
  induction literals with
  | nil => rfl
  | cons literal literals ih =>
    rw [List.map_cons, bindList, bindTerms_compare_eq hresolve rfl, ih, List.mapM_cons]
    cases literal.bind bound.column with
    | error e => rfl
    | ok value => cases literals.mapM fun literal : Literal => literal.bind bound.column <;> rfl

/-- A membership is bound exactly when the disjunction of its equations is, and prunes like it. -/
theorem inList_bindsLike_any {literals : List Literal} (hne : literals ≠ []) :
    BindsLike ((inList name literals false).bind schema caseSensitive)
      ((any (literals.map (compare name .eq))).bind schema caseSensitive) := by
  rw [bind_eq_bindTerms (defect?_inList hne), bind_eq_bindTerms (defect?_any_equations name hne)]
  cases hresolve : resolve schema caseSensitive name with
  | error e =>
    obtain ⟨literal, literals, rfl⟩ := List.exists_cons_of_ne_nil hne
    rw [bindTerms, bindTerms, List.map_cons, bindList, bindTerms, hresolve]
    exact .error e
  | ok bound =>
    rw [bindTerms_inList_eq hresolve, bindTerms, bindList_equations hresolve]
    cases hvalues : literals.mapM fun literal : Literal => literal.bind bound.column with
    | error e => exact .error e
    | ok values =>
      have hvaluesNe : values ≠ [] := by
        have hlength := (Result.forall₂_of_mapM hvalues).length_eq
        rw [← List.length_pos_iff] at hne ⊢
        omega
      exact .ok (BoundPredicate.prunesLike_of_outcome_eq fun _ =>
        BoundPredicate.outcome_inList_eq hvaluesNe)

/-- Equivalent predicates rule out the same partitions. A membership with operands and the disjunction of
its equations fail to bind with the same error or are both bound, and then prune alike; and so does what
comes from a bound predicate by rewriting any of its subterms. -/
theorem rewriting_prunes_alike :
    (∀ schema caseSensitive name literals, literals ≠ [] →
      BindsLike ((inList name literals false).bind schema caseSensitive)
        ((any (literals.map (compare name .eq))).bind schema caseSensitive)) ∧
      ∀ b c, Relation.EqvGen BoundPredicate.Rewrite b c → b.PrunesLike c := by
  constructor
  · intro schema caseSensitive name literals hne
    exact inList_bindsLike_any hne
  · intro b c h
    exact BoundPredicate.prunesLike_of_outcome_eq fun _ => BoundPredicate.outcome_eq_of_eqvGen h

/-- Not both the first day and the north, beside a test of the day. -/
def notFirstDayInNorth : BoundPredicate :=
  .all
    [.not (.all
      [.compare ⟨0, ⟨"day", .int32⟩⟩ .eq (.int32 1),
        .compare ⟨1, ⟨"region", .utf8⟩⟩ .eq (.utf8 "north")]),
      .isNull ⟨0, ⟨"day", .int32⟩⟩ true]

/-- Another region or another day, beside the same test. -/
def otherRegionOrDay : BoundPredicate :=
  .all
    [.any
      [.not (.compare ⟨1, ⟨"region", .utf8⟩⟩ .eq (.utf8 "north")),
        .not (.compare ⟨0, ⟨"day", .int32⟩⟩ .eq (.int32 1))],
      .isNull ⟨0, ⟨"day", .int32⟩⟩ true]

/-- A key without a region keeps both, a null day neither; and two days are bound as a list and as
equations. -/
theorem rewriting_prunes_alike_days :
    BindsLike ((inList "day" [.int64 1, .int64 2] false).bind [⟨"day", .int32⟩] true)
        ((any ([.int64 1, .int64 2].map (compare "day" .eq))).bind [⟨"day", .int32⟩] true) ∧
      Relation.EqvGen BoundPredicate.Rewrite notFirstDayInNorth otherRegionOrDay ∧
      Partition.Spec.mayMatch ⟨[⟨"day", .identity⟩, ⟨"region", .identity⟩]⟩ otherRegionOrDay
        [.int32 1] = true ∧
      Partition.Spec.mayMatch ⟨[⟨"day", .identity⟩, ⟨"region", .identity⟩]⟩ otherRegionOrDay
        [.null, .utf8 "north"] = false := by
  have hrewrite : Relation.EqvGen BoundPredicate.Rewrite notFirstDayInNorth otherRegionOrDay :=
    .trans _ _ _ (.rel _ _ (.all [] _ (.here (.notAll _))))
      (.rel _ _ (.all [] _ (.here (.reorderAny (.swap _ _ [])))))
  have h := rewriting_prunes_alike
  refine ⟨h.1 _ _ _ _ (List.cons_ne_nil _ _), hrewrite, ?_, ?_⟩
  · rw [← h.2 _ _ hrewrite]
    rfl
  · rw [← h.2 _ _ hrewrite]
    rfl

end Predicate

end MergeOnRead
