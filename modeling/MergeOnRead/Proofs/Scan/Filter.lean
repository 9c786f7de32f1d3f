import MergeOnRead.Proofs.Predicate.Truth
import MergeOnRead.Scan.Plan

/-!
# Filters and the terms that are pushed down

A plan uses the terms of its filters that bind to the schema and drops the others. What it does not
look at may have any truth, so the truth of a filter is taken with a truth that is given for each
dropped term.

Main statements: `mem_of_pushDown`, the pushed terms are terms of the filters in their bound form,
and `truth_of_filterTruths`, where all filters are true, every pushed term is.
-/

namespace MergeOnRead.Scan

open Result

variable {schema : Schema} {caseSensitive : Bool} {row : Row} {free : Predicate → Kleene.Truth}

/-- The truth of a term of a filter on a row. A term that does not bind has the truth that is given
for it. -/
def termTruth (schema : Schema) (caseSensitive : Bool) (row : Row)
    (free : Predicate → Kleene.Truth) (term : Predicate) : Kleene.Truth :=
  match term.bind schema caseSensitive with
  | .ok _ => term.truth schema caseSensitive row
  | .error _ => free term

mutual

/-- The truth of a filter on a row: the conjunction of its terms, which stand under any number of
nested conjunctions. -/
def filterTruth (schema : Schema) (caseSensitive : Bool) (row : Row)
    (free : Predicate → Kleene.Truth) : Predicate → Kleene.Truth
  | .all (p :: ps) =>
    Kleene.and (filterTruth schema caseSensitive row free p)
      (filterTruths schema caseSensitive row free ps)
  | p => termTruth schema caseSensitive row free p

def filterTruths (schema : Schema) (caseSensitive : Bool) (row : Row)
    (free : Predicate → Kleene.Truth) : List Predicate → Kleene.Truth
  | [] => some true
  | p :: ps =>
    Kleene.and (filterTruth schema caseSensitive row free p)
      (filterTruths schema caseSensitive row free ps)

end

theorem termTruth_of_bind {term : Predicate} {b : BoundPredicate}
    (h : term.bind schema caseSensitive = .ok b) :
    termTruth schema caseSensitive row free term = term.truth schema caseSensitive row := by
  rw [termTruth, h]

theorem bind_all_cons {p : Predicate} {ps : List Predicate} {b : BoundPredicate}
    (h : (Predicate.all (p :: ps)).bind schema caseSensitive = .ok b) :
    (∃ c, p.bind schema caseSensitive = .ok c) ∧
      ∀ q qs, ps = q :: qs → ∃ c, (Predicate.all ps).bind schema caseSensitive = .ok c := by
  obtain ⟨hdefect, hterms⟩ := Predicate.bindTerms_of_bind h
  obtain ⟨hp, hps⟩ := Predicate.defects?_cons (Predicate.defects?_of_all hdefect)
  obtain ⟨bs, hbs, -⟩ := Predicate.bindTerms_all hterms
  obtain ⟨c, cs, hc, hcs, -⟩ := Predicate.bindList_cons hbs
  constructor
  · refine ⟨c, ?_⟩
    rw [Predicate.bind, hp]
    exact hc
  · rintro q qs rfl
    refine ⟨.all cs, ?_⟩
    have hall : (Predicate.all (q :: qs)).defect? = none := by
      rw [Predicate.defect?]
      exact hps
    rw [Predicate.bind, hall]
    change (Predicate.all (q :: qs)).bindTerms schema caseSensitive = .ok (.all cs)
    rw [Predicate.bindTerms, hcs]
    rfl

mutual

/-- A filter that binds as a whole has its own truth. -/
theorem filterTruth_of_bind : ∀ (p : Predicate) (b : BoundPredicate),
    p.bind schema caseSensitive = .ok b →
    filterTruth schema caseSensitive row free p = p.truth schema caseSensitive row
  | .all (p :: ps), b, h => by
    obtain ⟨⟨c, hc⟩, hrest⟩ := bind_all_cons h
    rw [filterTruth, filterTruth_of_bind p c hc, filterTruths_of_bind ps hrest,
      Predicate.truth, Predicate.truths, Kleene.all]
  | .all [], b, h => by rw [filterTruth, termTruth_of_bind h]; simp
  | .always, b, h => by rw [filterTruth, termTruth_of_bind h]; simp
  | .compare .., b, h => by rw [filterTruth, termTruth_of_bind h]; simp
  | .inList .., b, h => by rw [filterTruth, termTruth_of_bind h]; simp
  | .isNull .., b, h => by rw [filterTruth, termTruth_of_bind h]; simp
  | .not _, b, h => by rw [filterTruth, termTruth_of_bind h]; simp
  | .any _, b, h => by rw [filterTruth, termTruth_of_bind h]; simp

theorem filterTruths_of_bind : ∀ (ps : List Predicate),
    (∀ q qs, ps = q :: qs → ∃ c, (Predicate.all ps).bind schema caseSensitive = .ok c) →
    filterTruths schema caseSensitive row free ps =
      Kleene.all (Predicate.truths schema caseSensitive row ps)
  | [], _ => by rw [filterTruths, Predicate.truths, Kleene.all]
  | p :: ps, h => by
    obtain ⟨b, hb⟩ := h p ps rfl
    obtain ⟨⟨c, hc⟩, hrest⟩ := bind_all_cons hb
    rw [filterTruths, filterTruth_of_bind p c hc, filterTruths_of_bind ps hrest,
      Predicate.truths, Kleene.all]

end

mutual

/-- A filter is true exactly where all its terms are. -/
theorem filterTruth_eq_true_iff : ∀ p : Predicate,
    filterTruth schema caseSensitive row free p = some true ↔
      ∀ term ∈ p.conjuncts, termTruth schema caseSensitive row free term = some true
  | .all (p :: ps) => by
    rw [filterTruth, Kleene.and_eq_true_iff, filterTruth_eq_true_iff p,
      filterTruths_eq_true_iff ps, Predicate.conjuncts, List.forall_mem_append]
  | .all [] => by simp [filterTruth, Predicate.conjuncts]
  | .always => by simp [filterTruth, Predicate.conjuncts]
  | .compare .. => by simp [filterTruth, Predicate.conjuncts]
  | .inList .. => by simp [filterTruth, Predicate.conjuncts]
  | .isNull .. => by simp [filterTruth, Predicate.conjuncts]
  | .not _ => by simp [filterTruth, Predicate.conjuncts]
  | .any _ => by simp [filterTruth, Predicate.conjuncts]

theorem filterTruths_eq_true_iff : ∀ ps : List Predicate,
    filterTruths schema caseSensitive row free ps = some true ↔
      ∀ term ∈ Predicate.conjunctsList ps,
        termTruth schema caseSensitive row free term = some true
  | [] => by simp [filterTruths, Predicate.conjunctsList]
  | p :: ps => by
    rw [filterTruths, Kleene.and_eq_true_iff, filterTruth_eq_true_iff p,
      filterTruths_eq_true_iff ps, Predicate.conjunctsList, List.forall_mem_append]

end

theorem filterTruths_eq_true_of_forall {filters : List Predicate}
    (h : ∀ p ∈ filters, filterTruth schema caseSensitive row free p = some true) :
    filterTruths schema caseSensitive row free filters = some true := by
  induction filters with
  | nil => rfl
  | cons p ps ih =>
    obtain ⟨hp, hps⟩ := List.forall_mem_cons.1 h
    rw [filterTruths, Kleene.and_eq_true_iff]
    exact ⟨hp, ih hps⟩

/-- The terms that are kept are terms that bind, each with its bound form. -/
theorem mem_of_bindTerms {terms : List Predicate} {pushed : PushedTerms}
    (h : bindTerms schema caseSensitive terms = .ok pushed) :
    ∀ pair ∈ pushed, pair.1 ∈ terms ∧ pair.1.bind schema caseSensitive = .ok pair.2 := by
  induction terms generalizing pushed with
  | nil =>
    cases h
    exact fun _ hpair => absurd hpair List.not_mem_nil
  | cons term terms ih =>
    intro pair hpair
    rw [bindTerms] at h
    split at h
    · rename_i bound hbound
      obtain ⟨rest, hrest, rfl⟩ := map_eq_ok h
      rcases List.mem_cons.1 hpair with rfl | hpair
      · exact ⟨List.mem_cons_self, hbound⟩
      · obtain ⟨hmem, hbind⟩ := ih hrest pair hpair
        exact ⟨List.mem_cons_of_mem _ hmem, hbind⟩
    · split at h
      · cases h
      · obtain ⟨hmem, hbind⟩ := ih h pair hpair
        exact ⟨List.mem_cons_of_mem _ hmem, hbind⟩

theorem mem_of_pushDown {filters : List Predicate} {pushed : PushedTerms}
    (h : pushDown schema caseSensitive filters = .ok pushed) :
    ∀ pair ∈ pushed, pair.1 ∈ Predicate.conjunctsList filters ∧
      pair.1.bind schema caseSensitive = .ok pair.2 :=
  mem_of_bindTerms h

/-- Where all filters are true, every term that is pushed down is true. -/
theorem truth_of_filterTruths {filters : List Predicate} {pushed : PushedTerms}
    (hpushed : pushDown schema caseSensitive filters = .ok pushed)
    (h : filterTruths schema caseSensitive row free filters = some true) :
    ∀ pair ∈ pushed, pair.1.truth schema caseSensitive row = some true := by
  intro pair hpair
  obtain ⟨hmem, hbind⟩ := mem_of_pushDown hpushed pair hpair
  have hterm : termTruth schema caseSensitive row free pair.1 =
      pair.1.truth schema caseSensitive row := termTruth_of_bind hbind
  rw [← hterm]
  exact (filterTruths_eq_true_iff filters).1 h pair.1 hmem

/-- A partition is kept exactly when none of the bound terms rules it out. -/
theorem keeps_iff {spec : Partition.Spec} {bounds : List BoundPredicate} {key : Partition.Key} :
    keeps spec (pruningPredicate? bounds) key = true ↔
      ∀ b ∈ bounds, spec.mayMatch b key = true := by
  match bounds with
  | [] => exact ⟨fun _ _ hb => absurd hb List.not_mem_nil, fun _ => rfl⟩
  | [b] => rw [List.forall_mem_singleton, pruningPredicate?, keeps]
  | b :: c :: bs => exact Partition.Spec.mayMatch_all_iff

end MergeOnRead.Scan
