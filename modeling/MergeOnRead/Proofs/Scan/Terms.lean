import MergeOnRead.Proofs.Predicate.Conjuncts
import MergeOnRead.Proofs.Scan.Coverage
import MergeOnRead.Proofs.View

/-!
# The terms of the filters of a plan

A plan binds the terms of its filters before it reads anything. Only a malformed filter makes this
fail, and it does so at once; a plan whose filters are in order fails only if the view cannot be
loaded (`FailsByShape`). The terms that bind are pushed down in their order.

A plan depends on its filters through their terms alone. So it does not matter whether terms are
given as a list of filters, as a conjunction that is built from them, or as conjunctions nested in
any way (`conjunctions_plan_alike`).
-/

namespace MergeOnRead.Scan

open Predicate (Nests Splits conjunctsList defects?)

variable {schema : Schema} {caseSensitive : Bool} {terms filters others : List Predicate}

/-- A term with its bound form, if it binds. -/
def boundTerm? (schema : Schema) (caseSensitive : Bool) (term : Predicate) :
    Option (Predicate × BoundPredicate) :=
  match term.bind schema caseSensitive with
  | .ok bound => some (term, bound)
  | .error _ => none

/-- The terms that bind, each with its bound form. -/
def boundTerms (schema : Schema) (caseSensitive : Bool) (terms : List Predicate) : PushedTerms :=
  terms.filterMap (boundTerm? schema caseSensitive)

theorem map_fst_boundTerms (schema : Schema) (caseSensitive : Bool) (terms : List Predicate) :
    (boundTerms schema caseSensitive terms).map (·.1) =
      terms.filter fun term => (term.bind schema caseSensitive).isOk := by
  induction terms with
  | nil => rfl
  | cons term terms ih =>
    unfold boundTerms at ih ⊢
    cases hbind : term.bind schema caseSensitive with
    | ok bound => simp [boundTerm?, hbind, Except.isOk, Except.toBool, ih]
    | error e => simp [boundTerm?, hbind, Except.isOk, Except.toBool, ih]

/-! ## Binding the terms -/

theorem bindTerms_of_defect {op : ListOperator} (h : defects? terms = some op) :
    bindTerms schema caseSensitive terms = .error (.unbound (.noOperands op)) := by
  induction terms with
  | nil => cases h
  | cons term terms ih =>
    rw [defects?] at h
    unfold bindTerms
    cases hdefect : term.defect? with
    | some first =>
      rw [hdefect] at h
      cases h
      rw [Predicate.bind_of_defect hdefect]
      rfl
    | none =>
      rw [hdefect, Option.none_or] at h
      cases hbind : term.bind schema caseSensitive with
      | ok bound =>
        dsimp only
        rw [ih h]
        rfl
      | error e =>
        have hshape : ¬term.Malformed := (Predicate.defect?_eq_none_iff term).1 hdefect
        dsimp only
        rw [Predicate.isStructural_of_bind hshape hbind, if_neg Bool.false_ne_true, ih h]

theorem bindTerms_of_forall (h : ∀ term ∈ terms, ¬term.Malformed) :
    bindTerms schema caseSensitive terms = .ok (boundTerms schema caseSensitive terms) := by
  induction terms with
  | nil => rfl
  | cons term terms ih =>
    obtain ⟨hterm, hterms⟩ := List.forall_mem_cons.1 h
    unfold bindTerms boundTerms
    rw [ih hterms, List.filterMap_cons, boundTerm?]
    cases hbind : term.bind schema caseSensitive with
    | ok bound => rfl
    | error e =>
      dsimp only
      rw [Predicate.isStructural_of_bind hterm hbind, if_neg Bool.false_ne_true]
      rfl

/-- Filters that are in order are bound, and their terms that bind are pushed down. -/
theorem pushDown_of_forall (h : ∀ p ∈ filters, ¬p.Malformed) :
    pushDown schema caseSensitive filters =
      .ok (boundTerms schema caseSensitive (conjunctsList filters)) := by
  apply bindTerms_of_forall
  rwa [← Predicate.defects?_eq_none_iff, Predicate.defects?_conjunctsList,
    Predicate.defects?_eq_none_iff]

/-- The first defect of malformed filters is reported, whatever the schema. -/
theorem pushDown_of_exists (h : ∃ p ∈ filters, p.Malformed) :
    ∃ op, ∀ schema caseSensitive,
      pushDown schema caseSensitive filters = .error (.unbound (.noOperands op)) := by
  obtain ⟨op, hop⟩ := Predicate.exists_defects?_of_malformed h
  refine ⟨op, fun schema caseSensitive => bindTerms_of_defect ?_⟩
  rw [Predicate.defects?_conjunctsList, hop]

namespace Plan

variable {metadata : Metadata} {source : Source} {options : Options}

theorem make_of_forall (h : ∀ p ∈ filters, ¬p.Malformed) :
    make metadata source options filters =
      (source.tableView options.ioTimeout).andThen fun view =>
        .now (.ok (ofView metadata options
          (boundTerms metadata.schema options.caseSensitive (conjunctsList filters)) view)) := by
  rw [make, pushDown_of_forall h]

theorem result?_make_of_forall (h : ∀ p ∈ filters, ¬p.Malformed) :
    (make metadata source options filters).result? =
      (source.tableView options.ioTimeout).result?.map (Except.map (ofView metadata options
        (boundTerms metadata.schema options.caseSensitive (conjunctsList filters)))) := by
  rw [make_of_forall h, Reply.result?_andThen_now]

theorem make_of_exists (h : ∃ p ∈ filters, p.Malformed) :
    ∃ op, ∀ metadata source options,
      make metadata source options filters = .now (.error (.unbound (.noOperands op))) := by
  obtain ⟨op, hop⟩ := pushDown_of_exists h
  refine ⟨op, fun metadata source options => ?_⟩
  rw [make, hop]

theorem result?_make_of_exists (h : ∃ p ∈ filters, p.Malformed) :
    ∃ e, (make metadata source options filters).result? = some (.error (.unbound e)) := by
  obtain ⟨op, hop⟩ := make_of_exists h
  rw [hop]
  exact ⟨.noOperands op, rfl⟩

theorem forall_of_result?_make {plan : Plan}
    (h : (make metadata source options filters).result? = some (.ok plan)) :
    ∀ p ∈ filters, ¬p.Malformed := by
  intro p hp hmalformed
  obtain ⟨e, he⟩ := @result?_make_of_exists filters metadata source options ⟨p, hp, hmalformed⟩
  rw [he] at h
  cases h

/-- Filters that are in order fail only as loading the view does. -/
theorem result?_make_eq_error_iff (h : ∀ p ∈ filters, ¬p.Malformed) {e : Error} :
    (make metadata source options filters).result? = some (.error e) ↔
      (source.tableView options.ioTimeout).result? = some (.error e) := by
  rw [result?_make_of_forall h]
  cases (source.tableView options.ioTimeout).result? with
  | none => simp
  | some result => cases result <;> simp [Except.map]

theorem unbound_iff :
    (∃ e, (make metadata source options filters).result? = some (.error (.unbound e))) ↔
      (∃ p ∈ filters, p.Malformed) ∨
        ∃ e, (source.tableView options.ioTimeout).result? = some (.error (.unbound e)) := by
  by_cases hmalformed : ∃ p ∈ filters, p.Malformed
  · exact iff_of_true (result?_make_of_exists hmalformed) (.inl hmalformed)
  · have hshape : ∀ p ∈ filters, ¬p.Malformed := fun p hp h => hmalformed ⟨p, hp, h⟩
    rw [or_iff_right hmalformed]
    exact exists_congr fun e => result?_make_eq_error_iff hshape

end Plan

/-- What the shape of filters decides about a plan. -/
structure FailsByShape (filters : List Predicate) : Prop where
  /-- Only a malformed filter makes binding fail. -/
  pushDown_iff : ∀ schema caseSensitive,
    (∃ e, pushDown schema caseSensitive filters = .error e) ↔ ∃ p ∈ filters, p.Malformed
  /-- A malformed filter fails the plan before the source is asked. -/
  refused : (∃ p ∈ filters, p.Malformed) → ∃ op, ∀ metadata source options,
    Plan.make metadata source options filters = .now (.error (.unbound (.noOperands op)))
  /-- Else the plan fails only if the view cannot be loaded, and with the same error. -/
  otherwise : (∀ p ∈ filters, ¬p.Malformed) → ∀ metadata source options,
    ∃ pushed, Plan.make metadata source options filters =
      (source.tableView options.ioTimeout).andThen fun view =>
        .now (.ok (Plan.ofView metadata options pushed view))
  /-- A source may answer with any error, also with one that binding reports. -/
  unbound_iff : ∀ metadata source options,
    (∃ e, (Plan.make metadata source options filters).result? = some (.error (.unbound e))) ↔
      (∃ p ∈ filters, p.Malformed) ∨
        ∃ e, (source.tableView options.ioTimeout).result? = some (.error (.unbound e))
  /-- A store in memory does not. -/
  unbound_iff_store : ∀ metadata (s : Store) options,
    (∃ e, (Plan.make metadata s.source options filters).result? = some (.error (.unbound e))) ↔
      ∃ p ∈ filters, p.Malformed
  splits : ∃! terms, Splits filters terms
  /-- The terms that are pushed down are those that bind. -/
  pushed : ∀ metadata source options plan terms,
    (Plan.make metadata source options filters).result? = some (.ok plan) →
    Splits filters terms →
    plan.pushed =
      terms.filter fun term => (term.bind metadata.schema options.caseSensitive).isOk

theorem failsByShape (filters : List Predicate) : FailsByShape filters where
  pushDown_iff schema caseSensitive := by
    by_cases hmalformed : ∃ p ∈ filters, p.Malformed
    · obtain ⟨op, hop⟩ := pushDown_of_exists hmalformed
      exact iff_of_true ⟨_, hop schema caseSensitive⟩ hmalformed
    · refine iff_of_false ?_ hmalformed
      rintro ⟨e, he⟩
      rw [pushDown_of_forall fun p hp h => hmalformed ⟨p, hp, h⟩] at he
      cases he
  refused := Plan.make_of_exists
  otherwise hshape _ _ _ := ⟨_, Plan.make_of_forall hshape⟩
  unbound_iff _ _ _ := Plan.unbound_iff
  unbound_iff_store metadata s options := by
    rw [Plan.unbound_iff, or_iff_left]
    rintro ⟨e, he⟩
    exact s.tableView_ne_unbound options.ioTimeout e he
  splits := ⟨conjunctsList filters, Predicate.splits_iff.2 rfl, fun _ => Predicate.splits_iff.1⟩
  pushed metadata source options plan terms hplan hterms := by
    rw [Plan.result?_make_of_forall (Plan.forall_of_result?_make hplan), Option.map_eq_some_iff]
      at hplan
    obtain ⟨result, -, hplan⟩ := hplan
    obtain ⟨view, -, rfl⟩ := Result.map_eq_ok hplan
    rw [Predicate.splits_iff.1 hterms]
    exact map_fst_boundTerms metadata.schema options.caseSensitive (conjunctsList filters)

/-- Malformed predicates, and no others, are refused for what they are, and malformed filters, and
no others, make binding the filters of a plan fail. -/
theorem only_malformed_fails :
    (∀ p : Predicate, p.BindsByShape) ∧ ∀ filters : List Predicate, FailsByShape filters :=
  ⟨Predicate.bindsByShape, failsByShape⟩

/-! ## Filters with the same terms -/

/-- The filters make the same plan of every view: the same terms are pushed down, and the tasks of
partitions and the combined tasks are the same. -/
def PlansAlike (filters others : List Predicate) : Prop :=
  ∀ metadata source options,
    Plan.make metadata source options filters = Plan.make metadata source options others

theorem plansAlike_of_conjuncts (h : conjunctsList filters = conjunctsList others) :
    PlansAlike filters others := by
  intro metadata source options
  rw [Plan.make, Plan.make, pushDown, pushDown, h]

/-- Several filters that are in order are as good as their conjunction. It may be built step by
step, or be any conjunction of conjunctions with the same terms. There is a plan whenever the view is
loaded. -/
theorem conjunctions_plan_alike {p : Predicate} {ps : List Predicate}
    (h : ∀ q ∈ p :: ps, ¬q.Malformed) :
    PlansAlike [ps.foldl Predicate.and p] (p :: ps) ∧
      (∀ q terms, Nests [q] terms → Nests (p :: ps) terms → PlansAlike [q] (p :: ps)) ∧
      ∀ metadata source options view,
        (source.tableView options.ioTimeout).result? = some (.ok view) →
        ∃ plan, (Plan.make metadata source options (p :: ps)).result? = some (.ok plan) := by
  refine ⟨?_, ?_, ?_⟩
  · obtain ⟨hp, hps⟩ := List.forall_mem_cons.1 h
    apply plansAlike_of_conjuncts
    rw [← Predicate.conjuncts_foldl_and (Predicate.ne_all_nil_of_not_malformed hp) fun q hq =>
      Predicate.ne_all_nil_of_not_malformed (hps q hq)]
    simp [conjunctsList]
  · intro q terms hq hterms
    apply plansAlike_of_conjuncts
    rw [hq.conjunctsList_eq, hterms.conjunctsList_eq]
  · intro metadata source options view hview
    rw [Plan.result?_make_of_forall h, hview]
    exact ⟨_, rfl⟩

namespace Orders

def onFirstDay : Predicate := .compare "day" .eq (.int64 1)

/-- The table has no regions. -/
def inNorth : Predicate := .compare "region" .eq (.utf8 "north")

/-- Two filters, one of which does not bind, their conjunction, and a nested conjunction. -/
theorem conjunctions_plan_alike_firstDay :
    (∀ q ∈ [onFirstDay, inNorth], ¬q.Malformed) ∧
      (Plan.make metadata source default [onFirstDay, inNorth]).result? = some (.ok plan) ∧
      (Plan.make metadata source default [onFirstDay.and inNorth]).result? = some (.ok plan) ∧
      (Plan.make metadata source default [.all [.all [onFirstDay], .all [inNorth]]]).result? =
        some (.ok plan) := by
  have hshape : ∀ q ∈ [onFirstDay, inNorth], ¬q.Malformed := by
    simp [onFirstDay, inNorth]
  have hnests : Nests [.all [.all [onFirstDay], .all [inNorth]]] [onFirstDay, inNorth] :=
    .all _ _ (.all _ _ (.term _ (.all _ _ (.term _ .nil))))
  obtain ⟨hbuilt, hnested, -⟩ := conjunctions_plan_alike hshape
  have hplan :
      (Plan.make metadata source default [onFirstDay, inNorth]).result? = some (.ok plan) := rfl
  refine ⟨hshape, hplan, ?_, ?_⟩
  · have hsame := hbuilt metadata source default
    rw [List.foldl_cons, List.foldl_nil] at hsame
    rw [hsame, hplan]
  · rw [hnested _ _ hnests (.term _ (.term _ .nil)) metadata source default, hplan]

end Orders

end MergeOnRead.Scan
