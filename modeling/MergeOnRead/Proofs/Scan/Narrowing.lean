import MergeOnRead.Proofs.Scan.Partitions
import MergeOnRead.Proofs.Scan.Terms

/-!
# Plans with more filters

The tasks of a plan are those that the view has without filters, less the tasks of partitions that
some term rules out. A task is kept or left out as a whole. So a further filter only takes tasks
away, the same ones that it takes away by itself, and the order of filters does not matter.

Main statement: `narrows_of_tableView`.
-/

namespace MergeOnRead.Scan

open Predicate (Splits conjunctsList)

variable {spec : Partition.Spec} {key : Partition.Key} {as bs : List BoundPredicate}
  {view : TableView}

/-! ## Terms and partitions -/

/-- Terms together keep the partitions that each part of them keeps. -/
theorem keeps_append :
    keeps spec (pruningPredicate? (as ++ bs)) key =
      (keeps spec (pruningPredicate? as) key && keeps spec (pruningPredicate? bs) key) := by
  rw [Bool.eq_iff_iff, Bool.and_eq_true, keeps_iff, keeps_iff, keeps_iff, List.forall_mem_append]

theorem keeps_perm (h : as.Perm bs) :
    keeps spec (pruningPredicate? as) key = keeps spec (pruningPredicate? bs) key := by
  rw [Bool.eq_iff_iff, keeps_iff, keeps_iff]
  exact forall_congr' fun b => imp_congr_left h.mem_iff

/-- Tasks that each have all pending files of their partition are told by their partitions. -/
theorem eq_of_map_partition {tasks others : List PartitionTask}
    (htasks : ∀ task ∈ tasks,
      task = .ofFiles task.partition (filesIn task.partition (pendingFiles view)))
    (hothers : ∀ task ∈ others,
      task = .ofFiles task.partition (filesIn task.partition (pendingFiles view)))
    (h : tasks.map (·.partition) = others.map (·.partition)) : tasks = others := by
  induction tasks generalizing others with
  | nil =>
    rw [List.map_nil, eq_comm, List.map_eq_nil_iff] at h
    exact h.symm
  | cons task tasks ih =>
    cases others with
    | nil => cases h
    | cons other others =>
      obtain ⟨htask, htasks⟩ := List.forall_mem_cons.1 htasks
      obtain ⟨hother, hothers⟩ := List.forall_mem_cons.1 hothers
      rw [List.map_cons, List.map_cons, List.cons.injEq] at h
      rw [htask, hother, h.1, ih htasks hothers h.2]

/-- Leaving partitions out leaves the tasks of the others as they are. -/
theorem partitionTasks_eq_filter (keep : Partition.Key → Bool) (view : TableView) :
    partitionTasks keep view =
      (partitionTasks (fun _ => true) view).filter fun task => keep task.partition := by
  have hmem : ∀ task, task ∈ partitionTasks keep view ↔
      task ∈ (partitionTasks (fun _ => true) view).filter fun task => keep task.partition := by
    intro task
    rw [List.mem_filter, mem_partitionTasks_iff, mem_partitionTasks_iff]
    simp only [true_and]
    exact and_comm
  have hfiles : ∀ task ∈ partitionTasks keep view,
      task = .ofFiles task.partition (filesIn task.partition (pendingFiles view)) :=
    fun task htask => (mem_partitionTasks_iff.1 htask).2.2
  refine eq_of_map_partition hfiles (fun task htask => hfiles task ((hmem task).2 htask)) ?_
  apply eq_of_ordered_of_mem_iff ordered_partitionTasks
  · rw [List.pairwise_map]
    exact (List.pairwise_map.1 ordered_partitionTasks).filter _
  · intro partition
    simp only [List.mem_map, hmem]

/-- Two tests of partitions together keep the tasks of the first that the second keeps too. -/
theorem partitionTasks_and (keep other : Partition.Key → Bool) (view : TableView) :
    partitionTasks (fun key => keep key && other key) view =
      (partitionTasks keep view).filter fun task => task ∈ partitionTasks other view := by
  have hunfiltered : ∀ task ∈ partitionTasks (fun _ => true) view,
      (keep task.partition && other task.partition) =
        (decide (task ∈ partitionTasks other view) && keep task.partition) := by
    intro task htask
    rw [partitionTasks_eq_filter other]
    simp [htask, Bool.and_comm]
  rw [partitionTasks_eq_filter, partitionTasks_eq_filter keep, List.filter_filter]
  exact List.filter_congr hunfiltered

/-! ## Filters and plans -/

section

variable {schema : Schema} {caseSensitive : Bool} {first second filters others : List Predicate}
  {metadata : Metadata} {source : Source} {options : Options}

/-- The bound terms of filters. -/
def bounds (schema : Schema) (caseSensitive : Bool) (filters : List Predicate) :
    List BoundPredicate :=
  (boundTerms schema caseSensitive (conjunctsList filters)).map (·.2)

theorem boundTerms_append {terms more : List Predicate} :
    boundTerms schema caseSensitive (terms ++ more) =
      boundTerms schema caseSensitive terms ++ boundTerms schema caseSensitive more := by
  simp [boundTerms]

theorem bounds_append :
    bounds schema caseSensitive (first ++ second) =
      bounds schema caseSensitive first ++ bounds schema caseSensitive second := by
  simp [bounds, boundTerms_append, Predicate.conjunctsList_append]

theorem bounds_perm (h : filters.Perm others) :
    (bounds schema caseSensitive filters).Perm (bounds schema caseSensitive others) := by
  unfold bounds boundTerms
  rw [Predicate.conjunctsList_eq_flatMap, Predicate.conjunctsList_eq_flatMap]
  exact ((h.flatMap_right _).filterMap _).map _

theorem boundTerms_eq_nil {terms : List Predicate}
    (h : ∀ term ∈ terms, ∀ b, term.bind schema caseSensitive ≠ .ok b) :
    boundTerms schema caseSensitive terms = [] := by
  unfold boundTerms
  rw [List.filterMap_eq_nil_iff]
  intro term hterm
  unfold boundTerm?
  cases hbind : term.bind schema caseSensitive with
  | ok b => exact absurd hbind (h term hterm b)
  | error e => rfl

/-- A filter without a term that binds adds nothing where it stands. -/
theorem boundTerms_insert {p : Predicate} {before after : List Predicate}
    (h : ∀ term ∈ p.conjuncts, ∀ b, term.bind schema caseSensitive ≠ .ok b) :
    boundTerms schema caseSensitive (conjunctsList (before ++ p :: after)) =
      boundTerms schema caseSensitive (conjunctsList (before ++ after)) := by
  rw [Predicate.conjunctsList_append, Predicate.conjunctsList_append, conjunctsList,
    boundTerms_append, boundTerms_append, boundTerms_append, boundTerms_eq_nil h, List.nil_append]

/-- The partition tasks of a plan are the tasks of the view that the bound terms keep. -/
theorem partitions_ofView (view : TableView) (filters : List Predicate) :
    (Plan.ofView metadata options
          (boundTerms metadata.schema options.caseSensitive (conjunctsList filters))
          view).partitions =
      partitionTasks (keeps metadata.spec (pruningPredicate?
        (bounds metadata.schema options.caseSensitive filters))) view := rfl

/-- Planning with filters gives a plan. -/
def Makes (metadata : Metadata) (source : Source) (options : Options) (filters : List Predicate)
    (plan : Plan) : Prop :=
  (Plan.make metadata source options filters).result? = some (.ok plan)

theorem makes_ofView (h : ∀ p ∈ filters, ¬p.Malformed)
    (hview : (source.tableView options.ioTimeout).result? = some (.ok view)) :
    Makes metadata source options filters (Plan.ofView metadata options
      (boundTerms metadata.schema options.caseSensitive (conjunctsList filters)) view) := by
  rw [Makes, Plan.result?_make_of_forall h, hview]
  rfl

/-- What further filters do to the tasks of a plan. -/
structure Narrows (metadata : Metadata) (source : Source) (options : Options)
    (first second : List Predicate) : Prop where
  /-- They take away whole tasks, those that they take away by themselves. -/
  tasks : ∃ plan other both, Makes metadata source options first plan ∧
    Makes metadata source options second other ∧
    Makes metadata source options (first ++ second) both ∧
    both.partitions.Sublist plan.partitions ∧
    both.partitions = plan.partitions.filter fun task => task ∈ other.partitions
  reorder : ∀ filters, filters.Perm first → ∃ plan reordered,
    Makes metadata source options first plan ∧ Makes metadata source options filters reordered ∧
    reordered.partitions = plan.partitions
  /-- A filter without a term that binds may stand anywhere. -/
  unbound : ∀ before p after, first = before ++ after → ¬p.Malformed →
    (∀ terms, Splits [p] terms → ∀ term ∈ terms, ∀ b,
      term.bind metadata.schema options.caseSensitive ≠ .ok b) →
    Plan.make metadata source options (before ++ p :: after) =
      Plan.make metadata source options first

theorem narrows_of_tableView (hfirst : ∀ p ∈ first, ¬p.Malformed)
    (hsecond : ∀ p ∈ second, ¬p.Malformed)
    (hview : (source.tableView options.ioTimeout).result? = some (.ok view)) :
    Narrows metadata source options first second where
  tasks := by
    have hboth : ∀ p ∈ first ++ second, ¬p.Malformed := List.forall_mem_append.2 ⟨hfirst, hsecond⟩
    refine ⟨_, _, _, makes_ofView hfirst hview, makes_ofView hsecond hview,
      makes_ofView hboth hview, ?_⟩
    have heq := partitionTasks_and
      (keeps metadata.spec
        (pruningPredicate? (bounds metadata.schema options.caseSensitive first)))
      (keeps metadata.spec
        (pruningPredicate? (bounds metadata.schema options.caseSensitive second))) view
    simp only [partitions_ofView, bounds_append, ← keeps_append] at heq ⊢
    constructor
    · rw [heq]
      exact List.filter_sublist
    · exact heq
  reorder filters hperm := by
    have hfilters : ∀ p ∈ filters, ¬p.Malformed := fun p hp => hfirst p (hperm.mem_iff.1 hp)
    refine ⟨_, _, makes_ofView hfirst hview, makes_ofView hfilters hview, ?_⟩
    rw [partitions_ofView, partitions_ofView]
    congr 1
    funext key
    exact keeps_perm (bounds_perm hperm)
  unbound before p after hfilters hp hterms := by
    have hparts : ∀ q ∈ before ++ after, ¬q.Malformed := hfilters ▸ hfirst
    obtain ⟨hbefore, hafter⟩ := List.forall_mem_append.1 hparts
    have hall : ∀ q ∈ before ++ p :: after, ¬q.Malformed :=
      List.forall_mem_append.2 ⟨hbefore, List.forall_mem_cons.2 ⟨hp, hafter⟩⟩
    have hsplits : Splits [p] p.conjuncts :=
      Predicate.splits_iff.2 (by simp [conjunctsList])
    rw [Plan.make_of_forall hall, Plan.make_of_forall hfirst, hfilters,
      boundTerms_insert (hterms _ hsplits)]

end

namespace Orders

def fromFirstDay : Predicate := .compare "day" .ge (.int64 1)

/-- A further filter takes the second day away, and leaves the task of the first as it is. -/
theorem narrows_firstDay : ∃ plan both,
    Makes metadata source default [fromFirstDay] plan ∧
      Makes metadata source default [fromFirstDay, onFirstDay] both ∧
      plan.partitions.map (·.partition) = [[.int32 1], [.int32 2]] ∧
      both.partitions.map (·.partition) = [[.int32 1]] ∧
      both.partitions.Sublist plan.partitions := by
  have hfirst : ∀ p ∈ [fromFirstDay], ¬p.Malformed := by simp [fromFirstDay]
  have hsecond : ∀ p ∈ [onFirstDay], ¬p.Malformed := by simp [onFirstDay]
  have hview : (source.tableView (default : Options).ioTimeout).result? = some (.ok view) := rfl
  obtain ⟨plan, other, both, hplan, -, hboth, hsublist, -⟩ :=
    (@narrows_of_tableView view _ _ metadata source default hfirst hsecond hview).tasks
  have hplanDays : plan.partitions.map (·.partition) = [[.int32 1], [.int32 2]] := by
    cases hplan
    decide
  have hbothDays : both.partitions.map (·.partition) = [[.int32 1]] := by
    cases hboth
    decide
  exact ⟨plan, both, hplan, hboth, hplanDays, hbothDays, hsublist⟩

end Orders

end MergeOnRead.Scan
