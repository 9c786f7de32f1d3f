import Mathlib.Order.Bounds.Basic
import Mathlib.Order.WithBot
import MergeOnRead.Proofs.Watermarks

/-!
# Watermarks are joined

Watermarks are ordered partition by partition, an unset one below all ids. Raising them by others
gives the least ones above both, so they are a join semilattice. Updates in place leave a least bound
as well (`after_le_iff`), and a least bound depends on the set of the ids that are given to partitions
alone: not on their order, nor on how often they come, nor on how they are put together in batches.

Main statement: `join_laws`.
-/

namespace MergeOnRead

namespace Watermarks

variable {marks marks' bound : Watermarks}

/-! ## The order -/

/-- The place of a mark among the ids, where an unset one is below all of them. -/
def rank : Option TransactionId → WithBot TransactionId
  | none => ⊥
  | some id => id

theorem rank_injective : Function.Injective rank := by
  intro mark mark' h
  cases mark with
  | none =>
    cases mark' with
    | none => rfl
    | some id' => exact absurd h.symm (WithBot.coe_ne_bot)
  | some id =>
    cases mark' with
    | none => exact absurd h (WithBot.coe_ne_bot)
    | some id' => rw [WithBot.coe_injective h]

theorem rank_atLeast (id : TransactionId) (mark : Option TransactionId) :
    rank (some (atLeast id mark)) = rank mark ⊔ id := by
  cases mark <;> rfl

/-- The watermark of a partition, in its place among the ids. -/
def level (marks : Watermarks) (partition : Partition.Key) : WithBot TransactionId :=
  rank (marks.get? partition)

theorem level_injective : Function.Injective level := fun _ _ h =>
  OrderedMap.ext_get? fun partition => rank_injective (congrFun h partition)

/-- Watermarks are below others if they are so partition by partition. -/
instance : PartialOrder Watermarks := PartialOrder.lift level level_injective

theorem level_raise (marks : Watermarks) (partition other : Partition.Key) (id : TransactionId) :
    (marks.raise partition id).level other =
      if other = partition then marks.level other ⊔ id else marks.level other := by
  unfold level
  rw [get?_raise]
  split
  · rename_i h
    rw [rank_atLeast, h]
  · rfl

/-- Raised watermarks are the least ones above the old ones and the id. -/
theorem raise_le_iff {partition : Partition.Key} {id : TransactionId} :
    marks.raise partition id ≤ bound ↔ marks ≤ bound ∧ id ≤ bound.level partition := by
  constructor
  · intro h
    refine ⟨fun other => ?_, ?_⟩
    · refine le_trans ?_ (h other)
      rw [level_raise]
      split
      · exact le_sup_left
      · exact le_refl _
    · refine le_trans ?_ (h partition)
      rw [level_raise, if_pos rfl]
      exact le_sup_right
  · rintro ⟨hmarks, hid⟩ other
    rw [level_raise]
    split
    · rename_i h
      exact sup_le (hmarks other) (h ▸ hid)
    · exact hmarks other

theorem foldl_raise_le_iff {pairs : List (Partition.Key × TransactionId)} :
    pairs.foldl (fun acc pair => acc.raise pair.1 pair.2) marks ≤ bound ↔
      marks ≤ bound ∧ ∀ pair ∈ pairs, pair.2 ≤ bound.level pair.1 := by
  induction pairs generalizing marks with
  | nil => simp
  | cons pair pairs ih =>
    rw [List.foldl_cons, ih, raise_le_iff, List.forall_mem_cons, and_assoc]

theorem empty_le (marks : Watermarks) : OrderedMap.empty ≤ marks := fun _ => bot_le

/-- Watermarks are below others if all their entries are. -/
theorem le_iff_forall_mem : marks ≤ bound ↔ ∀ pair ∈ marks.toList, pair.2 ≤ bound.level pair.1 := by
  constructor
  · intro h pair hpair
    have hle := h pair.1
    rwa [level, OrderedMap.mem_toList_iff.1 hpair] at hle
  · intro h partition
    unfold level
    cases hmark : marks.get? partition with
    | none => exact bot_le
    | some id => exact h (partition, id) (OrderedMap.mem_toList_iff.2 hmark)

theorem coe_le_level_iff {partition : Partition.Key} {id : TransactionId} :
    id ≤ bound.level partition ↔ ∃ id', bound.get? partition = some id' ∧ id ≤ id' := by
  unfold level
  cases bound.get? partition with
  | none => exact ⟨fun h => absurd h (WithBot.not_coe_le_bot id), nofun⟩
  | some id' =>
    constructor
    · intro h
      exact ⟨id', rfl, WithBot.coe_le_coe.1 h⟩
    · rintro ⟨_, heq, h⟩
      rw [heq]
      exact WithBot.coe_le_coe.2 h

/-- Watermarks are below others if each one is found there and is not higher. -/
theorem le_iff_get? :
    marks ≤ bound ↔ ∀ partition id, marks.get? partition = some id →
      ∃ id', bound.get? partition = some id' ∧ id ≤ id' := by
  simp only [le_iff_forall_mem, Prod.forall, OrderedMap.mem_toList_iff, coe_le_level_iff]

theorem raiseAll_le_iff : marks.raiseAll marks' ≤ bound ↔ marks ≤ bound ∧ marks' ≤ bound := by
  rw [raiseAll, foldl_raise_le_iff, ← le_iff_forall_mem]

/-- Raising watermarks by others joins them. -/
instance : SemilatticeSup Watermarks where
  sup := raiseAll
  le_sup_left _ _ := (raiseAll_le_iff.1 (le_refl _)).1
  le_sup_right _ _ := (raiseAll_le_iff.1 (le_refl _)).2
  sup_le _ _ _ hmarks hmarks' := raiseAll_le_iff.2 ⟨hmarks, hmarks'⟩

/-! ## Updates in place -/

/-- Moving a watermark up leaves the maximum in its place, and gives it. -/
theorem run_advance (marks : Watermarks) (partition : Partition.Key) (id : TransactionId) :
    (advance partition id).run marks =
      (atLeast id (marks.get? partition), marks.raise partition id) := by
  -- `advance` compares where `atLeast` takes the maximum
  have hslot (mark : Option TransactionId) :
      (if id ≤ mark.getD id then mark.getD id else id) = atLeast id mark := by
    cases mark with
    | none => exact ite_self id
    | some mark => exact (max_def id mark).symm.trans (max_comm id mark)
  have hmarks : marks.raise partition id =
      marks.insert partition (atLeast id (marks.get? partition)) := by
    refine OrderedMap.ext_get? fun other => ?_
    rw [OrderedMap.get?_insert, get?_raise]
  rw [hmarks, ← hslot]
  rfl

theorem run_advanceAll (marks : Watermarks) (pairs : List (Partition.Key × TransactionId)) :
    (advanceAll pairs).run marks =
      ((), pairs.foldl (fun acc pair => acc.raise pair.1 pair.2) marks) := by
  induction pairs generalizing marks with
  | nil => rfl
  | cons pair pairs ih =>
    have hfirst : ((advance pair.1 pair.2).run marks).2 = marks.raise pair.1 pair.2 := by
      rw [run_advance]
    rw [List.foldl_cons, ← hfirst]
    exact ih _

/-- A batch is joined with a copy of the watermarks, which stay what they are. -/
theorem run_withBatch (marks : Watermarks) (batch : Batch) :
    (withBatch batch).run marks = (marks ⊔ batch.ids, marks) := by
  change (((advanceAll batch.ids.toList).run marks).2, marks) = _
  rw [run_advanceAll]
  rfl

theorem Batch.ids_ofList (pairs : List (Partition.Key × TransactionId)) :
    (Batch.ofList pairs).ids = Watermarks.ofList pairs :=
  (List.foldl_hom Batch.ids fun _ _ => rfl).symm

/-- An update of watermarks in place: with one id, or with a batch into which ids were pushed. -/
inductive Update where
  | one (partition : Partition.Key) (id : TransactionId)
  | batch (pushes : List (Partition.Key × TransactionId))

namespace Update

/-- Carries out an update. Watermarks with a batch applied take the place of the old ones. -/
def apply : Update → StateM Watermarks Unit
  | .one partition id => discard (advance partition id)
  | .batch pushes => do set (← withBatch (Batch.ofList pushes))

/-- The ids that an update gives to partitions. -/
def candidates : Update → List (Partition.Key × TransactionId)
  | .one partition id => [(partition, id)]
  | .batch pushes => pushes

/-- An update leaves the least watermarks above the old ones and its candidates. -/
theorem run_apply_le_iff {update : Update} :
    (update.apply.run marks).2 ≤ bound ↔
      marks ≤ bound ∧ ∀ pair ∈ update.candidates, pair.2 ≤ bound.level pair.1 := by
  cases update with
  | one partition id =>
    change ((advance partition id).run marks).2 ≤ bound ↔ _
    rw [run_advance, raise_le_iff, candidates, List.forall_mem_singleton]
  | batch pushes =>
    change ((withBatch (Batch.ofList pushes)).run marks).1 ≤ bound ↔ _
    rw [run_withBatch, sup_le_iff, Batch.ids_ofList, ofList, foldl_raise_le_iff, candidates]
    simp only [empty_le, true_and]

end Update

/-- What updates leave of watermarks, carried out one after the other. -/
def after (updates : List Update) (marks : Watermarks) : Watermarks :=
  ((updates.forM Update.apply).run marks).2

theorem after_cons (update : Update) (updates : List Update) (marks : Watermarks) :
    after (update :: updates) marks = after updates (update.apply.run marks).2 := rfl

/-- Updates leave the least watermarks above the old ones and all candidates. -/
theorem after_le_iff {updates : List Update} :
    after updates marks ≤ bound ↔
      marks ≤ bound ∧ ∀ pair ∈ updates.flatMap Update.candidates, pair.2 ≤ bound.level pair.1 := by
  induction updates generalizing marks with
  | nil =>
    change marks ≤ bound ↔ _
    simp
  | cons update updates ih =>
    rw [after_cons, ih, Update.run_apply_le_iff, List.flatMap_cons, List.forall_mem_append,
      and_assoc]

/-- Updates do what raising by each of their candidates does. -/
theorem after_eq_foldl_raise (updates : List Update) (marks : Watermarks) :
    after updates marks =
      (updates.flatMap Update.candidates).foldl (fun acc pair => acc.raise pair.1 pair.2) marks :=
  eq_of_forall_ge_iff fun _ => by rw [after_le_iff, foldl_raise_le_iff]

/-- A mark is the highest of what it holds itself. -/
theorem isHighest_toList (mark : Option TransactionId) : IsHighest mark.toList mark := by
  cases mark with
  | none => rfl
  | some mark => exact ⟨List.mem_singleton_self mark, by simp⟩

/-- The watermarks that a batch gives. -/
def joined (marks : Watermarks) (batch : Batch) : Watermarks := ((withBatch batch).run marks).1

theorem joined_eq_sup (marks : Watermarks) (batch : Batch) :
    marks.joined batch = marks ⊔ batch.ids :=
  congrArg Prod.fst (run_withBatch marks batch)

/-- What updates make of watermarks, in whatever order and grouping they come. -/
structure JoinLaws : Prop where
  /-- Only the set of the candidates counts: not their order, nor how often they come, nor whether
  they come one by one or in batches. -/
  after_eq (marks : Watermarks) {updates others : List Update}
    (h : ∀ pair, pair ∈ updates.flatMap Update.candidates ↔
      pair ∈ others.flatMap Update.candidates) :
    after updates marks = after others marks
  /-- A partition ends with the highest of its old id and its candidates, and unset without any. -/
  after_highest (marks : Watermarks) (updates : List Update) (partition : Partition.Key) :
    IsHighest
      ((marks.get? partition).toList ++ idsOf partition (updates.flatMap Update.candidates))
      ((after updates marks).get? partition)
  /-- The watermarks of a list of pairs are those of any updates with these candidates. -/
  ofList_eq {pairs : List (Partition.Key × TransactionId)} {updates : List Update}
    (h : ∀ pair, pair ∈ pairs ↔ pair ∈ updates.flatMap Update.candidates) :
    ofList pairs = after updates OrderedMap.empty
  ofList_in_place (pairs : List (Partition.Key × TransactionId)) :
    ((advanceAll pairs).run OrderedMap.empty).2 = ofList pairs
  /-- Moving a watermark up gives the entry that is there afterwards. -/
  advance_gives (marks : Watermarks) (partition : Partition.Key) (id : TransactionId) :
    ((advance partition id).run marks).2.get? partition =
      some ((advance partition id).run marks).1
  below_iff {marks marks' : Watermarks} :
    marks ≤ marks' ↔ ∀ partition id, marks.get? partition = some id →
      ∃ id', marks'.get? partition = some id' ∧ id ≤ id'
  joined_least (marks : Watermarks) (batch : Batch) : IsLUB {marks, batch.ids} (marks.joined batch)
  joined_again (marks : Watermarks) (batch : Batch) :
    (marks.joined batch).joined batch = marks.joined batch
  joined_mono {marks marks' : Watermarks} {batch batch' : Batch} (hmarks : marks ≤ marks')
    (hbatch : batch.ids ≤ batch'.ids) : marks.joined batch ≤ marks'.joined batch'
  /-- The watermarks to which a batch is applied stay what they are. -/
  receiver_stays (marks : Watermarks) (batch : Batch) : ((withBatch batch).run marks).2 = marks

/-- Watermarks are a join semilattice under updates. -/
theorem join_laws : JoinLaws where
  after_eq marks {updates others} h := by
    -- the same candidates have the same bounds, and both sides are the least one
    refine eq_of_forall_ge_iff fun bound => ?_
    rw [after_le_iff, after_le_iff]
    simp only [h]
  after_highest marks updates partition := by
    rw [after_eq_foldl_raise, get?_foldl_raise]
    exact isHighest_raised (isHighest_toList _) _
  ofList_eq {pairs updates} h := by
    refine eq_of_forall_ge_iff fun bound => ?_
    rw [ofList, foldl_raise_le_iff, after_le_iff]
    simp only [h]
  ofList_in_place pairs := congrArg Prod.snd (run_advanceAll OrderedMap.empty pairs)
  advance_gives marks partition id := by
    rw [run_advance, get?_raise, if_pos rfl]
  below_iff := le_iff_get?
  joined_least marks batch := by
    rw [joined_eq_sup]
    exact isLUB_pair
  joined_again marks batch := by
    simp only [joined_eq_sup, sup_assoc, sup_idem]
  joined_mono hmarks hbatch := by
    simp only [joined_eq_sup]
    exact sup_le_sup hmarks hbatch
  receiver_stays marks batch := congrArg Prod.snd (run_withBatch marks batch)

example :
    let p : Partition.Key := [.utf8 "2024-01-01"]
    let q : Partition.Key := [.null]
    let two : TransactionId := ⟨2, by decide, by decide⟩
    let six : TransactionId := ⟨6, by decide, by decide⟩
    after [.batch [(q, six), (p, two), (q, two)]] (ofList [(p, six)]) =
      after [.one q two, .batch [(q, six)], .one p two] (ofList [(p, six)]) := by
  decide

end Watermarks

end MergeOnRead
