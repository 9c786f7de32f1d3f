import MergeOnRead.Proofs.Lists
import MergeOnRead.Proofs.Saturating
import MergeOnRead.Proofs.Scan.Packing

/-!
# Packing is first-fit

First-fit packing is stated of all bins so far, those that were given out and then those that are
open: in this list a bin keeps its place from its opening to the end, and a new bin comes behind all
others. The bins that are open are the last in it, as many as the lookback allows (`Window`). An
item goes into the oldest of these that has room for it, and opens a bin when none has (`Takes`).
Taking in an item with the queue of open bins is such a step (`takes_accept`), so packing is the run
over all items (`firstFit_packFrom`), and the only one (`FirstFit.unique`).

Bins go on growing after another was opened, and the oldest are closed, so the open bins alone do
not show why a bin was opened. Of all bins so far it can be told (`History`): at each place the bins
that were open are the nearest before it, and each of them was too full for the first item of the
new bin; it stays so, since bins only grow.

Main statement: `packs_first_fit`, an item goes into the oldest open bin with room for it; bins come
in the order in which they were opened, each over the target with the first item of the next ones as
far as the lookback reaches; so combined tasks that follow each other are together over the target
size.
-/

namespace MergeOnRead.Scan

namespace Packing

variable {α : Type} {target : UInt64} {lookback : Nat} {weigh : α → UInt64} {item : α}
  {items whole unread : List α}

/-! ## First fit on all bins so far -/

/-- There is room for an item in a bin: with it the bin is not over the target. -/
def HasRoom (target : UInt64) (weigh : α → UInt64) (item : α) (bin : List α) : Prop :=
  Saturating.add (Saturating.sum (bin.map weigh)) (weigh item) ≤ target

/-- Which of the bins are open: as many of the last as the lookback allows. -/
structure Window {β : Type} (lookback : Nat) (closed opened : List β) : Prop where
  length_le : opened.length ≤ lookback
  length_eq : closed ≠ [] → opened.length = lookback

/-- What taking in an item makes of all bins so far. -/
inductive Takes (target : UInt64) (lookback : Nat) (weigh : α → UInt64) (item : α) :
    List (List α) → List (List α) → Prop
  /-- The item goes into the oldest open bin that has room for it. -/
  | put {closed before after : List (List α)} {bin : List α}
      (hopen : Window lookback closed (before ++ bin :: after))
      (hfull : ∀ older ∈ before, ¬HasRoom target weigh item older)
      (hroom : HasRoom target weigh item bin) :
      Takes target lookback weigh item (closed ++ (before ++ bin :: after))
        (closed ++ (before ++ (bin ++ [item]) :: after))
  /-- No open bin has room for the item, and it opens a bin. -/
  | new {closed opened : List (List α)} (hopen : Window lookback closed opened)
      (hfull : ∀ bin ∈ opened, ¬HasRoom target weigh item bin) :
      Takes target lookback weigh item (closed ++ opened) (closed ++ opened ++ [[item]])

/-- What taking in items one by one makes of all bins so far. -/
inductive FirstFit (target : UInt64) (lookback : Nat) (weigh : α → UInt64) :
    List (List α) → List α → List (List α) → Prop
  | nil (bins : List (List α)) : FirstFit target lookback weigh bins [] bins
  | cons {bins taken packed : List (List α)} {item : α} {items : List α}
      (htakes : Takes target lookback weigh item bins taken)
      (hrest : FirstFit target lookback weigh taken items packed) :
      FirstFit target lookback weigh bins (item :: items) packed

section

variable {β γ : Type} {closed opened closed' opened' : List β}

theorem Window.length_opened (h : Window lookback closed opened) :
    opened.length = min lookback (closed ++ opened).length := by
  have hle := h.length_le
  rw [List.length_append]
  by_cases hclosed : closed = []
  · subst hclosed
    rw [List.length_nil]
    omega
  · have heq := h.length_eq hclosed
    omega

/-- Which bins are open is decided by all bins so far. -/
theorem Window.unique (h : Window lookback closed opened) (h' : Window lookback closed' opened')
    (hbins : closed ++ opened = closed' ++ opened') : closed = closed' ∧ opened = opened' :=
  List.append_inj' hbins (by rw [h.length_opened, h'.length_opened, hbins])

theorem Window.map (h : Window lookback closed opened) (f : β → γ) :
    Window lookback (closed.map f) (opened.map f) where
  length_le := by simpa using h.length_le
  length_eq hclosed := by simpa using h.length_eq (mt (congrArg (List.map f)) hclosed)

/-- A bin that is near enough to the end is open. -/
theorem Window.mem_opened (h : Window lookback closed opened) {i : Nat} {bin : β}
    (hbin : (closed ++ opened)[i]? = some bin) (hnear : (closed ++ opened).length - i ≤ lookback) :
    bin ∈ opened := by
  rw [List.length_append] at hnear
  by_cases hclosed : closed = []
  · subst hclosed
    exact List.mem_of_getElem? hbin
  · have hlength := h.length_eq hclosed
    have hlt := (List.getElem?_eq_some_iff.1 hbin).1
    rw [List.length_append] at hlt
    rw [List.getElem?_append_right (by omega)] at hbin
    exact List.mem_of_getElem? hbin

end

theorem Takes.unique {bins left right : List (List α)}
    (hleft : Takes target lookback weigh item bins left)
    (hright : Takes target lookback weigh item bins right) : left = right := by
  cases hleft with
  | @put closed before after bin hopen hfull hroom =>
    generalize hbins : closed ++ (before ++ bin :: after) = bins at hright
    cases hright with
    | put hopen' hfull' hroom' =>
      obtain ⟨rfl, hopened⟩ := hopen.unique hopen' hbins
      obtain ⟨rfl, rfl, rfl⟩ := first_unique hopened hfull hroom hfull' hroom'
      rfl
    | new hopen' hfull' =>
      obtain ⟨rfl, rfl⟩ := hopen.unique hopen' hbins
      exact absurd hroom (hfull' bin (by simp))
  | @new closed opened hopen hfull =>
    generalize hbins : closed ++ opened = bins at hright
    cases hright with
    | put hopen' hfull' hroom' =>
      obtain ⟨rfl, rfl⟩ := hopen.unique hopen' hbins
      exact absurd hroom' (hfull _ (by simp))
    | new => rfl

/-- First-fit packing leaves no choice. -/
theorem FirstFit.unique {bins left right : List (List α)}
    (hleft : FirstFit target lookback weigh bins items left)
    (hright : FirstFit target lookback weigh bins items right) : left = right := by
  induction hleft with
  | nil => cases hright; rfl
  | cons htakes hrest ih =>
    cases hright with
    | cons htakes' hrest' =>
      obtain rfl := htakes.unique htakes'
      exact ih hrest'

/-! ## Packing with the queue of open bins -/

section

variable {closed opened : List (Bin α)}

theorem Window.accept (h : Window lookback closed opened) (target weight : UInt64) (item : α) :
    Window lookback (closed ++ (accept target lookback weight item opened).1.toList)
      (accept target lookback weight item opened).2 := by
  rcases accept_cases target lookback weight item opened with
    ⟨before, bin, after, rfl, -, -, haccept⟩ |
      ⟨-, ⟨hroom, haccept⟩ | ⟨hfull, oldest, rest, hsplit, haccept⟩⟩
  · rw [haccept]
    constructor
    · simpa using h.length_le
    · simpa using h.length_eq
  · rw [haccept]
    constructor
    · simpa [Nat.succ_le_iff] using hroom
    · intro hclosed
      have hlength := h.length_eq (by simpa using hclosed)
      omega
  · rw [haccept]
    have hlength : opened.length = rest.length := by simpa using congrArg List.length hsplit
    have hle := h.length_le
    constructor <;> dsimp only <;> omega

theorem Sound.hasRoom_iff {bin : Bin α} (h : Sound target weigh whole unread bin) :
    HasRoom target weigh item bin.items ↔ Saturating.add bin.weight (weigh item) ≤ target := by
  rw [HasRoom, h.weight]

/-- Taking in an item with the queue of open bins, seen on all bins so far: closing a bin does not
move it. -/
theorem takes_accept (hwindow : Window lookback closed opened)
    (hsound : ∀ bin ∈ opened, Sound target weigh whole unread bin) (item : α) :
    Takes target lookback weigh item ((closed ++ opened).map (·.items))
      ((closed ++ (accept target lookback (weigh item) item opened).1.toList ++
        (accept target lookback (weigh item) item opened).2).map (·.items)) := by
  have hopen := hwindow.map (·.items)
  have hfull : ∀ bins ⊆ opened, (∀ bin ∈ bins, target < Saturating.add bin.weight (weigh item)) →
      ∀ bin ∈ bins.map (·.items), ¬HasRoom target weigh item bin := by
    intro bins hbins hfull
    refine List.forall_mem_map.2 fun bin hbin => ?_
    rw [(hsound bin (hbins hbin)).hasRoom_iff]
    exact UInt64.not_le.2 (hfull bin hbin)
  rcases accept_cases target lookback (weigh item) item opened with
    ⟨before, bin, after, rfl, hbefore, hroom, haccept⟩ | ⟨hnone, hnew⟩
  · rw [haccept]
    have hbin := (hsound bin (by simp)).hasRoom_iff.2 hroom
    simp only [List.map_append, List.map_cons, Option.toList_none, List.append_nil, grow] at hopen ⊢
    exact .put hopen (hfull before (by simp) hbefore) hbin
  · have htakes : Takes target lookback weigh item (closed.map (·.items) ++ opened.map (·.items))
        (closed.map (·.items) ++ opened.map (·.items) ++ [[item]]) :=
      .new hopen (hfull opened (fun _ h => h) hnone)
    rcases hnew with ⟨-, haccept⟩ | ⟨-, oldest, rest, hsplit, haccept⟩
    · rw [haccept]
      simpa using htakes
    · rw [haccept]
      have hitems := congrArg (List.map (·.items)) hsplit
      simp only [List.map_append, List.map_cons, List.map_nil] at hitems
      rw [List.append_assoc, hitems] at htakes
      simpa using htakes

/-- Packing with some bins open is the run of first-fit packing from all bins so far. -/
theorem firstFit_packFrom (hwindow : Window lookback closed opened) (hwhole : items.Sublist whole)
    (hsound : ∀ bin ∈ opened, Sound target weigh whole items bin) :
    FirstFit target lookback weigh ((closed ++ opened).map (·.items)) items
      (closed.map (·.items) ++ packFrom target lookback weigh opened items) := by
  induction items generalizing closed opened with
  | nil =>
    rw [packFrom, ← List.map_append]
    exact .nil _
  | cons item items ih =>
    have hrun := ih (hwindow.accept target (weigh item) item)
      ((List.sublist_cons_self item items).trans hwhole)
      fun bin hbin => sound_accept lookback hwhole hsound bin (List.mem_append_right _ hbin)
    refine .cons (takes_accept hwindow hsound item) ?_
    rw [packFrom]
    split
    · rename_i opened' haccept
      simpa [haccept] using hrun
    · rename_i oldest opened' haccept
      simpa [haccept] using hrun

end

theorem firstFit_pack (target : UInt64) (lookback : Nat) (weigh : α → UInt64) (items : List α) :
    FirstFit target (max lookback 1) weigh [] items (pack target lookback weigh items) := by
  have hwindow : Window (max lookback 1) ([] : List (Bin α)) [] := ⟨Nat.zero_le _, by simp⟩
  have hsound : ∀ bin ∈ ([] : List (Bin α)), Sound target weigh items items bin := by simp
  exact firstFit_packFrom hwindow (List.Sublist.refl items) hsound

/-! ## How far bins are filled -/

/-- A bin that is so full that another had to be opened: with the first item of the other it is over
the target. -/
def Overfull (target : UInt64) (weigh : α → UInt64) (bin other : List α) : Prop :=
  ∃ first, other.head? = some first ∧
    target.toNat < Saturating.exactSum (bin.map weigh) + (weigh first).toNat

/-- Each bin is too full for the first items of the bins behind it, as far as the lookback reaches.
-/
def Filled (target : UInt64) (lookback : Nat) (weigh : α → UInt64) (bins : List (List α)) : Prop :=
  ∀ i j bin other, bins[i]? = some bin → bins[j]? = some other → i < j → j - i ≤ lookback →
    Overfull target weigh bin other

section

variable {bin other : List α} {before after bins : List (List α)}

/-- A bin without room for an item is too full for it, since the sum that was compared with the
target is not above the exact one. -/
theorem overfull_of_not_hasRoom (h : ¬HasRoom target weigh item bin) :
    Overfull target weigh bin [item] := by
  refine ⟨item, rfl, ?_⟩
  rw [HasRoom, UInt64.not_le, UInt64.lt_iff_toNat_lt, Saturating.toNat_add,
    Saturating.toNat_sum] at h
  omega

/-- A bin stays too full for another while it grows. -/
theorem Overfull.grow (h : Overfull target weigh bin other) :
    Overfull target weigh (bin ++ [item]) other := by
  obtain ⟨first, hfirst, hover⟩ := h
  refine ⟨first, hfirst, ?_⟩
  rw [List.map_append, Saturating.exactSum_append]
  omega

/-- A bin keeps its first item while it grows. -/
theorem Overfull.grow_other (h : Overfull target weigh bin other) :
    Overfull target weigh bin (other ++ [item]) := by
  obtain ⟨first, hfirst, hover⟩ := h
  refine ⟨first, ?_, hover⟩
  rw [List.head?_append, hfirst]
  rfl

theorem Filled.grow (h : Filled target lookback weigh (before ++ bin :: after)) :
    Filled target lookback weigh (before ++ (bin ++ [item]) :: after) := by
  intro i j l r hl hr hlt hnear
  rcases getElem?_exchange_cases (a := bin) hl with hl' | ⟨hl', rfl⟩ <;>
    rcases getElem?_exchange_cases (a := bin) hr with hr' | ⟨hr', rfl⟩
  · exact h i j l r hl' hr' hlt hnear
  · exact (h i j l bin hl' hr' hlt hnear).grow_other
  · exact (h i j bin r hl' hr' hlt hnear).grow
  · exact (h i j bin bin hl' hr' hlt hnear).grow.grow_other

theorem Filled.concat (h : Filled target lookback weigh bins)
    (hnew : ∀ i bin, bins[i]? = some bin → bins.length - i ≤ lookback →
      Overfull target weigh bin [item]) :
    Filled target lookback weigh (bins ++ [[item]]) := by
  intro i j l r hl hr hlt hnear
  rcases getElem?_concat_cases hr with ⟨hj, hr⟩ | ⟨rfl, rfl⟩
  · rcases getElem?_concat_cases hl with ⟨-, hl⟩ | ⟨rfl, rfl⟩
    · exact h i j l r hl hr hlt hnear
    · omega
  · rcases getElem?_concat_cases hl with ⟨-, hl⟩ | ⟨rfl, rfl⟩
    · exact hnew i l hl hnear
    · omega

end

/-- What is known of all bins so far, while some items are not taken in yet. -/
structure History (target : UInt64) (lookback : Nat) (weigh : α → UInt64) (whole unread : List α)
    (bins : List (List α)) : Prop where
  nonempty : ∀ bin ∈ bins, bin ≠ []
  filled : Filled target lookback weigh bins
  /-- Bins come in the order of their first items, and no bin starts with an item that is not taken
  in yet. -/
  firsts : (bins.filterMap List.head? ++ unread).Sublist whole

section

variable {bins taken : List (List α)}

theorem History.takes (h : History target lookback weigh whole (item :: items) bins)
    (htakes : Takes target lookback weigh item bins taken) :
    History target lookback weigh whole items taken := by
  obtain ⟨hnonempty, hfilled, hfirsts⟩ := h
  cases htakes with
  | @put closed before after bin hopen hfull hroom =>
    rw [← List.append_assoc] at hnonempty hfilled hfirsts ⊢
    have hhead : (bin ++ [item]).head? = bin.head? :=
      List.head?_append_of_ne_nil _ (hnonempty bin (by simp))
    constructor
    · intro other hother
      rcases List.mem_append.1 hother with hother | hother
      · exact hnonempty other (List.mem_append_left _ hother)
      · rcases List.mem_cons.1 hother with rfl | hother
        · simp
        · exact hnonempty other (by simp [hother])
    · exact hfilled.grow
    · rw [List.filterMap_append, List.filterMap_cons] at hfirsts ⊢
      rw [hhead]
      exact ((List.sublist_cons_self item items).append_left _).trans hfirsts
  | @new closed opened hopen hfull =>
    constructor
    · intro bin hbin
      rcases List.mem_append.1 hbin with hbin | hbin
      · exact hnonempty bin hbin
      · simp [List.mem_singleton.1 hbin]
    · exact hfilled.concat fun i bin hbin hnear =>
        overfull_of_not_hasRoom (hfull bin (hopen.mem_opened hbin hnear))
    · simpa using hfirsts

/-- The history is kept while items are taken in. -/
theorem History.run (hrun : FirstFit target lookback weigh bins items taken)
    (h : History target lookback weigh whole items bins) :
    History target lookback weigh whole [] taken := by
  induction hrun with
  | nil => exact h
  | cons htakes _ ih => exact ih (h.takes htakes)

end

theorem history_pack (target : UInt64) (lookback : Nat) (weigh : α → UInt64) (items : List α) :
    History target (max lookback 1) weigh items [] (pack target lookback weigh items) :=
  History.run (firstFit_pack target lookback weigh items)
    ⟨by simp, by intro i j bin other hbin; simp at hbin, by simp⟩

/-! ## The bins that are given out -/

theorem filled_pack : Filled target (max lookback 1) weigh (pack target lookback weigh items) :=
  (history_pack target lookback weigh items).filled

/-- The first items of the bins come in the order of the items. -/
theorem sublist_firsts :
    ((pack target lookback weigh items).filterMap List.head?).Sublist items := by
  simpa using (history_pack target lookback weigh items).firsts

/-- The places at which bins start increase. -/
theorem pairwise_firsts_places :
    ((places target lookback weigh items).filterMap List.head?).Pairwise (· < ·) := by
  have hfirsts := (@sublist_firsts _ target lookback (weigh ∘ Prod.fst) items.zipIdx).map Prod.snd
  rw [map_snd_zipIdx, List.map_filterMap] at hfirsts
  have hheads : (places target lookback weigh items).filterMap List.head? =
      (pack target lookback (weigh ∘ Prod.fst) items.zipIdx).filterMap
        fun out => out.head?.map Prod.snd := by
    rw [places, List.filterMap_map]
    exact List.filterMap_congr fun out _ => List.head?_map
  rw [hheads]
  exact List.pairwise_lt_range.sublist hfirsts

/-- What first-fit packing with a number of open bins gives. -/
structure IsFirstFit (target : UInt64) (lookback : Nat) (weigh : α → UInt64) (items : List α)
    (bins : List (List α)) : Prop where
  /-- Each call gives out the next bin, and when there are no more, nothing. -/
  given : ∀ calls, (next target lookback weigh (after target lookback weigh items calls)).1 =
    bins[calls]?
  /-- The bins are those of taking in the items one by one, each into the oldest open bin that has
  room for it, or into a new bin when none has. -/
  oldest : ∀ other, FirstFit target (max lookback 1) weigh [] items other ↔ other = bins
  /-- The items of each bin stand at their places in the list. -/
  places : List.Forall₂ (StandAt items) (places target lookback weigh items) bins
  /-- Bins are given out in the order in which they were opened: their first items come one behind
  the other in the list, and each before the other items of its bin. -/
  opened : ((Packing.places target lookback weigh items).filterMap List.head?).Pairwise (· < ·) ∧
    ∀ p ∈ Packing.places target lookback weigh items, p.Pairwise (· < ·)
  /-- Each bin is over the target with the first item of a bin that was opened while it was open. -/
  filled : Filled target (max lookback 1) weigh bins

theorem isFirstFit (target : UInt64) (lookback : Nat) (weigh : α → UInt64) (items : List α) :
    IsFirstFit target lookback weigh items (pack target lookback weigh items) where
  given := next_after
  oldest _ := ⟨fun h => h.unique (firstFit_pack target lookback weigh items),
    fun h => h ▸ firstFit_pack target lookback weigh items⟩
  places := standAt_places
  opened := ⟨pairwise_firsts_places, fun _ => pairwise_of_mem_places⟩
  filled := filled_pack

/-- The third item has room in the first bin again, the fourth in the second only. -/
example : pack 100 10 id [60, 60, 30, 30] = [[60, 30], [60, 30]] := by decide

end Packing

namespace Plan

/-- The weight of a combined task in packing, as an exact sum over its partitions. -/
def packingWeight (plan : Plan) (task : CombinedTask) : Nat :=
  Saturating.exactSum (task.tasks.map (weight plan.options))

/-- How far the combined tasks of a plan are filled. -/
structure FillsTasks (plan : Plan) : Prop where
  consecutive : ∀ i task next, plan.tasks[i]? = some task → plan.tasks[i + 1]? = some next →
    plan.options.targetSize.toNat < plan.packingWeight task + plan.packingWeight next
  total : 2 ≤ plan.tasks.length → plan.tasks.length / 2 * plan.options.targetSize.toNat <
    Saturating.exactSum (plan.partitions.map (weight plan.options))

theorem consecutive_tasks (plan : Plan) {i : Nat} {task next : CombinedTask}
    (htask : plan.tasks[i]? = some task) (hnext : plan.tasks[i + 1]? = some next) :
    plan.options.targetSize.toNat < plan.packingWeight task + plan.packingWeight next := by
  unfold tasks at htask hnext
  rw [List.getElem?_map, Option.map_eq_some_iff] at htask hnext
  obtain ⟨bin, hbin, rfl⟩ := htask
  obtain ⟨other, hother, rfl⟩ := hnext
  obtain ⟨first, hfirst, hover⟩ :=
    Packing.filled_pack i (i + 1) bin other hbin hother (Nat.lt_succ_self i) (by omega)
  have hmem : weight plan.options first ∈ other.map (weight plan.options) :=
    List.mem_map_of_mem (List.mem_of_head? hfirst)
  have hle := Saturating.le_exactSum hmem
  unfold packingWeight
  dsimp only
  omega

/-- The combined tasks together weigh what the partitions weigh. -/
theorem sum_packingWeight (plan : Plan) :
    (plan.tasks.map plan.packingWeight).sum =
      Saturating.exactSum (plan.partitions.map (weight plan.options)) := by
  have hpacked : ((Packing.pack plan.options.targetSize plan.options.lookback.toNat
      (weight plan.options) plan.partitions).flatten.map (weight plan.options)).Perm
        (plan.partitions.map (weight plan.options)) :=
    Packing.flatten_pack.map _
  rw [← Saturating.exactSum_perm hpacked, Saturating.exactSum_eq_sum, List.map_map,
    List.map_flatten, List.sum_flatten, List.map_map, tasks, List.map_map]
  refine congrArg List.sum (List.map_congr_left fun bin _ => ?_)
  simp [packingWeight, Saturating.exactSum_eq_sum]

end Plan

/-- Numbers of which any two that follow each other are together above a bound are in all above half
as many bounds as there are numbers. -/
theorem half_mul_le_sum {bound : Nat} : ∀ ns : List Nat,
    (∀ i m n, ns[i]? = some m → ns[i + 1]? = some n → bound < m + n) →
    ns.length / 2 * (bound + 1) ≤ ns.sum
  | [], _ => by simp
  | [n], _ => by simp
  | m :: n :: ns, h => by
    have hpair : bound < m + n := h 0 m n rfl rfl
    have hrest := half_mul_le_sum ns fun i k l hk hl => h (i + 2) k l hk hl
    have hhalf : (m :: n :: ns).length / 2 = ns.length / 2 + 1 := by
      simp only [List.length_cons]
      omega
    rw [hhalf, Nat.add_mul, List.sum_cons, List.sum_cons]
    omega

theorem Plan.fillsTasks (plan : Plan) : plan.FillsTasks where
  consecutive _ _ _ := plan.consecutive_tasks
  total htwo := by
    have hhalf := @half_mul_le_sum plan.options.targetSize.toNat
      (plan.tasks.map plan.packingWeight) fun i m n hm hn => by
        rw [List.getElem?_map, Option.map_eq_some_iff] at hm hn
        obtain ⟨task, htask, rfl⟩ := hm
        obtain ⟨next, hnext, rfl⟩ := hn
        exact plan.consecutive_tasks htask hnext
    rw [List.length_map, plan.sum_packingWeight, Nat.mul_add, Nat.mul_one] at hhalf
    have hpos : 0 < plan.tasks.length / 2 := Nat.div_pos htwo (by decide)
    omega

/-- Packing puts an item into the oldest open bin that has room for it, opens a bin only for an item
that has room in no open bin, and gives bins out in the order in which they were opened. So combined
tasks of a plan that follow each other are together heavier than the target size, and two or more of
them in all heavier than half as many target sizes. -/
theorem packs_first_fit :
    (∀ (α : Type) (target : UInt64) (lookback : Nat) (weigh : α → UInt64) (items : List α),
      Packing.IsFirstFit target lookback weigh items (Packing.pack target lookback weigh items)) ∧
    ∀ plan : Plan, plan.FillsTasks :=
  ⟨fun _ => Packing.isFirstFit, Plan.fillsTasks⟩

end MergeOnRead.Scan
