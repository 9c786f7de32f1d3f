import Mathlib.Data.List.Flatten
import Mathlib.Data.List.Nodup
import MergeOnRead.Proofs.Scan.Partitions

/-!
# What packing keeps

Packing takes in one item after the other and gives out a bin when one is closed. At each time an item
is in a bin that was given out, in an open bin, or not taken in yet, and it is in one of these only: one
step does not lose an item (`contents_accept`), so neither does a run (`flatten_packFrom`). What a bin
must be like is told while items are left (`Sound`), as the bin may be closed at any time, and is kept
by each step (`sound_accept`).

The bins may also be asked for one by one. The calls give out what packing all items at once does
(`next_after`), with as many bins open between them as the lookback allows (`length_opened_after`).

Main statement: `packs_everything`, each position of a list is in one bin, and each partition task of a
plan in one combined task.
-/

namespace MergeOnRead.Scan

namespace Packing

variable {α : Type} {target weight : UInt64} {lookback : Nat} {weigh : α → UInt64} {item : α}
  {items : List α} {bins : List (Bin α)}

/-- The bin with an item put behind the others. -/
def grow (weight : UInt64) (item : α) (bin : Bin α) : Bin α :=
  ⟨bin.items ++ [item], Saturating.add bin.weight weight⟩

theorem place?_eq_none (h : place? target weight item bins = none) :
    ∀ bin ∈ bins, target < Saturating.add bin.weight weight := by
  induction bins with
  | nil => exact fun _ hbin => absurd hbin List.not_mem_nil
  | cons bin bins ih =>
    rw [place?] at h
    split at h
    · cases h
    · rename_i hfull
      exact List.forall_mem_cons.2 ⟨UInt64.not_le.1 hfull, ih (Option.map_eq_none_iff.1 h)⟩

/-- An item is put into the first bin with room for it. -/
theorem place?_eq_some {placed : List (Bin α)} (h : place? target weight item bins = some placed) :
    ∃ before bin after, bins = before ++ bin :: after ∧
      (∀ earlier ∈ before, target < Saturating.add earlier.weight weight) ∧
      Saturating.add bin.weight weight ≤ target ∧ placed = before ++ grow weight item bin :: after := by
  induction bins generalizing placed with
  | nil => cases h
  | cons bin bins ih =>
    rw [place?] at h
    split at h
    · rename_i hroom
      cases h
      exact ⟨[], bin, bins, rfl, fun _ h => absurd h List.not_mem_nil, hroom, rfl⟩
    · rename_i hfull
      obtain ⟨rest, hrest, rfl⟩ := Option.map_eq_some_iff.1 h
      obtain ⟨before, found, after, rfl, hbefore, hroom, rfl⟩ := ih hrest
      exact ⟨bin :: before, found, after, rfl,
        List.forall_mem_cons.2 ⟨UInt64.not_le.1 hfull, hbefore⟩, hroom, rfl⟩

/-- What taking in an item can do. -/
theorem accept_cases (target : UInt64) (lookback : Nat) (weight : UInt64) (item : α)
    (bins : List (Bin α)) :
    (∃ before bin after, bins = before ++ bin :: after ∧
        (∀ earlier ∈ before, target < Saturating.add earlier.weight weight) ∧
        Saturating.add bin.weight weight ≤ target ∧
        accept target lookback weight item bins =
          (none, before ++ grow weight item bin :: after)) ∨
      (∀ bin ∈ bins, target < Saturating.add bin.weight weight) ∧
        (bins.length < lookback ∧
            accept target lookback weight item bins = (none, bins ++ [⟨[item], weight⟩]) ∨
          lookback ≤ bins.length ∧ ∃ oldest rest, bins ++ [⟨[item], weight⟩] = oldest :: rest ∧
            accept target lookback weight item bins = (some oldest, rest)) := by
  unfold accept
  split
  · rename_i placed hplaced
    obtain ⟨before, bin, after, hbins, hbefore, hroom, rfl⟩ := place?_eq_some hplaced
    exact .inl ⟨before, bin, after, hbins, hbefore, hroom, rfl⟩
  · rename_i hnone
    refine .inr ⟨place?_eq_none hnone, ?_⟩
    split
    · rename_i hnil
      simp at hnil
    · rename_i oldest rest hsplit
      have hlength : bins.length = rest.length := by
        simpa using congrArg List.length hsplit
      split
      · rename_i hfull
        exact .inr ⟨hlength ▸ hfull, oldest, rest, hsplit, rfl⟩
      · rename_i hroom
        exact .inl ⟨by omega, by rw [hsplit]⟩

/-- All items in bins. -/
def contents (bins : List (Bin α)) : List α := bins.flatMap (·.items)

/-- No item is lost when one is taken in, and none comes twice. -/
theorem contents_accept (target : UInt64) (lookback : Nat) (weight : UInt64) (item : α)
    (bins : List (Bin α)) :
    (((accept target lookback weight item bins).1.toList.flatMap (·.items)) ++
      contents (accept target lookback weight item bins).2).Perm (contents bins ++ [item]) := by
  rcases accept_cases target lookback weight item bins with
    ⟨before, bin, after, rfl, -, -, haccept⟩ | ⟨-, ⟨-, haccept⟩ | ⟨-, oldest, rest, hsplit, haccept⟩⟩
  · rw [haccept]
    simp only [contents, grow, Option.toList_none, List.flatMap_nil, List.nil_append,
      List.flatMap_append, List.flatMap_cons, List.append_assoc]
    exact (List.perm_append_comm.append_left _).append_left _
  · rw [haccept]
    simp [contents]
  · rw [haccept]
    have hcontents : contents (bins ++ [⟨[item], weight⟩]) = contents bins ++ [item] := by
      simp [contents]
    rw [← hcontents, hsplit]
    simp [contents]

/-- The bins that are given out hold the items of the open bins and those that are not taken in. -/
theorem flatten_packFrom :
    (packFrom target lookback weigh bins items).flatten.Perm (contents bins ++ items) := by
  induction items generalizing bins with
  | nil => simp [packFrom, contents, List.flatMap]
  | cons item items ih =>
    have hstep := (contents_accept target lookback (weigh item) item bins).append_right items
    rw [packFrom]
    split
    · rename_i opened haccept
      rw [haccept] at hstep
      exact ih.trans (by simpa using hstep)
    · rename_i closed opened haccept
      rw [haccept] at hstep
      refine (ih.append_left closed.items).trans ?_
      simpa using hstep

/-- A bin that is open or given out, while some items of a list are not taken in yet. -/
structure Sound (target : UInt64) (weigh : α → UInt64) (whole unread : List α) (bin : Bin α) :
    Prop where
  nonempty : bin.items ≠ []
  weight : bin.weight = Saturating.sum (bin.items.map weigh)
  fits : 2 ≤ bin.items.length → bin.weight ≤ target
  /-- The items of the bin come in their order, before all that are not taken in. -/
  ordered : (bin.items ++ unread).Sublist whole

section

variable {whole : List α} {bin : Bin α}

theorem Sound.keep (h : Sound target weigh whole (item :: items) bin) :
    Sound target weigh whole items bin :=
  ⟨h.nonempty, h.weight, h.fits,
    ((List.sublist_cons_self item items).append_left bin.items).trans h.ordered⟩

theorem Sound.grow (h : Sound target weigh whole (item :: items) bin)
    (hroom : Saturating.add bin.weight (weigh item) ≤ target) :
    Sound target weigh whole items (grow (weigh item) item bin) where
  nonempty := List.append_ne_nil_of_right_ne_nil _ (List.cons_ne_nil _ _)
  weight := by
    rw [Packing.grow, h.weight, List.map_append, Saturating.sum, Saturating.sum, List.foldl_append]
    rfl
  fits _ := hroom
  ordered := by
    rw [Packing.grow, List.append_assoc]
    exact h.ordered

theorem sound_new (h : (item :: items).Sublist whole) :
    Sound target weigh whole items ⟨[item], weigh item⟩ where
  nonempty := List.cons_ne_nil _ _
  weight := by
    apply UInt64.toNat_inj.1
    have := (weigh item).toNat_lt
    simp only [List.map_singleton, Saturating.toNat_sum, Saturating.exactSum, Saturating.top]
    omega
  fits h := absurd h (by simp)
  ordered := h

end

/-- Taking in an item leaves sound bins, those that are open and the one that is closed. -/
theorem sound_accept (lookback : Nat) {whole : List α} (hitem : (item :: items).Sublist whole)
    (h : ∀ bin ∈ bins, Sound target weigh whole (item :: items) bin) :
    ∀ bin ∈ (accept target lookback (weigh item) item bins).1.toList ++
        (accept target lookback (weigh item) item bins).2,
      Sound target weigh whole items bin := by
  have hkeep : ∀ bin ∈ bins, Sound target weigh whole items bin := fun bin hbin => (h bin hbin).keep
  have hnew : ∀ bin ∈ bins ++ [⟨[item], weigh item⟩], Sound target weigh whole items bin := by
    intro bin hbin
    rcases List.mem_append.1 hbin with hbin | hbin
    · exact hkeep bin hbin
    · rw [List.mem_singleton.1 hbin]
      exact sound_new hitem
  rcases accept_cases target lookback (weigh item) item bins with
    ⟨before, grown, after, rfl, -, hroom, haccept⟩ |
      ⟨-, ⟨-, haccept⟩ | ⟨-, oldest, rest, hsplit, haccept⟩⟩
  · rw [haccept]
    have hgrown := (h grown (by simp)).grow hroom
    intro bin hbin
    simp only [Option.toList_none, List.nil_append, List.mem_append, List.mem_cons] at hbin
    rcases hbin with hbin | rfl | hbin
    · exact hkeep bin (by simp [hbin])
    · exact hgrown
    · exact hkeep bin (by simp [hbin])
  · rw [haccept]
    exact hnew
  · rw [haccept]
    rw [hsplit] at hnew
    exact hnew

/-- A bin that is given out was sound when it was closed. -/
theorem sound_of_mem_packFrom {whole out : List α} (hitems : items.Sublist whole)
    (h : ∀ bin ∈ bins, Sound target weigh whole items bin)
    (hout : out ∈ packFrom target lookback weigh bins items) :
    ∃ unread bin, Sound target weigh whole unread bin ∧ bin.items = out := by
  induction items generalizing bins with
  | nil =>
    obtain ⟨bin, hbin, rfl⟩ := List.mem_map.1 hout
    exact ⟨[], bin, h bin hbin, rfl⟩
  | cons item items ih =>
    have hsound := sound_accept lookback hitems h
    have hrest := (List.sublist_cons_self item items).trans hitems
    rw [packFrom] at hout
    split at hout
    · rename_i opened haccept
      rw [haccept] at hsound
      exact ih hrest hsound hout
    · rename_i closed opened haccept
      rw [haccept] at hsound
      obtain ⟨hclosed, hopened⟩ := List.forall_mem_cons.1 hsound
      rcases List.mem_cons.1 hout with rfl | hout
      · exact ⟨items, closed, hclosed, rfl⟩
      · exact ih hrest hopened hout

/-! ## Bins given out one by one -/

/-- The next bin is the first of those that packing gives out, and the others are left. -/
theorem packFrom_nextFrom :
    (nextFrom target lookback weigh bins items).1 = (packFrom target lookback weigh bins items)[0]? ∧
      packFrom target lookback weigh (nextFrom target lookback weigh bins items).2.opened
          (nextFrom target lookback weigh bins items).2.unread =
        (packFrom target lookback weigh bins items).tail := by
  induction items generalizing bins with
  | nil => cases bins <;> exact ⟨rfl, rfl⟩
  | cons item items ih =>
    rw [nextFrom, packFrom]
    split
    · exact ih
    · exact ⟨rfl, rfl⟩

theorem length_opened_accept (target weight : UInt64) (item : α) (h : bins.length ≤ lookback) :
    (accept target lookback weight item bins).2.length ≤ lookback := by
  rcases accept_cases target lookback weight item bins with
    ⟨before, bin, after, rfl, -, -, haccept⟩ |
      ⟨-, ⟨hlt, haccept⟩ | ⟨-, oldest, rest, hsplit, haccept⟩⟩
  · rw [haccept]
    simpa using h
  · rw [haccept, List.length_append]
    exact hlt
  · rw [haccept]
    have hlength : bins.length = rest.length := by simpa using congrArg List.length hsplit
    exact hlength ▸ h

theorem length_opened_nextFrom (h : bins.length ≤ lookback) :
    (nextFrom target lookback weigh bins items).2.opened.length ≤ lookback := by
  induction items generalizing bins with
  | nil =>
    cases bins with
    | nil => exact Nat.zero_le _
    | cons bin bins => exact (Nat.le_succ _).trans h
  | cons item items ih =>
    have hopened := length_opened_accept target (weigh item) item h
    rw [nextFrom]
    split
    · rename_i opened haccept
      rw [haccept] at hopened
      exact ih hopened
    · rename_i closed opened haccept
      rw [haccept] at hopened
      exact hopened

/-- What is left to do after a number of calls. -/
def after (target : UInt64) (lookback : Nat) (weigh : α → UInt64) (items : List α) :
    Nat → Progress α
  | 0 => .start items
  | calls + 1 => (next target lookback weigh (after target lookback weigh items calls)).2

theorem packFrom_after (calls : Nat) :
    packFrom target (max lookback 1) weigh (after target lookback weigh items calls).opened
        (after target lookback weigh items calls).unread =
      (pack target lookback weigh items).drop calls := by
  induction calls with
  | zero => rfl
  | succ calls ih => rw [after, next, packFrom_nextFrom.2, ih, List.tail_drop]

theorem length_opened_after (calls : Nat) :
    (after target lookback weigh items calls).opened.length ≤ max lookback 1 := by
  induction calls with
  | zero => exact Nat.zero_le _
  | succ calls ih => exact length_opened_nextFrom ih

/-- Calls give out the bins one by one, and then nothing. -/
theorem next_after (calls : Nat) :
    (next target lookback weigh (after target lookback weigh items calls)).1 =
      (pack target lookback weigh items)[calls]? := by
  rw [next, packFrom_nextFrom.1, packFrom_after, List.getElem?_drop, Nat.add_zero]

/-! ## The places of items -/

section

variable {β : Type} (f : β → α)

def mapItems (bin : Bin β) : Bin α := ⟨bin.items.map f, bin.weight⟩

theorem place?_map (target weight : UInt64) (item : β) (bins : List (Bin β)) :
    place? target weight (f item) (bins.map (mapItems f)) =
      (place? target weight item bins).map (List.map (mapItems f)) := by
  induction bins with
  | nil => rfl
  | cons bin bins ih =>
    rw [List.map_cons, place?, place?, ih]
    change (if Saturating.add bin.weight weight ≤ target then _ else _) = _
    split
    · simp [mapItems]
    · rw [Option.map_map, Option.map_map]
      rfl

theorem accept_map (target : UInt64) (lookback : Nat) (weight : UInt64) (item : β)
    (bins : List (Bin β)) :
    accept target lookback weight (f item) (bins.map (mapItems f)) =
      ((accept target lookback weight item bins).1.map (mapItems f),
        (accept target lookback weight item bins).2.map (mapItems f)) := by
  have hnew : bins.map (mapItems f) ++ [⟨[f item], weight⟩] =
      (bins ++ [(⟨[item], weight⟩ : Bin β)]).map (mapItems f) := by simp [mapItems]
  rw [accept, accept, place?_map, hnew]
  cases place? target weight item bins with
  | some placed => rfl
  | none =>
    cases bins ++ [(⟨[item], weight⟩ : Bin β)] with
    | nil => rfl
    | cons oldest rest =>
      simp only [Option.map_none, List.map_cons, List.length_map]
      split <;> rfl

/-- How items are packed depends on their weights only. -/
theorem packFrom_map (target : UInt64) (lookback : Nat) (weigh : α → UInt64) (bins : List (Bin β))
    (items : List β) :
    packFrom target lookback weigh (bins.map (mapItems f)) (items.map f) =
      (packFrom target lookback (weigh ∘ f) bins items).map (List.map f) := by
  induction items generalizing bins with
  | nil => simp [packFrom, mapItems]
  | cons item items ih =>
    rw [List.map_cons, packFrom, packFrom, accept_map, Function.comp_apply]
    cases accept target lookback (weigh (f item)) item bins with
    | mk closed opened =>
      cases closed with
      | none => exact ih opened
      | some closed => exact congrArg (closed.items.map f :: ·) (ih opened)

theorem pack_map (target : UInt64) (lookback : Nat) (weigh : α → UInt64) (items : List β) :
    pack target lookback weigh (items.map f) =
      (pack target lookback (weigh ∘ f) items).map (List.map f) :=
  packFrom_map f target (max lookback 1) weigh [] items

end

theorem flatten_pack : (pack target lookback weigh items).flatten.Perm items :=
  flatten_packFrom

theorem sound_of_mem_pack {out : List α} (hout : out ∈ pack target lookback weigh items) :
    ∃ unread bin, Sound target weigh items unread bin ∧ bin.items = out :=
  sound_of_mem_packFrom (List.Sublist.refl items) (fun _ h => absurd h List.not_mem_nil) hout

theorem sublist_of_mem_pack {out : List α} (hout : out ∈ pack target lookback weigh items) :
    out.Sublist items := by
  obtain ⟨unread, bin, hsound, rfl⟩ := sound_of_mem_pack hout
  exact (List.sublist_append_left ..).trans hsound.ordered

/-- Items stand in a list at the given places. -/
def StandAt (items : List α) (places : List Nat) (bin : List α) : Prop :=
  places.map (items[·]?) = bin.map some

/-- The places of the items of each bin: the items are packed together with their places, which do not
count in their weights. -/
def places (target : UInt64) (lookback : Nat) (weigh : α → UInt64) (items : List α) :
    List (List Nat) :=
  (pack target lookback (weigh ∘ Prod.fst) items.zipIdx).map (List.map Prod.snd)

theorem map_snd_zipIdx (items : List α) :
    items.zipIdx.map Prod.snd = List.range items.length := by
  rw [List.zipIdx_map_snd, List.range_eq_range']

theorem standAt_places :
    List.Forall₂ (StandAt items) (places target lookback weigh items)
      (pack target lookback weigh items) := by
  have hpack : pack target lookback weigh items =
      (pack target lookback (weigh ∘ Prod.fst) items.zipIdx).map (List.map Prod.fst) := by
    rw [← pack_map, List.zipIdx_map_fst]
  rw [hpack, places, List.forall₂_map_left_iff, List.forall₂_map_right_iff, List.forall₂_same]
  intro out hout
  rw [StandAt, List.map_map, List.map_map]
  refine List.map_congr_left fun entry hentry => ?_
  exact List.mem_zipIdx_iff_getElem?.1 ((sublist_of_mem_pack hout).subset hentry)

/-- The places of the items of all bins are those of the list, each of them once. -/
theorem flatten_places :
    (places target lookback weigh items).flatten.Perm (List.range items.length) := by
  rw [places, ← List.map_flatten, ← map_snd_zipIdx items]
  exact flatten_pack.map Prod.snd

theorem pairwise_of_mem_places {p : List Nat} (hp : p ∈ places target lookback weigh items) :
    p.Pairwise (· < ·) := by
  obtain ⟨out, hout, rfl⟩ := List.mem_map.1 hp
  have hsublist := (sublist_of_mem_pack hout).map Prod.snd
  rw [map_snd_zipIdx] at hsublist
  exact List.pairwise_lt_range.sublist hsublist

/-! ## Weights -/

section

variable {out : List α}

theorem sum_le_of_mem_pack (hout : out ∈ pack target lookback weigh items)
    (hlength : 2 ≤ out.length) : Saturating.sum (out.map weigh) ≤ target := by
  obtain ⟨unread, bin, hsound, rfl⟩ := sound_of_mem_pack hout
  rw [← hsound.weight]
  exact hsound.fits hlength

/-- Below the top of the range, a sum that saturates is exact. -/
theorem exactSum_le_of_mem_pack (htarget : target.toNat < Saturating.top)
    (hout : out ∈ pack target lookback weigh items) (hlength : 2 ≤ out.length) :
    Saturating.exactSum (out.map weigh) ≤ target.toNat := by
  have hsum := UInt64.le_iff_toNat_le.1 (sum_le_of_mem_pack hout hlength)
  rw [Saturating.toNat_sum] at hsum
  omega

/-- An item that is heavier than the target is alone in its bin. -/
theorem eq_singleton_of_mem_pack (hout : out ∈ pack target lookback weigh items)
    (hitem : item ∈ out) (hheavy : target < weigh item) : out = [item] := by
  have hlength : ¬2 ≤ out.length := fun hlength =>
    UInt64.not_le.2 hheavy <|
      UInt64.le_trans (Saturating.le_sum (List.mem_map_of_mem hitem))
        (sum_le_of_mem_pack hout hlength)
  match out, hitem, hlength with
  | [_], hitem, _ => rw [List.mem_singleton.1 hitem]
  | _ :: _ :: _, _, hlength => exact absurd (by simp) hlength

end

/-- What packing items into bins gives, and how the bins are given out. -/
structure IsPacking (target : UInt64) (lookback : Nat) (weigh : α → UInt64) (items : List α)
    (bins : List (List α)) : Prop where
  /-- The places of the items of all bins are those of the list, each of them once, and in each bin
  they increase. -/
  places : ∃ places : List (List Nat), List.Forall₂ (StandAt items) places bins ∧
    places.flatten.Perm (List.range items.length) ∧ ∀ p ∈ places, p.Pairwise (· < ·)
  perm : bins.flatten.Perm items
  nonempty : ∀ bin ∈ bins, bin ≠ []
  fits : ∀ bin ∈ bins, 2 ≤ bin.length → Saturating.sum (bin.map weigh) ≤ target
  fits_exactly : target.toNat < Saturating.top → ∀ bin ∈ bins, 2 ≤ bin.length →
    Saturating.exactSum (bin.map weigh) ≤ target.toNat
  alone : ∀ bin ∈ bins, ∀ item ∈ bin, target < weigh item → bin = [item]
  /-- Each call gives out the next bin, and when there are no more, nothing. -/
  given : ∀ calls, (next target lookback weigh (after target lookback weigh items calls)).1 =
    bins[calls]?
  opened : ∀ calls, (after target lookback weigh items calls).opened.length ≤ max lookback 1

theorem isPacking (target : UInt64) (lookback : Nat) (weigh : α → UInt64) (items : List α) :
    IsPacking target lookback weigh items (pack target lookback weigh items) where
  places := ⟨Packing.places target lookback weigh items, standAt_places, flatten_places,
    fun _ => pairwise_of_mem_places⟩
  perm := flatten_pack
  nonempty bin hbin := by
    obtain ⟨unread, bin, hsound, rfl⟩ := sound_of_mem_pack hbin
    exact hsound.nonempty
  fits bin hbin := sum_le_of_mem_pack hbin
  fits_exactly htarget bin hbin := exactSum_le_of_mem_pack htarget hbin
  alone bin hbin item := eq_singleton_of_mem_pack hbin
  given := next_after
  opened := length_opened_after

/-- An element of lists that have no element twice, taken together, is in one of them only. -/
theorem index_eq_of_nodup_flatten {lists : List (List α)} (h : lists.flatten.Nodup) {i j : Nat}
    {l r : List α} {a : α} (hl : lists[i]? = some l) (hr : lists[j]? = some r) (hal : a ∈ l)
    (har : a ∈ r) : i = j := by
  have hdisjoint := List.pairwise_iff_getElem.1 (List.nodup_flatten.1 h).2
  obtain ⟨hi, rfl⟩ := List.getElem?_eq_some_iff.1 hl
  obtain ⟨hj, rfl⟩ := List.getElem?_eq_some_iff.1 hr
  rcases Nat.lt_trichotomy i j with hlt | heq | hgt
  · exact (hdisjoint i j hi hj hlt hal har).elim
  · exact heq
  · exact (hdisjoint j i hj hi hgt har hal).elim

/-- In lists that have no element twice, taken together, each element stands at one place. -/
theorem mem_flatten_iff_existsUnique {lists : List (List α)} (h : lists.flatten.Nodup) {a : α} :
    a ∈ lists.flatten ↔
      ∃! place : Nat × Nat, ∃ l, lists[place.1]? = some l ∧ l[place.2]? = some a := by
  constructor
  · intro ha
    obtain ⟨l, hl, hal⟩ := List.mem_flatten.1 ha
    obtain ⟨i, hi⟩ := List.mem_iff_getElem?.1 hl
    obtain ⟨j, hj⟩ := List.mem_iff_getElem?.1 hal
    refine ⟨(i, j), ⟨l, hi, hj⟩, ?_⟩
    rintro ⟨i', j'⟩ ⟨r, hi', hj'⟩
    obtain rfl : i' = i := index_eq_of_nodup_flatten h hi' hi (List.mem_of_getElem? hj') hal
    obtain rfl : r = l := Option.some.inj (hi'.symm.trans hi)
    have hlt : j' < r.length := (List.getElem?_eq_some_iff.1 hj').1
    have hr : r.Nodup := (List.nodup_flatten.1 h).1 r hl
    obtain rfl : j' = j := (List.getElem?_inj hlt hr).1 (hj'.trans hj.symm)
    rfl
  · rintro ⟨place, ⟨l, hl, ha⟩, -⟩
    exact List.mem_flatten.2 ⟨l, List.mem_of_getElem? hl, List.mem_of_getElem? ha⟩

end Packing

namespace Plan

/-- A partition task stands in a plan at a place: the number of a combined task, and its place there. -/
def StandsAt (plan : Plan) (task : PartitionTask) (place : Nat × Nat) : Prop :=
  ∃ combined, plan.tasks[place.1]? = some combined ∧ combined.tasks[place.2]? = some task

variable {plan : Plan} {task : PartitionTask}

theorem standsAt_iff {place : Nat × Nat} :
    plan.StandsAt task place ↔
      ∃ l, (Packing.pack plan.options.targetSize plan.options.lookback.toNat (weight plan.options)
        plan.partitions)[place.1]? = some l ∧ l[place.2]? = some task := by
  unfold StandsAt tasks
  rw [List.getElem?_map]
  constructor
  · rintro ⟨combined, hcombined, htask⟩
    obtain ⟨l, hl, rfl⟩ := Option.map_eq_some_iff.1 hcombined
    exact ⟨l, hl, htask⟩
  · rintro ⟨l, hl, htask⟩
    exact ⟨⟨l⟩, Option.map_eq_some_iff.2 ⟨l, hl, rfl⟩, htask⟩

theorem mem_partitions_iff_existsUnique (h : plan.partitions.Nodup) :
    task ∈ plan.partitions ↔ ∃! place, plan.StandsAt task place := by
  have hpacked := @Packing.flatten_pack _ plan.options.targetSize plan.options.lookback.toNat
    (weight plan.options) plan.partitions
  simp only [standsAt_iff]
  rw [← hpacked.mem_iff]
  exact Packing.mem_flatten_iff_existsUnique (hpacked.nodup_iff.2 h)

end Plan

/-- The tasks of a plan over a view are of different partitions. -/
theorem nodup_partitionTasks {keep : Partition.Key → Bool} {view : TableView} :
    (partitionTasks keep view).Nodup :=
  (nodup_of_ordered ordered_partitionTasks).of_map _

/-- Packing puts each item into one bin, keeps their order in each bin, overfills no bin but that of a
single item, and keeps no more bins open than it may. So in a plan over a view each partition task is in
one combined task, once, and nothing else is. -/
theorem packs_everything :
    (∀ (α : Type) (target : UInt64) (lookback : Nat) (weigh : α → UInt64) (items : List α),
      Packing.IsPacking target lookback weigh items (Packing.pack target lookback weigh items)) ∧
    ∀ (metadata : Metadata) (options : Options) (pushed : PushedTerms) (view : TableView)
      (task : PartitionTask),
      task ∈ (Plan.ofView metadata options pushed view).partitions ↔
        ∃! place, (Plan.ofView metadata options pushed view).StandsAt task place := by
  refine ⟨fun _ => Packing.isPacking, fun metadata options pushed view task => ?_⟩
  exact Plan.mem_partitions_iff_existsUnique nodup_partitionTasks

end MergeOnRead.Scan
