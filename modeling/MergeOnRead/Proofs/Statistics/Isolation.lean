import MergeOnRead.Proofs.Statistics
import MergeOnRead.Proofs.View

/-!
# Statistics of one side and of both

The statistics of a side never fail, and nothing that happens at the other side shows in them. They
are empty if the side cannot be read or has no snapshot, and otherwise tell of one listing
(`Statistics.Describes`). In the union every entry has the side that it comes from
(`Statistics.Mixes`), so the other side may change without a trace in it.

Main statement: `Statistics.reports_sides_apart`.
-/

namespace MergeOnRead

open Reply

/-! ## Reading the history of a side -/

namespace Source

variable {source other : Source} {side : Side} {snapshots : List Snapshot}

/-- The history of a side is read: the side is there, and the listing answers. -/
structure Lists (source : Source) (side : Side) (snapshots : List Snapshot) : Prop where
  present : (source.hasSide side).result? = some (.ok true)
  listed : (source.snapshots side).result? = some (.ok snapshots)

/-- A side is missing, or a call for its history fails. -/
inductive Unread (source : Source) (side : Side) : Prop
  | missing (hpresent : (source.hasSide side).result? = some (.ok false))
  | presence {e : Error} (hpresent : (source.hasSide side).result? = some (.error e))
  | listing {e : Error} (hpresent : (source.hasSide side).result? = some (.ok true))
      (hsnapshots : (source.snapshots side).result? = some (.error e))

/-- A call for the history of a side is made and never answers. -/
inductive Stalls (source : Source) (side : Side) : Prop
  | presence (hpresent : (source.hasSide side).result? = none)
  | listing (hpresent : (source.hasSide side).result? = some (.ok true))
      (hsnapshots : (source.snapshots side).result? = none)

theorem lists_or_unread_or_stalls (source : Source) (side : Side) :
    (∃ snapshots, source.Lists side snapshots) ∨ source.Unread side ∨ source.Stalls side := by
  rcases hpresent : (source.hasSide side).result? with _ | e | present
  · exact .inr (.inr (.presence hpresent))
  · exact .inr (.inl (.presence hpresent))
  cases present with
  | false => exact .inr (.inl (.missing hpresent))
  | true =>
    rcases hsnapshots : (source.snapshots side).result? with _ | e | snapshots
    · exact .inr (.inr (.listing hpresent hsnapshots))
    · exact .inr (.inl (.listing hpresent hsnapshots))
    · exact .inl ⟨snapshots, hpresent, hsnapshots⟩

/-- Two sources give the same answers about the history of a side. -/
structure AgreesOn (source other : Source) (side : Side) : Prop where
  present : source.hasSide side = other.hasSide side
  listed : source.snapshots side = other.snapshots side

end Source

/-! ## The statistics of one side -/

namespace Statistics

variable {table : TableId} {source other : Source} {side : Side} {snapshots : List Snapshot}
  {first current : Snapshot} {e : Error}

/-- What is reported of a side after it was read. -/
def reportOf (table : TableId) : Except Error (Option Statistics) → Statistics
  | .ok (some statistics) => statistics
  | _ => empty table

theorem result?_collect : (collect table source side).result? =
    (read table source side).result?.map fun result => .ok (reportOf table result) := by
  unfold collect
  rcases read table source side with _ | ⟨delay, e | _ | statistics⟩ <;> rfl

theorem result?_collect_of_lists (h : source.Lists side snapshots) :
    (collect table source side).result? = some (.ok (ofHistory table snapshots)) := by
  have hread : (read table source side).result? =
      some (.ok (some (ofHistory table snapshots))) := by
    rw [read, result?_andThen_of_ok h.present, if_pos rfl, result?_andThen_of_ok h.listed]
    rfl
  rw [result?_collect, hread]
  rfl

theorem result?_collect_of_unread (h : source.Unread side) :
    (collect table source side).result? = some (.ok (empty table)) := by
  rw [result?_collect, read]
  cases h with
  | missing hpresent =>
    rw [result?_andThen_of_ok hpresent]
    rfl
  | presence hpresent =>
    rw [result?_andThen_of_error hpresent]
    rfl
  | listing hpresent hsnapshots =>
    rw [result?_andThen_of_ok hpresent, if_pos rfl, result?_andThen_of_error hsnapshots]
    rfl

theorem result?_collect_of_stalls (h : source.Stalls side) :
    (collect table source side).result? = none := by
  rw [result?_collect, read]
  cases h with
  | presence hpresent =>
    rw [result?_andThen_of_none hpresent]
    rfl
  | listing hpresent hsnapshots =>
    rw [result?_andThen_of_ok hpresent, if_pos rfl, result?_andThen_of_none hsnapshots]
    rfl

theorem result?_collect_ne_error (table : TableId) (source : Source) (side : Side) (e : Error) :
    (collect table source side).result? ≠ some (.error e) := by
  rw [result?_collect]
  cases (read table source side).result? with
  | none => exact fun h => nomatch h
  | some result => exact fun h => nomatch h

theorem result?_collect_eq_none_iff :
    (collect table source side).result? = none ↔ source.Stalls side := by
  constructor
  · intro h
    rcases source.lists_or_unread_or_stalls side with ⟨_, hlists⟩ | hunread | hstalls
    · exact nomatch h.symm.trans (result?_collect_of_lists hlists)
    · exact nomatch h.symm.trans (result?_collect_of_unread hunread)
    · exact hstalls
  · exact result?_collect_of_stalls

/-- Only the two calls for the history of a side decide about its statistics. -/
theorem collect_eq_of_agreesOn (h : source.AgreesOn other side) :
    collect table source side = collect table other side := by
  unfold collect read
  rw [h.present, h.listed]

/-- The entries that the statistics of a history hold. -/
def historyEntries (snapshots : List Snapshot) (first current : Snapshot) :
    List (String × String) :=
  [(snapshotCountKey, toString snapshots.length),
      (visibleTimeKey, toString current.time),
      (firstCommitTimeKey, toString first.time),
      (averageSizeKey,
        toString ((total current SummaryKey.totalSize).toNat / snapshots.length))] ++
    (SnapshotDetail.ofSnapshot current).entries

theorem nodup_historyEntries : ((historyEntries snapshots first current).map (·.1)).Nodup := by
  show ([snapshotCountKey, visibleTimeKey, firstCommitTimeKey, averageSizeKey] ++
    SnapshotDetail.none.entries.map (·.1)).Nodup
  decide

theorem ofHistory_of_ends (hfirst : snapshots.head? = some first)
    (hcurrent : snapshots.getLast? = some current) :
    ofHistory table snapshots =
      { table
        totals := ⟨total current SummaryKey.totalFiles, total current SummaryKey.totalSize⟩
        summary := OrderedMap.ofList (historyEntries snapshots first current) } := by
  rw [ofHistory, hfirst, hcurrent]
  rfl

/-- The statistics of a side tell of one listing, by its first and its last snapshot. -/
structure Describes (statistics : Statistics) (table : TableId) (snapshots : List Snapshot)
    (first current : Snapshot) : Prop where
  table_eq : statistics.table = table
  files : statistics.totals.files = total current SummaryKey.totalFiles
  size : statistics.totals.size = total current SummaryKey.totalSize
  count : statistics.summary.get? snapshotCountKey = some (toString snapshots.length)
  visibleTime : statistics.summary.get? visibleTimeKey = some (toString current.time)
  firstCommitTime : statistics.summary.get? firstCommitTimeKey = some (toString first.time)
  averageSize : statistics.summary.get? averageSizeKey =
    some (toString ((total current SummaryKey.totalSize).toNat / snapshots.length))
  /-- The details are those that the last snapshot records. -/
  detail {key value : String} (h : (key, value) ∈ (SnapshotDetail.ofSnapshot current).entries) :
    statistics.summary.get? key = some value
  /-- There is nothing else. -/
  others {key : String} (h : key ∉ (historyEntries snapshots first current).map (·.1)) :
    statistics.summary.get? key = none

theorem describes_ofHistory (table : TableId) (hfirst : snapshots.head? = some first)
    (hcurrent : snapshots.getLast? = some current) :
    (ofHistory table snapshots).Describes table snapshots first current := by
  have hget {key value : String} (h : (key, value) ∈ historyEntries snapshots first current) :
      (OrderedMap.ofList (historyEntries snapshots first current)).get? key = some value :=
    OrderedMap.get?_foldl_insert_of_mem nodup_historyEntries h
  rw [ofHistory_of_ends hfirst hcurrent]
  exact
    { table_eq := rfl
      files := rfl
      size := rfl
      count := hget (by simp [historyEntries])
      visibleTime := hget (by simp [historyEntries])
      firstCommitTime := hget (by simp [historyEntries])
      averageSize := hget (by simp [historyEntries])
      detail := fun h => hget (List.mem_append_right _ h)
      others := fun h => OrderedMap.get?_foldl_insert_of_not_mem h }

theorem ofHistory_eq_empty_iff : ofHistory table snapshots = empty table ↔ snapshots = [] := by
  constructor
  · intro h
    cases snapshots with
    | nil => rfl
    | cons first rest =>
      have hcurrent := List.getLast?_eq_some_getLast (List.cons_ne_nil first rest)
      have hcount := (describes_ofHistory table rfl hcurrent).count
      rw [h] at hcount
      cases hcount
  · rintro rfl
    rfl

theorem result?_collect_eq_empty_iff :
    (collect table source side).result? = some (.ok (empty table)) ↔
      source.Unread side ∨ source.Lists side [] := by
  constructor
  · intro h
    rcases source.lists_or_unread_or_stalls side with ⟨snapshots, hlists⟩ | hunread | hstalls
    · rw [result?_collect_of_lists hlists] at h
      have hempty : ofHistory table snapshots = empty table := Except.ok.inj (Option.some.inj h)
      exact .inr (ofHistory_eq_empty_iff.1 hempty ▸ hlists)
    · exact .inl hunread
    · exact nomatch h.symm.trans (result?_collect_of_stalls hstalls)
  · rintro (hunread | hlists)
    · exact result?_collect_of_unread hunread
    · exact result?_collect_of_lists hlists

/-! ## The statistics of both sides -/

variable {change base : Statistics} {key : String}

/-- The keys of the entries in a union, each with the statistics that have its value. -/
def picks (change base : Statistics) : List (String × Statistics) :=
  [(visibleTimeKey, change), (snapshotCountKey, base), (firstCommitTimeKey, base)]

theorem nodup_picks : ((picks change base).map (·.1)).Nodup := by
  show [visibleTimeKey, snapshotCountKey, firstCommitTimeKey].Nodup
  decide

theorem mem_mergedEntries_iff {value : String} :
    (key, value) ∈ mergedEntries change base ↔
      ∃ origin, (key, origin) ∈ picks change base ∧ origin.summary.get? key = some value := by
  show (key, value) ∈ (picks change base).filterMap _ ↔ _
  rw [List.mem_filterMap]
  constructor
  · rintro ⟨⟨_, origin⟩, hpick, hvalue⟩
    obtain ⟨_, hvalue, heq⟩ := Option.map_eq_some_iff.1 hvalue
    cases heq
    exact ⟨origin, hpick, hvalue⟩
  · rintro ⟨origin, hpick, hvalue⟩
    exact ⟨(key, origin), hpick, Option.map_eq_some_iff.2 ⟨value, hvalue, rfl⟩⟩

theorem keys_filterMap_sublist (picks : List (String × Statistics)) :
    ((picks.filterMap fun pick =>
      (pick.2.summary.get? pick.1).map fun value => (pick.1, value)).map (·.1)).Sublist
      (picks.map (·.1)) := by
  induction picks with
  | nil => exact .slnil
  | cons pick picks ih =>
    rw [List.filterMap_cons]
    cases pick.2.summary.get? pick.1 with
    | none => exact ih.cons _
    | some value => exact ih.cons_cons _

/-- What a union has under a key is what the statistics have that it is picked from. -/
theorem get?_mergedEntries_of_mem {origin : Statistics} (h : (key, origin) ∈ picks change base) :
    (OrderedMap.ofList (mergedEntries change base)).get? key = origin.summary.get? key := by
  have hnodup : ((mergedEntries change base).map (·.1)).Nodup :=
    nodup_picks.sublist (keys_filterMap_sublist (picks change base))
  cases hvalue : origin.summary.get? key with
  | some value =>
    exact OrderedMap.get?_foldl_insert_of_mem hnodup (mem_mergedEntries_iff.2 ⟨origin, h, hvalue⟩)
  | none =>
    refine OrderedMap.get?_foldl_insert_of_not_mem fun hkey => ?_
    obtain ⟨⟨_, value⟩, hmem, rfl⟩ := List.mem_map.1 hkey
    obtain ⟨origin', hpick, hvalue'⟩ := mem_mergedEntries_iff.1 hmem
    have hsame : (_, origin) = (_, origin') := List.inj_on_of_nodup_map nodup_picks h hpick rfl
    obtain rfl : origin = origin' := congrArg Prod.snd hsame
    exact nomatch hvalue.symm.trans hvalue'

theorem get?_mergedEntries_of_not_mem (h : key ∉ (picks change base).map (·.1)) :
    (OrderedMap.ofList (mergedEntries change base)).get? key = none :=
  OrderedMap.get?_foldl_insert_of_not_mem fun hkey =>
    h ((keys_filterMap_sublist (picks change base)).mem hkey)

/-- The union of the statistics of both sides: sums of the totals, and entries that each come from
one side only. -/
structure Mixes (both change base : Statistics) : Prop where
  table : both.table = base.table
  files : both.totals.files.toNat =
    min (change.totals.files.toNat + base.totals.files.toNat) Saturating.top
  size : both.totals.size.toNat =
    min (change.totals.size.toNat + base.totals.size.toNat) Saturating.top
  visibleTime : both.summary.get? visibleTimeKey = change.summary.get? visibleTimeKey
  count : both.summary.get? snapshotCountKey = base.summary.get? snapshotCountKey
  firstCommitTime : both.summary.get? firstCommitTimeKey = base.summary.get? firstCommitTimeKey
  others {key : String} (h : key ∉ [visibleTimeKey, snapshotCountKey, firstCommitTimeKey]) :
    both.summary.get? key = none

theorem mixes_union {both : Statistics} (h : union (some change) (some base) = some both) :
    both.Mixes change base := by
  cases h
  exact
    { table := rfl
      files := Saturating.toNat_add _ _
      size := Saturating.toNat_add _ _
      visibleTime := get?_mergedEntries_of_mem (by simp [picks])
      count := get?_mergedEntries_of_mem (by simp [picks])
      firstCommitTime := get?_mergedEntries_of_mem (by simp [picks])
      others := fun h => get?_mergedEntries_of_not_mem h }

/-- What is reported of both sides of a table, if both can be asked. -/
def Reports (table : TableId) (source : Source) (both : Statistics) : Prop :=
  ∃ change base, (collect table source .change).result? = some (.ok change) ∧
    (collect table source .base).result? = some (.ok base) ∧
    union (some change) (some base) = some both

/-- What the statistics of a table show of its two sides. -/
structure ReportsApart (table : TableId) (source : Source) : Prop where
  /-- Whatever fails, statistics do not. -/
  never_fails {side : Side} {e : Error} :
    (collect table source side).result? ≠ some (.error e)
  /-- They are there unless a call that they make hangs. -/
  hangs_iff {side : Side} : (collect table source side).result? = none ↔ source.Stalls side
  /-- Nothing but the two calls for the history of the side decides about them. -/
  own_side {other : Source} {side : Side} (hagrees : source.AgreesOn other side) :
    collect table source side = collect table other side
  empty_iff {side : Side} :
    (collect table source side).result? = some (.ok (empty table)) ↔
      source.Unread side ∨ source.Lists side []
  /-- The statistics of a history tell of its first and its last snapshot, as they are listed. -/
  described {side : Side} {snapshots : List Snapshot} {first current : Snapshot}
    (hlists : source.Lists side snapshots) (hfirst : snapshots.head? = some first)
    (hcurrent : snapshots.getLast? = some current) :
    ∃ statistics, (collect table source side).result? = some (.ok statistics) ∧
      statistics.Describes table snapshots first current
  /-- The union takes each of its entries from one of the two. -/
  mixed (change base : Statistics) :
    ∃ both, union (some change) (some base) = some both ∧ both.Mixes change base
  /-- Whatever happens at the change side, the entries of the base side stay. -/
  base_kept {other : Source} {both both' : Statistics} (hboth : Reports table source both)
    (hboth' : Reports table other both') (hagrees : source.AgreesOn other .base) :
    both.table = both'.table ∧
      both.summary.get? snapshotCountKey = both'.summary.get? snapshotCountKey ∧
      both.summary.get? firstCommitTimeKey = both'.summary.get? firstCommitTimeKey
  /-- Whatever happens at the base side, the entry of the change side stays. -/
  change_kept {other : Source} {both both' : Statistics} (hboth : Reports table source both)
    (hboth' : Reports table other both') (hagrees : source.AgreesOn other .change) :
    both.summary.get? visibleTimeKey = both'.summary.get? visibleTimeKey

/-- The statistics of a side are those of its own history and never fail, and those of both sides
keep apart what comes from which. -/
theorem reports_sides_apart (table : TableId) (source : Source) : ReportsApart table source where
  never_fails := result?_collect_ne_error table source _ _
  hangs_iff := result?_collect_eq_none_iff
  own_side := collect_eq_of_agreesOn
  empty_iff := result?_collect_eq_empty_iff
  described hlists hfirst hcurrent :=
    ⟨_, result?_collect_of_lists hlists, describes_ofHistory table hfirst hcurrent⟩
  mixed change base := ⟨_, rfl, mixes_union rfl⟩
  base_kept := by
    rintro other both both' ⟨_, base, -, hbase, hboth⟩ ⟨_, base', -, hbase', hboth'⟩ hagrees
    rw [collect_eq_of_agreesOn hagrees, hbase'] at hbase
    cases hbase
    have hmixes := mixes_union hboth
    have hmixes' := mixes_union hboth'
    exact ⟨hmixes.table.trans hmixes'.table.symm, hmixes.count.trans hmixes'.count.symm,
      hmixes.firstCommitTime.trans hmixes'.firstCommitTime.symm⟩
  change_kept := by
    rintro other both both' ⟨change, _, hchange, -, hboth⟩ ⟨change', _, hchange', -, hboth'⟩ hagrees
    rw [collect_eq_of_agreesOn hagrees, hchange'] at hchange
    cases hchange
    exact (mixes_union hboth).visibleTime.trans (mixes_union hboth').visibleTime.symm

end Statistics

end MergeOnRead
