/-!
# Ordered maps

Finite maps that keep their entries in the order of their keys. An entry list is strictly ordered by
its keys, so a map has exactly one representation: two maps with the same look-ups are equal
(`OrderedMap.ext_get?`), and listing a map never depends on how it was built.

Main statements: `get?_upsert` says what a look-up sees after an update, `get?_erase` what it sees
after a removal.
-/

namespace MergeOnRead

/-- A finite map listed in strictly increasing order of its keys. -/
structure OrderedMap (κ α : Type) [Ord κ] where
  entries : List (κ × α)
  ordered : entries.Pairwise (fun a b => compare a.1 b.1 = .lt)
deriving DecidableEq, Repr

namespace OrderedMap

variable {κ α : Type} [Ord κ]

/-- The value stored under `k` in a list of entries. -/
def lookup (k : κ) : List (κ × α) → Option α
  | [] => none
  | e :: rest => if compare k e.1 = .eq then some e.2 else lookup k rest

/-- Replaces the value under `k` by `f` of the value that is there, or of nothing. A new key takes
its place in the order. -/
def upsertEntry (k : κ) (f : Option α → α) : List (κ × α) → List (κ × α)
  | [] => [(k, f none)]
  | e :: rest =>
    match compare k e.1 with
    | .lt => (k, f none) :: e :: rest
    | .eq => (e.1, f (some e.2)) :: rest
    | .gt => e :: upsertEntry k f rest

theorem upsertEntry_keys {k : κ} {f : Option α → α} {l : List (κ × α)} {a : κ × α}
    (h : a ∈ upsertEntry k f l) : a.1 = k ∨ ∃ b ∈ l, b.1 = a.1 := by
  induction l with
  | nil =>
    simp only [upsertEntry, List.mem_singleton] at h
    exact .inl (by rw [h])
  | cons e rest ih =>
    simp only [upsertEntry] at h
    split at h
    · rcases List.mem_cons.1 h with h | h
      · exact .inl (by rw [h])
      · exact .inr ⟨a, h, rfl⟩
    · rcases List.mem_cons.1 h with h | h
      · exact .inr ⟨e, List.mem_cons_self, by rw [h]⟩
      · exact .inr ⟨a, List.mem_cons_of_mem _ h, rfl⟩
    · rcases List.mem_cons.1 h with h | h
      · exact .inr ⟨e, List.mem_cons_self, by rw [h]⟩
      · rcases ih h with h | ⟨b, hb, hba⟩
        · exact .inl h
        · exact .inr ⟨b, List.mem_cons_of_mem _ hb, hba⟩

theorem upsertEntry_ordered [Std.TransOrd κ] {k : κ} {f : Option α → α} {l : List (κ × α)}
    (h : l.Pairwise (fun a b => compare a.1 b.1 = .lt)) :
    (upsertEntry k f l).Pairwise (fun a b => compare a.1 b.1 = .lt) := by
  induction l with
  | nil => simp [upsertEntry]
  | cons e rest ih =>
    rw [List.pairwise_cons] at h
    simp only [upsertEntry]
    split
    · rename_i hk
      refine List.pairwise_cons.2 ⟨fun a ha => ?_, List.pairwise_cons.2 h⟩
      rcases List.mem_cons.1 ha with rfl | ha
      · exact hk
      · exact Std.TransCmp.lt_trans hk (h.1 a ha)
    · exact List.pairwise_cons.2 h
    · rename_i hk
      refine List.pairwise_cons.2 ⟨fun a ha => ?_, ih h.2⟩
      rcases upsertEntry_keys ha with hak | ⟨b, hb, hba⟩
      · rw [hak]; exact Std.OrientedCmp.gt_iff_lt.1 hk
      · rw [← hba]; exact h.1 b hb

def empty : OrderedMap κ α := ⟨[], .nil⟩

instance : EmptyCollection (OrderedMap κ α) := ⟨empty⟩
instance : Inhabited (OrderedMap κ α) := ⟨empty⟩

def get? (m : OrderedMap κ α) (k : κ) : Option α := lookup k m.entries

def contains (m : OrderedMap κ α) (k : κ) : Bool := (m.get? k).isSome

def size (m : OrderedMap κ α) : Nat := m.entries.length

def isEmpty (m : OrderedMap κ α) : Bool := m.entries.isEmpty

def toList (m : OrderedMap κ α) : List (κ × α) := m.entries

def keys (m : OrderedMap κ α) : List κ := m.entries.map (·.1)

/-- The values in key order. -/
def values (m : OrderedMap κ α) : List α := m.entries.map (·.2)

/-- Replaces the value under `k` by `f` of the value that is there, or of nothing. -/
def upsert [Std.TransOrd κ] (m : OrderedMap κ α) (k : κ) (f : Option α → α) : OrderedMap κ α :=
  ⟨upsertEntry k f m.entries, upsertEntry_ordered m.ordered⟩

/-- Stores a value under a key, in place of any value that is there. -/
def insert [Std.TransOrd κ] (m : OrderedMap κ α) (k : κ) (v : α) : OrderedMap κ α :=
  m.upsert k fun _ => v

def erase (m : OrderedMap κ α) (k : κ) : OrderedMap κ α :=
  ⟨m.entries.filter fun e => compare k e.1 != .eq, m.ordered.sublist List.filter_sublist⟩

/-- Stores the pairs of a list from left to right, so the last of several values for a key stays. -/
def ofList [Std.TransOrd κ] (l : List (κ × α)) : OrderedMap κ α :=
  l.foldl (fun m e => m.insert e.1 e.2) empty

theorem keys_ordered (m : OrderedMap κ α) : m.keys.Pairwise fun a b => compare a b = .lt :=
  List.pairwise_map.2 m.ordered

@[simp] theorem get?_empty (k : κ) : (empty : OrderedMap κ α).get? k = none := rfl

theorem lookup_eq_none_of_lt [Std.TransOrd κ] {k : κ} {l : List (κ × α)}
    (h : ∀ e ∈ l, compare k e.1 = .lt) : lookup k l = none := by
  induction l with
  | nil => rfl
  | cons e rest ih =>
    have he := h e List.mem_cons_self
    simp only [lookup, he, reduceCtorEq, if_false]
    exact ih fun a ha => h a (List.mem_cons_of_mem _ ha)

theorem lookup_upsertEntry [DecidableEq κ] [Std.TransOrd κ] [Std.LawfulEqOrd κ] {k j : κ} {f : Option α → α}
    {l : List (κ × α)} (h : l.Pairwise (fun a b => compare a.1 b.1 = .lt)) :
    lookup j (upsertEntry k f l) = if j = k then some (f (lookup k l)) else lookup j l := by
  induction l with
  | nil =>
    by_cases hj : j = k
    · subst hj; simp [upsertEntry, lookup]
    · simp [upsertEntry, lookup, hj]
  | cons e rest ih =>
    rw [List.pairwise_cons] at h
    simp only [upsertEntry]
    split
    · rename_i hk
      have hnone : lookup k (e :: rest) = none :=
        lookup_eq_none_of_lt fun a ha => by
          rcases List.mem_cons.1 ha with rfl | ha
          · exact hk
          · exact Std.TransCmp.lt_trans hk (h.1 a ha)
      rw [hnone]
      simp only [lookup, Std.LawfulEqCmp.compare_eq_iff_eq]
    · rename_i hk
      have hk' : k = e.1 := Std.LawfulEqCmp.compare_eq_iff_eq.1 hk
      subst hk'
      by_cases hj : j = e.1
      · simp [lookup, hj]
      · simp [lookup, hj]
    · rename_i hk
      have hne : e.1 ≠ k := fun he => by simp [he] at hk
      have ihj := ih h.2
      by_cases hj : j = k
      · subst hj
        simp only [lookup, Std.LawfulEqCmp.compare_eq_iff_eq, if_neg (Ne.symm hne), ihj, if_true]
      · by_cases hje : j = e.1
        · subst hje; simp [lookup, hj]
        · simp only [lookup, Std.LawfulEqCmp.compare_eq_iff_eq, if_neg hje, ihj, if_neg hj]

/-- After an update a look-up sees the new value under the updated key and the old values elsewhere. -/
theorem get?_upsert [DecidableEq κ] [Std.TransOrd κ] [Std.LawfulEqOrd κ] (m : OrderedMap κ α)
    (k j : κ) (f : Option α → α) :
    (m.upsert k f).get? j = if j = k then some (f (m.get? k)) else m.get? j :=
  lookup_upsertEntry m.ordered

theorem get?_insert [DecidableEq κ] [Std.TransOrd κ] [Std.LawfulEqOrd κ] (m : OrderedMap κ α)
    (k j : κ) (v : α) :
    (m.insert k v).get? j = if j = k then some v else m.get? j :=
  get?_upsert m k j fun _ => v

section

variable [DecidableEq κ] [Std.TransOrd κ] [Std.LawfulEqOrd κ] {m : OrderedMap κ α}
  {l : List (κ × α)} {k : κ} {v : α}

/-- Storing pairs under other keys does not change what is under a key. -/
theorem get?_foldl_insert_of_not_mem (h : k ∉ l.map (·.1)) :
    (l.foldl (fun m e => m.insert e.1 e.2) m).get? k = m.get? k := by
  induction l generalizing m with
  | nil => rfl
  | cons e l ih =>
    rw [List.map_cons, List.mem_cons, not_or] at h
    rw [List.foldl_cons, ih h.2, get?_insert, if_neg h.1]

/-- A pair that is stored is found, if no two pairs have its key. -/
theorem get?_foldl_insert_of_mem (hkeys : (l.map (·.1)).Nodup) (h : (k, v) ∈ l) :
    (l.foldl (fun m e => m.insert e.1 e.2) m).get? k = some v := by
  induction l generalizing m with
  | nil => cases h
  | cons e l ih =>
    rw [List.map_cons, List.nodup_cons] at hkeys
    rw [List.foldl_cons]
    rcases List.mem_cons.1 h with rfl | h
    · rw [get?_foldl_insert_of_not_mem hkeys.1, get?_insert, if_pos rfl]
    · exact ih hkeys.2 h

end

theorem get?_erase [DecidableEq κ] [Std.TransOrd κ] [Std.LawfulEqOrd κ] (m : OrderedMap κ α)
    (k j : κ) :
    (m.erase k).get? j = if j = k then none else m.get? j := by
  simp only [get?, erase]
  induction m.entries with
  | nil => simp [lookup]
  | cons e rest ih =>
    by_cases he : k = e.1
    · subst he
      simp only [List.filter_cons, Std.ReflCmp.compare_self, bne_self_eq_false, Bool.false_eq_true,
        if_false, ih, lookup, Std.LawfulEqCmp.compare_eq_iff_eq]
      by_cases hj : j = e.1 <;> simp [hj]
    · have hc : (compare k e.1 != .eq) = true := by
        simpa [bne_iff_ne, Std.LawfulEqCmp.compare_eq_iff_eq] using he
      simp only [List.filter_cons, hc, if_true, lookup, ih, Std.LawfulEqCmp.compare_eq_iff_eq]
      by_cases hj : j = e.1
      · subst hj; simp [Ne.symm he]
      · simp [hj]

theorem lookup_eq_some_of_mem [Std.TransOrd κ] [Std.LawfulEqOrd κ] {l : List (κ × α)}
    (h : l.Pairwise (fun a b => compare a.1 b.1 = .lt)) {e : κ × α} (he : e ∈ l) :
    lookup e.1 l = some e.2 := by
  induction l with
  | nil => cases he
  | cons d rest ih =>
    rw [List.pairwise_cons] at h
    rcases List.mem_cons.1 he with rfl | he
    · simp [lookup]
    · have hlt := h.1 e he
      have hne : e.1 ≠ d.1 := fun h' => by simp [h'] at hlt
      simp [lookup, hne, ih h.2 he]

theorem mem_of_lookup_eq_some [Std.LawfulEqOrd κ] {l : List (κ × α)} {k : κ} {v : α}
    (h : lookup k l = some v) : (k, v) ∈ l := by
  induction l with
  | nil => cases h
  | cons d rest ih =>
    simp only [lookup] at h
    split at h
    · rename_i hk
      obtain rfl := Option.some.inj h
      rw [Std.LawfulEqCmp.compare_eq_iff_eq.1 hk]
      exact List.mem_cons_self
    · exact List.mem_cons_of_mem _ (ih h)

/-- A pair is listed exactly when its value is found under its key. -/
theorem mem_toList_iff [Std.TransOrd κ] [Std.LawfulEqOrd κ] {m : OrderedMap κ α} {k : κ} {v : α} :
    (k, v) ∈ m.toList ↔ m.get? k = some v :=
  ⟨fun h => lookup_eq_some_of_mem m.ordered h, mem_of_lookup_eq_some⟩

theorem mem_keys_iff [Std.TransOrd κ] [Std.LawfulEqOrd κ] {m : OrderedMap κ α} {k : κ} :
    k ∈ m.keys ↔ ∃ v, m.get? k = some v := by
  unfold keys
  rw [List.mem_map]
  constructor
  · rintro ⟨e, he, rfl⟩
    exact ⟨e.2, mem_toList_iff.1 he⟩
  · rintro ⟨v, hv⟩
    exact ⟨(k, v), mem_toList_iff.2 hv, rfl⟩

theorem entries_eq_of_lookup_eq [Std.TransOrd κ] [Std.LawfulEqOrd κ] {l r : List (κ × α)}
    (hl : l.Pairwise (fun a b => compare a.1 b.1 = .lt))
    (hr : r.Pairwise (fun a b => compare a.1 b.1 = .lt))
    (h : ∀ k, lookup k l = lookup k r) : l = r := by
  induction l generalizing r with
  | nil =>
    cases r with
    | nil => rfl
    | cons e rest => have := h e.1; simp [lookup] at this
  | cons d rest ih =>
    cases r with
    | nil => have := h d.1; simp [lookup] at this
    | cons e tail =>
      have hd := lookup_eq_some_of_mem hl (e := d) List.mem_cons_self
      have he := lookup_eq_some_of_mem hr (e := e) List.mem_cons_self
      have hd' : (d.1, d.2) ∈ e :: tail := mem_of_lookup_eq_some (by rw [← h]; exact hd)
      have he' : (e.1, e.2) ∈ d :: rest := mem_of_lookup_eq_some (by rw [h]; exact he)
      rw [List.pairwise_cons] at hl hr
      have hde : d = e := by
        rcases List.mem_cons.1 hd' with h1 | h1
        · exact h1
        rcases List.mem_cons.1 he' with h2 | h2
        · exact h2.symm
        have := Std.TransCmp.lt_trans (hl.1 e h2) (hr.1 d h1)
        simp at this
      subst hde
      congr 1
      refine ih hl.2 hr.2 fun k => ?_
      have hk := h k
      simp only [lookup, Std.LawfulEqCmp.compare_eq_iff_eq] at hk
      by_cases hkd : k = d.1
      · subst hkd
        rw [lookup_eq_none_of_lt hl.1, lookup_eq_none_of_lt hr.1]
      · simpa [hkd] using hk

/-- Maps with the same look-ups are the same map. -/
theorem ext_get? [Std.TransOrd κ] [Std.LawfulEqOrd κ] {m n : OrderedMap κ α}
    (h : ∀ k, m.get? k = n.get? k) : m = n := by
  obtain ⟨l, hl⟩ := m
  obtain ⟨r, hr⟩ := n
  have hlr : l = r := entries_eq_of_lookup_eq hl hr h
  subst hlr
  rfl

end OrderedMap

end MergeOnRead
