import Mathlib.Data.List.Basic

/-!
# Places in lists

What stands at a place of a list with one more element at its end, and of a list with one element
exchanged; and where the first element with a property stands.
-/

namespace MergeOnRead

variable {α : Type} {as bs : List α} {a a' b : α} {n : Nat}

/-- An element of a list with one more at the end is one of the list or the last. -/
theorem getElem?_concat_cases (h : (as ++ [a])[n]? = some b) :
    n < as.length ∧ as[n]? = some b ∨ n = as.length ∧ b = a := by
  rcases Nat.lt_trichotomy n as.length with hlt | rfl | hgt
  · rw [List.getElem?_append_left hlt] at h
    exact .inl ⟨hlt, h⟩
  · rw [List.getElem?_concat_length] at h
    exact .inr ⟨rfl, (Option.some.inj h).symm⟩
  · rw [List.getElem?_eq_none (by rw [List.length_append, List.length_singleton]; omega)] at h
    cases h

/-- An element of a list in which one is exchanged stood at its place before, or is the one that was
put in. -/
theorem getElem?_exchange_cases (h : (as ++ a' :: bs)[n]? = some b) :
    (as ++ a :: bs)[n]? = some b ∨ (as ++ a :: bs)[n]? = some a ∧ b = a' := by
  rcases Nat.lt_trichotomy n as.length with hlt | rfl | hgt
  · rw [List.getElem?_append_left hlt] at h ⊢
    exact .inl h
  · rw [List.getElem?_append_right (Nat.le_refl _), Nat.sub_self, List.getElem?_cons_zero] at h ⊢
    exact .inr ⟨rfl, (Option.some.inj h).symm⟩
  · obtain ⟨k, hk⟩ : ∃ k, n - as.length = k + 1 := ⟨n - as.length - 1, by omega⟩
    rw [List.getElem?_append_right (Nat.le_of_lt hgt), hk, List.getElem?_cons_succ] at h ⊢
    exact .inl h

/-- The first element of a list with a property is at one place only. -/
theorem first_unique {p : α → Prop} {as bs as' bs' : List α} {a a' : α}
    (h : as ++ a :: bs = as' ++ a' :: bs') (has : ∀ b ∈ as, ¬p b) (ha : p a)
    (has' : ∀ b ∈ as', ¬p b) (ha' : p a') : as = as' ∧ a = a' ∧ bs = bs' := by
  induction as generalizing as' with
  | nil =>
    cases as' with
    | nil => simpa using h
    | cons b as' =>
      cases h
      exact absurd ha (has' a List.mem_cons_self)
  | cons b as ih =>
    cases as' with
    | nil =>
      cases h
      exact absurd ha' (has a' List.mem_cons_self)
    | cons b' as' =>
      rw [List.forall_mem_cons] at has has'
      obtain ⟨rfl, htail⟩ := List.cons.inj h
      obtain ⟨rfl, hrest⟩ := ih htail has.2 has'.2
      exact ⟨rfl, hrest⟩

end MergeOnRead
