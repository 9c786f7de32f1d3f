import Mathlib.Data.List.Basic
import MergeOnRead.Schema

/-!
# The column that a name stands for

Looking a name up finds the first column that carries it, and no column before it does. A column that
was found under any name is found again under its own.

Main statements: `resolve?_eq_some_iff` and `resolve?_name`.
-/

namespace MergeOnRead

variable {schema : Schema} {caseSensitive : Bool}

theorem sameName_self (name : String) : sameName caseSensitive name name = true := by
  cases caseSensitive <;> simp [sameName]

theorem resolve?_eq_some_iff {name : String} {index : Nat} {column : Column} :
    schema.resolve? caseSensitive name = some (index, column) ↔
      schema.findIdx? (fun c => sameName caseSensitive c.name name) = some index ∧
        schema[index]? = some column := by
  unfold Schema.resolve?
  split
  · rename_i place hplace
    rw [hplace, Option.map_eq_some_iff]
    constructor
    · rintro ⟨c, hc, heq⟩
      cases heq
      exact ⟨rfl, hc⟩
    · rintro ⟨heq, hc⟩
      cases heq
      exact ⟨column, hc, rfl⟩
  · rename_i hnone
    rw [hnone]
    simp

/-- A name stands for the column at a place that it matches, if it matches none before. -/
theorem first_of_resolve? {name : String} {index : Nat} {column : Column}
    (h : schema.resolve? caseSensitive name = some (index, column)) :
    schema[index]? = some column ∧ sameName caseSensitive column.name name = true ∧
      ∀ i < index, ∀ c, schema[i]? = some c → sameName caseSensitive c.name name = false := by
  obtain ⟨hfind, hcolumn⟩ := resolve?_eq_some_iff.1 h
  obtain ⟨_, hsame, hbefore⟩ := List.findIdx?_eq_some_iff_getElem.1 hfind
  obtain ⟨_, rfl⟩ := List.getElem?_eq_some_iff.1 hcolumn
  refine ⟨hcolumn, hsame, fun i hi c hc => ?_⟩
  obtain ⟨_, rfl⟩ := List.getElem?_eq_some_iff.1 hc
  exact Bool.not_eq_true _ ▸ hbefore i hi

/-- The first column that a name stands for is the first one with the column's own name. -/
theorem resolve?_name {name : String} {index : Nat} {column : Column}
    (h : schema.resolve? caseSensitive name = some (index, column)) :
    schema.resolve? true column.name = some (index, column) := by
  obtain ⟨hfind, hcolumn⟩ := resolve?_eq_some_iff.1 h
  refine resolve?_eq_some_iff.2 ⟨?_, hcolumn⟩
  obtain ⟨hlt, hsame, hbefore⟩ := List.findIdx?_eq_some_iff_getElem.1 hfind
  obtain ⟨_, rfl⟩ := List.getElem?_eq_some_iff.1 hcolumn
  refine List.findIdx?_eq_some_iff_getElem.2 ⟨hlt, sameName_self _, fun j hj hname => ?_⟩
  have heq : schema[j].name = schema[index].name := by simpa [sameName] using hname
  -- a column before it with the same name would have been found instead
  refine hbefore j hj ?_
  rw [heq]
  exact hsame

/-- Looking a column up by its exact name finds what the name stands for. -/
theorem column?_of_resolve? {name : String} {index : Nat} {column : Column}
    (h : schema.resolve? true name = some (index, column)) :
    schema.column? name = some column := by
  obtain ⟨hfind, hcolumn⟩ := resolve?_eq_some_iff.1 h
  have hsame : (fun c : Column => c.name == name) = fun c => sameName true c.name name := by
    funext c
    simp [sameName]
  rw [Schema.column?, List.find?_eq_bind_findIdx?_getElem?, hsame, hfind, Option.bind_some,
    hcolumn]

end MergeOnRead
