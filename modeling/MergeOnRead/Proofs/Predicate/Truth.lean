import MergeOnRead.Proofs.Predicate.Outcome
import MergeOnRead.Proofs.Predicate.Scalar
import MergeOnRead.Proofs.Result

/-!
# The truth of predicates on rows

A row gives every column a value, and a predicate is true, false or undecided of it, as in three-valued
logic with nulls: a comparison with null is undecided, a membership is a disjunction of equations and
only `IS NULL` looks at null itself. Literals are compared exactly (`Scalar.order?`), so the truth of a
predicate does not speak of its bound form.

Main statement: `outcome_approximates`, what a bound predicate decides from some of the values of a
row never goes against the truth of the predicate on the row.
-/

namespace MergeOnRead

/-- A row: the value of each column, by the position of the column in the schema. -/
abbrev Row := Nat → Partition.Value

namespace Predicate

open Result

variable {schema : Schema} {caseSensitive : Bool}

/-- What the column that a name stands for holds in a row. -/
def columnScalar? (schema : Schema) (caseSensitive : Bool) (row : Row) (name : String) :
    Option Scalar :=
  (schema.resolve? caseSensitive name).map fun column => (row column.1).scalar

/-- The truth of a comparison of two scalars. -/
def compareTruth (op : Comparison) (a b : Scalar) : Kleene.Truth := (a.order? b).map op.holds

/-- The truth of a membership: one of the equations with the literals holds. -/
def memberTruth (a : Scalar) (literals : List Literal) : Kleene.Truth :=
  Kleene.any (literals.map fun literal => compareTruth .eq a literal.scalar)

/-- The truth of a test, or of its negation. -/
def negateIf (negated : Bool) (truth : Kleene.Truth) : Kleene.Truth :=
  if negated then Kleene.not truth else truth

mutual

/-- The truth of a predicate on a row. A column that the schema does not have leaves it undecided. -/
def truth (schema : Schema) (caseSensitive : Bool) (row : Row) : Predicate → Kleene.Truth
  | always => some true
  | compare name op literal =>
    (columnScalar? schema caseSensitive row name).bind fun a => compareTruth op a literal.scalar
  | inList name literals negated =>
    (columnScalar? schema caseSensitive row name).bind fun a =>
      negateIf negated (memberTruth a literals)
  | isNull name negated =>
    (columnScalar? schema caseSensitive row name).map fun a => (a == .null) != negated
  | not operand => Kleene.not (operand.truth schema caseSensitive row)
  | all operands => Kleene.all (truths schema caseSensitive row operands)
  | any operands => Kleene.any (truths schema caseSensitive row operands)

def truths (schema : Schema) (caseSensitive : Bool) (row : Row) :
    List Predicate → List Kleene.Truth
  | [] => []
  | p :: ps => p.truth schema caseSensitive row :: truths schema caseSensitive row ps

end

/-! ## What binding says about a predicate -/

theorem resolve?_eq_of_resolve {name : String} {bound : BoundColumn}
    (h : resolve schema caseSensitive name = .ok bound) :
    schema.resolve? caseSensitive name = some (bound.index, bound.column) := by
  unfold resolve at h
  split at h
  · rename_i heq
    cases h
    exact heq
  · cases h

theorem bindTerms_compare {name : String} {op : Comparison} {literal : Literal}
    {b : BoundPredicate} (h : (compare name op literal).bindTerms schema caseSensitive = .ok b) :
    ∃ bound value, schema.resolve? caseSensitive name = some (bound.index, bound.column) ∧
      literal.bind bound.column = .ok value ∧ b = .compare bound op value := by
  unfold bindTerms at h
  obtain ⟨bound, hbound, h⟩ := bind_eq_ok h
  dsimp only at h
  split at h
  · cases h
  · split at h
    · cases h
    · obtain ⟨value, hvalue, h⟩ := bind_eq_ok h
      cases h
      exact ⟨bound, value, resolve?_eq_of_resolve hbound, hvalue, rfl⟩

theorem bindTerms_inList {name : String} {literals : List Literal} {negated : Bool}
    {b : BoundPredicate} (h : (inList name literals negated).bindTerms schema caseSensitive = .ok b) :
    ∃ bound values, schema.resolve? caseSensitive name = some (bound.index, bound.column) ∧
      List.Forall₂ (fun literal value => literal.bind bound.column = .ok value) literals values ∧
      b = .inList bound values negated := by
  unfold bindTerms at h
  obtain ⟨bound, hbound, h⟩ := bind_eq_ok h
  obtain ⟨values, hvalues, h⟩ := bind_eq_ok h
  cases h
  exact ⟨bound, values, resolve?_eq_of_resolve hbound, forall₂_of_mapM hvalues, rfl⟩

theorem bindTerms_isNull {name : String} {negated : Bool} {b : BoundPredicate}
    (h : (isNull name negated).bindTerms schema caseSensitive = .ok b) :
    ∃ bound, schema.resolve? caseSensitive name = some (bound.index, bound.column) ∧
      b = .isNull bound negated := by
  unfold bindTerms at h
  obtain ⟨bound, hbound, h⟩ := bind_eq_ok h
  cases h
  exact ⟨bound, resolve?_eq_of_resolve hbound, rfl⟩

theorem bindTerms_not {p : Predicate} {b : BoundPredicate}
    (h : (not p).bindTerms schema caseSensitive = .ok b) :
    ∃ c, p.bindTerms schema caseSensitive = .ok c ∧ b = .not c := by
  unfold bindTerms at h
  obtain ⟨c, hc, h⟩ := bind_eq_ok h
  cases h
  exact ⟨c, hc, rfl⟩

theorem bindTerms_all {ps : List Predicate} {b : BoundPredicate}
    (h : (all ps).bindTerms schema caseSensitive = .ok b) :
    ∃ bs, bindList schema caseSensitive ps = .ok bs ∧ b = .all bs := by
  unfold bindTerms at h
  obtain ⟨bs, hbs, h⟩ := bind_eq_ok h
  cases h
  exact ⟨bs, hbs, rfl⟩

theorem bindTerms_any {ps : List Predicate} {b : BoundPredicate}
    (h : (any ps).bindTerms schema caseSensitive = .ok b) :
    ∃ bs, bindList schema caseSensitive ps = .ok bs ∧ b = .any bs := by
  unfold bindTerms at h
  obtain ⟨bs, hbs, h⟩ := bind_eq_ok h
  cases h
  exact ⟨bs, hbs, rfl⟩

theorem bindList_cons {p : Predicate} {ps : List Predicate} {bs : List BoundPredicate}
    (h : bindList schema caseSensitive (p :: ps) = .ok bs) :
    ∃ c cs, p.bindTerms schema caseSensitive = .ok c ∧ bindList schema caseSensitive ps = .ok cs ∧
      bs = c :: cs := by
  unfold bindList at h
  obtain ⟨c, hc, h⟩ := bind_eq_ok h
  obtain ⟨cs, hcs, h⟩ := bind_eq_ok h
  cases h
  exact ⟨c, cs, hc, hcs, rfl⟩

/-! ## Bound literals and the literals they come from -/

section

variable {column : Column} {actual : Partition.Value}

/-- The truth of a test that is undecided of null. -/
def nonNullTruth (test : Partition.Value → Bool) (value : Partition.Value) : Kleene.Truth :=
  if value.isNull then none else some (test value)

/-- Pruning counts null as false where the truth is undecided, so neither goes against the other. -/
theorem ofNonNull_approximates (test : Partition.Value → Bool) (value : Partition.Value) :
    Kleene.Approximates (some (BoundPredicate.ofNonNull test value)) (nonNullTruth test value) := by
  unfold BoundPredicate.ofNonNull nonNullTruth
  cases value.isNull with
  | true => exact Kleene.approximates_none _
  | false => exact Kleene.approximates_refl _

/-- A canonical value of the column type is compared with a bound literal as with the literal. -/
theorem compareTruth_of_bind {op : Comparison} {literal : Literal} {value : Partition.Value}
    (h : literal.bind column = .ok value) (htype : actual.hasType column.type = true)
    (hcanon : actual.canonical = actual) :
    compareTruth op actual.scalar literal.scalar =
      nonNullTruth (fun a => op.holds (Ord.compare a value)) actual := by
  unfold nonNullTruth compareTruth
  cases hnull : actual.isNull with
  | true =>
    rw [Partition.Value.scalar_eq_null_iff.2 hnull, Scalar.order?_null_left]
    rfl
  | false =>
    rw [(Literal.keptBy_of_bind h).order?_eq htype hnull hcanon]
    rfl

theorem memberTruth_of_bind {literals : List Literal} {values : List Partition.Value}
    (h : List.Forall₂ (fun literal value => literal.bind column = .ok value) literals values)
    (htype : actual.hasType column.type = true) (hnull : actual.isNull = false)
    (hcanon : actual.canonical = actual) :
    memberTruth actual.scalar literals = some (values.contains actual) := by
  unfold memberTruth
  induction h with
  | nil => rfl
  | cons hbind _ ih =>
    rename_i literal value literals values _
    rw [List.map_cons, Kleene.any, ih, compareTruth_of_bind hbind htype hcanon, nonNullTruth, hnull,
      List.contains_cons]
    rw [Comparison.holds_eq_compare]
    cases actual == value <;> cases values.contains actual <;> rfl

/-- Of null it is undecided whether it is among literals. -/
theorem memberTruth_null {literals : List Literal} (h : literals ≠ []) :
    memberTruth .null literals = none := by
  refine Kleene.any_of_forall_none (fun hmap => h (List.map_eq_nil_iff.1 hmap)) fun a ha => ?_
  obtain ⟨literal, -, rfl⟩ := List.mem_map.1 ha
  rw [compareTruth, Scalar.order?_null_left, Option.map_none]

/-- A canonical value of the column type is among bound literals as it is among the literals. -/
theorem negateIf_memberTruth_of_bind {literals : List Literal} {values : List Partition.Value}
    {negated : Bool}
    (h : List.Forall₂ (fun literal value => literal.bind column = .ok value) literals values)
    (htype : actual.hasType column.type = true) (hcanon : actual.canonical = actual)
    (hne : literals ≠ []) :
    negateIf negated (memberTruth actual.scalar literals) =
      nonNullTruth (fun a => values.contains a != negated) actual := by
  unfold nonNullTruth
  cases hnull : actual.isNull with
  | true =>
    rw [Partition.Value.scalar_eq_null_iff.2 hnull, memberTruth_null hne]
    cases negated <;> rfl
  | false =>
    rw [memberTruth_of_bind h htype hnull hcanon, if_neg Bool.false_ne_true]
    dsimp only
    cases values.contains actual <;> cases negated <;> rfl

end

/-! ## What is known of a row -/

/-- The known values of columns are those of a row, with canonical floats, and have the types of the
columns. Columns are known by the names that the schema gives them. -/
def KnownOf (schema : Schema) (caseSensitive : Bool) (valueOf : String → Option Partition.Value)
    (row : Row) : Prop :=
  ∀ name index column value, schema.resolve? caseSensitive name = some (index, column) →
    valueOf column.name = some value →
    (row index).canonical = value ∧ value.hasType column.type = true

section

variable {valueOf : String → Option Partition.Value} {row : Row}

theorem compare_approximates {name : String} {op : Comparison} {literal : Literal}
    {b : BoundPredicate} (hknown : KnownOf schema caseSensitive valueOf row)
    (h : (compare name op literal).bindTerms schema caseSensitive = .ok b) :
    Kleene.Approximates (b.outcome valueOf)
      ((compare name op literal).truth schema caseSensitive row) := by
  obtain ⟨bound, value, hresolve, hbind, rfl⟩ := bindTerms_compare h
  rw [truth, columnScalar?, hresolve, Option.map_some, Option.bind_some, BoundPredicate.outcome]
  cases hvalue : valueOf bound.column.name with
  | none => exact Kleene.none_approximates _
  | some actual =>
    obtain ⟨hrow, htype⟩ := hknown _ _ _ _ hresolve hvalue
    have hcanon : actual.canonical = actual := by rw [← hrow, Partition.Value.canonical_canonical]
    rw [Option.map_some, ← Partition.Value.scalar_canonical, hrow,
      compareTruth_of_bind hbind htype hcanon]
    exact ofNonNull_approximates _ _

theorem inList_approximates {name : String} {literals : List Literal} {negated : Bool}
    {b : BoundPredicate} (hknown : KnownOf schema caseSensitive valueOf row)
    (h : (inList name literals negated).bindTerms schema caseSensitive = .ok b)
    (hne : literals ≠ []) :
    Kleene.Approximates (b.outcome valueOf)
      ((inList name literals negated).truth schema caseSensitive row) := by
  obtain ⟨bound, values, hresolve, hbind, rfl⟩ := bindTerms_inList h
  rw [truth, columnScalar?, hresolve, Option.map_some, Option.bind_some, BoundPredicate.outcome]
  cases hvalue : valueOf bound.column.name with
  | none => exact Kleene.none_approximates _
  | some actual =>
    obtain ⟨hrow, htype⟩ := hknown _ _ _ _ hresolve hvalue
    have hcanon : actual.canonical = actual := by rw [← hrow, Partition.Value.canonical_canonical]
    rw [Option.map_some, ← Partition.Value.scalar_canonical, hrow,
      negateIf_memberTruth_of_bind hbind htype hcanon hne]
    exact ofNonNull_approximates _ _

theorem isNull_approximates {name : String} {negated : Bool} {b : BoundPredicate}
    (hknown : KnownOf schema caseSensitive valueOf row)
    (h : (isNull name negated).bindTerms schema caseSensitive = .ok b) :
    Kleene.Approximates (b.outcome valueOf)
      ((isNull name negated).truth schema caseSensitive row) := by
  obtain ⟨bound, hresolve, rfl⟩ := bindTerms_isNull h
  rw [truth, columnScalar?, hresolve, Option.map_some, Option.map_some, BoundPredicate.outcome]
  cases hvalue : valueOf bound.column.name with
  | none => exact Kleene.none_approximates _
  | some actual =>
    obtain ⟨hrow, -⟩ := hknown _ _ _ _ hresolve hvalue
    rw [Option.map_some, ← Partition.Value.scalar_canonical, hrow, Partition.Value.scalar_beq_null]
    exact Kleene.approximates_refl _

theorem defect?_not {p : Predicate} (h : (not p).defect? = none) : p.defect? = none := by
  rwa [defect?] at h

theorem defects?_of_all {ps : List Predicate} (h : (all ps).defect? = none) :
    defects? ps = none := by
  cases ps with
  | nil => rfl
  | cons p ps => rwa [defect?] at h

theorem defects?_of_any {ps : List Predicate} (h : (any ps).defect? = none) :
    defects? ps = none := by
  cases ps with
  | nil => rfl
  | cons p ps => rwa [defect?] at h

theorem defects?_cons {p : Predicate} {ps : List Predicate} (h : defects? (p :: ps) = none) :
    p.defect? = none ∧ defects? ps = none := by
  rwa [defects?, Option.or_eq_none_iff] at h

mutual

theorem outcome_approximates_truth (hknown : KnownOf schema caseSensitive valueOf row) :
    ∀ (p : Predicate) (b : BoundPredicate), p.defect? = none →
      p.bindTerms schema caseSensitive = .ok b →
      Kleene.Approximates (b.outcome valueOf) (p.truth schema caseSensitive row)
  | always, _, _, h => by
    cases h
    exact Kleene.approximates_refl _
  | compare _ _ _, _, _, h => compare_approximates hknown h
  | inList _ [] _, _, hdefect, _ => nomatch hdefect
  | inList _ (_ :: _) _, _, _, h => inList_approximates hknown h (List.cons_ne_nil _ _)
  | isNull _ _, _, _, h => isNull_approximates hknown h
  | not p, _, hdefect, h => by
    obtain ⟨c, hc, rfl⟩ := bindTerms_not h
    -- the operand goes against neither decision, since a negation swaps them
    exact Kleene.not_approximates (outcome_approximates_truth hknown p c (defect?_not hdefect) hc)
  | all ps, _, hdefect, h => by
    obtain ⟨bs, hbs, rfl⟩ := bindTerms_all h
    exact Kleene.all_approximates
      (outcomes_approximate_truths hknown ps bs (defects?_of_all hdefect) hbs)
  | any ps, _, hdefect, h => by
    obtain ⟨bs, hbs, rfl⟩ := bindTerms_any h
    exact Kleene.any_approximates
      (outcomes_approximate_truths hknown ps bs (defects?_of_any hdefect) hbs)

theorem outcomes_approximate_truths (hknown : KnownOf schema caseSensitive valueOf row) :
    ∀ (ps : List Predicate) (bs : List BoundPredicate), defects? ps = none →
      bindList schema caseSensitive ps = .ok bs →
      List.Forall₂ Kleene.Approximates (BoundPredicate.outcomes valueOf bs)
        (truths schema caseSensitive row ps)
  | [], _, _, h => by
    cases h
    exact .nil
  | p :: ps, _, hdefect, h => by
    obtain ⟨c, cs, hc, hcs, rfl⟩ := bindList_cons h
    exact .cons (outcome_approximates_truth hknown p c (defects?_cons hdefect).1 hc)
      (outcomes_approximate_truths hknown ps cs (defects?_cons hdefect).2 hcs)

end

theorem bindTerms_of_bind {p : Predicate} {b : BoundPredicate}
    (h : p.bind schema caseSensitive = .ok b) :
    p.defect? = none ∧ p.bindTerms schema caseSensitive = .ok b := by
  unfold bind at h
  split at h
  · cases h
  · rename_i hdefect
    exact ⟨hdefect, h⟩

/-- What a bound predicate decides from the known values of a row does not go against the truth of
the predicate on the row. -/
theorem outcome_approximates (hknown : KnownOf schema caseSensitive valueOf row) {p : Predicate}
    {b : BoundPredicate} (h : p.bind schema caseSensitive = .ok b) :
    Kleene.Approximates (b.outcome valueOf) (p.truth schema caseSensitive row) := by
  obtain ⟨hdefect, hterms⟩ := bindTerms_of_bind h
  exact outcome_approximates_truth hknown p b hdefect hterms

end

end Predicate

end MergeOnRead
