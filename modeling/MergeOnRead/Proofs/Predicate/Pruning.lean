import Mathlib.Tactic.TFAE
import MergeOnRead.Proofs.Predicate.Binding

/-!
# Which specs prune soundly

A spec may mix identity fields with fields of other transforms, whose values tell nothing of their
source columns. The value of a column is looked up by the place of the column among the identity
columns, but a key has a value for every field. So it is the value of the column's own field only if no
field of another transform stands before; otherwise the value of another field is compared in its
place, and partitions with matching rows are ruled out.

Main statement: `prunesSoundly_tfae`, the specs under which no partition with a matching row is ruled
out are those with no other field before the first identity field over a column.
-/

namespace MergeOnRead

/-- The place of an element in a list, counted among those that are kept. -/
theorem findIdx?_filter {α : Type} (keep test : α → Bool) (l : List α) :
    (l.filter keep).findIdx? test =
      (l.findIdx? fun a => keep a && test a).map fun place => (l.take place).countP keep := by
  induction l with
  | nil => rfl
  | cons a l ih =>
    cases hkeep : keep a with
    | false =>
      rw [List.filter_cons_of_neg (by simp [hkeep]), ih, List.findIdx?_cons, hkeep, Bool.false_and,
        if_neg Bool.false_ne_true, Option.map_map]
      refine congrArg (Option.map · _) (funext fun place => ?_)
      rw [Function.comp_apply, List.take_succ_cons, List.countP_cons_of_neg (by simp [hkeep])]
    | true =>
      rw [List.filter_cons_of_pos hkeep, List.findIdx?_cons, List.findIdx?_cons, ih, hkeep,
        Bool.true_and]
      split
      · rfl
      · rw [Option.map_map, Option.map_map]
        refine congrArg (Option.map · _) (funext fun place => ?_)
        rw [Function.comp_apply, Function.comp_apply, List.take_succ_cons,
          List.countP_cons_of_pos hkeep]

namespace Partition

def Field.isIdentity (field : Field) : Bool := field.transform = .identity

namespace Spec

/-- The place of the first identity field over a column. -/
def identityPlace? (spec : Spec) (column : String) : Option Nat :=
  spec.fields.findIdx? fun field => field.isIdentity && field.source == column

/-- No field of another transform stands before the first identity field over a column. -/
def Aligned (spec : Spec) (column : String) : Prop :=
  ∀ place, spec.identityPlace? column = some place →
    ∀ field ∈ spec.fields.take place, field.isIdentity = true

/-- In a key with a value for each field, a column has the value of its own field. -/
def ReadsOwnValue (spec : Spec) (column : String) : Prop :=
  ∀ key : Key, key.length = spec.fields.length →
    spec.valueOf? key column = (spec.identityPlace? column).bind fun place => key[place]?

variable {spec : Spec} {column : String} {key : Key}

/-- The value of a column is read at the number of identity fields before its own field. -/
theorem valueOf?_eq : spec.valueOf? key column =
    (spec.identityPlace? column).bind fun place =>
      key[(spec.fields.take place).countP Field.isIdentity]? := by
  have hplace : spec.identityColumns.findIdx? (· == column) =
      (spec.identityPlace? column).map fun place =>
        (spec.fields.take place).countP Field.isIdentity := by
    rw [identityColumns, List.findIdx?_map]
    exact findIdx?_filter Field.isIdentity (fun field => field.source == column) spec.fields
  unfold valueOf?
  rw [hplace]
  cases spec.identityPlace? column <;> rfl

theorem of_identityPlace? {place : Nat} (h : spec.identityPlace? column = some place) :
    ∃ field, spec.fields[place]? = some field ∧ field.isIdentity = true ∧ field.source = column ∧
      ∀ i < place, ∀ other, spec.fields[i]? = some other → other.isIdentity = true →
        other.source ≠ column := by
  obtain ⟨hlt, hfield, hbefore⟩ := List.findIdx?_eq_some_iff_getElem.1 h
  rw [Bool.and_eq_true, beq_iff_eq] at hfield
  refine ⟨spec.fields[place], List.getElem?_eq_getElem hlt, hfield.1, hfield.2, ?_⟩
  intro i hi other hother hidentity hsource
  obtain ⟨_, rfl⟩ := List.getElem?_eq_some_iff.1 hother
  exact hbefore i hi (by simp [hidentity, hsource])

theorem Aligned.countP_take (h : spec.Aligned column) {place : Nat}
    (hplace : spec.identityPlace? column = some place) :
    (spec.fields.take place).countP Field.isIdentity = place := by
  obtain ⟨hlt, -⟩ := List.findIdx?_eq_some_iff_getElem.1 hplace
  rw [List.countP_eq_length.2 (h place hplace), List.length_take, Nat.min_eq_left hlt.le]

theorem Aligned.readsOwnValue (h : spec.Aligned column) : spec.ReadsOwnValue column := by
  intro key _
  rw [valueOf?_eq]
  cases hplace : spec.identityPlace? column with
  | none => rfl
  | some place =>
    dsimp only [Option.bind_some]
    rw [h.countP_take hplace]

/-- Where a field of another transform stands before that of a column, the value of a field before is
read in its place. -/
theorem exists_lt_of_not_aligned (h : ¬spec.Aligned column) :
    ∃ place, spec.identityPlace? column = some place ∧
      (spec.fields.take place).countP Field.isIdentity < place := by
  unfold Aligned at h
  push Not at h
  obtain ⟨place, hplace, field, hfield, hother⟩ := h
  refine ⟨place, hplace, ?_⟩
  have hle : (spec.fields.take place).countP Field.isIdentity ≤ (spec.fields.take place).length :=
    List.countP_le_length
  have hne : (spec.fields.take place).countP Field.isIdentity ≠ (spec.fields.take place).length :=
    fun heq => hother (List.countP_eq_length.1 heq field hfield)
  have hlength : (spec.fields.take place).length ≤ place := List.length_take_le ..
  omega

end Spec

end Partition

namespace BoundPredicate

variable {valueOf : String → Option Partition.Value} {row : Row}

/-- The values that are known of columns are those of a row. -/
def KnownOf (valueOf : String → Option Partition.Value) (row : Row) (columns : List BoundColumn) :
    Prop :=
  ∀ bound ∈ columns, ∀ value, valueOf bound.column.name = some value → row bound.index = value

mutual

/-- What a bound predicate decides from known values of a row does not go against its truth on the
row. -/
theorem outcome_approximates : ∀ b : BoundPredicate, KnownOf valueOf row b.columns →
    Kleene.Approximates (b.outcome valueOf) (b.truth row)
  | always, _ => Kleene.approximates_refl _
  | compare bound op value, hknown => by
    rw [outcome, truth]
    cases hvalue : valueOf bound.column.name with
    | none => exact Kleene.none_approximates _
    | some actual =>
      rw [hknown bound (List.mem_singleton_self _) actual hvalue]
      exact Predicate.ofNonNull_approximates _ _
  | inList bound values negated, hknown => by
    rw [outcome, truth]
    cases hvalue : valueOf bound.column.name with
    | none => exact Kleene.none_approximates _
    | some actual =>
      rw [hknown bound (List.mem_singleton_self _) actual hvalue]
      exact Predicate.ofNonNull_approximates _ _
  | isNull bound negated, hknown => by
    rw [outcome, truth]
    cases hvalue : valueOf bound.column.name with
    | none => exact Kleene.none_approximates _
    | some actual =>
      rw [hknown bound (List.mem_singleton_self _) actual hvalue]
      exact Kleene.approximates_refl _
  | not p, hknown => Kleene.not_approximates (outcome_approximates p hknown)
  | all ps, hknown => Kleene.all_approximates (outcomes_approximate ps hknown)
  | any ps, hknown => Kleene.any_approximates (outcomes_approximate ps hknown)

theorem outcomes_approximate : ∀ bs : List BoundPredicate, KnownOf valueOf row (columnsList bs) →
    List.Forall₂ Kleene.Approximates (outcomes valueOf bs) (truths row bs)
  | [], _ => .nil
  | b :: bs, hknown =>
    .cons
      (outcome_approximates b fun bound hbound =>
        hknown bound (List.mem_append_left _ hbound))
      (outcomes_approximate bs fun bound hbound =>
        hknown bound (List.mem_append_right _ hbound))

end

end BoundPredicate

/-- The columns of a row that are sources of identity fields hold the values of a key. All others may
hold anything. -/
def Row.AgreesOn (row : Row) (columns : List BoundColumn) (spec : Partition.Spec)
    (key : Partition.Key) : Prop :=
  ∀ bound ∈ columns, ∀ (place : Nat) (field : Partition.Field) (value : Partition.Value),
    spec.fields[place]? = some field → field.isIdentity = true →
    field.source = bound.column.name → key[place]? = some value → row bound.index = value

/-- A row of a schema whose source columns of identity fields hold the values of a key. -/
def Row.MatchesKey (row : Row) (schema : Schema) (spec : Partition.Spec) (key : Partition.Key) :
    Prop :=
  ∀ (place : Nat) (field : Partition.Field) (value : Partition.Value) (index : Nat)
    (column : Column), spec.fields[place]? = some field → field.isIdentity = true →
    key[place]? = some value → schema.resolve? true field.source = some (index, column) →
    row index = value

theorem BoundColumn.IsFirst.resolve? {schema : Schema} {caseSensitive : Bool} {name : String}
    {bound : BoundColumn} (h : bound.IsFirst schema caseSensitive name) :
    schema.resolve? caseSensitive name = some (bound.index, bound.column) := by
  obtain ⟨hlt, hcolumn⟩ := List.getElem?_eq_some_iff.1 h.atIndex
  refine resolve?_eq_some_iff.2 ⟨List.findIdx?_eq_some_iff_getElem.2 ⟨hlt, ?_, ?_⟩, h.atIndex⟩
  · rw [hcolumn]
    exact h.sameName
  · intro i hi
    rw [h.before i hi _ (List.getElem?_eq_getElem (hi.trans hlt))]
    exact Bool.false_ne_true

/-- The columns of a predicate that is bound to a schema are found in it under their own names. -/
theorem Predicate.resolve?_of_mem_columns {schema : Schema} {caseSensitive : Bool} {p : Predicate}
    {b : BoundPredicate} (h : p.bind schema caseSensitive = .ok b) {bound : BoundColumn}
    (hbound : bound ∈ b.columns) :
    schema.resolve? true bound.column.name = some (bound.index, bound.column) := by
  obtain ⟨hdefect, hterms⟩ := bindTerms_of_bind h
  have hcolumns := (keptBy_of_bindTerms p b hdefect hterms).columns
  obtain ⟨i, hi, rfl⟩ := List.getElem_of_mem hbound
  have hfirst := hcolumns.get (hcolumns.length_eq ▸ hi) hi
  exact resolve?_name hfirst.resolve?

namespace Partition.Spec

/-- A bound predicate is true of no row of a partition that it rules out. -/
def PrunesSoundly (spec : Spec) : Prop :=
  ∀ (b : BoundPredicate) (key : Key) (row : Row), key.length = spec.fields.length →
    row.AgreesOn b.columns spec key → spec.mayMatch b key = false → b.truth row ≠ some true

/-- A predicate that is bound to a schema is true of no row of a partition that it rules out. -/
def PrunesSchemasSoundly (spec : Spec) : Prop :=
  ∀ (schema : Schema) (caseSensitive : Bool) (p : Predicate) (b : BoundPredicate) (key : Key)
    (row : Row), p.bind schema caseSensitive = .ok b → key.length = spec.fields.length →
    row.MatchesKey schema spec key → spec.mayMatch b key = false → b.truth row ≠ some true

variable {spec : Spec} {column : String} {key : Key} {row : Row}

theorem knownOf_of_agreesOn {columns : List BoundColumn}
    (hown : ∀ column, spec.ReadsOwnValue column) (hlength : key.length = spec.fields.length)
    (hrow : row.AgreesOn columns spec key) :
    BoundPredicate.KnownOf (spec.valueOf? key) row columns := by
  intro bound hbound value hvalue
  rw [hown bound.column.name key hlength, Option.bind_eq_some_iff] at hvalue
  obtain ⟨place, hplace, hvalue⟩ := hvalue
  obtain ⟨field, hfield, hidentity, hsource, -⟩ := of_identityPlace? hplace
  exact hrow bound hbound place field value hfield hidentity hsource hvalue

theorem prunesSoundly_of_readsOwnValue (hown : ∀ column, spec.ReadsOwnValue column) :
    spec.PrunesSoundly := by
  intro b key row hlength hrow hfalse
  have hknown := knownOf_of_agreesOn hown hlength hrow
  have houtcome : b.outcome (spec.valueOf? key) = some false := by
    simpa [mayMatch] using hfalse
  exact (b.outcome_approximates hknown).of_false houtcome

theorem prunesSchemasSoundly_of_prunesSoundly (h : spec.PrunesSoundly) :
    spec.PrunesSchemasSoundly := by
  intro schema caseSensitive p b key row hbind hlength hrow
  refine h b key row hlength ?_
  intro bound hbound place field value hfield hidentity hsource hvalue
  have hresolve := Predicate.resolve?_of_mem_columns hbind hbound
  rw [← hsource] at hresolve
  exact hrow place field value bound.index bound.column hfield hidentity hvalue hresolve

/-! ## Fields in the wrong place -/

/-- The key with one in the identity fields over a column and zero in all other fields. -/
def indicatorKey (spec : Spec) (column : String) : Key :=
  spec.fields.map fun field =>
    if field.isIdentity && field.source == column then .int32 1 else .int32 0

theorem length_indicatorKey : (spec.indicatorKey column).length = spec.fields.length :=
  List.length_map ..

theorem getElem?_indicatorKey {place : Nat} {field : Field} (h : spec.fields[place]? = some field) :
    (spec.indicatorKey column)[place]? =
      some (if field.isIdentity && field.source == column then .int32 1 else .int32 0) := by
  rw [indicatorKey, List.getElem?_map, h, Option.map_some]

/-- The own value of a column is one, but if the column is not aligned the value read is zero. -/
theorem valueOf?_indicatorKey (h : ¬spec.Aligned column) :
    spec.valueOf? (spec.indicatorKey column) column = some (.int32 0) := by
  obtain ⟨place, hplace, hlt⟩ := exists_lt_of_not_aligned h
  obtain ⟨field, hfield, -, -, hbefore⟩ := of_identityPlace? hplace
  obtain ⟨hbound, -⟩ := List.getElem?_eq_some_iff.1 hfield
  have hother := List.getElem?_eq_getElem (hlt.trans hbound)
  rw [valueOf?_eq, hplace, Option.bind_some, getElem?_indicatorKey hother, if_neg]
  rw [Bool.and_eq_true, beq_iff_eq]
  rintro ⟨hidentity, hsource⟩
  exact hbefore _ hlt _ hother hidentity hsource

/-- If a column is not aligned, the rows in which it is one are lost. -/
theorem aligned_of_prunesSchemasSoundly (h : spec.PrunesSchemasSoundly) : spec.Aligned column := by
  by_contra hnot
  have hread := valueOf?_indicatorKey hnot
  have hresolve : Schema.resolve? [⟨column, .int32⟩] true column = some (0, ⟨column, .int32⟩) := by
    simp [Schema.resolve?, sameName_self]
  have hbind : (Predicate.compare column .eq (.int64 1)).bind [⟨column, .int32⟩] true =
      .ok (.compare ⟨0, ⟨column, .int32⟩⟩ .eq (.int32 1)) := by
    rw [Predicate.bind_compare_eq hresolve rfl]
    rfl
  refine h _ true _ _ (spec.indicatorKey column) (fun _ => .int32 1) hbind length_indicatorKey ?_ ?_ ?_
  · intro place field value index other hfield hidentity hvalue hother
    obtain ⟨hmem, hsame, -⟩ := first_of_resolve? hother
    have hsource : field.source = column := by
      rw [List.getElem?_singleton] at hmem
      split at hmem
      · cases hmem
        have hname : column = field.source := by simpa [sameName] using hsame
        exact hname.symm
      · cases hmem
    rw [getElem?_indicatorKey hfield, if_pos (by simp [hidentity, hsource])] at hvalue
    exact Option.some.inj hvalue
  · rw [mayMatch, BoundPredicate.outcome, hread]
    rfl
  · rw [BoundPredicate.truth]
    rfl

/-- A spec rules out no partition with a matching row, whatever the predicate, exactly when no field of
another transform stands before the first identity field over a column; and exactly then each term is
decided from the value of the column's own field. Predicates that are bound to schemas suffice to see
this. -/
theorem prunesSoundly_tfae (spec : Spec) :
    List.TFAE
      [spec.PrunesSoundly, spec.PrunesSchemasSoundly, ∀ column, spec.ReadsOwnValue column,
        ∀ column, spec.Aligned column] := by
  tfae_have 1 → 2 := prunesSchemasSoundly_of_prunesSoundly
  tfae_have 2 → 4 := fun h _ => aligned_of_prunesSchemasSoundly h
  tfae_have 4 → 3 := fun h column => (h column).readsOwnValue
  tfae_have 3 → 1 := prunesSoundly_of_readsOwnValue
  tfae_finish

/-- With a bucket before the day, a partition of a day is ruled out though its rows may be of the
day. -/
theorem not_prunesSoundly_bucketFirst :
    ¬PrunesSoundly ⟨[⟨"order", .bucket 16⟩, ⟨"day", .identity⟩]⟩ := by
  intro h
  have haligned := ((prunesSoundly_tfae ⟨[⟨"order", .bucket 16⟩, ⟨"day", .identity⟩]⟩).out 0 3).1 h
  exact absurd (haligned "day" 1 (by decide) ⟨"order", .bucket 16⟩ (by decide)) (by decide)

end Partition.Spec

end MergeOnRead
