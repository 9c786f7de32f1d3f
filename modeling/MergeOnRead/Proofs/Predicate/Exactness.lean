import MergeOnRead.Proofs.Predicate.Pruning

/-!
# Where pruning is exact

If a key tells the values of all columns of a predicate, a partition is kept exactly when the predicate
is true of these values in three-valued logic. This holds of predicates without negation, and of all
predicates if none of the values is null. Otherwise it may fail, since the outcome of a test on null is
false where its truth is unknown, and a negation makes this true.

Main statements: `mayMatch_iff_truthAt`, over bound predicates without null literals, which is all that
binding gives, and `not_exact_nullLiteral`, with a null literal a partition may be kept for nothing.
-/

namespace MergeOnRead

namespace BoundPredicate

/-! ## Truth in three-valued logic -/

/-- A comparison is unknown if one of the values is null. -/
def compareAt (op : Comparison) (a b : Partition.Value) : Kleene.Truth :=
  if a.isNull || b.isNull then none else some (op.holds (Ord.compare a b))

/-- A membership is unknown of null, and else says that one of the equations holds. -/
def memberAt (a : Partition.Value) (values : List Partition.Value) : Kleene.Truth :=
  if a.isNull then none else Kleene.any (values.map fun value => compareAt .eq a value)

mutual

/-- The truth of a bound predicate, given the value of each of its columns. -/
def truthAt (read : BoundColumn → Partition.Value) : BoundPredicate → Kleene.Truth
  | always => some true
  | compare bound op value => compareAt op (read bound) value
  | inList bound values negated => Predicate.negateIf negated (memberAt (read bound) values)
  | isNull bound negated => some ((read bound).isNull != negated)
  | not operand => Kleene.not (operand.truthAt read)
  | all operands => Kleene.all (truthsAt read operands)
  | any operands => Kleene.any (truthsAt read operands)

def truthsAt (read : BoundColumn → Partition.Value) : List BoundPredicate → List Kleene.Truth
  | [] => []
  | p :: ps => p.truthAt read :: truthsAt read ps

end

/-- No negation stands in the predicate. A negated membership or null test is none. -/
inductive NegationFree : BoundPredicate → Prop
  | always : NegationFree always
  | compare (bound op value) : NegationFree (compare bound op value)
  | inList (bound values negated) : NegationFree (inList bound values negated)
  | isNull (bound negated) : NegationFree (isNull bound negated)
  | all (ps) : (∀ p ∈ ps, NegationFree p) → NegationFree (all ps)
  | any (ps) : (∀ p ∈ ps, NegationFree p) → NegationFree (any ps)

/-- No column is compared with null. -/
def NoNullLiterals (b : BoundPredicate) : Prop := ∀ pair ∈ b.literals, pair.2.isNull = false

instance (b : BoundPredicate) : Decidable b.NoNullLiterals :=
  inferInstanceAs (Decidable (∀ pair ∈ b.literals, pair.2.isNull = false))

section

variable {read : BoundColumn → Partition.Value} {ps : List BoundPredicate} {p : BoundPredicate}

theorem truthsAt_eq_map (read : BoundColumn → Partition.Value) (ps : List BoundPredicate) :
    truthsAt read ps = ps.map (truthAt read) := by
  induction ps with
  | nil => rfl
  | cons p ps ih => rw [truthsAt, ih, List.map_cons]

theorem truthAt_all : (all ps).truthAt read = Kleene.all (ps.map (truthAt read)) := by
  rw [truthAt, truthsAt_eq_map]

theorem truthAt_any : (any ps).truthAt read = Kleene.any (ps.map (truthAt read)) := by
  rw [truthAt, truthsAt_eq_map]

theorem columnsList_eq_flatMap (ps : List BoundPredicate) : columnsList ps = ps.flatMap columns := by
  induction ps with
  | nil => rfl
  | cons p ps ih => rw [columnsList, ih, List.flatMap_cons]

theorem literalsList_eq_flatMap (ps : List BoundPredicate) :
    literalsList ps = ps.flatMap literals := by
  induction ps with
  | nil => rfl
  | cons p ps ih => rw [literalsList, ih, List.flatMap_cons]

/-- What holds of the columns of all operands holds of those of each. -/
theorem forall_columns_of_mem {motive : BoundColumn → Prop}
    (h : ∀ bound ∈ columnsList ps, motive bound) (hp : p ∈ ps) :
    ∀ bound ∈ p.columns, motive bound := by
  intro bound hbound
  apply h
  rw [columnsList_eq_flatMap]
  exact List.mem_flatMap_of_mem hp hbound

theorem noNullLiterals_of_mem (h : ∀ pair ∈ literalsList ps, pair.2.isNull = false) (hp : p ∈ ps) :
    p.NoNullLiterals := by
  intro pair hpair
  apply h
  rw [literalsList_eq_flatMap]
  exact List.mem_flatMap_of_mem hp hpair

end

/-! ## Tests of one value -/

section

variable {op : Comparison} {actual value : Partition.Value} {values : List Partition.Value}
  {negated : Bool}

theorem compareAt_eq (h : value.isNull = false) :
    compareAt op actual value =
      Predicate.nonNullTruth (fun a => op.holds (Ord.compare a value)) actual := by
  unfold compareAt Predicate.nonNullTruth
  rw [h, Bool.or_false]

theorem memberAt_eq (hactual : actual.isNull = false) (h : ∀ v ∈ values, v.isNull = false) :
    memberAt actual values = some (values.contains actual) := by
  rw [memberAt, hactual, if_neg Bool.false_ne_true]
  induction values with
  | nil => rfl
  | cons v values ih =>
    obtain ⟨hv, hrest⟩ := List.forall_mem_cons.1 h
    rw [List.map_cons, Kleene.any, ih hrest, compareAt_eq hv, Predicate.nonNullTruth, hactual,
      if_neg Bool.false_ne_true, Comparison.holds_eq_compare, List.contains_cons]
    cases actual == v <;> cases values.contains actual <;> rfl

theorem negateIf_memberAt_eq (h : ∀ v ∈ values, v.isNull = false) :
    Predicate.negateIf negated (memberAt actual values) =
      Predicate.nonNullTruth (fun a => values.contains a != negated) actual := by
  unfold Predicate.nonNullTruth
  by_cases hactual : actual.isNull = true
  · rw [memberAt, if_pos hactual, if_pos hactual]
    cases negated <;> rfl
  · rw [if_neg hactual, memberAt_eq (Bool.not_eq_true _ ▸ hactual) h]
    dsimp only
    cases negated <;> cases values.contains actual <;> rfl

/-- The outcome of a test on null is false where its truth is unknown; neither is true. -/
theorem ofNonNull_eq_true_iff (test : Partition.Value → Bool) :
    some (ofNonNull test actual) = some true ↔
      Predicate.nonNullTruth test actual = some true := by
  unfold ofNonNull Predicate.nonNullTruth
  cases actual.isNull <;> simp

theorem some_ofNonNull (test : Partition.Value → Bool) (h : actual.isNull = false) :
    some (ofNonNull test actual) = Predicate.nonNullTruth test actual := by
  simp [ofNonNull, Predicate.nonNullTruth, h]

end

/-! ## Outcomes and truth -/

section

variable {valueOf : String → Option Partition.Value} {read : BoundColumn → Partition.Value}
  {b : BoundPredicate}

/-- If the values of all columns are known, the outcome is decided. -/
theorem outcome_ne_none (hread : ∀ bound ∈ b.columns, valueOf bound.column.name = some (read bound)) :
    b.outcome valueOf ≠ none := by
  induction b using induct with
  | always => simp [outcome]
  | compare bound op value => simp [outcome, hread bound (by simp [columns])]
  | inList bound values negated => simp [outcome, hread bound (by simp [columns])]
  | isNull bound negated => simp [outcome, hread bound (by simp [columns])]
  | not p ih => exact Kleene.not_ne_none (ih hread)
  | all ps ih =>
    rw [outcome_all]
    apply Kleene.all_ne_none
    intro a ha
    obtain ⟨p, hp, rfl⟩ := List.mem_map.1 ha
    exact ih p hp (forall_columns_of_mem hread hp)
  | any ps ih =>
    rw [outcome_any]
    apply Kleene.any_ne_none
    intro a ha
    obtain ⟨p, hp, rfl⟩ := List.mem_map.1 ha
    exact ih p hp (forall_columns_of_mem hread hp)

/-- Without negation the outcome is true exactly where the predicate is. -/
theorem outcome_eq_true_iff (hfree : b.NegationFree) (hliterals : b.NoNullLiterals)
    (hread : ∀ bound ∈ b.columns, valueOf bound.column.name = some (read bound)) :
    b.outcome valueOf = some true ↔ b.truthAt read = some true := by
  induction b using induct with
  | always => simp [outcome, truthAt]
  | compare bound op value =>
    rw [outcome, truthAt, hread bound (by simp [columns]),
      compareAt_eq (hliterals (bound, value) (by simp [literals]))]
    exact ofNonNull_eq_true_iff _
  | inList bound values negated =>
    have hvalues : ∀ v ∈ values, v.isNull = false :=
      fun v hv => hliterals (bound, v) (by simpa [literals] using hv)
    rw [outcome, truthAt, hread bound (by simp [columns]), negateIf_memberAt_eq hvalues]
    exact ofNonNull_eq_true_iff _
  | isNull bound negated =>
    rw [outcome, truthAt, hread bound (by simp [columns])]
    rfl
  | not p => cases hfree
  | all ps ih =>
    obtain _ | _ | _ | _ | ⟨_, hfree⟩ := hfree
    rw [outcome_all, truthAt_all, Kleene.all_eq_true_iff, Kleene.all_eq_true_iff,
      List.forall_mem_map, List.forall_mem_map]
    refine forall₂_congr fun p hp => ?_
    exact ih p hp (hfree p hp) (noNullLiterals_of_mem hliterals hp) (forall_columns_of_mem hread hp)
  | any ps ih =>
    obtain _ | _ | _ | _ | _ | ⟨_, hfree⟩ := hfree
    rw [outcome_any, truthAt_any, Kleene.any_eq_true_iff, Kleene.any_eq_true_iff, List.mem_map,
      List.mem_map]
    refine exists_congr fun p => and_congr_right fun hp => ?_
    exact ih p hp (hfree p hp) (noNullLiterals_of_mem hliterals hp) (forall_columns_of_mem hread hp)

/-- Without null values the outcome is the truth, negations included. -/
theorem outcome_eq_truthAt (hliterals : b.NoNullLiterals)
    (hread : ∀ bound ∈ b.columns, valueOf bound.column.name = some (read bound))
    (hvalues : ∀ bound ∈ b.columns, (read bound).isNull = false) :
    b.outcome valueOf = b.truthAt read := by
  induction b using induct with
  | always => rw [outcome, truthAt]
  | compare bound op value =>
    rw [outcome, truthAt, hread bound (by simp [columns]),
      compareAt_eq (hliterals (bound, value) (by simp [literals]))]
    exact some_ofNonNull _ (hvalues bound (by simp [columns]))
  | inList bound values negated =>
    have hnotNull : ∀ v ∈ values, v.isNull = false :=
      fun v hv => hliterals (bound, v) (by simpa [literals] using hv)
    rw [outcome, truthAt, hread bound (by simp [columns]), negateIf_memberAt_eq hnotNull]
    exact some_ofNonNull _ (hvalues bound (by simp [columns]))
  | isNull bound negated =>
    rw [outcome, truthAt, hread bound (by simp [columns])]
    rfl
  | not p ih => rw [outcome, truthAt, ih hliterals hread hvalues]
  | all ps ih =>
    rw [outcome_all, truthAt_all]
    refine congrArg Kleene.all (List.map_congr_left fun p hp => ?_)
    exact ih p hp (noNullLiterals_of_mem hliterals hp) (forall_columns_of_mem hread hp)
      (forall_columns_of_mem hvalues hp)
  | any ps ih =>
    rw [outcome_any, truthAt_any]
    refine congrArg Kleene.any (List.map_congr_left fun p hp => ?_)
    exact ih p hp (noNullLiterals_of_mem hliterals hp) (forall_columns_of_mem hread hp)
      (forall_columns_of_mem hvalues hp)

end

end BoundPredicate

/-- Binding gives no null literal: a comparison with null is refused. -/
theorem Predicate.noNullLiterals_of_bind {schema : Schema} {caseSensitive : Bool} {p : Predicate}
    {b : BoundPredicate} (h : p.bind schema caseSensitive = .ok b) : b.NoNullLiterals := by
  obtain ⟨hdefect, hterms⟩ := bindTerms_of_bind h
  have hkept := (keptBy_of_bindTerms p b hdefect hterms).literals
  intro pair hpair
  obtain ⟨i, hi, rfl⟩ := List.getElem_of_mem hpair
  exact (hkept.get (hkept.length_eq ▸ hi) hi).notNull

namespace Partition.Spec

variable {spec : Spec} {key : Key} {b : BoundPredicate} {read : BoundColumn → Value}

/-- Columns hold the values that a key tells of them: each the value of the first field over it. -/
def Tells (spec : Spec) (key : Key) (read : BoundColumn → Value) (columns : List BoundColumn) : Prop :=
  ∀ bound ∈ columns, ∀ place, spec.identityPlace? bound.column.name = some place →
    key[place]? = some (read bound)

section

variable (hspec : ∀ field ∈ spec.fields, field.isIdentity = true)
  (hlength : key.length = spec.fields.length)

include hspec

theorem exists_identityPlace? {column : String} (h : ∃ field ∈ spec.fields, field.source = column) :
    ∃ place, spec.identityPlace? column = some place ∧ place < spec.fields.length := by
  obtain ⟨field, hfield, rfl⟩ := h
  have hsome : (spec.identityPlace? field.source).isSome = true := by
    rw [identityPlace?, List.findIdx?_isSome, List.any_eq_true]
    exact ⟨field, hfield, by simp [hspec field hfield]⟩
  obtain ⟨place, hplace⟩ := Option.isSome_iff_exists.1 hsome
  exact ⟨place, hplace, (List.findIdx?_eq_some_iff_getElem.1 hplace).1⟩

include hlength

/-- Without other fields each column is read at its own place. -/
theorem valueOf?_eq_getElem? {column : String} {place : Nat}
    (hplace : spec.identityPlace? column = some place) : spec.valueOf? key column = key[place]? := by
  have haligned : spec.Aligned column :=
    fun _ _ field hfield => hspec field (List.mem_of_mem_take hfield)
  rw [haligned.readsOwnValue key hlength, hplace, Option.bind_some]

variable (hcolumns : ∀ bound ∈ b.columns, ∃ field ∈ spec.fields, field.source = bound.column.name)

include hcolumns

theorem Tells.valueOf?_eq (h : spec.Tells key read b.columns) :
    ∀ bound ∈ b.columns, spec.valueOf? key bound.column.name = some (read bound) := by
  intro bound hbound
  obtain ⟨place, hplace, -⟩ := exists_identityPlace? hspec (hcolumns bound hbound)
  rw [valueOf?_eq_getElem? hspec hlength hplace]
  exact h bound hbound place hplace

theorem exists_tells : ∃ read, spec.Tells key read b.columns := by
  refine ⟨fun bound => (spec.valueOf? key bound.column.name).getD .null, ?_⟩
  intro bound hbound place hplace
  obtain ⟨other, hother, hlt⟩ := exists_identityPlace? hspec (hcolumns bound hbound)
  obtain rfl : other = place := Option.some.inj (hother.symm.trans hplace)
  dsimp only
  rw [valueOf?_eq_getElem? hspec hlength hplace, List.getElem?_eq_getElem (hlength ▸ hlt),
    Option.getD_some]

end

/-- Over a key of identity fields that tells all columns of a predicate, a partition is kept exactly
when the predicate is true of the values of the key, if it has no negation or none of the values is
null. So a partition is ruled out if no row can satisfy the predicate. No literal may be null, and none
is after binding. -/
theorem mayMatch_iff_truthAt (hspec : ∀ field ∈ spec.fields, field.isIdentity = true)
    (hcolumns : ∀ bound ∈ b.columns, ∃ field ∈ spec.fields, field.source = bound.column.name)
    (hlength : key.length = spec.fields.length) (hliterals : b.NoNullLiterals)
    (hclass : b.NegationFree ∨ ∀ bound ∈ b.columns, ∀ place,
      spec.identityPlace? bound.column.name = some place → key[place]? ≠ some .null) :
    (∀ read, spec.Tells key read b.columns →
        (spec.mayMatch b key = true ↔ b.truthAt read = some true)) ∧
      ((∀ read, spec.Tells key read b.columns → b.truthAt read ≠ some true) →
        spec.mayMatch b key = false) ∧
      ∀ (schema : Schema) (caseSensitive : Bool) (p : Predicate) (c : BoundPredicate),
        p.bind schema caseSensitive = .ok c → c.NoNullLiterals := by
  have hexact : ∀ read, spec.Tells key read b.columns →
      (spec.mayMatch b key = true ↔ b.truthAt read = some true) := by
    intro read htells
    have hread := htells.valueOf?_eq hspec hlength hcolumns
    -- all columns are known, so a partition is kept only if the outcome is true
    have hdecided : b.outcome (spec.valueOf? key) ≠ some false ↔
        b.outcome (spec.valueOf? key) = some true := by
      have hsome := BoundPredicate.outcome_ne_none hread
      rcases houtcome : b.outcome (spec.valueOf? key) with _ | (_ | _) <;> simp_all
    rw [mayMatch_iff, hdecided]
    rcases hclass with hfree | hvalues
    · exact BoundPredicate.outcome_eq_true_iff hfree hliterals hread
    · rw [BoundPredicate.outcome_eq_truthAt hliterals hread]
      intro bound hbound
      obtain ⟨place, hplace, -⟩ := exists_identityPlace? hspec (hcolumns bound hbound)
      have hne := hvalues bound hbound place hplace
      rw [htells bound hbound place hplace] at hne
      cases hvalue : read bound <;> simp_all [Value.isNull]
  refine ⟨hexact, fun hnone => ?_, fun _ _ _ _ => Predicate.noNullLiterals_of_bind⟩
  obtain ⟨read, htells⟩ := exists_tells hspec hlength hcolumns
  rw [← Bool.not_eq_true, hexact read htells]
  exact hnone read htells

/-- A table by day and region. -/
def byDayAndRegion : Spec := ⟨[⟨"day", .identity⟩, ⟨"region", .identity⟩]⟩

/-- The first days, and no region or not the north. -/
def firstDaysOutsideNorth : BoundPredicate :=
  .all
    [.inList ⟨1, ⟨"day", .int32⟩⟩ [.int32 1, .int32 2] false,
      .any
        [.isNull ⟨2, ⟨"region", .utf8⟩⟩ false,
          .compare ⟨2, ⟨"region", .utf8⟩⟩ .ne (.utf8 "north")]]

/-- A partition without a region is kept, though the last test is unknown of it. -/
theorem mayMatch_firstDay :
    byDayAndRegion.mayMatch firstDaysOutsideNorth [.int32 1, .null] = true := by
  have hread : byDayAndRegion.Tells [.int32 1, .null]
      (fun bound => if bound.index = 1 then .int32 1 else .null) firstDaysOutsideNorth.columns := by
    intro bound hbound place hplace
    simp only [firstDaysOutsideNorth, BoundPredicate.columns, BoundPredicate.columnsList,
      List.append_nil, List.cons_append, List.nil_append, List.mem_cons, List.not_mem_nil,
      or_false, or_self] at hbound
    rcases hbound with rfl | rfl <;> cases hplace <;> rfl
  have hfree : firstDaysOutsideNorth.NegationFree := by
    refine .all _ ?_
    rw [List.forall_mem_cons, List.forall_mem_singleton]
    refine ⟨.inList .., .any _ ?_⟩
    rw [List.forall_mem_cons, List.forall_mem_singleton]
    exact ⟨.isNull .., .compare ..⟩
  have hexact := @mayMatch_iff_truthAt byDayAndRegion [.int32 1, .null] firstDaysOutsideNorth
    (by decide) (by decide) rfl (by decide) (.inl hfree)
  exact (hexact.1 _ hread).2 (by rfl)

/-- Null is before all other values, so each of them differs from a null literal as pruning compares
them, and a partition is kept though of no row it is known that its day differs from null. -/
theorem not_exact_nullLiteral :
    ¬∀ (spec : Spec) (b : BoundPredicate) (key : Key) (read : BoundColumn → Value),
      (∀ field ∈ spec.fields, field.isIdentity = true) →
      (∀ bound ∈ b.columns, ∃ field ∈ spec.fields, field.source = bound.column.name) →
      key.length = spec.fields.length →
      (b.NegationFree ∨ ∀ bound ∈ b.columns, ∀ place,
        spec.identityPlace? bound.column.name = some place → key[place]? ≠ some .null) →
      spec.Tells key read b.columns →
      (spec.mayMatch b key = true ↔ b.truthAt read = some true) := by
  intro h
  have hread : Tells ⟨[⟨"dt", .identity⟩]⟩ [.utf8 "2024-01-01"] (fun _ => .utf8 "2024-01-01")
      (BoundPredicate.columns (.compare ⟨1, ⟨"dt", .utf8⟩⟩ .ne .null)) := by
    intro bound hbound place hplace
    obtain rfl := List.mem_singleton.1 hbound
    cases hplace
    rfl
  have hexact := h ⟨[⟨"dt", .identity⟩]⟩ (.compare ⟨1, ⟨"dt", .utf8⟩⟩ .ne .null)
    [.utf8 "2024-01-01"] (fun _ => .utf8 "2024-01-01") (by decide) (by decide) rfl
    (.inl (.compare ..)) hread
  nomatch hexact.1 (by rfl)

end Partition.Spec

end MergeOnRead
