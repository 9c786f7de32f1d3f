import MergeOnRead.Proofs.Predicate.Literal
import MergeOnRead.Proofs.Predicate.Truth
import MergeOnRead.Proofs.Schema

/-!
# Binding keeps what a predicate says

On every row of the schema a bound predicate has the truth of the predicate it comes from, nulls and
undecided truths included. The bound form reads columns by their position and compares values of one
type in the order of partition values; the predicate itself compares its literals exactly. Both agree
since each name is bound to the column it stands for and each literal to a value that stands for the
same (`Predicate.KeptBy`), and a number without such a value is refused.

Main statement: `Predicate.exactBinding`.
-/

namespace MergeOnRead

open Result

/-- A row of a schema: each column holds null or a value of its type, floats with canonical bits. -/
def Row.TypedBy (schema : Schema) (row : Row) : Prop :=
  ∀ index column, schema[index]? = some column →
    (row index).hasType column.type = true ∧ (row index).canonical = row index

/-- A column with its position is the first of a schema that a name stands for. -/
structure BoundColumn.IsFirst (schema : Schema) (caseSensitive : Bool) (name : String)
    (bound : BoundColumn) : Prop where
  atIndex : schema[bound.index]? = some bound.column
  sameName : sameName caseSensitive bound.column.name name = true
  before : ∀ i < bound.index, ∀ column, schema[i]? = some column →
    MergeOnRead.sameName caseSensitive column.name name = false

namespace BoundPredicate

mutual

/-- The truth of a bound predicate on a row. Columns are read at their position, and their values are
compared with the bound ones as partition values. -/
def truth (row : Row) : BoundPredicate → Kleene.Truth
  | always => some true
  | compare bound op value =>
    Predicate.nonNullTruth (fun actual => op.holds (Ord.compare actual value)) (row bound.index)
  | inList bound values negated =>
    Predicate.nonNullTruth (fun actual => values.contains actual != negated) (row bound.index)
  | isNull bound negated => some ((row bound.index).isNull != negated)
  | not operand => Kleene.not (operand.truth row)
  | all operands => Kleene.all (truths row operands)
  | any operands => Kleene.any (truths row operands)

def truths (row : Row) : List BoundPredicate → List Kleene.Truth
  | [] => []
  | p :: ps => p.truth row :: truths row ps

end

mutual

/-- The columns of a bound predicate, from left to right. -/
def columns : BoundPredicate → List BoundColumn
  | always => []
  | compare bound _ _ => [bound]
  | inList bound _ _ => [bound]
  | isNull bound _ => [bound]
  | not operand => operand.columns
  | all operands => columnsList operands
  | any operands => columnsList operands

def columnsList : List BoundPredicate → List BoundColumn
  | [] => []
  | p :: ps => p.columns ++ columnsList ps

end

mutual

/-- The bound literals of a predicate, each with the column it is compared with. -/
def literals : BoundPredicate → List (BoundColumn × Partition.Value)
  | always => []
  | compare bound _ value => [(bound, value)]
  | inList bound values _ => values.map fun value => (bound, value)
  | isNull _ _ => []
  | not operand => operand.literals
  | all operands => literalsList operands
  | any operands => literalsList operands

def literalsList : List BoundPredicate → List (BoundColumn × Partition.Value)
  | [] => []
  | p :: ps => p.literals ++ literalsList ps

end

end BoundPredicate

namespace Predicate

mutual

/-- The column names of a predicate, from left to right. -/
def names : Predicate → List String
  | always => []
  | compare name _ _ => [name]
  | inList name _ _ => [name]
  | isNull name _ => [name]
  | not operand => operand.names
  | all operands => namesList operands
  | any operands => namesList operands

def namesList : List Predicate → List String
  | [] => []
  | p :: ps => p.names ++ namesList ps

end

mutual

/-- The literals of a predicate, from left to right. -/
def literals : Predicate → List Literal
  | always => []
  | compare _ _ literal => [literal]
  | inList _ literals _ => literals
  | isNull _ _ => []
  | not operand => operand.literals
  | all operands => literalsList operands
  | any operands => literalsList operands

def literalsList : List Predicate → List Literal
  | [] => []
  | p :: ps => p.literals ++ literalsList ps

end

/-- A bound predicate says of the rows of a schema what a predicate says. Its columns are those that the
names stand for, and its literals are values of the column types that keep the literals. -/
structure KeptBy (schema : Schema) (caseSensitive : Bool) (p : Predicate) (b : BoundPredicate) :
    Prop where
  truth : ∀ row : Row, row.TypedBy schema → b.truth row = p.truth schema caseSensitive row
  columns : List.Forall₂ (fun name bound => bound.IsFirst schema caseSensitive name) p.names b.columns
  literals : List.Forall₂ (fun literal pair => literal.KeptBy pair.1.column.type pair.2)
    p.literals b.literals

variable {schema : Schema} {caseSensitive : Bool} {name : String} {p : Predicate}
  {b : BoundPredicate}

/-! ## Leaves -/

theorem isFirst_of_resolve? {bound : BoundColumn}
    (h : schema.resolve? caseSensitive name = some (bound.index, bound.column)) :
    bound.IsFirst schema caseSensitive name := by
  obtain ⟨hindex, hsame, hbefore⟩ := first_of_resolve? h
  exact ⟨hindex, hsame, hbefore⟩

theorem keptBy_always : always.KeptBy schema caseSensitive .always :=
  ⟨fun _ _ => by rw [BoundPredicate.truth, truth], .nil, .nil⟩

theorem keptBy_compare {op : Comparison} {literal : Literal}
    (h : (compare name op literal).bindTerms schema caseSensitive = .ok b) :
    (compare name op literal).KeptBy schema caseSensitive b := by
  obtain ⟨bound, value, hresolve, hbind, rfl⟩ := bindTerms_compare h
  have hfirst := isFirst_of_resolve? hresolve
  refine ⟨fun row hrow => ?_, .cons hfirst .nil, .cons (Literal.keptBy_of_bind hbind) .nil⟩
  obtain ⟨htype, hcanon⟩ := hrow bound.index bound.column hfirst.atIndex
  rw [BoundPredicate.truth, truth, columnScalar?, hresolve, Option.map_some, Option.bind_some,
    compareTruth_of_bind hbind htype hcanon]

theorem keptBy_inList {literals : List Literal} {negated : Bool} (hne : literals ≠ [])
    (h : (inList name literals negated).bindTerms schema caseSensitive = .ok b) :
    (inList name literals negated).KeptBy schema caseSensitive b := by
  obtain ⟨bound, values, hresolve, hbind, rfl⟩ := bindTerms_inList h
  have hfirst := isFirst_of_resolve? hresolve
  refine ⟨fun row hrow => ?_, .cons hfirst .nil, ?_⟩
  · obtain ⟨htype, hcanon⟩ := hrow bound.index bound.column hfirst.atIndex
    rw [BoundPredicate.truth, truth, columnScalar?, hresolve, Option.map_some, Option.bind_some,
      negateIf_memberTruth_of_bind hbind htype hcanon hne]
  · rw [BoundPredicate.literals, Predicate.literals, List.forall₂_map_right_iff]
    exact hbind.imp fun _ _ => Literal.keptBy_of_bind

theorem keptBy_isNull {negated : Bool}
    (h : (isNull name negated).bindTerms schema caseSensitive = .ok b) :
    (isNull name negated).KeptBy schema caseSensitive b := by
  obtain ⟨bound, hresolve, rfl⟩ := bindTerms_isNull h
  refine ⟨fun row _ => ?_, .cons (isFirst_of_resolve? hresolve) .nil, .nil⟩
  rw [BoundPredicate.truth, truth, columnScalar?, hresolve, Option.map_some, Option.map_some,
    Partition.Value.scalar_beq_null]

/-! ## Connectives -/

theorem KeptBy.not (h : p.KeptBy schema caseSensitive b) :
    (Predicate.not p).KeptBy schema caseSensitive (.not b) := by
  refine ⟨fun row hrow => ?_, ?_, ?_⟩
  · rw [BoundPredicate.truth, Predicate.truth, h.truth row hrow]
  · rw [BoundPredicate.columns, names]
    exact h.columns
  · rw [BoundPredicate.literals, Predicate.literals]
    exact h.literals

section

variable {ps : List Predicate} {bs : List BoundPredicate}

theorem truths_of_keptBy (h : List.Forall₂ (KeptBy schema caseSensitive) ps bs) {row : Row}
    (hrow : row.TypedBy schema) :
    BoundPredicate.truths row bs = truths schema caseSensitive row ps := by
  induction h with
  | nil => rw [BoundPredicate.truths, truths]
  | cons hkept _ ih => rw [BoundPredicate.truths, truths, hkept.truth row hrow, ih]

theorem columnsList_of_keptBy (h : List.Forall₂ (KeptBy schema caseSensitive) ps bs) :
    List.Forall₂ (fun name bound => bound.IsFirst schema caseSensitive name) (namesList ps)
      (BoundPredicate.columnsList bs) := by
  induction h with
  | nil => exact .nil
  | cons hkept _ ih =>
    rw [BoundPredicate.columnsList, namesList]
    exact List.rel_append hkept.columns ih

theorem literalsList_of_keptBy (h : List.Forall₂ (KeptBy schema caseSensitive) ps bs) :
    List.Forall₂ (fun literal pair => literal.KeptBy pair.1.column.type pair.2) (literalsList ps)
      (BoundPredicate.literalsList bs) := by
  induction h with
  | nil => exact .nil
  | cons hkept _ ih =>
    rw [BoundPredicate.literalsList, literalsList]
    exact List.rel_append hkept.literals ih

theorem keptBy_all (h : List.Forall₂ (KeptBy schema caseSensitive) ps bs) :
    (all ps).KeptBy schema caseSensitive (.all bs) := by
  refine ⟨fun row hrow => ?_, ?_, ?_⟩
  · rw [BoundPredicate.truth, truth, truths_of_keptBy h hrow]
  · rw [BoundPredicate.columns, names]
    exact columnsList_of_keptBy h
  · rw [BoundPredicate.literals, literals]
    exact literalsList_of_keptBy h

theorem keptBy_any (h : List.Forall₂ (KeptBy schema caseSensitive) ps bs) :
    (any ps).KeptBy schema caseSensitive (.any bs) := by
  refine ⟨fun row hrow => ?_, ?_, ?_⟩
  · rw [BoundPredicate.truth, truth, truths_of_keptBy h hrow]
  · rw [BoundPredicate.columns, names]
    exact columnsList_of_keptBy h
  · rw [BoundPredicate.literals, literals]
    exact literalsList_of_keptBy h

end

mutual

/-- A predicate without empty operators is kept by what it is bound to. -/
theorem keptBy_of_bindTerms : ∀ (p : Predicate) (b : BoundPredicate), p.defect? = none →
    p.bindTerms schema caseSensitive = .ok b → p.KeptBy schema caseSensitive b
  | always, _, _, h => by
    cases h
    exact keptBy_always
  | compare _ _ _, _, _, h => keptBy_compare h
  -- of null it is undecided whether it is among literals, unless there are none
  | inList _ [] _, _, hdefect, _ => nomatch hdefect
  | inList _ (_ :: _) _, _, _, h => keptBy_inList (List.cons_ne_nil _ _) h
  | isNull _ _, _, _, h => keptBy_isNull h
  | not p, _, hdefect, h => by
    obtain ⟨c, hc, rfl⟩ := bindTerms_not h
    exact (keptBy_of_bindTerms p c (defect?_not hdefect) hc).not
  | all ps, _, hdefect, h => by
    obtain ⟨bs, hbs, rfl⟩ := bindTerms_all h
    exact keptBy_all (forall₂_keptBy_of_bindList ps bs (defects?_of_all hdefect) hbs)
  | any ps, _, hdefect, h => by
    obtain ⟨bs, hbs, rfl⟩ := bindTerms_any h
    exact keptBy_any (forall₂_keptBy_of_bindList ps bs (defects?_of_any hdefect) hbs)

theorem forall₂_keptBy_of_bindList : ∀ (ps : List Predicate) (bs : List BoundPredicate),
    defects? ps = none → bindList schema caseSensitive ps = .ok bs →
    List.Forall₂ (KeptBy schema caseSensitive) ps bs
  | [], _, _, h => by
    cases h
    exact .nil
  | p :: ps, _, hdefect, h => by
    obtain ⟨c, cs, hc, hcs, rfl⟩ := bindList_cons h
    exact .cons (keptBy_of_bindTerms p c (defects?_cons hdefect).1 hc)
      (forall₂_keptBy_of_bindList ps cs (defects?_cons hdefect).2 hcs)

end

/-! ## Refused literals -/

section

variable {column : Column} {literal : Literal}

theorem resolve_ne_typeMismatch :
    resolve schema caseSensitive name ≠ .error (.typeMismatch column literal) := by
  unfold resolve
  split <;> nofun

theorem bind_of_compare_mismatch {op : Comparison} {operand : Literal}
    (h : (compare name op operand).bindTerms schema caseSensitive =
      .error (.typeMismatch column literal)) :
    literal.bind column = .error (.typeMismatch column literal) := by
  unfold bindTerms at h
  obtain h | ⟨bound, -, h⟩ := bind_eq_error h
  · exact absurd h resolve_ne_typeMismatch
  · dsimp only at h
    split at h
    · cases h
    · split at h
      · cases h
      · obtain h | ⟨value, -, h⟩ := bind_eq_error h
        · obtain ⟨rfl, rfl⟩ := Literal.eq_of_bind_eq_typeMismatch h
          exact h
        · cases h

theorem bind_of_inList_mismatch {operands : List Literal} {negated : Bool}
    (h : (inList name operands negated).bindTerms schema caseSensitive =
      .error (.typeMismatch column literal)) :
    literal.bind column = .error (.typeMismatch column literal) := by
  unfold bindTerms at h
  obtain h | ⟨bound, -, h⟩ := bind_eq_error h
  · exact absurd h resolve_ne_typeMismatch
  · obtain h | ⟨values, -, h⟩ := bind_eq_error h
    · obtain ⟨operand, -, h⟩ := exists_of_mapM_eq_error h
      obtain ⟨rfl, rfl⟩ := Literal.eq_of_bind_eq_typeMismatch h
      exact h
    · cases h

mutual

/-- A mismatch comes from a literal that does not fit its column, wherever it stands. -/
theorem bind_of_bindTerms_mismatch : ∀ p : Predicate,
    p.bindTerms schema caseSensitive = .error (.typeMismatch column literal) →
    literal.bind column = .error (.typeMismatch column literal)
  | always, h => by cases h
  | compare _ _ _, h => bind_of_compare_mismatch h
  | inList _ _ _, h => bind_of_inList_mismatch h
  | isNull _ _, h => by
    unfold bindTerms at h
    obtain h | ⟨bound, -, h⟩ := bind_eq_error h
    · exact absurd h resolve_ne_typeMismatch
    · cases h
  | not p, h => by
    unfold bindTerms at h
    obtain h | ⟨c, -, h⟩ := bind_eq_error h
    · exact bind_of_bindTerms_mismatch p h
    · cases h
  | all ps, h => by
    unfold bindTerms at h
    obtain h | ⟨cs, -, h⟩ := bind_eq_error h
    · exact bind_of_bindList_mismatch ps h
    · cases h
  | any ps, h => by
    unfold bindTerms at h
    obtain h | ⟨cs, -, h⟩ := bind_eq_error h
    · exact bind_of_bindList_mismatch ps h
    · cases h

theorem bind_of_bindList_mismatch : ∀ ps : List Predicate,
    bindList schema caseSensitive ps = .error (.typeMismatch column literal) →
    literal.bind column = .error (.typeMismatch column literal)
  | [], h => by cases h
  | p :: ps, h => by
    unfold bindList at h
    obtain h | ⟨c, -, h⟩ := bind_eq_error h
    · exact bind_of_bindTerms_mismatch p h
    · obtain h | ⟨cs, -, h⟩ := bind_eq_error h
      · exact bind_of_bindList_mismatch ps h
      · cases h

end

theorem bind_of_mismatch
    (h : p.bind schema caseSensitive = .error (.typeMismatch column literal)) :
    literal.bind column = .error (.typeMismatch column literal) := by
  unfold bind at h
  split at h
  · cases h
  · exact bind_of_bindTerms_mismatch p h

theorem resolve_of_resolve? {index : Nat}
    (h : schema.resolve? caseSensitive name = some (index, column)) :
    resolve schema caseSensitive name = .ok ⟨index, column⟩ := by
  rw [resolve, h]

theorem bind_eq_bindTerms (h : p.defect? = none) :
    p.bind schema caseSensitive = p.bindTerms schema caseSensitive := by
  rw [bind, h]

theorem defect?_inList {operands : List Literal} {negated : Bool} (hne : operands ≠ []) :
    (inList name operands negated).defect? = none := by
  cases operands with
  | nil => exact absurd rfl hne
  | cons operand rest => simp [defect?]

section

variable {bound : BoundColumn} (hresolve : resolve schema caseSensitive name = .ok bound)

include hresolve

/-- A comparison that the column allows binds as its literal does. -/
theorem bindTerms_compare_eq {op : Comparison}
    (hop : (!op.isEquality && bound.column.type == .boolean) = false) :
    (compare name op literal).bindTerms schema caseSensitive =
      (literal.bind bound.column).map (.compare bound op) := by
  rw [bindTerms, bind_of_eq_ok hresolve]
  dsimp only
  rw [hop, if_neg Bool.false_ne_true]
  by_cases hnull : literal.isNull = true
  · rw [if_pos hnull, Literal.bind, if_pos hnull]
    rfl
  · rw [if_neg hnull]
    cases literal.bind bound.column <;> rfl

/-- A membership binds as its literals do, from left to right. -/
theorem bindTerms_inList_eq {operands : List Literal} {negated : Bool} :
    (inList name operands negated).bindTerms schema caseSensitive =
      (operands.mapM fun operand : Literal => operand.bind bound.column).map
        fun values => .inList bound values negated := by
  rw [bindTerms, bind_of_eq_ok hresolve]
  cases operands.mapM fun operand : Literal => operand.bind bound.column <;> rfl

end

/-- Comparing a column with a number that changes its format binds as the number does. -/
theorem bind_compare_eq {index : Nat} {op : Comparison}
    (hresolve : schema.resolve? caseSensitive name = some (index, column))
    (hchange : literal.changesFormat column.type = true) :
    (compare name op literal).bind schema caseSensitive =
      (literal.bind column).map (.compare ⟨index, column⟩ op) := by
  rw [bind_eq_bindTerms (by simp [defect?]),
    bindTerms_compare_eq (resolve_of_resolve? hresolve)
      (by rw [Literal.ne_boolean_of_changesFormat hchange, Bool.and_false])]

theorem bind_inList_eq {index : Nat} {operands : List Literal} {negated : Bool}
    (hresolve : schema.resolve? caseSensitive name = some (index, column)) (hne : operands ≠ []) :
    (inList name operands negated).bind schema caseSensitive =
      (operands.mapM fun operand : Literal => operand.bind column).map
        fun values => .inList ⟨index, column⟩ values negated := by
  rw [bind_eq_bindTerms (defect?_inList hne), bindTerms_inList_eq (resolve_of_resolve? hresolve)]

end

/-- What binding predicates to a schema gives. A number that has to change its format is bound if its
column has a value that equals it, and is refused if not. -/
structure ExactBinding (schema : Schema) (caseSensitive : Bool) : Prop where
  keeps : ∀ (p : Predicate) b, p.bind schema caseSensitive = .ok b →
    p.KeptBy schema caseSensitive b
  mismatch : ∀ (p : Predicate) column literal,
    p.bind schema caseSensitive = .error (.typeMismatch column literal) →
    literal.changesFormat column.type = true → ¬literal.HasValue column.type
  compare_bound : ∀ name index column op literal,
    schema.resolve? caseSensitive name = some (index, column) →
    literal.changesFormat column.type = true → literal.HasValue column.type →
    ∃ b, (compare name op literal).bind schema caseSensitive = .ok b
  compare_refused : ∀ name index column op literal,
    schema.resolve? caseSensitive name = some (index, column) →
    literal.changesFormat column.type = true →
    ((compare name op literal).bind schema caseSensitive = .error (.typeMismatch column literal) ↔
      ¬literal.HasValue column.type)
  inList_bound : ∀ name index column literals negated,
    schema.resolve? caseSensitive name = some (index, column) → literals ≠ [] →
    (∀ literal ∈ literals,
      literal.changesFormat column.type = true ∧ literal.HasValue column.type) →
    ∃ b, (inList name literals negated).bind schema caseSensitive = .ok b
  inList_refused : ∀ name index column before literal after negated,
    schema.resolve? caseSensitive name = some (index, column) →
    literal.changesFormat column.type = true →
    (∀ other ∈ before, ∃ value, other.bind column = .ok value) →
    ((inList name (before ++ literal :: after) negated).bind schema caseSensitive =
      .error (.typeMismatch column literal) ↔ ¬literal.HasValue column.type)

/-- Binding keeps what predicates say, and refuses numbers only if it cannot keep them. -/
theorem exactBinding (schema : Schema) (caseSensitive : Bool) :
    ExactBinding schema caseSensitive where
  keeps p b h := by
    obtain ⟨hdefect, hterms⟩ := bindTerms_of_bind h
    exact keptBy_of_bindTerms p b hdefect hterms
  mismatch p column literal h hchange :=
    (Literal.bind_eq_typeMismatch_iff hchange).1 (bind_of_mismatch h)
  compare_bound name index column op literal hresolve hchange hvalue := by
    obtain ⟨value, hbind⟩ := Literal.exists_bind_of_hasValue hchange hvalue
    rw [bind_compare_eq hresolve hchange, hbind]
    exact ⟨_, rfl⟩
  compare_refused name index column op literal hresolve hchange := by
    rw [← Literal.bind_eq_typeMismatch_iff hchange]
    refine ⟨bind_of_mismatch, fun hmismatch => ?_⟩
    rw [bind_compare_eq hresolve hchange, hmismatch]
    rfl
  inList_bound name index column literals negated hresolve hne hvalues := by
    obtain ⟨values, hbind⟩ := exists_mapM_eq_ok fun literal hliteral =>
      Literal.exists_bind_of_hasValue (hvalues literal hliteral).1 (hvalues literal hliteral).2
    rw [bind_inList_eq hresolve hne, hbind]
    exact ⟨_, rfl⟩
  inList_refused name index column before literal after negated hresolve hchange hbefore := by
    rw [← Literal.bind_eq_typeMismatch_iff hchange]
    refine ⟨bind_of_mismatch, fun hmismatch => ?_⟩
    rw [bind_inList_eq hresolve (by simp), mapM_eq_error hbefore hmismatch]
    rfl

/-- Past 24 bits not every whole number is a 32-bit float: `2 ^ 24` is kept, the next is refused. -/
theorem exactBinding_float32 :
    (compare "f" .lt (.int64 16777216)).KeptBy [⟨"f", .float32⟩] true
        (.compare ⟨0, ⟨"f", .float32⟩⟩ .lt (.float32 0x4b800000)) ∧
      ¬(Literal.int64 16777217).HasValue .float32 :=
  have h := exactBinding [⟨"f", .float32⟩] true
  ⟨h.keeps _ _ (by rfl), (h.compare_refused "f" 0 ⟨"f", .float32⟩ .lt _ (by rfl) rfl).1 (by rfl)⟩

end Predicate

end MergeOnRead
