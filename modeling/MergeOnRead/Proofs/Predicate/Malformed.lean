import Mathlib.Logic.Relation
import MergeOnRead.Predicate.Bound
import MergeOnRead.Proofs.Result

/-!
# Malformed predicates

A predicate is malformed if an operator without operands stands anywhere in it. Binding refuses a
malformed predicate with an error of its own kind, which does not depend on the schema, on what the
tests of the predicate look for, or on the order in which operands stand; no other predicate is
refused with an error of this kind (`BindsByShape`).

Building a conjunction from two predicates merges the operands of both, and nothing is left of one
that has no operands. So this defect is lost if it is the whole operand, and no other is
(`refused_builders_iff`).
-/

namespace MergeOnRead

open Result

namespace Predicate

/-- Induction over predicates: what holds of all operands of a list is there for the connective. -/
@[elab_as_elim]
theorem induct {motive : Predicate → Prop} (always : motive always)
    (compare : ∀ name op literal, motive (compare name op literal))
    (inList : ∀ name literals negated, motive (inList name literals negated))
    (isNull : ∀ name negated, motive (isNull name negated))
    (not : ∀ p, motive p → motive (not p))
    (all : ∀ ps, (∀ p ∈ ps, motive p) → motive (all ps))
    (any : ∀ ps, (∀ p ∈ ps, motive p) → motive (any ps)) (p : Predicate) : motive p :=
  @Predicate.rec motive (fun ps => ∀ p ∈ ps, motive p) always compare inList isNull not all any
    (fun _ h => absurd h List.not_mem_nil) (fun _ _ hp hps => List.forall_mem_cons.2 ⟨hp, hps⟩) p

/-- An operator without operands stands somewhere in the predicate. -/
inductive Malformed : Predicate → Prop
  | inList (name negated) : Malformed (inList name [] negated)
  | all : Malformed (all [])
  | any : Malformed (any [])
  | not {p} (h : Malformed p) : Malformed (not p)
  | inAll {p ps} (hp : p ∈ ps) (h : Malformed p) : Malformed (all ps)
  | inAny {p ps} (hp : p ∈ ps) (h : Malformed p) : Malformed (any ps)

/-- A predicate is refused for what it is, and not for what the schema has. -/
def Refused (schema : Schema) (caseSensitive : Bool) (p : Predicate) : Prop :=
  ∃ e, p.bind schema caseSensitive = .error e ∧ e.isStructural = true

variable {schema : Schema} {caseSensitive : Bool} {name : String} {p q : Predicate}
  {ps : List Predicate} {e : BindError}

/-! ## The operators without operands -/

section

@[simp] theorem not_malformed_always : ¬always.Malformed := nofun

@[simp] theorem not_malformed_compare {op : Comparison} {literal : Literal} :
    ¬(compare name op literal).Malformed := nofun

@[simp] theorem not_malformed_isNull {negated : Bool} : ¬(isNull name negated).Malformed := nofun

@[simp] theorem malformed_inList_iff {literals : List Literal} {negated : Bool} :
    (inList name literals negated).Malformed ↔ literals = [] := by
  constructor
  · intro h
    cases h
    rfl
  · rintro rfl
    exact .inList name negated

@[simp] theorem malformed_not_iff : (not p).Malformed ↔ p.Malformed := by
  constructor
  · intro h
    cases h with
    | not h => exact h
  · exact .not

@[simp] theorem malformed_all_iff : (all ps).Malformed ↔ ps = [] ∨ ∃ p ∈ ps, p.Malformed := by
  constructor
  · intro h
    cases h with
    | all => exact .inl rfl
    | inAll hp h => exact .inr ⟨_, hp, h⟩
  · rintro (rfl | ⟨p, hp, h⟩)
    · exact .all
    · exact .inAll hp h

@[simp] theorem malformed_any_iff : (any ps).Malformed ↔ ps = [] ∨ ∃ p ∈ ps, p.Malformed := by
  constructor
  · intro h
    cases h with
    | any => exact .inl rfl
    | inAny hp h => exact .inr ⟨_, hp, h⟩
  · rintro (rfl | ⟨p, hp, h⟩)
    · exact .any
    · exact .inAny hp h

theorem defects?_eq_none_iff_forall : defects? ps = none ↔ ∀ p ∈ ps, p.defect? = none := by
  induction ps with
  | nil => simp [defects?]
  | cons p ps ih => simp [defects?, ih]

/-- The search for a defect finds one exactly in the malformed predicates. -/
theorem defect?_eq_none_iff (p : Predicate) : p.defect? = none ↔ ¬p.Malformed := by
  induction p using induct with
  | always => simp [defect?]
  | compare name op literal => simp [defect?]
  | inList name literals negated => cases literals <;> simp [defect?]
  | isNull name negated => simp [defect?]
  | not p ih => simp [defect?, ih]
  | all ps ih =>
    cases ps with
    | nil => simp [defect?]
    | cons p ps =>
      change defects? (p :: ps) = none ↔ _
      rw [defects?_eq_none_iff_forall]
      simpa using forall₂_congr ih
  | any ps ih =>
    cases ps with
    | nil => simp [defect?]
    | cons p ps =>
      change defects? (p :: ps) = none ↔ _
      rw [defects?_eq_none_iff_forall]
      simpa using forall₂_congr ih

theorem defects?_eq_none_iff : defects? ps = none ↔ ∀ p ∈ ps, ¬p.Malformed := by
  rw [defects?_eq_none_iff_forall]
  exact forall₂_congr fun p _ => defect?_eq_none_iff p

theorem exists_defects?_of_malformed (h : ∃ p ∈ ps, p.Malformed) : ∃ op, defects? ps = some op := by
  rw [← Option.ne_none_iff_exists', ne_eq, defects?_eq_none_iff]
  rintro hnone
  obtain ⟨p, hp, hmalformed⟩ := h
  exact hnone p hp hmalformed

end

/-! ## Errors of binding -/

theorem isStructural_of_resolve (h : resolve schema caseSensitive name = .error e) :
    e.isStructural = false := by
  unfold resolve at h
  split at h
  · cases h
  · cases h
    rfl

theorem isStructural_of_bind_literal {literal : Literal} {column : Column}
    (h : literal.bind column = .error e) : e.isStructural = false := by
  unfold Literal.bind at h
  split at h
  · cases h
    rfl
  · split at h
    · cases h
    · cases h
      rfl

/-- If binding fails on a list of predicates, then it fails on one of them. -/
theorem exists_of_bindList_eq_error (h : bindList schema caseSensitive ps = .error e) :
    ∃ p ∈ ps, p.bindTerms schema caseSensitive = .error e := by
  induction ps with
  | nil => cases h
  | cons p ps ih =>
    unfold bindList at h
    obtain h | ⟨b, -, h⟩ := bind_eq_error h
    · exact ⟨p, List.mem_cons_self, h⟩
    · obtain h | ⟨bs, -, h⟩ := bind_eq_error h
      · obtain ⟨q, hq, h⟩ := ih h
        exact ⟨q, List.mem_cons_of_mem p hq, h⟩
      · cases h

theorem isStructural_of_bindTerms_compare {op : Comparison} {literal : Literal}
    (h : (compare name op literal).bindTerms schema caseSensitive = .error e) :
    e.isStructural = false := by
  unfold bindTerms at h
  obtain h | ⟨bound, -, h⟩ := bind_eq_error h
  · exact isStructural_of_resolve h
  -- comparing with NULL and ordering truth values are refused before the literal is bound
  · dsimp only at h
    split at h
    · cases h
      rfl
    · split at h
      · cases h
        rfl
      · obtain h | ⟨value, -, h⟩ := bind_eq_error h
        · exact isStructural_of_bind_literal h
        · cases h

theorem isStructural_of_bindTerms_inList {literals : List Literal} {negated : Bool}
    (h : (inList name literals negated).bindTerms schema caseSensitive = .error e) :
    e.isStructural = false := by
  unfold bindTerms at h
  obtain h | ⟨bound, -, h⟩ := bind_eq_error h
  · exact isStructural_of_resolve h
  · obtain h | ⟨values, -, h⟩ := bind_eq_error h
    · obtain ⟨literal, -, h⟩ := exists_of_mapM_eq_error h
      exact isStructural_of_bind_literal h
    · cases h

/-- Names and literals are refused with errors about the schema only. -/
theorem isStructural_of_bindTerms (h : p.bindTerms schema caseSensitive = .error e) :
    e.isStructural = false := by
  induction p using induct with
  | always => cases h
  | compare name op literal => exact isStructural_of_bindTerms_compare h
  | inList name literals negated => exact isStructural_of_bindTerms_inList h
  | isNull name negated =>
    unfold bindTerms at h
    obtain h | ⟨bound, -, h⟩ := bind_eq_error h
    · exact isStructural_of_resolve h
    · cases h
  | not p ih =>
    unfold bindTerms at h
    obtain h | ⟨b, -, h⟩ := bind_eq_error h
    · exact ih h
    · cases h
  | all ps ih =>
    unfold bindTerms at h
    obtain h | ⟨bs, -, h⟩ := bind_eq_error h
    · obtain ⟨p, hp, h⟩ := exists_of_bindList_eq_error h
      exact ih p hp h
    · cases h
  | any ps ih =>
    unfold bindTerms at h
    obtain h | ⟨bs, -, h⟩ := bind_eq_error h
    · obtain ⟨p, hp, h⟩ := exists_of_bindList_eq_error h
      exact ih p hp h
    · cases h

theorem bind_of_defect {op : ListOperator} (h : p.defect? = some op) :
    p.bind schema caseSensitive = .error (.noOperands op) := by
  rw [bind, h]

/-- A malformed predicate fails in the same way against every schema. -/
theorem Malformed.exists_bind (h : p.Malformed) :
    ∃ op, ∀ schema caseSensitive, p.bind schema caseSensitive = .error (.noOperands op) := by
  obtain ⟨op, hop⟩ : ∃ op, p.defect? = some op := by
    rw [← Option.ne_none_iff_exists', ne_eq, defect?_eq_none_iff]
    exact not_not_intro h
  exact ⟨op, fun _ _ => bind_of_defect hop⟩

theorem isStructural_of_bind (hshape : ¬p.Malformed) (h : p.bind schema caseSensitive = .error e) :
    e.isStructural = false := by
  rw [bind, (defect?_eq_none_iff p).2 hshape] at h
  exact isStructural_of_bindTerms h

/-- Exactly the malformed predicates are refused for what they are. -/
theorem refused_iff : p.Refused schema caseSensitive ↔ p.Malformed := by
  constructor
  · rintro ⟨e, hbind, hstructural⟩
    by_contra hshape
    rw [isStructural_of_bind hshape hbind] at hstructural
    cases hstructural
  · intro h
    obtain ⟨op, hop⟩ := h.exists_bind
    exact ⟨.noOperands op, hop schema caseSensitive, rfl⟩

/-! ## What does not matter -/

/-- A test that has something to look for. -/
def IsTest : Predicate → Prop
  | always => True
  | compare .. => True
  | inList _ literals _ => literals ≠ []
  | isNull .. => True
  | _ => False

/-- At one place of a predicate a test is exchanged for another, with other columns and literals, or
the operands are put into another order. -/
inductive Exchange : Predicate → Predicate → Prop
  | test {p q : Predicate} (hp : p.IsTest) (hq : q.IsTest) : Exchange p q
  | emptyList (name negated name' negated') :
    Exchange (inList name [] negated) (inList name' [] negated')
  | reorderAll {ps qs : List Predicate} (h : ps.Perm qs) : Exchange (all ps) (all qs)
  | reorderAny {ps qs : List Predicate} (h : ps.Perm qs) : Exchange (any ps) (any qs)
  | not {p q : Predicate} (h : Exchange p q) : Exchange (not p) (not q)
  | all (before after) {p q : Predicate} (h : Exchange p q) :
    Exchange (all (before ++ p :: after)) (all (before ++ q :: after))
  | any (before after) {p q : Predicate} (h : Exchange p q) :
    Exchange (any (before ++ p :: after)) (any (before ++ q :: after))

theorem IsTest.not_malformed (h : p.IsTest) : ¬p.Malformed := by
  cases p with
  | always => simp
  | compare name op literal => simp
  | inList name literals negated => simpa [IsTest] using h
  | isNull name negated => simp
  | not p => cases h
  | all ps => cases h
  | any ps => cases h

theorem malformed_perm {qs : List Predicate} (h : ps.Perm qs) :
    (ps = [] ∨ ∃ p ∈ ps, p.Malformed) ↔ qs = [] ∨ ∃ q ∈ qs, q.Malformed := by
  have hnil : ps = [] ↔ qs = [] := by
    constructor
    · rintro rfl
      exact h.nil_eq.symm
    · rintro rfl
      exact h.eq_nil
  have hsome : (∃ p ∈ ps, p.Malformed) ↔ ∃ q ∈ qs, q.Malformed :=
    exists_congr fun p => and_congr_left fun _ => h.mem_iff
  rw [hnil, hsome]

theorem Exchange.malformed_iff (h : Exchange p q) : p.Malformed ↔ q.Malformed := by
  induction h with
  | test hp hq => exact iff_of_false hp.not_malformed hq.not_malformed
  | emptyList name negated name' negated' => simp
  | reorderAll h => simpa using malformed_perm h
  | reorderAny h => simpa using malformed_perm h
  | not _ ih => simpa using ih
  | all before after _ ih => simp [or_and_right, exists_or, ih]
  | any before after _ ih => simp [or_and_right, exists_or, ih]

/-- Any number of exchanges leaves a predicate malformed or not. -/
theorem malformed_iff_of_eqvGen (h : Relation.EqvGen Exchange p q) : p.Malformed ↔ q.Malformed := by
  induction h with
  | rel _ _ h => exact h.malformed_iff
  | refl => rfl
  | symm _ _ _ ih => exact ih.symm
  | trans _ _ _ _ _ ih₁ ih₂ => exact ih₁.trans ih₂

/-- What the shape of a predicate decides about binding it. -/
structure BindsByShape (p : Predicate) : Prop where
  refused_iff : ∀ schema caseSensitive, p.Refused schema caseSensitive ↔ p.Malformed
  /-- The error is the same for all schemas, and there are no others of its kind. -/
  refused : p.Malformed →
    ∃ op, ∀ schema caseSensitive, p.bind schema caseSensitive = .error (.noOperands op)
  otherwise : ¬p.Malformed → ∀ schema caseSensitive,
    (∃ b, p.bind schema caseSensitive = .ok b) ∨
      ∃ e, p.bind schema caseSensitive = .error e ∧ e.isStructural = false
  /-- Neither other tests nor another order of the operands makes a difference. -/
  exchange : ∀ q, Relation.EqvGen Exchange p q → ∀ schema caseSensitive schema' caseSensitive',
    p.Refused schema caseSensitive ↔ q.Refused schema' caseSensitive'

theorem bindsByShape (p : Predicate) : p.BindsByShape where
  refused_iff _ _ := refused_iff
  refused := Malformed.exists_bind
  otherwise hshape schema caseSensitive := by
    cases hbind : p.bind schema caseSensitive with
    | ok b => exact .inl ⟨b, rfl⟩
    | error e => exact .inr ⟨e, rfl, isStructural_of_bind hshape hbind⟩
  exchange q h schema caseSensitive schema' caseSensitive' := by
    rw [refused_iff, refused_iff]
    exact malformed_iff_of_eqvGen h

/-! ## Building predicates -/

/-- One of two operands of an operator is `empty`, the operator without operands, and the other is
not malformed. -/
def HidesDefect (empty p q : Predicate) : Prop :=
  p = empty ∧ ¬q.Malformed ∨ q = empty ∧ ¬p.Malformed

/-- The operands that a predicate brings along: none if it is `empty`, else as good as itself. -/
structure Brings (empty p : Predicate) (operands : List Predicate) : Prop where
  eq_nil_iff : operands = [] ↔ p = empty
  malformed_iff : (∃ r ∈ operands, r.Malformed) ↔ p.Malformed ∧ p ≠ empty

theorem brings_conjunctOperands (p : Predicate) : Brings (all []) p p.conjunctOperands := by
  cases p with
  | all ps =>
    constructor
    · simp [conjunctOperands]
    · cases ps <;> simp [conjunctOperands]
  | always | compare | inList | isNull | not | any => constructor <;> simp [conjunctOperands]

theorem brings_disjunctOperands (p : Predicate) : Brings (any []) p p.disjunctOperands := by
  cases p with
  | any ps =>
    constructor
    · simp [disjunctOperands]
    · cases ps <;> simp [disjunctOperands]
  | always | compare | inList | isNull | not | all => constructor <;> simp [disjunctOperands]

/-- Merged operands have no defect exactly if both predicates have none, or the only one was in the
operator that is gone. -/
theorem malformed_merged_iff {empty : Predicate} {qs : List Predicate} (hempty : empty.Malformed)
    (hp : Brings empty p ps) (hq : Brings empty q qs) :
    (ps ++ qs = [] ∨ ∃ r ∈ ps ++ qs, r.Malformed) ↔
      (p.Malformed ∨ q.Malformed) ∧ ¬HidesDefect empty p q := by
  have hsome : (∃ r ∈ ps ++ qs, r.Malformed) ↔
      (∃ r ∈ ps, r.Malformed) ∨ ∃ r ∈ qs, r.Malformed := by
    simp only [List.mem_append, or_and_right, exists_or]
  rw [hsome, List.append_eq_nil_iff, hp.eq_nil_iff, hq.eq_nil_iff, hp.malformed_iff,
    hq.malformed_iff, HidesDefect]
  by_cases hpe : p = empty
  · by_cases hqe : q = empty
    · simp [hpe, hqe, hempty]
    · simp [hpe, hqe, hempty]
  · by_cases hqe : q = empty
    · simp [hpe, hqe, hempty]
    · simp [hpe, hqe]

/-- A conjunction or disjunction that is built from two predicates is refused if one of them is,
unless its only defect is that it has no operands at all and is merged with operands of the other. A
negation is refused if its operand is. -/
theorem refused_builders_iff (p q : Predicate) (schema : Schema) (caseSensitive : Bool) :
    ((p.and q).Refused schema caseSensitive ↔
        (p.Refused schema caseSensitive ∨ q.Refused schema caseSensitive) ∧
          ¬HidesDefect (all []) p q) ∧
      ((p.or q).Refused schema caseSensitive ↔
        (p.Refused schema caseSensitive ∨ q.Refused schema caseSensitive) ∧
          ¬HidesDefect (any []) p q) ∧
      ((not p).Refused schema caseSensitive ↔ p.Refused schema caseSensitive) := by
  simp only [refused_iff]
  refine ⟨?_, ?_, malformed_not_iff⟩
  · rw [and, malformed_all_iff]
    exact malformed_merged_iff .all (brings_conjunctOperands p) (brings_conjunctOperands q)
  · rw [or, malformed_any_iff]
    exact malformed_merged_iff .any (brings_disjunctOperands p) (brings_disjunctOperands q)

example : ((all []).and always).bind [] true = .ok (.all [.always]) := rfl

end Predicate

end MergeOnRead
