import MergeOnRead.Proofs.Predicate.Malformed

/-!
# The terms of conjunctions

Taking filters apart into terms opens one conjunction after the other, wherever it stands among
other conjunctions, and keeps the order. `Nests ps terms` says that `ps` are `terms` put under
conjunctions that have operands, in any way; there is one way to take predicates apart completely,
and the terms found are `conjunctsList ps` (`splits_iff`). Terms are malformed exactly if the
predicates are, and a conjunction that is built step by step has the terms of its operands.
-/

namespace MergeOnRead.Predicate

/-- The predicates on the left are the terms on the right, in this order, some of them put under
conjunctions. -/
inductive Nests : List Predicate → List Predicate → Prop
  | nil : Nests [] []
  | term (p) {ps terms} (h : Nests ps terms) : Nests (p :: ps) (p :: terms)
  | all (q qs) {ps terms} (h : Nests (q :: qs ++ ps) terms) : Nests (all (q :: qs) :: ps) terms

/-- A predicate that cannot be taken apart: it is no conjunction, or one without operands. -/
def IsTerm (p : Predicate) : Prop := ∀ q qs, p ≠ all (q :: qs)

/-- The predicates are taken apart completely. -/
structure Splits (ps terms : List Predicate) : Prop where
  nests : Nests ps terms
  isTerm : ∀ term ∈ terms, term.IsTerm

variable {p q : Predicate} {ps qs terms rest : List Predicate}

theorem conjunctsList_eq_flatMap (ps : List Predicate) :
    conjunctsList ps = ps.flatMap conjuncts := by
  induction ps with
  | nil => rfl
  | cons p ps ih => rw [conjunctsList, ih, List.flatMap_cons]

theorem conjunctsList_append : conjunctsList (ps ++ qs) = conjunctsList ps ++ conjunctsList qs := by
  simp [conjunctsList_eq_flatMap]

theorem conjuncts_all (h : ps ≠ []) : (all ps).conjuncts = conjunctsList ps := by
  cases ps with
  | nil => exact absurd rfl h
  | cons p ps => rw [conjuncts, conjunctsList]

/-! ## Taking predicates apart -/

theorem IsTerm.conjuncts_eq (h : p.IsTerm) : p.conjuncts = [p] := by
  cases p with
  | all ps =>
    cases ps with
    | nil => simp [conjuncts]
    | cons q qs => exact absurd rfl (h q qs)
  | always | compare | inList | isNull | not | any => simp [conjuncts]

theorem conjunctsList_of_isTerm (h : ∀ term ∈ terms, term.IsTerm) :
    conjunctsList terms = terms := by
  induction terms with
  | nil => rfl
  | cons term terms ih =>
    obtain ⟨hterm, hterms⟩ := List.forall_mem_cons.1 h
    rw [conjunctsList, hterm.conjuncts_eq, ih hterms, List.singleton_append]

theorem isTerm_of_mem_conjuncts (p : Predicate) : ∀ term ∈ p.conjuncts, term.IsTerm := by
  induction p using induct with
  | all ps ih =>
    cases ps with
    | nil => simp [conjuncts, IsTerm]
    | cons q qs =>
      intro term hterm
      rw [conjuncts_all (List.cons_ne_nil q qs), conjunctsList_eq_flatMap, List.mem_flatMap]
        at hterm
      obtain ⟨p, hp, hterm⟩ := hterm
      exact ih p hp term hterm
  | always | compare | inList | isNull | not | any => simp [conjuncts, IsTerm]

/-- Predicates and the terms they are made of have the same conjuncts. -/
theorem Nests.conjunctsList_eq (h : Nests ps terms) : conjunctsList ps = conjunctsList terms := by
  induction h with
  | nil => rfl
  | term p _ ih => rw [conjunctsList, conjunctsList, ih]
  | all q qs _ ih =>
    rw [conjunctsList, conjuncts_all (List.cons_ne_nil q qs), ← conjunctsList_append]
    exact ih

/-- If each predicate may be taken apart where it stands, so may a list of them. -/
theorem nests_append (hps : ∀ p ∈ ps, ∀ {terms rest}, Nests rest terms →
    Nests (p :: rest) (p.conjuncts ++ terms)) (h : Nests rest terms) :
    Nests (ps ++ rest) (conjunctsList ps ++ terms) := by
  induction ps with
  | nil => exact h
  | cons p ps ih =>
    obtain ⟨hp, hrest⟩ := List.forall_mem_cons.1 hps
    rw [conjunctsList, List.append_assoc]
    exact hp (ih hrest)

theorem nests_cons (p : Predicate) (h : Nests rest terms) :
    Nests (p :: rest) (p.conjuncts ++ terms) := by
  induction p using induct generalizing rest terms with
  | all ps ih =>
    cases ps with
    | nil => simpa [conjuncts] using h.term (all [])
    | cons q qs =>
      rw [conjuncts_all (List.cons_ne_nil q qs)]
      exact .all q qs (nests_append ih h)
  | always | compare | inList | isNull | not | any => simpa [conjuncts] using h.term _

/-- There is one way to take predicates apart completely. -/
theorem splits_iff : Splits ps terms ↔ terms = conjunctsList ps := by
  constructor
  · rintro ⟨hnests, hterms⟩
    rw [hnests.conjunctsList_eq, conjunctsList_of_isTerm hterms]
  · rintro rfl
    constructor
    · simpa using nests_append (fun p _ => nests_cons p) .nil
    · intro term hterm
      rw [conjunctsList_eq_flatMap, List.mem_flatMap] at hterm
      obtain ⟨p, -, hterm⟩ := hterm
      exact isTerm_of_mem_conjuncts p term hterm

/-! ## Defects of terms -/

theorem defects?_append : defects? (ps ++ qs) = (defects? ps).or (defects? qs) := by
  induction ps with
  | nil => simp [defects?]
  | cons p ps ih => rw [List.cons_append, defects?, defects?, ih, Option.or_assoc]

/-- If each predicate has the first defect of its terms, so has a list of them. -/
theorem defects?_flatten (hps : ∀ p ∈ ps, defects? p.conjuncts = p.defect?) :
    defects? (conjunctsList ps) = defects? ps := by
  induction ps with
  | nil => rfl
  | cons p ps ih =>
    obtain ⟨hp, hrest⟩ := List.forall_mem_cons.1 hps
    rw [conjunctsList, defects?_append, hp, ih hrest, defects?]

theorem defects?_conjuncts (p : Predicate) : defects? p.conjuncts = p.defect? := by
  induction p using induct with
  | all ps ih =>
    cases ps with
    | nil => simp [conjuncts, defects?]
    | cons q qs =>
      rw [conjuncts_all (List.cons_ne_nil q qs), defects?_flatten ih, defects?, defect?]
  | always | compare | inList | isNull | not | any => simp [conjuncts, defects?]

theorem defects?_conjunctsList (ps : List Predicate) :
    defects? (conjunctsList ps) = defects? ps :=
  defects?_flatten fun p _ => defects?_conjuncts p

/-! ## Conjunctions that are built -/

theorem conjunctsList_conjunctOperands (h : p ≠ all []) :
    conjunctsList p.conjunctOperands = p.conjuncts := by
  cases p with
  | all ps =>
    rw [conjunctOperands, conjuncts_all]
    rintro rfl
    exact h rfl
  | always | compare | inList | isNull | not | any =>
    simp [conjunctOperands, conjunctsList, conjuncts]

/-- A conjunction of two predicates has the terms of both, if none of them is without operands. -/
theorem conjuncts_and (hp : p ≠ all []) (hq : q ≠ all []) :
    (p.and q).conjuncts = p.conjuncts ++ q.conjuncts := by
  have hne : p.conjunctOperands ++ q.conjunctOperands ≠ [] := by
    intro hnil
    exact hp ((brings_conjunctOperands p).eq_nil_iff.1 (List.append_eq_nil_iff.1 hnil).1)
  rw [and, conjuncts_all hne, conjunctsList_append, conjunctsList_conjunctOperands hp,
    conjunctsList_conjunctOperands hq]

theorem and_ne_all_nil (hp : p ≠ all []) : p.and q ≠ all [] := by
  intro h
  have hnil : p.conjunctOperands ++ q.conjunctOperands = [] := Predicate.all.inj h
  exact hp ((brings_conjunctOperands p).eq_nil_iff.1 (List.append_eq_nil_iff.1 hnil).1)

/-- A conjunction that is built step by step has the terms of all its operands, in their order. -/
theorem conjuncts_foldl_and (hp : p ≠ all []) (hps : ∀ q ∈ ps, q ≠ all []) :
    (ps.foldl and p).conjuncts = conjunctsList (p :: ps) := by
  induction ps generalizing p with
  | nil => simp [conjunctsList]
  | cons q ps ih =>
    obtain ⟨hq, hrest⟩ := List.forall_mem_cons.1 hps
    rw [List.foldl_cons, ih (and_ne_all_nil hp) hrest, conjunctsList, conjuncts_and hp hq,
      conjunctsList, conjunctsList, List.append_assoc]

theorem ne_all_nil_of_not_malformed (h : ¬p.Malformed) : p ≠ all [] := by
  rintro rfl
  exact h .all

end MergeOnRead.Predicate
