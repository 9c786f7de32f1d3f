import MergeOnRead.Text.Blank

/-!
# Reading whole numbers

Properties and snapshot summaries keep their numbers as decimal text. A numeral is an optional sign
and at least one ASCII digit; blanks around it are skipped; a numeral outside the range of its
reader does not read.

Main statements: what is written for a natural number reads back, below `2 ^ 64` as a word
(`readWord?_repr`) but only below `2 ^ 63` as an integer (`readInteger?_repr`).
-/

namespace MergeOnRead.Text

/-- The value of a non-empty run of ASCII digits. -/
def digits? (cs : List Char) : Option Nat :=
  if cs.isEmpty || !cs.all Char.isDigit then none else some (Nat.ofDigitChars 10 cs 0)

/-- A numeral that may carry a plus sign. -/
def unsigned? : List Char → Option Nat
  | '+' :: cs => digits? cs
  | cs => digits? cs

/-- A numeral that may carry either sign. -/
def signed? : List Char → Option Int
  | '-' :: cs => (digits? cs).map fun n => -(n : Int)
  | cs => (unsigned? cs).map Int.ofNat

def readWord? (text : String) : Option UInt64 :=
  match unsigned? (trim text.toList) with
  | some n => if n < 0x10000000000000000 then some (UInt64.ofNat n) else none
  | none => none

def readInteger? (text : String) : Option Int :=
  match signed? (trim text.toList) with
  | some n => if -0x8000000000000000 ≤ n ∧ n < 0x8000000000000000 then some n else none
  | none => none

theorem digits?_toDigits (n : Nat) : digits? (Nat.toDigits 10 n) = some n := by
  have hne : (Nat.toDigits 10 n).isEmpty = false := by
    simp
  have hall : (Nat.toDigits 10 n).all Char.isDigit = true :=
    List.all_eq_true.2 fun c hc => Nat.isDigit_of_mem_toDigits (by decide) (by decide) hc
  simp [digits?, hne, hall, Nat.ofDigitChars_ten_toDigits]

theorem isBlank_eq_false_of_isDigit {c : Char} (h : c.isDigit = true) : isBlank c = false := by
  simp only [Char.isDigit, Bool.and_eq_true, decide_eq_true_eq, ge_iff_le,
    UInt32.le_iff_toNat_le] at h
  have h1 : 48 ≤ c.toNat := h.1
  have h2 : c.toNat ≤ 57 := h.2
  simp only [isBlank, blankRanges, List.any_cons, List.any_nil, Bool.or_false, Bool.or_eq_false_iff,
    Bool.and_eq_false_iff, decide_eq_false_iff_not]
  omega

theorem unsigned?_of_isDigit {c : Char} {cs : List Char} (h : c.isDigit = true) :
    unsigned? (c :: cs) = digits? (c :: cs) := by
  have hplus : c ≠ '+' := by rintro rfl; simp at h
  unfold unsigned?
  split
  · rename_i heq; exact absurd (List.cons.inj heq).1 hplus
  · rfl

theorem signed?_of_isDigit {c : Char} {cs : List Char} (h : c.isDigit = true) :
    signed? (c :: cs) = (digits? (c :: cs)).map Int.ofNat := by
  have hminus : c ≠ '-' := by rintro rfl; simp at h
  unfold signed?
  split
  · rename_i heq; exact absurd (List.cons.inj heq).1 hminus
  · rw [unsigned?_of_isDigit h]

section

variable (n : Nat)

theorem isDigit_of_mem_toDigits {c : Char} (h : c ∈ Nat.toDigits 10 n) : c.isDigit = true :=
  Nat.isDigit_of_mem_toDigits (by decide) (by decide) h

theorem trim_repr : trim (toString n).toList = Nat.toDigits 10 n := by
  have hchars : (toString n).toList = Nat.toDigits 10 n := by
    simp
  rw [hchars]
  exact trim_eq_self fun c hc => isBlank_eq_false_of_isDigit (isDigit_of_mem_toDigits n hc)

theorem exists_toDigits_eq_cons :
    ∃ c cs, Nat.toDigits 10 n = c :: cs ∧ c.isDigit = true := by
  obtain ⟨c, cs, hcons⟩ := List.exists_cons_of_ne_nil (Nat.toDigits_ne_nil (n := n) (b := 10))
  exact ⟨c, cs, hcons, isDigit_of_mem_toDigits n (hcons ▸ List.mem_cons_self)⟩

theorem unsigned?_toDigits : unsigned? (Nat.toDigits 10 n) = some n := by
  obtain ⟨c, cs, hcons, hdigit⟩ := exists_toDigits_eq_cons n
  rw [hcons, unsigned?_of_isDigit hdigit, ← hcons, digits?_toDigits]

theorem signed?_toDigits : signed? (Nat.toDigits 10 n) = some (n : Int) := by
  obtain ⟨c, cs, hcons, hdigit⟩ := exists_toDigits_eq_cons n
  rw [hcons, signed?_of_isDigit hdigit, ← hcons, digits?_toDigits]
  rfl

/-- What is written for a natural number below `2 ^ 64` reads back as a word. -/
theorem readWord?_repr {n : Nat} (h : n < 0x10000000000000000) :
    readWord? (toString n) = some (.ofNat n) := by
  simp only [readWord?, trim_repr, unsigned?_toDigits, if_pos h]

/-- What is written for a natural number reads back as an integer if it is below `2 ^ 63`. -/
theorem readInteger?_repr :
    readInteger? (toString n) = if n < 0x8000000000000000 then some (n : Int) else none := by
  have hrange : (-0x8000000000000000 ≤ (n : Int) ∧ (n : Int) < 0x8000000000000000) ↔
      n < 0x8000000000000000 := by omega
  simp only [readInteger?, trim_repr, signed?_toDigits, hrange]

end

end MergeOnRead.Text
