import SatSearch.Number.Numeral
import SatSearch.Text.Blank
import Mathlib.Data.Nat.Notation
import Mathlib.Data.Int.Notation

/-!
# Spellings of numbers

A number may be written with leading zeros and, unless it is negative, with a plus sign; a zero may
also have a minus sign. However a number is written, reading the numeral gives it back.
-/

namespace SatSearch.Numeral

/-- The decimal digits of a number after so many zeros. -/
def padded (zeros n : ℕ) : List Char := List.replicate zeros '0' ++ Nat.toDigits 10 n

/-- The ways to write a count. -/
inductive SpellsCount : List Char → ℕ → Prop
  | plain (zeros n : ℕ) : SpellsCount (padded zeros n) n
  | plus (zeros n : ℕ) : SpellsCount ('+' :: padded zeros n) n

/-- The ways to write an integer. -/
inductive SpellsInteger : List Char → ℤ → Prop
  | natural {w : List Char} {n : ℕ} (h : SpellsCount w n) : SpellsInteger w n
  | minus (zeros n : ℕ) : SpellsInteger ('-' :: padded zeros n) (-n)

variable {w : List Char} {n : ℕ} {i : ℤ} {c : Char}

/-- Padded numerals have digits only. -/
theorem isDigit_of_mem_padded {zeros : ℕ} (hc : c ∈ padded zeros n) : c.isDigit = true := by
  rcases List.mem_append.mp hc with hc | hc
  · obtain rfl := List.eq_of_mem_replicate hc
    rfl
  · exact Nat.isDigit_of_mem_toDigits (by decide) (by decide) hc

/-- Padded numerals are not empty. -/
theorem padded_ne_nil (zeros n : ℕ) : padded zeros n ≠ [] :=
  List.append_ne_nil_of_right_ne_nil _ Nat.toDigits_ne_nil

/-- Reading a padded numeral gives the number back. -/
theorem digits?_padded (zeros n : ℕ) : digits? (padded zeros n) = some n := by
  have hvalue : Nat.ofDigitChars 10 (padded zeros n) 0 = n := by
    rw [padded, Nat.ofDigitChars_append, Nat.ofDigitChars_replicate_zero, Nat.mul_zero,
      Nat.ofDigitChars_ten_toDigits]
  rw [digits?, if_pos ⟨padded_ne_nil zeros n, List.all_eq_true.mpr fun _ => isDigit_of_mem_padded⟩]
  exact congrArg some hvalue

/-- A padded numeral starts with a digit. -/
theorem digit_cons_of_padded {cs : List Char} {zeros : ℕ} (h : padded zeros n = c :: cs) :
    c.isDigit = true :=
  isDigit_of_mem_padded (h ▸ List.mem_cons_self)

/-- Without a plus sign a natural number is read from its digits alone. -/
theorem natural?_cons_of_digit (hc : c.isDigit = true) (cs : List Char) :
    natural? (c :: cs) = digits? (c :: cs) := by
  unfold natural?
  split
  · next h => exact absurd ((List.cons.inj h).1 ▸ hc) (by decide)
  · rfl

/-- Without a minus sign an integer is read as a natural number. -/
theorem integer?_eq_natural? (h : w.head? ≠ some '-') :
    integer? w = (natural? w).map Int.ofNat := by
  unfold integer?
  split
  · exact absurd rfl h
  · rfl
  · next hplus =>
    unfold natural?
    split
    · exact absurd rfl (hplus _)
    · rfl

/-- What spells a number is read as that number. -/
theorem SpellsCount.natural?_eq (h : SpellsCount w n) : natural? w = some n := by
  cases h with
  | plus zeros => exact digits?_padded zeros n
  | plain zeros =>
    obtain ⟨c, cs, hcs⟩ := List.exists_cons_of_ne_nil (padded_ne_nil zeros n)
    rw [← digits?_padded zeros n, hcs]
    exact natural?_cons_of_digit (digit_cons_of_padded hcs) cs

/-- What spells a number that fits is read as that count. -/
theorem SpellsCount.count?_eq (h : SpellsCount w n) (hn : n < longSize) : count? w = some n := by
  rw [count?, h.natural?_eq, Option.filter_some, if_pos (decide_eq_true hn)]

/-- A count that is read fits. -/
theorem count?_lt (h : count? w = some n) : n < longSize := by
  rw [count?, Option.filter_eq_some_iff, decide_eq_true_eq] at h
  exact h.2

/-- What spells a count has no minus in front. -/
theorem SpellsCount.head?_ne (h : SpellsCount w n) : w.head? ≠ some '-' := by
  cases h with
  | plus zeros => simp
  | plain zeros =>
    intro hhead
    obtain ⟨cs, hcs⟩ := List.head?_eq_some_iff.mp hhead
    exact absurd (digit_cons_of_padded hcs) (by decide)

/-- What spells an integer is read as that integer. -/
theorem SpellsInteger.integer?_eq (h : SpellsInteger w i) : integer? w = some i := by
  cases h with
  | minus zeros n =>
    rw [integer?, digits?_padded]
    rfl
  | natural h =>
    rw [integer?_eq_natural? h.head?_ne, h.natural?_eq]
    rfl

/-- What spells the code of a literal is read as that literal. -/
theorem SpellsInteger.literal?_eq {l : Literal} (h : SpellsInteger w l.code) :
    literal? w = some l := by
  rw [literal?, h.integer?_eq, Option.bind_some, Literal.ofCode?, dif_pos ⟨l.lower, l.upper⟩]

/-- Every number can be written. -/
theorem exists_spellsInteger (i : ℤ) : ∃ w, SpellsInteger w i := by
  obtain ⟨n, rfl | rfl⟩ := i.eq_nat_or_neg
  · exact ⟨_, .natural (.plain 0 n)⟩
  · exact ⟨_, .minus 0 n⟩

/-- Numbers are printed in one of these ways. -/
theorem spellsInteger_toString (i : ℤ) : SpellsInteger (toString i).toList i := by
  have hprinted : ∀ n : ℕ, (toString n).toList = padded 0 n := fun n => Nat.toList_repr
  cases i with
  | ofNat n =>
    show SpellsInteger (toString n).toList n
    rw [hprinted]
    exact .natural (.plain 0 n)
  | negSucc n =>
    show SpellsInteger ("-" ++ toString (n + 1)).toList _
    rw [String.toList_append, hprinted]
    exact .minus 0 (n + 1)

/-- The characters of numerals. -/
def IsMark (c : Char) : Prop := c.isDigit = true ∨ c = '+' ∨ c = '-'

/-- The characters of numerals are no blanks. -/
theorem IsMark.isBlank_eq (h : IsMark c) : Text.isBlank c = false := by
  rcases h with h | rfl | rfl
  · have hdigit : 48 ≤ c.toNat ∧ c.toNat ≤ 57 := Char.isDigit_iff_toNat.mp h
    simp only [Text.isBlank, Text.blankRanges, List.any_cons, List.any_nil, Bool.or_false,
      Bool.or_eq_false_iff, decide_eq_false_iff_not]
    omega
  · rfl
  · rfl

/-- Padded numerals have characters of numerals only. -/
theorem isMark_of_mem_padded {zeros : ℕ} (hc : c ∈ padded zeros n) : IsMark c :=
  .inl (isDigit_of_mem_padded hc)

/-- What spells a count has characters of numerals only. -/
theorem SpellsCount.isMark (h : SpellsCount w n) : ∀ c ∈ w, IsMark c := by
  cases h with
  | plain zeros => exact fun _ => isMark_of_mem_padded
  | plus zeros => exact List.forall_mem_cons.mpr ⟨.inr (.inl rfl), fun _ => isMark_of_mem_padded⟩

/-- What spells an integer has characters of numerals only. -/
theorem SpellsInteger.isMark (h : SpellsInteger w i) : ∀ c ∈ w, IsMark c := by
  cases h with
  | natural h => exact h.isMark
  | minus zeros =>
    exact List.forall_mem_cons.mpr ⟨.inr (.inr rfl), fun _ => isMark_of_mem_padded⟩

/-- What spells a count is not empty. -/
theorem SpellsCount.ne_nil (h : SpellsCount w n) : w ≠ [] := by
  cases h with
  | plain zeros => exact padded_ne_nil zeros n
  | plus zeros => exact List.cons_ne_nil _ _

/-- What spells an integer is not empty. -/
theorem SpellsInteger.ne_nil (h : SpellsInteger w i) : w ≠ [] := by
  cases h with
  | natural h => exact h.ne_nil
  | minus zeros => exact List.cons_ne_nil _ _

end SatSearch.Numeral
