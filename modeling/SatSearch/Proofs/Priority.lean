import SatSearch.Priority
import Mathlib.Algebra.Order.Field.Basic
import Mathlib.Data.Rat.Cast.Order
import Mathlib.Tactic.FieldSimp

/-!
# The order of the priorities

Variables are ordered by their unit scores first, the smaller variable before the larger at the same
score. Their keys order them in the same way, with no ties, and so do the priorities as rational
numbers. Up to `2 ^ 31 - 1` variables the keys of all unit scores fit into 64 bits. With one
variable more the largest score has no keys.
-/

namespace SatSearch.Priority

/-- The key of variable `v` among `n` variables at a unit score. -/
def keyOf (n unit v : ℕ) : ℕ := (2 * unit + 1) * (n + 1) - v

/-- Among `n` variables the keys of a unit score fit into 64 bits. -/
def Fits (n unit : ℕ) : Prop := (2 * unit + 1) * (n + 1) < longSize

/-- The priority of variable `v` among `n` variables at a unit score, as a rational number. -/
def rational (n unit v : ℕ) : ℚ := 2 * unit + 1 - v / (n + 1)

variable {n a b unit v w : ℕ}

section Range

/-- Fewer than 2 ^ 32 variables and a unit score below 2 ^ 31 fit. -/
theorem fits_of_lt (hn : n < 2 ^ 32) (hunit : unit < 2 ^ 31) : Fits n unit := by
  have hle : (2 * unit + 1) * (n + 1) ≤ (2 ^ 32 - 1) * 2 ^ 32 :=
    Nat.mul_le_mul (by omega) (by omega)
  exact Nat.lt_of_le_of_lt hle (by decide)

/-- No variable has a number too large to be subtracted. -/
theorem le_top (hv : v ≤ n) : v ≤ (2 * unit + 1) * (n + 1) := by
  have hlow : n + 1 ≤ (2 * unit + 1) * (n + 1) := Nat.le_mul_of_pos_left (n + 1) (by omega)
  omega

/-- A score that fits gives the key of its variable. -/
theorem ofScore_of_fits (h : Fits n unit) (hv : v ≤ n) :
    ofScore (n + 1) unit v = .ok ⟨keyOf n unit v, n + 1⟩ :=
  ofScore_eq_ok.mpr ⟨h, le_top hv, rfl⟩

/-- Whether a variable has a priority does not depend on the variable. -/
theorem exists_ofScore_iff (hv : v ≤ n) : (∃ p, ofScore (n + 1) unit v = .ok p) ↔ Fits n unit :=
  ⟨fun ⟨_, hp⟩ => (ofScore_eq_ok.mp hp).1, fun h => ⟨_, ofScore_of_fits h hv⟩⟩

/-- The largest score decides. Its product is `(2 ^ 33 - 1) * (n + 1)`, which is `2 ^ 64 - 2 ^ 31`
for `n + 1 = 2 ^ 31` and too large for the next number. -/
theorem forall_fits_iff : (∀ unit < wordSize, Fits n unit) ↔ n ≤ 2 ^ 31 - 1 := by
  constructor
  · intro h
    have hlast : (2 * (wordSize - 1) + 1) * (n + 1) < longSize := h _ (by decide)
    simp only [wordSize, longSize] at hlast
    omega
  · intro hn unit hunit
    rw [wordSize] at hunit
    have hle : (2 * unit + 1) * (n + 1) ≤ (2 ^ 33 - 1) * 2 ^ 31 :=
      Nat.mul_le_mul (by omega) (by omega)
    exact Nat.lt_of_le_of_lt hle (by decide)

end Range

section Order

/-- Keys are ordered by the unit score first; at the same score the smaller variable has the larger
key. -/
theorem keyOf_lt_iff (hv : v ≤ n) (hw : w ≤ n) :
    keyOf n a v < keyOf n b w ↔ a < b ∨ a = b ∧ w < v := by
  have hstep : ∀ {a b : ℕ}, a < b →
      (2 * a + 1) * (n + 1) + 2 * (n + 1) ≤ (2 * b + 1) * (n + 1) := by
    intro a b hab
    rw [← Nat.add_mul]
    exact Nat.mul_le_mul_right (n + 1) (by omega)
  have ha : v ≤ (2 * a + 1) * (n + 1) := le_top hv
  have hb : w ≤ (2 * b + 1) * (n + 1) := le_top hw
  simp only [keyOf]
  rcases Nat.lt_trichotomy a b with hab | rfl | hab
  · have := hstep hab
    omega
  · omega
  · have := hstep hab
    omega

/-- There are no ties. -/
theorem keyOf_inj (hv : v ≤ n) (hw : w ≤ n) :
    keyOf n a v = keyOf n b w ↔ a = b ∧ v = w := by
  have hlt := keyOf_lt_iff (a := a) (b := b) hv hw
  have hgt := keyOf_lt_iff (a := b) (b := a) hw hv
  omega

/-- The key is subtracted from above, so it is the same number among the integers. -/
theorem cast_keyOf (hv : v ≤ n) : (keyOf n unit v : ℤ) = (2 * unit + 1) * (n + 1) - v := by
  rw [keyOf, Nat.cast_sub (le_top hv)]
  push_cast
  rfl

/-- A priority is the quotient of its key and the scale. -/
theorem rational_eq_div (hv : v ≤ n) : rational n unit v = keyOf n unit v / (n + 1 : ℕ) := by
  have hscale : (n : ℚ) + 1 ≠ 0 := Nat.cast_add_one_ne_zero n
  rw [keyOf, Nat.cast_sub (le_top hv), rational]
  push_cast
  field_simp

/-- Priorities are ordered as their keys are. -/
theorem rational_lt_iff (hv : v ≤ n) (hw : w ≤ n) :
    rational n a v < rational n b w ↔ keyOf n a v < keyOf n b w := by
  have hscale : (0 : ℚ) < (n + 1 : ℕ) := Nat.cast_pos.mpr n.succ_pos
  rw [rational_eq_div hv, rational_eq_div hw, div_lt_div_iff_of_pos_right hscale, Nat.cast_lt]

end Order

/-- All 32-bit unit scores of all variables have priorities exactly if there are at most
`2 ^ 31 - 1` variables. The keys are then the exact integers, and they put scores and variables into
the order of the priorities, which is without ties. -/
theorem ofScore_embeds_order (n : ℕ) :
    ((∀ unit < wordSize, ∀ v ≤ n, ∃ p, ofScore (n + 1) unit v = .ok p) ↔ n ≤ 2 ^ 31 - 1) ∧
      (n ≤ 2 ^ 31 - 1 →
        ∀ a < wordSize, ∀ b < wordSize, ∀ v ≤ n, ∀ w ≤ n, ∃ p q,
          ofScore (n + 1) a v = .ok p ∧ ofScore (n + 1) b w = .ok q ∧
            p.key < longSize ∧ (p.key : ℤ) = (2 * a + 1) * (n + 1) - v ∧
            (q.key < p.key ↔ b < a ∨ a = b ∧ v < w) ∧
            (p.key = q.key ↔ a = b ∧ v = w) ∧
            (p.key : ℚ) / p.scale = rational n a v ∧
            (q.key < p.key ↔ rational n b w < rational n a v)) := by
  refine ⟨?_, fun hn a ha b hb v hv w hw => ?_⟩
  · rw [← forall_fits_iff]
    constructor
    · intro h unit hunit
      exact (exists_ofScore_iff (Nat.zero_le n)).mp (h unit hunit 0 (Nat.zero_le n))
    · intro h unit hunit v hv
      exact (exists_ofScore_iff hv).mpr (h unit hunit)
  · have hfits := forall_fits_iff.mpr hn
    have hbounded : keyOf n a v < longSize := Nat.lt_of_le_of_lt (Nat.sub_le _ _) (hfits a ha)
    have hlt : keyOf n b w < keyOf n a v ↔ b < a ∨ a = b ∧ v < w := by
      rw [keyOf_lt_iff hw hv, eq_comm (a := a)]
    exact ⟨_, _, ofScore_of_fits (hfits a ha) hv, ofScore_of_fits (hfits b hb) hw, hbounded,
      cast_keyOf hv, hlt, keyOf_inj hv hw, (rational_eq_div hv).symm, (rational_lt_iff hw hv).symm⟩

/-- At the limit the largest score still has a key for each variable, and the key of variable 0 is
followed by that of variable 1. One variable more, and it has none. -/
theorem ofScore_embeds_order_at_limit :
    let n := 2 ^ 31 - 1
    let top := wordSize - 1
    (∀ unit < wordSize, ∀ v ≤ n, ∃ p, ofScore (n + 1) unit v = .ok p) ∧
      (∃ p q, ofScore (n + 1) top 0 = .ok p ∧ ofScore (n + 1) top 1 = .ok q ∧ q.key < p.key ∧
        rational n top 1 < rational n top 0) ∧
      ¬∀ unit < wordSize, ∀ v ≤ n + 1, ∃ p, ofScore (n + 1 + 1) unit v = .ok p := by
  intro n top
  obtain ⟨hiff, horder⟩ := ofScore_embeds_order n
  have hn : n ≤ 2 ^ 31 - 1 := Nat.le_refl _
  have htop : top < wordSize := by decide
  obtain ⟨p, q, hp, hq, -, -, hlt, -, -, hrational⟩ :=
    horder hn top htop top htop 0 (Nat.zero_le n) 1 (by decide)
  have hkeys : q.key < p.key := hlt.mpr (.inr ⟨rfl, Nat.one_pos⟩)
  refine ⟨hiff.mpr hn, ⟨p, q, hp, hq, hkeys, hrational.mp hkeys⟩, fun h => ?_⟩
  have habove : n + 1 ≤ 2 ^ 31 - 1 := (ofScore_embeds_order (n + 1)).1.mp h
  omega

end SatSearch.Priority
