import SatSearch.KeyedHeap
import Mathlib.Logic.Equiv.Basic
import Mathlib.Order.Nat

/-!
# Heap order and its two one-place exceptions

A sift works on an array in which one place is out of order. The order is stated here for the
function that gives each place its key, apart from the tables of a heap: `RisingAt` is what a move
towards the root needs and keeps, `SinkingAt` is the same for a move away from it. Each has a step
lemma for one exchange and a stop lemma for the end of the sift.
-/

namespace SatSearch.KeyedHeap

variable {r r' : ℕ → ℕ} {n m i c : ℕ}

/-- Among the first `n` places none has a larger key than the place above it. -/
def HeapOrder (r : ℕ → ℕ) (n : ℕ) : Prop :=
  ∀ j, 0 < j → j < n → r j ≤ r (parent j)

/-- Only place `i` may have a larger key than the place above it. -/
structure RisingAt (r : ℕ → ℕ) (n i : ℕ) : Prop where
  rest : ∀ j, 0 < j → j < n → j ≠ i → r j ≤ r (parent j)
  /-- The places below `i` are in order with the place above `i`. -/
  across : ∀ j, 0 < j → j < n → parent j = i → 0 < i → r j ≤ r (parent i)

/-- Only the places directly below `i` may have larger keys than `i`. -/
structure SinkingAt (r : ℕ → ℕ) (n i : ℕ) : Prop where
  rest : ∀ j, 0 < j → j < n → parent j ≠ i → r j ≤ r (parent j)
  /-- The places below `i` are in order with the place above `i`. -/
  across : ∀ j, 0 < j → j < n → parent j = i → 0 < i → r j ≤ r (parent i)

/-- A parent stands before its children. -/
theorem parent_lt (h : 0 < i) : parent i < i := by
  simp only [parent]
  omega

/-- The children of a place are at the two places with this parent. -/
theorem parent_eq_iff (hc : 0 < c) : parent c = i ↔ c = 2 * i + 1 ∨ c = 2 * i + 2 := by
  simp only [parent]
  omega

/-- In heap order the root has the largest key. -/
theorem HeapOrder.le_root (h : HeapOrder r n) {j : ℕ} (hj : j < n) : r j ≤ r 0 := by
  induction j using Nat.strongRecOn with
  | ind j ih =>
    by_cases hj0 : j = 0
    · rw [hj0]
    · have hlt : parent j < j := parent_lt (by omega)
      exact (h j (by omega) hj).trans (ih (parent j) hlt (by omega))

/-- Raising one key disturbs the order only towards the root. -/
theorem HeapOrder.raise (h : HeapOrder r n) (hi : i < n) (hsame : ∀ j, j ≠ i → r' j = r j)
    (hle : r i ≤ r' i) : RisingAt r' n i := by
  constructor
  · intro j hj0 hj hji
    have hjp := h j hj0 hj
    rw [hsame j hji]
    by_cases hp : parent j = i
    · rw [hp] at hjp ⊢
      exact hjp.trans hle
    · rwa [hsame _ hp]
  · intro j hj0 hj hp hi0
    have hne : parent i ≠ i := (parent_lt hi0).ne
    have hji : j ≠ i := by have := parent_lt hj0; omega
    rw [hsame j hji, hsame _ hne]
    have hji' := h j hj0 hj
    rw [hp] at hji'
    exact hji'.trans (h i hi0 hi)

/-- Lowering one key disturbs the order only away from the root. -/
theorem HeapOrder.lower (h : HeapOrder r n) (hi : i < n) (hsame : ∀ j, j ≠ i → r' j = r j)
    (hle : r' i ≤ r i) : SinkingAt r' n i := by
  constructor
  · intro j hj0 hj hp
    have hjp := h j hj0 hj
    rw [hsame _ hp]
    by_cases hji : j = i
    · rw [hji] at hjp ⊢
      exact hle.trans hjp
    · rwa [hsame j hji]
  · intro j hj0 hj hp hi0
    have hne : parent i ≠ i := (parent_lt hi0).ne
    have hji : j ≠ i := by have := parent_lt hj0; omega
    rw [hsame j hji, hsame _ hne]
    have hji' := h j hj0 hj
    rw [hp] at hji'
    exact hji'.trans (h i hi0 hi)

/-- A key added at the end can only be out of order with the place above it. -/
theorem HeapOrder.push (h : HeapOrder r n) (hsame : ∀ j, j < n → r' j = r j) :
    RisingAt r' (n + 1) n := by
  constructor
  · intro j hj0 hj hjn
    have hlt := parent_lt hj0
    rw [hsame j (by omega), hsame _ (by omega)]
    exact h j hj0 (by omega)
  · intro j hj0 hj hp _
    have := parent_lt hj0
    omega

/-- If the root is replaced and the heap cut short, only the root can be out of order. -/
theorem HeapOrder.replaceRoot (h : HeapOrder r n) (hm : m ≤ n)
    (hsame : ∀ j, 0 < j → j < m → r' j = r j) : SinkingAt r' m 0 := by
  constructor
  · intro j hj0 hj hp
    have hlt := parent_lt hj0
    rw [hsame j hj0 hj, hsame _ (by omega) (by omega)]
    exact h j hj0 (by omega)
  · intro j _ _ _ h0
    omega

/-- A rising entry that is not larger than the one above it completes the order. -/
theorem RisingAt.stop (h : RisingAt r n i) (hstop : 0 < i → r i ≤ r (parent i)) :
    HeapOrder r n := by
  intro j hj0 hj
  by_cases hji : j = i
  · rw [hji]
    exact hstop (hji ▸ hj0)
  · exact h.rest j hj0 hj hji

/-- Exchanging a rising entry with the smaller one above it moves the exception up. -/
theorem RisingAt.step (h : RisingAt r n i) (hi0 : 0 < i) (hi : i < n)
    (hlt : r (parent i) < r i) :
    RisingAt (fun j => r (Equiv.swap i (parent i) j)) n (parent i) := by
  have hpi := parent_lt hi0
  -- Off the two places nothing changes; the place left behind gets the old upper key.
  have hother : ∀ j, j ≠ i → j ≠ parent i → r (Equiv.swap i (parent i) j) = r j :=
    fun j hji hjp => by rw [Equiv.swap_apply_of_ne_of_ne hji hjp]
  have hleft : r (Equiv.swap i (parent i) i) = r (parent i) := by rw [Equiv.swap_apply_left]
  have hright : r (Equiv.swap i (parent i) (parent i)) = r i := by rw [Equiv.swap_apply_right]
  constructor
  · intro j hj0 hj hjp
    by_cases hji : j = i
    · rw [hji, hleft, hright]
      exact hlt.le
    rw [hother j hji hjp]
    by_cases hpj : parent j = i
    · rw [hpj, hleft]
      exact h.across j hj0 hj hpj hi0
    have hjr := h.rest j hj0 hj hji
    by_cases hpp : parent j = parent i
    · rw [hpp] at hjr ⊢
      rw [hright]
      exact hjr.trans hlt.le
    · rwa [hother _ hpj hpp]
  · intro j hj0 hj hpj hp0
    have hpp := parent_lt hp0
    rw [hother (parent (parent i)) (by omega) (by omega)]
    have hup : r (parent i) ≤ r (parent (parent i)) := h.rest _ hp0 (by omega) (by omega)
    by_cases hji : j = i
    · rw [hji, hleft]
      exact hup
    · have hjlt := parent_lt hj0
      rw [hother j hji (by omega)]
      have hjr := h.rest j hj0 hj hji
      rw [hpj] at hjr
      exact hjr.trans hup

/-- A sinking entry that is not smaller than those below it completes the order. -/
theorem SinkingAt.stop (h : SinkingAt r n i)
    (hstop : ∀ j, 0 < j → j < n → parent j = i → r j ≤ r i) : HeapOrder r n := by
  intro j hj0 hj
  by_cases hp : parent j = i
  · rw [hp]
    exact hstop j hj0 hj hp
  · exact h.rest j hj0 hj hp

/-- Exchanging a sinking entry with the largest one below it moves the exception down. -/
theorem SinkingAt.step (h : SinkingAt r n i) (hc0 : 0 < c) (hc : c < n) (hpc : parent c = i)
    (hmax : ∀ j, 0 < j → j < n → parent j = i → r j ≤ r c) (hlt : r i < r c) :
    SinkingAt (fun j => r (Equiv.swap i c j)) n c := by
  have hic : i < c := hpc ▸ parent_lt hc0
  have hother : ∀ j, j ≠ i → j ≠ c → r (Equiv.swap i c j) = r j :=
    fun j hji hjc => by rw [Equiv.swap_apply_of_ne_of_ne hji hjc]
  have hleft : r (Equiv.swap i c i) = r c := by rw [Equiv.swap_apply_left]
  have hright : r (Equiv.swap i c c) = r i := by rw [Equiv.swap_apply_right]
  constructor
  · intro j hj0 hj hpj
    by_cases hji : j = i
    · have hi0 : 0 < i := hji ▸ hj0
      have hlt' := parent_lt hi0
      rw [hji, hleft, hother (parent i) (by omega) (by omega)]
      exact h.across c hc0 hc hpc hi0
    by_cases hjc : j = c
    · rw [hjc, hright, hpc, hleft]
      exact hlt.le
    rw [hother j hji hjc]
    by_cases hpi : parent j = i
    · rw [hpi, hleft]
      exact hmax j hj0 hj hpi
    · rw [hother _ hpi hpj]
      exact h.rest j hj0 hj hpi
  · intro j hj0 hj hpj _
    have hjlt := parent_lt hj0
    rw [hother j (by omega) (by omega), hpc, hleft]
    have hjr := h.rest j hj0 hj (by omega)
    rwa [hpj] at hjr

end SatSearch.KeyedHeap
