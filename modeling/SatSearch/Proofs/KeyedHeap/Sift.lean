import SatSearch.Proofs.Faults
import SatSearch.Proofs.KeyedHeap.WellFormed

/-!
# Sifts restore the order

An exchange of two places keeps the links and the contents and permutes the keys of the places.
With the step lemmas for the order, induction along each sift shows that it never faults, ends in
heap order, and leaves the contents alone.
-/

namespace SatSearch.KeyedHeap

variable {c v w i j k : ℕ} {q : KeyedHeap} {p : Option ℕ}

/-- A key within the table is stored. -/
theorem setKey_eq (h : v < q.keys.size) :
    q.setKey v k = .ok { q with keys := q.keys.setIfInBounds v k } := by
  simp only [setKey, Array.setIfInBounds, dif_pos h]

/-- A place within the table is stored. -/
theorem setPlace_eq (h : v < q.places.size) :
    q.setPlace v p = .ok { q with places := q.places.setIfInBounds v p } := by
  simp only [setPlace, Array.setIfInBounds, dif_pos h]

/-- An entry within the heap is stored. -/
theorem setEntry_eq (h : i < q.heap.size) :
    q.setEntry i v = .ok { q with heap := q.heap.setIfInBounds i v } := by
  simp only [setEntry, Array.setIfInBounds, dif_pos h]

/-- The heap after an exchange of `v` at place `i` with `w` at place `j`. -/
def exchanged (q : KeyedHeap) (i j v w : ℕ) : KeyedHeap where
  keys := q.keys
  heap := (q.heap.setIfInBounds i w).setIfInBounds j v
  places := (q.places.setIfInBounds w (some i)).setIfInBounds v (some j)

/-- An exchange permutes two entries. -/
theorem heap_exchanged (hi : q.heap[i]? = some v) (hj : q.heap[j]? = some w) (k : ℕ) :
    (q.exchanged i j v w).heap[k]? = q.heap[Equiv.swap i j k]? := by
  have hilt : i < q.heap.size := lt_size_of_entry hi
  have hjlt : j < q.heap.size := lt_size_of_entry hj
  simp only [exchanged, Array.getElem?_setIfInBounds, Array.size_setIfInBounds]
  by_cases hkj : k = j
  · rw [hkj, Equiv.swap_apply_right, hi, if_pos rfl, if_pos hjlt]
  · rw [if_neg (Ne.symm hkj)]
    by_cases hki : k = i
    · rw [hki, Equiv.swap_apply_left, hj, if_pos rfl, if_pos hilt]
    · rw [if_neg (Ne.symm hki), Equiv.swap_apply_of_ne_of_ne hki hkj]

/-- An exchange changes nothing about the contents. -/
theorem contents_exchanged (hi : q.heap[i]? = some v) (hj : q.heap[j]? = some w) :
    (q.exchanged i j v w).contents = q.contents := by
  refine KeyedSet.ext rfl (Finset.ext fun u => ?_)
  rw [mem_queued_iff, mem_queued_iff]
  constructor
  · rintro ⟨k, hk⟩
    exact ⟨_, (heap_exchanged hi hj k).symm.trans hk⟩
  · rintro ⟨k, hk⟩
    refine ⟨Equiv.swap i j k, ?_⟩
    rw [heap_exchanged hi hj, Equiv.swap_apply_self]
    exact hk

/-- An exchange permutes the keys of two places. -/
theorem rank_exchanged (hi : q.heap[i]? = some v) (hj : q.heap[j]? = some w) (k : ℕ) :
    (q.exchanged i j v w).rank k = q.rank (Equiv.swap i j k) := by
  rw [rank, rank, heap_exchanged hi hj, contents_exchanged hi hj]

/-- An exchange moves no variable that is not queued. -/
theorem places_exchanged (hi : q.heap[i]? = some v) (hj : q.heap[j]? = some w) {u : ℕ}
    (hu : u ∉ q.contents.queued) : (q.exchanged i j v w).places[u]? = q.places[u]? := by
  have huv : v ≠ u := fun huv => hu (mem_queued_iff.mpr ⟨i, huv ▸ hi⟩)
  have huw : w ≠ u := fun huw => hu (mem_queued_iff.mpr ⟨j, huw ▸ hj⟩)
  simp only [exchanged, Array.getElem?_setIfInBounds, if_neg huv, if_neg huw]

/-- What a sift does to a heap: it brings it into order, and only moves what is queued. -/
structure Sifted (c : ℕ) (q q' : KeyedHeap) : Prop where
  placed : Placed c q'
  ordered : HeapOrder q'.rank q'.size
  contents_eq : q'.contents = q.contents
  places_eq : ∀ {u : ℕ}, u ∉ q.contents.queued → q'.places[u]? = q.places[u]?

/-- A sift may start with an exchange. -/
theorem Sifted.of_exchanged {q' : KeyedHeap} (h : Sifted c (q.exchanged i j v w) q')
    (hi : q.heap[i]? = some v) (hj : q.heap[j]? = some w) : Sifted c q q' where
  placed := h.placed
  ordered := h.ordered
  contents_eq := h.contents_eq.trans (contents_exchanged hi hj)
  places_eq hu := by
    rw [h.places_eq (by rwa [contents_exchanged hi hj]), places_exchanged hi hj hu]

/-- Sifting a heap in which exactly the queued variables have a place makes it well-formed. -/
theorem Sifted.wellFormed {q' : KeyedHeap} (h : Sifted c q q')
    (habsent : ∀ {u : ℕ}, u ≤ c → u ∉ q.contents.queued → q.places[u]? = some none) :
    WellFormed c q' where
  toPlaced := h.placed
  place_of_absent hu hmem := by
    rw [h.contents_eq] at hmem
    rw [h.places_eq hmem, habsent hu hmem]
  ordered := h.ordered

namespace Placed

/-- An exchange keeps the places of all queued variables. -/
theorem exchanged (h : Placed c q) (hi : q.heap[i]? = some v) (hj : q.heap[j]? = some w) :
    Placed c (q.exchanged i j v w) := by
  have hv : v < q.places.size := by have := h.le_of_entry hi; rw [h.places_size]; omega
  have hw : w < q.places.size := by have := h.le_of_entry hj; rw [h.places_size]; omega
  refine ⟨h.keys_size, by simp [KeyedHeap.exchanged, h.places_size], fun {u k} hk => ?_⟩
  rw [heap_exchanged hi hj] at hk
  simp only [KeyedHeap.exchanged, Array.getElem?_setIfInBounds, Array.size_setIfInBounds]
  -- The two variables that moved have their new places; the places of all others stand.
  by_cases huv : v = u
  · subst huv
    have hswap := h.place_unique hk hi
    rw [Equiv.swap_apply_eq_iff, Equiv.swap_apply_left] at hswap
    rw [if_pos rfl, if_pos hv, hswap]
  rw [if_neg huv]
  by_cases huw : w = u
  · subst huw
    have hswap := h.place_unique hk hj
    rw [Equiv.swap_apply_eq_iff, Equiv.swap_apply_right] at hswap
    rw [if_pos rfl, if_pos hw, hswap]
  rw [if_neg huw]
  have hki : k ≠ i := by
    intro hki
    rw [hki, Equiv.swap_apply_left, hj] at hk
    exact huw (Option.some.inj hk)
  have hkj : k ≠ j := by
    intro hkj
    rw [hkj, Equiv.swap_apply_right, hi] at hk
    exact huv (Option.some.inj hk)
  rw [Equiv.swap_apply_of_ne_of_ne hki hkj] at hk
  exact h.place_of_entry hk

end Placed

/-- The heap with a variable put into the hole at a place. -/
def filled (q : KeyedHeap) (i v : ℕ) : KeyedHeap where
  keys := q.keys
  heap := q.heap.setIfInBounds i v
  places := q.places.setIfInBounds v (some i)

/-- A variable that is where it was is put down again without a change. -/
theorem filled_self (h : Placed c q) (hv : q.heap[i]? = some v) : q.filled i v = q := by
  have hheap : q.heap.setIfInBounds i v = q.heap := by
    obtain ⟨hlt, rfl⟩ := Array.getElem?_eq_some_iff.mp hv
    rw [Array.setIfInBounds, dif_pos hlt, Array.set_getElem_self]
  have hplaces : q.places.setIfInBounds v (some i) = q.places := by
    obtain ⟨hlt, hplace⟩ := Array.getElem?_eq_some_iff.mp (h.place_of_entry hv)
    rw [Array.setIfInBounds, dif_pos hlt, ← hplace, Array.set_getElem_self]
  rw [filled, hheap, hplaces]

/-- Moving the hole exchanges two places of the heap without a hole. -/
theorem filled_filled (hvw : v ≠ w) :
    (q.filled i w).filled j v = (q.filled i v).exchanged i j v w := by
  simp only [filled, exchanged, Array.setIfInBounds_setIfInBounds, KeyedHeap.mk.injEq, true_and]
  rw [Array.setIfInBounds_comm _ _ hvw, Array.setIfInBounds_setIfInBounds]

/-- Filling the hole adds no place. -/
theorem size_filled : (q.filled i v).size = q.size := by
  simp only [filled, size, Array.size_setIfInBounds]

/-- Only the hole shows what is no longer there. -/
theorem entry_filled (hij : i ≠ j) : (q.filled i v).entry j = q.entry j := by
  simp only [entry, filled, Array.getElem?_setIfInBounds, if_neg hij]

/-- The children of the hole are compared as if the hole were filled. -/
theorem rightLarger_filled (size : ℕ) :
    (q.filled i v).rightLarger size i = q.rightLarger size i := by
  simp only [rightLarger, entry_filled (show i ≠ 2 * i + 1 by omega),
    entry_filled (show i ≠ 2 * i + 2 by omega)]
  rfl

/-- A heap with a hole, in which nothing is missing but the variable `v` that will go there. -/
structure Hollow (c : ℕ) (q : KeyedHeap) (i v : ℕ) : Prop where
  lt_size : i < q.size
  placed : Placed c (q.filled i v)

namespace Hollow

/-- In the filled heap the variable is at the hole. -/
theorem entry_hole (h : Hollow c q i v) : (q.filled i v).heap[i]? = some v := by
  have hlt : i < q.heap.size := h.lt_size
  simp only [filled, Array.getElem?_setIfInBounds, if_true, if_pos hlt]

/-- Every variable of the table can be put into the hole. -/
theorem fill_eq (h : Hollow c q i v) (hw : w ≤ c) : q.fill i w = .ok (q.filled i w) := by
  have hlt : i < q.heap.size := h.lt_size
  have hplace : w < q.places.size := by
    have hsize := h.placed.places_size
    simp only [filled, Array.size_setIfInBounds] at hsize
    omega
  rw [fill, setEntry_eq hlt]
  exact setPlace_eq hplace

/-- The variable goes into the hole where it is. -/
theorem fill_self (h : Hollow c q i v) : q.fill i v = .ok (q.filled i v) :=
  h.fill_eq (h.placed.le_of_entry h.entry_hole)

/-- Another variable is compared with the one that is missing by the ranks in the filled heap. -/
theorem less_eq (h : Hollow c q i v) (hw : (q.filled i v).heap[j]? = some w) :
    q.less w v = .ok (decide ((q.filled i v).rank j < (q.filled i v).rank i)) ∧
      q.less v w = .ok (decide ((q.filled i v).rank i < (q.filled i v).rank j)) := by
  have hv := h.placed.le_of_entry h.entry_hole
  have hwc := h.placed.le_of_entry hw
  rw [rank_eq h.entry_hole, rank_eq hw]
  exact ⟨h.placed.less_eq hwc hv, h.placed.less_eq hv hwc⟩

/-- Filling the hole with the variable of another place moves the hole there. In the filled heap the
two places are exchanged. -/
theorem move (h : Hollow c q i v) (hij : i ≠ j) (hw : (q.filled i v).heap[j]? = some w) :
    q.fill i w = .ok (q.filled i w) ∧ Hollow c (q.filled i w) j v ∧
      (q.filled i w).filled j v = (q.filled i v).exchanged i j v w := by
  have hvw : v ≠ w := fun hvw => hij (h.placed.place_unique h.entry_hole (hvw ▸ hw))
  have hfilled : (q.filled i w).filled j v = (q.filled i v).exchanged i j v w := filled_filled hvw
  refine ⟨h.fill_eq (h.placed.le_of_entry hw), ⟨?_, ?_⟩, hfilled⟩
  · rw [size_filled]
    exact size_filled ▸ lt_size_of_entry hw
  · rw [hfilled]
    exact h.placed.exchanged h.entry_hole hw

/-- A sift ends by filling the hole where the filled heap is in order. -/
theorem stop (h : Hollow c q i v) (horder : HeapOrder (q.filled i v).rank q.size) :
    ∃ q', q.fill i v = .ok q' ∧ Sifted c (q.filled i v) q' := by
  have hordered : HeapOrder (q.filled i v).rank (q.filled i v).size := by rwa [size_filled]
  exact ⟨_, h.fill_self, h.placed, hordered, rfl, fun _ => rfl⟩

/-- A hole rises to where the heap is in order with the variable put there. -/
theorem raiseHole (h : Hollow c q i v) (horder : RisingAt (q.filled i v).rank q.size i) :
    ∃ q', q.raiseHole v i = .ok q' ∧ Sifted c (q.filled i v) q' := by
  -- On the place of the hole. Where the hole moves, the filled heap exchanges two entries.
  induction i using Nat.strongRecOn generalizing q with
  | ind i ih =>
    rw [KeyedHeap.raiseHole]
    by_cases hi0 : 0 < i
    · have hlt := parent_lt hi0
      obtain ⟨w, hw⟩ := exists_entry (q := q.filled i v) (i := parent i)
        (by rw [size_filled]; exact hlt.trans h.lt_size)
      have hentry : q.entry (parent i) = .ok w := by
        rw [← entry_filled (v := v) (by omega : i ≠ parent i), entry_eq_ok]
        exact hw
      rw [if_pos hi0, hentry, ok_bind, (h.less_eq hw).1, ok_bind]
      by_cases hless : (q.filled i v).rank (parent i) < (q.filled i v).rank i
      · obtain ⟨hfill, hhollow, hfilled⟩ := h.move (by omega) hw
        have hrank : ((q.filled i w).filled (parent i) v).rank =
            fun k => (q.filled i v).rank (Equiv.swap i (parent i) k) := by
          rw [hfilled]
          exact funext (rank_exchanged h.entry_hole hw)
        obtain ⟨q', hq', hsifted⟩ := ih (parent i) hlt hhollow (by
          rw [hrank, size_filled]
          exact horder.step hi0 h.lt_size hless)
        rw [decide_eq_true hless, if_pos rfl, hfill, ok_bind]
        exact ⟨q', hq', (hfilled ▸ hsifted).of_exchanged h.entry_hole hw⟩
      · rw [decide_eq_false hless, if_neg Bool.false_ne_true]
        exact h.stop (horder.stop fun _ => by omega)
    · rw [if_neg hi0]
      exact h.stop (horder.stop fun h0 => absurd h0 hi0)

end Hollow

namespace Placed

/-- A variable that is taken up leaves a hole. -/
theorem hollow (h : Placed c q) (hv : q.heap[i]? = some v) : Hollow c q i v :=
  ⟨lt_size_of_entry hv, (filled_self h hv).symm ▸ h⟩

/-- A rising entry rises to where the heap is in order. -/
theorem siftUp (h : Placed c q) (hi : i < q.size) (horder : RisingAt q.rank q.size i) :
    ∃ q', q.siftUp i = .ok q' ∧ Sifted c q q' := by
  obtain ⟨v, hv⟩ := exists_entry hi
  have hself := filled_self h hv
  have hsifted := (h.hollow hv).raiseHole (by rwa [hself])
  rw [hself] at hsifted
  rwa [KeyedHeap.siftUp, entry_eq_ok.mpr hv, ok_bind]

/-- A sinking entry that has a place below it has one with the largest key, which the sift picks. -/
theorem rightLarger (h : Placed c q) (hi : 2 * i + 1 < q.size) :
    ∃ right child, q.rightLarger q.size i = .ok right ∧
      child = (if right then 2 * i + 2 else 2 * i + 1) ∧ child < q.size ∧ parent child = i ∧
      ∀ j, 0 < j → j < q.size → parent j = i → q.rank j ≤ q.rank child := by
  by_cases hright : 2 * i + 2 < q.size
  · refine ⟨decide (q.rank (2 * i + 1) < q.rank (2 * i + 2)), _, ?_, rfl, ?_⟩
    · obtain ⟨v, hv⟩ := exists_entry hi
      obtain ⟨w, hw⟩ := exists_entry hright
      rw [KeyedHeap.rightLarger, if_pos hright, entry_eq_ok.mpr hv, entry_eq_ok.mpr hw, rank_eq hv,
        rank_eq hw]
      exact h.less_eq (h.le_of_entry hv) (h.le_of_entry hw)
    · by_cases hless : q.rank (2 * i + 1) < q.rank (2 * i + 2)
      · rw [decide_eq_true hless, if_pos rfl]
        refine ⟨hright, (parent_eq_iff (by omega)).mpr (.inr rfl), fun j hj0 _ hp => ?_⟩
        rcases (parent_eq_iff hj0).mp hp with rfl | rfl
        · exact hless.le
        · exact le_rfl
      · rw [decide_eq_false hless, if_neg Bool.false_ne_true]
        refine ⟨hi, (parent_eq_iff (by omega)).mpr (.inl rfl), fun j hj0 _ hp => ?_⟩
        rcases (parent_eq_iff hj0).mp hp with rfl | rfl
        · exact le_rfl
        · omega
  · refine ⟨false, _, by rw [KeyedHeap.rightLarger, if_neg hright], rfl, ?_⟩
    rw [if_neg Bool.false_ne_true]
    refine ⟨hi, (parent_eq_iff (by omega)).mpr (.inl rfl), fun j hj0 hj hp => ?_⟩
    rcases (parent_eq_iff hj0).mp hp with rfl | rfl
    · exact le_rfl
    · exact absurd hj hright

end Placed

/-- A hole sinks to where the heap is in order with the variable put there. -/
theorem Hollow.lowerHole (h : Hollow c q i v)
    (horder : SinkingAt (q.filled i v).rank q.size i) :
    ∃ q', q.lowerHole q.size v i = .ok q' ∧ Sifted c (q.filled i v) q' := by
  -- On the places behind the hole. The step is the same exchange, with the larger child.
  generalize hn : q.size - i = n
  induction n using Nat.strongRecOn generalizing q i with
  | ind n ih =>
    rw [KeyedHeap.lowerHole]
    by_cases hleft : 2 * i + 1 < q.size
    · obtain ⟨right, child, hright, hchild, hclt, hpc, hmax⟩ :=
        h.placed.rightLarger (i := i) (by rwa [size_filled])
      rw [size_filled] at hright hclt hmax
      have hc0 : 0 < child := by split at hchild <;> omega
      have hic : i < child := hpc ▸ parent_lt hc0
      obtain ⟨w, hw⟩ := exists_entry (q := q.filled i v) (i := child) (by rwa [size_filled])
      have hentry : q.entry child = .ok w := by
        rw [← entry_filled (v := v) (by omega : i ≠ child), entry_eq_ok]
        exact hw
      rw [if_pos hleft, ← rightLarger_filled (v := v), hright, ok_bind]
      simp only [← hchild]
      rw [hentry, ok_bind, (h.less_eq hw).2, ok_bind]
      by_cases hless : (q.filled i v).rank i < (q.filled i v).rank child
      · obtain ⟨hfill, hhollow, hfilled⟩ := h.move (by omega) hw
        have hrank : ((q.filled i w).filled child v).rank =
            fun k => (q.filled i v).rank (Equiv.swap i child k) := by
          rw [hfilled]
          exact funext (rank_exchanged h.entry_hole hw)
        have hsize : (q.filled i w).size = q.size := size_filled
        obtain ⟨q', hq', hsifted⟩ := ih (q.size - child) (by have := hhollow.lt_size; omega) hhollow
          (by rw [hrank, hsize]; exact horder.step hc0 hclt hpc hmax hless) (by rw [hsize])
        rw [decide_eq_true hless, if_pos rfl, hfill, ok_bind]
        exact ⟨q', hsize ▸ hq', (hfilled ▸ hsifted).of_exchanged h.entry_hole hw⟩
      · rw [decide_eq_false hless, if_neg Bool.false_ne_true]
        exact h.stop (horder.stop fun j hj0 hj hp => (hmax j hj0 hj hp).trans (by omega))
    · rw [if_neg hleft]
      refine h.stop (horder.stop fun j hj0 hj hp => ?_)
      have := (parent_eq_iff hj0).mp hp
      omega

/-- A sinking entry sinks to where the heap is in order. -/
theorem Placed.siftDown (h : Placed c q) (hi : i < q.size) (horder : SinkingAt q.rank q.size i) :
    ∃ q', q.siftDown q.size i = .ok q' ∧ Sifted c q q' := by
  obtain ⟨v, hv⟩ := exists_entry hi
  have hself := filled_self h hv
  have hsifted := (h.hollow hv).lowerHole (by rwa [hself])
  rw [hself] at hsifted
  rwa [KeyedHeap.siftDown, entry_eq_ok.mpr hv, ok_bind]

end SatSearch.KeyedHeap
