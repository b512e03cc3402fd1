import SatSearch.Proofs.KeyedHeap.Contents

/-!
# The variable that is taken out

`popMax` puts the last variable at the root, sifts it down and forgets the place of the old root.
On a well-formed heap it answers `none` if nothing is queued, and otherwise gives up a variable with
the largest key; the history of the heap only decides between equal keys. Taking variables out until
none is left lists all of them by their keys.
-/

namespace SatSearch.KeyedHeap

variable {c v i last : ℕ} {q : KeyedHeap}

/-- The heap without its root, whose place the last variable takes. -/
def cut (q : KeyedHeap) (last : ℕ) : KeyedHeap :=
  { q with heap := (q.heap.setIfInBounds 0 last).pop }

/-- A heap that is cut has one place fewer. -/
theorem size_cut {last : ℕ} : (q.cut last).size = q.size - 1 := by
  simp only [cut, size, Array.size_pop, Array.size_setIfInBounds]

/-- A cut brings the last variable to the root and leaves the other places. -/
theorem heap_cut {last : ℕ} (hi : i < q.size - 1) :
    (q.cut last).heap[i]? = if i = 0 then some last else q.heap[i]? := by
  have hilt : i < q.heap.size - 1 := hi
  simp only [cut, Array.getElem?_pop, Array.size_setIfInBounds, Array.getElem?_setIfInBounds,
    if_pos hilt]
  by_cases hi0 : i = 0
  · rw [hi0, if_pos rfl, if_pos rfl, if_pos (by omega)]
  · rw [if_neg (Ne.symm hi0), if_neg hi0]

/-- A cut erases the variable at the root. -/
theorem Placed.contents_cut (h : Placed c q) (hroot : q.heap[0]? = some v)
    (hlast : q.heap[q.size - 1]? = some last) : (q.cut last).contents = q.contents.erase v := by
  refine KeyedSet.ext rfl (Finset.ext fun u => ?_)
  rw [KeyedSet.mem_queued_erase, mem_queued_iff, mem_queued_iff]
  constructor
  · rintro ⟨i, hi⟩
    have hilt : i < q.size - 1 := size_cut (q := q) ▸ lt_size_of_entry hi
    rw [heap_cut hilt] at hi
    by_cases hi0 : i = 0
    · rw [if_pos hi0, Option.some.injEq] at hi
      subst hi
      refine ⟨fun hlv => ?_, _, hlast⟩
      have := h.place_unique hroot (hlv ▸ hlast)
      omega
    · rw [if_neg hi0] at hi
      exact ⟨fun huv => hi0 (h.place_unique (huv ▸ hi) hroot), i, hi⟩
  · rintro ⟨huv, i, hi⟩
    have hilt := lt_size_of_entry hi
    have hi0 : i ≠ 0 := by
      rintro rfl
      exact huv (Option.some.inj (hi.symm.trans hroot))
    by_cases hil : i = q.size - 1
    · have hlu : last = u := Option.some.inj (hlast.symm.trans (hil ▸ hi))
      exact ⟨0, by rw [heap_cut (by omega), if_pos rfl, hlu]⟩
    · exact ⟨i, by rw [heap_cut (by omega), if_neg hi0]; exact hi⟩

/-- The places after the last variable has been put at the root. -/
def rooted (q : KeyedHeap) (last : ℕ) : KeyedHeap :=
  { q with places := q.places.setIfInBounds last (some 0) }

/-- With its new root in place a heap that was cut has every variable in its place. -/
theorem Placed.cut_rooted (h : Placed c q) (hlast : q.heap[q.size - 1]? = some last) :
    Placed c ((q.cut last).rooted last) where
  keys_size := h.keys_size
  places_size := by simpa [rooted, cut] using h.places_size
  place_of_entry := by
    intro u i hi
    have hlp : last < q.places.size := by have := h.le_of_entry hlast; rw [h.places_size]; omega
    have hilt : i < q.size - 1 := size_cut (q := q) ▸ lt_size_of_entry (q := q.cut last) hi
    have hi' : (q.cut last).heap[i]? = some u := hi
    rw [heap_cut hilt] at hi'
    simp only [rooted, cut, Array.getElem?_setIfInBounds]
    by_cases hi0 : i = 0
    · rw [if_pos hi0, Option.some.injEq] at hi'
      rw [if_pos hi', if_pos hlp, hi0]
    · rw [if_neg hi0] at hi'
      have hlu : last ≠ u := by
        intro hlu
        have := h.place_unique hi' (hlu ▸ hlast)
        omega
      rw [if_neg hlu]
      exact h.place_of_entry hi'

/-- A heap that was cut is in order except at its root. -/
theorem WellFormed.sinking_cut (h : WellFormed c q) (hroot : q.heap[0]? = some v)
    (hlast : q.heap[q.size - 1]? = some last) :
    SinkingAt ((q.cut last).rooted last).rank (q.size - 1) 0 := by
  have hcontents := h.contents_cut hroot hlast
  refine h.ordered.replaceRoot (by omega) fun j hj0 hj => ?_
  obtain ⟨w, hw⟩ := exists_entry (q := q) (i := j) (by omega)
  have hentry : ((q.cut last).rooted last).heap[j]? = some w := by
    show (q.cut last).heap[j]? = some w
    rw [heap_cut hj, if_neg (by omega), hw]
  have hkey : ((q.cut last).rooted last).contents.key = q.contents.key := by
    show (q.cut last).contents.key = q.contents.key
    rw [hcontents, KeyedSet.key_erase]
  rw [rank_eq hentry, rank_eq hw, hkey]

/-- Taking the place of an absent variable away completes a heap in order. -/
theorem Placed.erasePlace (h : Placed c q) (hv : v ≤ c) (horder : HeapOrder q.rank q.size)
    (hmem : v ∉ q.contents.queued)
    (habsent : ∀ {u : ℕ}, u ≤ c → u ≠ v → u ∉ q.contents.queued → q.places[u]? = some none) :
    ∃ q', q.setPlace v none = .ok q' ∧ WellFormed c q' ∧ q'.contents = q.contents := by
  have hvp : v < q.places.size := by rw [h.places_size]; omega
  refine ⟨_, setPlace_eq hvp, ⟨⟨h.keys_size, ?_, ?_⟩, ?_, horder⟩, rfl⟩
  · simpa using h.places_size
  · intro u i hi
    have hvu : v ≠ u := fun hvu => hmem (mem_queued_iff.mpr ⟨i, hvu ▸ hi⟩)
    simp only [Array.getElem?_setIfInBounds, if_neg hvu]
    exact h.place_of_entry hi
  · intro u hu hnot
    simp only [Array.getElem?_setIfInBounds]
    by_cases hvu : v = u
    · rw [if_pos hvu, if_pos hvp]
    · rw [if_neg hvu]
      exact habsent hu (Ne.symm hvu) hnot

/-- The steps of a pop on a heap that is not empty. -/
theorem popMax_eq (hroot : q.heap[0]? = some v) (hback : q.heap.back? = some last) :
    q.popMax = if (q.cut last).isEmpty then do
        return some (v, ← (q.cut last).setPlace v none)
      else do
        let q₁ ← (q.cut last).setPlace last (some 0)
        let q₂ ← q₁.siftDown q₁.size 0
        return some (v, ← q₂.setPlace v none) := by
  simp only [popMax, hroot, hback]
  rfl

/-- The variable at the root has a largest key. -/
theorem WellFormed.isMax_root (h : WellFormed c q) (hroot : q.heap[0]? = some v) :
    q.contents.IsMax v := by
  refine ⟨mem_queued_iff.mpr ⟨0, hroot⟩, fun w hw => ?_⟩
  obtain ⟨i, hi⟩ := mem_queued_iff.mp hw
  rw [← rank_eq hroot, ← rank_eq hi]
  exact h.ordered.le_root (lt_size_of_entry hi)

/-- Only the root loses its entry by a cut, so everything else absent was absent before. -/
theorem WellFormed.place_of_absent_cut (h : WellFormed c q) (hroot : q.heap[0]? = some v)
    (hlast : q.heap[q.size - 1]? = some last) {u : ℕ} (hu : u ≤ c) (huv : u ≠ v)
    (hmem : u ∉ (q.cut last).contents.queued) : q.places[u]? = some none := by
  rw [h.contents_cut hroot hlast, KeyedSet.mem_queued_erase, not_and] at hmem
  exact h.place_of_absent hu (hmem huv)

/-- The root is no longer queued after a cut. -/
theorem WellFormed.not_mem_queued_cut (h : WellFormed c q) (hroot : q.heap[0]? = some v)
    (hlast : q.heap[q.size - 1]? = some last) : v ∉ (q.cut last).contents.queued := by
  rw [h.contents_cut hroot hlast, KeyedSet.mem_queued_erase]
  exact fun hv => hv.1 rfl

/-- A heap with a single variable gives it up and is empty. -/
theorem WellFormed.popMax_of_single (h : WellFormed c q) (hroot : q.heap[0]? = some v)
    (hlast : q.heap[q.size - 1]? = some last) (hsingle : q.size = 1) :
    ∃ q', q.popMax = .ok (some (v, q')) ∧ WellFormed c q' ∧
      q'.contents = q.contents.erase v := by
  have hback : q.heap.back? = some last := by rw [Array.back?_eq_getElem?]; exact hlast
  have hcut : (q.cut last).size = 0 := by rw [size_cut]; omega
  have hisEmpty : (q.cut last).isEmpty = true := by
    rw [KeyedHeap.isEmpty, Array.isEmpty_iff_size_eq_zero]
    exact hcut
  have hplaced : Placed c (q.cut last) :=
    ⟨h.keys_size, h.places_size, fun {u i} hi => by
      have := lt_size_of_entry hi
      omega⟩
  obtain ⟨q', hq', hwf, hsame⟩ := hplaced.erasePlace (h.le_of_entry hroot)
    (fun j _ hj => by omega) (h.not_mem_queued_cut hroot hlast)
    (h.place_of_absent_cut hroot hlast)
  refine ⟨q', ?_, hwf, hsame.trans (h.contents_cut hroot hlast)⟩
  rw [popMax_eq hroot hback, if_pos hisEmpty, hq']
  rfl

/-- A heap with several variables gives up its root, and its last variable sinks from there. -/
theorem WellFormed.popMax_of_several (h : WellFormed c q) (hroot : q.heap[0]? = some v)
    (hlast : q.heap[q.size - 1]? = some last) (hseveral : 1 < q.size) :
    ∃ q', q.popMax = .ok (some (v, q')) ∧ WellFormed c q' ∧
      q'.contents = q.contents.erase v := by
  have hback : q.heap.back? = some last := by rw [Array.back?_eq_getElem?]; exact hlast
  have hcut : (q.cut last).size = q.size - 1 := size_cut
  have hisEmpty : ¬ (q.cut last).isEmpty = true := by
    rw [KeyedHeap.isEmpty, Array.isEmpty_iff_size_eq_zero]
    show ¬ (q.cut last).size = 0
    omega
  have hrooted : (q.cut last).setPlace last (some 0) = .ok ((q.cut last).rooted last) := by
    have hplaces : (q.cut last).places.size = c + 1 := h.places_size
    have := h.le_of_entry hlast
    exact setPlace_eq (by omega)
  obtain ⟨q₁, hq₁, hsifted⟩ := (h.toPlaced.cut_rooted hlast).siftDown (i := 0)
    (by show 0 < (q.cut last).size; omega)
    (by show SinkingAt _ (q.cut last).size 0; rw [hcut]; exact h.sinking_cut hroot hlast)
  have hcontents : q₁.contents = (q.cut last).contents := hsifted.contents_eq
  have habsent : ∀ {u : ℕ}, u ≤ c → u ≠ v → u ∉ q₁.contents.queued →
      q₁.places[u]? = some none := by
    intro u hu huv hmem
    rw [hcontents] at hmem
    -- The last variable has got a new place, but it is queued.
    have hlu : last ≠ u := by
      rintro rfl
      refine hmem (mem_queued_iff.mpr ⟨0, ?_⟩)
      rw [heap_cut (by omega), if_pos rfl]
    rw [hsifted.places_eq hmem]
    simp only [rooted, cut, Array.getElem?_setIfInBounds, if_neg hlu]
    exact h.place_of_absent_cut hroot hlast hu huv hmem
  obtain ⟨q', hq', hwf, hsame⟩ := hsifted.placed.erasePlace (h.le_of_entry hroot) hsifted.ordered
    (by rw [hcontents]; exact h.not_mem_queued_cut hroot hlast) habsent
  refine ⟨q', ?_, hwf, (hsame.trans hcontents).trans (h.contents_cut hroot hlast)⟩
  rw [popMax_eq hroot hback, if_neg hisEmpty, hrooted]
  simp only [bind, Except.bind, hq₁, hq']
  rfl

/-- An empty heap answers `none`; any other gives up a variable with the largest key. -/
theorem WellFormed.popMax (h : WellFormed c q) :
    (q.contents.queued = ∅ ∧ q.popMax = .ok none) ∨
      ∃ v q', q.popMax = .ok (some (v, q')) ∧ q.contents.IsMax v ∧ WellFormed c q' ∧
        q'.contents = q.contents.erase v := by
  by_cases hsize : q.size = 0
  · refine .inl ⟨by rwa [← Finset.card_eq_zero, ← h.size_eq_card], ?_⟩
    have hnone : q.heap[0]? = none := by
      rw [Array.getElem?_eq_none_iff]
      exact hsize.le
    simp only [KeyedHeap.popMax, hnone]
  · right
    obtain ⟨v, hroot⟩ := exists_entry (q := q) (i := 0) (by omega)
    obtain ⟨last, hlast⟩ := exists_entry (q := q) (i := q.size - 1) (by omega)
    obtain ⟨q', hpop, hrest⟩ : ∃ q', q.popMax = .ok (some (v, q')) ∧ WellFormed c q' ∧
        q'.contents = q.contents.erase v := by
      by_cases hsingle : q.size = 1
      · exact h.popMax_of_single hroot hlast hsingle
      · exact h.popMax_of_several hroot hlast (by omega)
    exact ⟨v, q', hpop, h.isMax_root hroot, hrest⟩

/-- Repeated `popMax` lists every queued variable once, by descending keys. -/
theorem WellFormed.firstOut {n : ℕ} (h : WellFormed c q) (hn : n = q.size) :
    ∃ vs, firstOut n q = .ok vs ∧ vs.Nodup ∧ (∀ v, v ∈ vs ↔ v ∈ q.contents.queued) ∧
      vs.Pairwise fun v w => q.contents.key w ≤ q.contents.key v := by
  induction n generalizing q with
  | zero =>
    have hempty : q.contents.queued = ∅ := by
      rw [← Finset.card_eq_zero, ← h.size_eq_card, ← hn]
    exact ⟨[], rfl, .nil, by simp [hempty], .nil⟩
  | succ n ih =>
    rcases h.popMax with ⟨hempty, -⟩ | ⟨v, q', hpop, hmax, hwf, hcontents⟩
    · rw [h.size_eq_card, hempty] at hn
      simp at hn
    · have hsize : n = q'.size := by
        rw [hwf.size_eq_card, hcontents, KeyedSet.erase, Finset.card_erase_of_mem hmax.1,
          ← h.size_eq_card]
        omega
      obtain ⟨vs, hvs, hnodup, hmem, hsorted⟩ := ih hwf hsize
      rw [hcontents] at hmem hsorted
      refine ⟨v :: vs, ?_, List.nodup_cons.mpr ⟨?_, hnodup⟩, fun w => ?_,
        List.pairwise_cons.mpr ⟨?_, hsorted⟩⟩
      · simp only [KeyedHeap.firstOut, hpop, hvs, bind, Except.bind, pure, Except.pure]
      · simp [hmem]
      · rw [List.mem_cons, hmem, KeyedSet.mem_queued_erase]
        by_cases hwv : w = v
        · simp [hwv, hmax.1]
        · simp [hwv]
      · intro w hw
        rw [hmem, KeyedSet.mem_queued_erase] at hw
        exact hmax.2 w hw.2

end SatSearch.KeyedHeap
