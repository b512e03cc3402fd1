import SatSearch.Proofs.KeyedHeap.Order
import Mathlib.Data.Finset.Card

/-!
# What a well-formed heap contains

A well-formed heap stands for a set of queued variables and a key for every variable. Its three
tables say the same thing twice: a variable has a place exactly if the heap has it there. This file
reads the tables off through that link.
-/

namespace SatSearch

/-- A set of queued variables and a key for every variable, queued or not. -/
@[ext] structure KeyedSet where
  key : ℕ → ℕ
  queued : Finset ℕ

namespace KeyedHeap

variable {c v w i j k : ℕ} {q : KeyedHeap}

/-- What the tables of a heap stand for. -/
def contents (q : KeyedHeap) : KeyedSet where
  key v := q.keys[v]?.getD 0
  queued := q.heap.toList.toFinset

/-- The key of the variable at a place, 0 where there is none. -/
def rank (q : KeyedHeap) (i : ℕ) : ℕ := (q.heap[i]?.map q.contents.key).getD 0

/-- Every variable `0..c` has a key, and the place of every queued one is kept. -/
structure Placed (c : ℕ) (q : KeyedHeap) : Prop where
  keys_size : q.keys.size = c + 1
  places_size : q.places.size = c + 1
  place_of_entry : ∀ {v i : ℕ}, q.heap[i]? = some v → q.places[v]? = some (some i)

/-- A heap in order, in which exactly the queued variables have a place. -/
structure WellFormed (c : ℕ) (q : KeyedHeap) : Prop extends Placed c q where
  place_of_absent : ∀ {v : ℕ}, v ≤ c → v ∉ q.contents.queued → q.places[v]? = some none
  ordered : HeapOrder q.rank q.size

/-- A variable is queued if it is at some place of the heap. -/
theorem mem_queued_iff : v ∈ q.contents.queued ↔ ∃ i : ℕ, q.heap[i]? = some v := by
  simp only [contents, List.mem_toFinset, List.mem_iff_getElem?, Array.getElem?_toList]

/-- The key at a place is that of the variable there. -/
theorem rank_eq (h : q.heap[i]? = some v) : q.rank i = q.contents.key v := by
  simp only [rank, h, Option.map_some, Option.getD_some]

/-- Every place within the size has an entry. -/
theorem exists_entry (hi : i < q.size) : ∃ v, q.heap[i]? = some v :=
  ⟨_, Array.getElem?_eq_getElem hi⟩

/-- A place with an entry is within the size. -/
theorem lt_size_of_entry (h : q.heap[i]? = some v) : i < q.size :=
  (Array.getElem?_eq_some_iff.mp h).1

/-- Reading an entry succeeds where there is one. -/
@[simp] theorem entry_eq_ok : q.entry i = .ok v ↔ q.heap[i]? = some v := by
  unfold entry
  split <;> simp_all

namespace Placed

/-- A queued variable is one of `0..c`. -/
theorem le_of_entry (h : Placed c q) (hv : q.heap[i]? = some v) : v ≤ c := by
  have hlt := (Array.getElem?_eq_some_iff.mp (h.place_of_entry hv)).1
  rw [h.places_size] at hlt
  omega

/-- What is queued is within the capacity. -/
theorem le_of_mem (h : Placed c q) (hv : v ∈ q.contents.queued) : v ≤ c := by
  obtain ⟨i, hi⟩ := mem_queued_iff.mp hv
  exact h.le_of_entry hi

/-- No variable is at two places. -/
theorem place_unique (h : Placed c q) (hi : q.heap[i]? = some v) (hj : q.heap[j]? = some v) :
    i = j := by
  have hplace := h.place_of_entry hi
  rw [h.place_of_entry hj] at hplace
  simpa using hplace.symm

/-- The size of a heap is the number of variables queued. -/
theorem size_eq_card (h : Placed c q) : q.size = q.contents.queued.card := by
  have hnodup : q.heap.toList.Nodup := by
    rw [List.nodup_iff_getElem?_ne_getElem?]
    intro i j hij hj heq
    rw [Array.length_toList] at hj
    rw [Array.getElem?_toList, Array.getElem?_toList] at heq
    obtain ⟨v, hv⟩ := exists_entry (q := q) (show j < q.size from hj)
    have := h.place_unique (heq.trans hv) hv
    omega
  rw [contents, List.toFinset_card_of_nodup hnodup, Array.length_toList, size]

/-- A heap is empty if nothing is queued. -/
theorem isEmpty_iff (h : Placed c q) : q.isEmpty = true ↔ q.contents.queued = ∅ := by
  rw [← Finset.card_eq_zero, ← h.size_eq_card, isEmpty, Array.isEmpty_iff_size_eq_zero, size]

/-- The key of a variable within the capacity can be read. -/
theorem key_eq (h : Placed c q) (hv : v ≤ c) : q.key v = .ok (q.contents.key v) := by
  have hlt : v < q.keys.size := by rw [h.keys_size]; omega
  simp only [key, contents, Array.getElem?_eq_getElem hlt, Option.getD_some]

/-- A key that can be read is that of a variable within the capacity. -/
theorem key_ok (h : Placed c q) (hok : q.key v = .ok k) : v ≤ c ∧ q.contents.key v = k := by
  by_cases hv : v ≤ c
  · exact ⟨hv, Except.ok.inj ((h.key_eq hv).symm.trans hok)⟩
  · have hnone : q.keys[v]? = none := by
      rw [Array.getElem?_eq_none_iff, h.keys_size]
      omega
    rw [key, hnone] at hok
    cases hok

/-- Variables of the table are compared by their keys. -/
theorem less_eq (h : Placed c q) (hv : v ≤ c) (hw : w ≤ c) :
    q.less v w = .ok (decide (q.contents.key v < q.contents.key w)) := by
  rw [less, h.key_eq hv, h.key_eq hw]
  rfl

end Placed

namespace WellFormed

/-- A variable of the table has a place if it is queued and none otherwise. -/
theorem place_cases (h : WellFormed c q) (hv : v ≤ c) :
    (∃ i, q.place v = .ok (some i) ∧ q.heap[i]? = some v ∧ v ∈ q.contents.queued) ∨
      (q.place v = .ok none ∧ v ∉ q.contents.queued) := by
  by_cases hmem : v ∈ q.contents.queued
  · obtain ⟨i, hi⟩ := mem_queued_iff.mp hmem
    exact .inl ⟨i, by rw [place, h.place_of_entry hi], hi, hmem⟩
  · exact .inr ⟨by rw [place, h.place_of_absent hv hmem], hmem⟩

/-- Whether a variable within the capacity is queued can be asked. -/
theorem contains_eq (h : WellFormed c q) (hv : v ≤ c) :
    q.contains v = .ok (decide (v ∈ q.contents.queued)) := by
  rcases h.place_cases hv with ⟨i, hplace, -, hmem⟩ | ⟨hplace, hmem⟩
  · rw [contains, hplace, decide_eq_true hmem]
    rfl
  · rw [contains, hplace, decide_eq_false hmem]
    rfl

/-- A variable beyond the tables faults in every look-up. -/
theorem contains_of_lt (h : WellFormed c q) (hv : c < v) :
    q.contains v = .error (.unknownVariable v) := by
  have hnone : q.places[v]? = none := by
    rw [Array.getElem?_eq_none_iff, h.places_size]
    omega
  rw [contains, place, hnone]
  rfl

end WellFormed

end KeyedHeap

end SatSearch
