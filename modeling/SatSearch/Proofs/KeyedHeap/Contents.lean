import SatSearch.Proofs.KeyedHeap.Sift
import Mathlib.Data.Finset.Insert

/-!
# What each operation does to the contents

On a well-formed heap `update` and `insert` succeed for every variable of the table, leave a
well-formed heap, and change the contents as their names say. Both first change the tables without
moving anything; what they change is out of order at one place only, and a sift repairs that.
-/

namespace SatSearch

namespace KeyedSet

/-- Gives a variable a key. -/
def setKey (a : KeyedSet) (v k : ℕ) : KeyedSet := { a with key := Function.update a.key v k }

/-- Gives a variable a key and queues it. -/
def insert (a : KeyedSet) (v k : ℕ) : KeyedSet where
  key := Function.update a.key v k
  queued := Insert.insert v a.queued

/-- Takes a variable out of the queue. -/
def erase (a : KeyedSet) (v : ℕ) : KeyedSet := { a with queued := a.queued.erase v }

/-- A queued variable with the largest key. -/
def IsMax (a : KeyedSet) (v : ℕ) : Prop := v ∈ a.queued ∧ ∀ w ∈ a.queued, a.key w ≤ a.key v

variable {a : KeyedSet} {v w k : ℕ}

/-- The variable that is given a key has it. -/
@[simp] theorem key_setKey_self : (a.setKey v k).key v = k := Function.update_self ..

/-- Other variables keep their keys. -/
theorem key_setKey_of_ne (h : w ≠ v) : (a.setKey v k).key w = a.key w :=
  Function.update_of_ne h ..

/-- A key changes nothing about what is queued. -/
@[simp] theorem queued_setKey : (a.setKey v k).queued = a.queued := rfl

/-- Inserting what is queued only sets its key. -/
theorem insert_of_mem (h : v ∈ a.queued) : a.insert v k = a.setKey v k :=
  KeyedSet.ext rfl (Finset.insert_eq_of_mem h)

/-- Inserting queues one variable more. -/
@[simp] theorem mem_queued_insert : w ∈ (a.insert v k).queued ↔ w = v ∨ w ∈ a.queued :=
  Finset.mem_insert

/-- The variable that is inserted has its key. -/
@[simp] theorem key_insert_self : (a.insert v k).key v = k := Function.update_self ..

/-- Other variables keep their keys. -/
theorem key_insert_of_ne (h : w ≠ v) : (a.insert v k).key w = a.key w :=
  Function.update_of_ne h ..

/-- Erasing changes no keys. -/
@[simp] theorem key_erase : (a.erase v).key = a.key := rfl

/-- Erasing takes one variable out of the queue. -/
@[simp] theorem mem_queued_erase : w ∈ (a.erase v).queued ↔ w ≠ v ∧ w ∈ a.queued :=
  Finset.mem_erase

end KeyedSet

namespace KeyedHeap

variable {c v w i k : ℕ} {q : KeyedHeap}

/-- The heap with another key for one variable, which has not moved yet. -/
def withKey (q : KeyedHeap) (v k : ℕ) : KeyedHeap :=
  { q with keys := q.keys.setIfInBounds v k }

/-- Storing a key sets it in the contents. -/
theorem contents_withKey (h : v < q.keys.size) :
    (q.withKey v k).contents = q.contents.setKey v k := by
  refine KeyedSet.ext (funext fun u => ?_) rfl
  simp only [contents, withKey, KeyedSet.setKey, Array.getElem?_setIfInBounds,
    Function.update_apply]
  by_cases huv : u = v
  · simp only [huv, if_true, if_pos h, Option.getD_some]
  · simp only [huv, Ne.symm huv, if_false]

/-- Storing a key moves nothing. -/
theorem Placed.withKey (h : Placed c q) (v k : ℕ) : Placed c (q.withKey v k) where
  keys_size := by simpa [KeyedHeap.withKey] using h.keys_size
  places_size := h.places_size
  place_of_entry := h.place_of_entry

/-- The new key changes the rank of no place but the one of its variable. -/
theorem rank_withKey_of_ne (hi : q.heap[i]? ≠ some v) (hv : v < q.keys.size) :
    (q.withKey v k).rank i = q.rank i := by
  have hheap : (q.withKey v k).heap = q.heap := rfl
  rw [rank, rank, hheap, contents_withKey hv]
  cases hw : q.heap[i]? with
  | none => rfl
  | some w =>
    have hne : w ≠ v := fun hwv => hi (hwv ▸ hw)
    exact KeyedSet.key_setKey_of_ne hne

/-- The place of a variable has the key that is stored for it. -/
theorem rank_withKey_self (hi : q.heap[i]? = some v) (hv : v < q.keys.size) :
    (q.withKey v k).rank i = k := by
  have hheap : (q.withKey v k).heap[i]? = some v := hi
  rw [rank_eq hheap, contents_withKey hv, KeyedSet.key_setKey_self]

/-- The key of a variable within the capacity can be stored. -/
theorem WellFormed.setKey_eq (h : WellFormed c q) (hv : v ≤ c) :
    q.setKey v k = .ok (q.withKey v k) :=
  KeyedHeap.setKey_eq (by rw [h.keys_size]; omega)

/-- An update sets the key and keeps the heap well formed. -/
theorem WellFormed.update (h : WellFormed c q) (hv : v ≤ c) (k : ℕ) :
    ∃ q', q.update v k = .ok q' ∧ WellFormed c q' ∧ q'.contents = q.contents.setKey v k := by
  have hvk : v < q.keys.size := by rw [h.keys_size]; omega
  have hcontents : (q.withKey v k).contents = q.contents.setKey v k := contents_withKey hvk
  have hplaced := h.toPlaced.withKey v k
  have habsent : ∀ {u : ℕ}, u ≤ c → u ∉ (q.withKey v k).contents.queued →
      (q.withKey v k).places[u]? = some none := fun hu hmem => h.place_of_absent hu hmem
  have hplace : (q.withKey v k).place v = q.place v := rfl
  simp only [KeyedHeap.update, h.key_eq hv, h.setKey_eq hv, bind, Except.bind, hplace]
  rcases h.place_cases hv with ⟨i, hi, hentry, -⟩ | ⟨hnone, hmem⟩
  · have hrank : q.rank i = q.contents.key v := rank_eq hentry
    have hself : (q.withKey v k).rank i = k := rank_withKey_self hentry hvk
    have hother : ∀ j, j ≠ i → (q.withKey v k).rank j = q.rank j := fun j hji =>
      rank_withKey_of_ne (fun hj => hji (h.place_unique hj hentry)) hvk
    have hilt : i < q.size := lt_size_of_entry hentry
    simp only [hi]
    split
    case isTrue hlt =>
      obtain ⟨q', hq', hsifted⟩ := hplaced.siftUp hilt
        (h.ordered.raise hilt hother (by omega))
      exact ⟨q', hq', hsifted.wellFormed habsent, hsifted.contents_eq.trans hcontents⟩
    case isFalse hnlt =>
      split
      case isTrue hgt =>
        obtain ⟨q', hq', hsifted⟩ := hplaced.siftDown hilt
          (h.ordered.lower hilt hother (by omega))
        exact ⟨q', hq', hsifted.wellFormed habsent, hsifted.contents_eq.trans hcontents⟩
      case isFalse hngt =>
        refine ⟨_, rfl, ⟨hplaced, habsent, ?_⟩, hcontents⟩
        have hsame : (q.withKey v k).rank = q.rank := by
          funext j
          by_cases hji : j = i
          · rw [hji, hself, hrank]
            omega
          · exact hother j hji
        rw [hsame]
        exact h.ordered
  · simp only [hnone]
    refine ⟨_, rfl, ⟨hplaced, habsent, ?_⟩, hcontents⟩
    have hsame : (q.withKey v k).rank = q.rank := funext fun j =>
      rank_withKey_of_ne (fun hj => hmem (mem_queued_iff.mpr ⟨j, hj⟩)) hvk
    rw [hsame]
    exact h.ordered

/-- The heap with a new variable at its end, which has not moved yet. -/
def appended (q : KeyedHeap) (v k : ℕ) : KeyedHeap where
  keys := q.keys.setIfInBounds v k
  heap := q.heap.push v
  places := q.places.setIfInBounds v (some q.size)

/-- Appending queues one variable more. -/
theorem mem_queued_appended {u : ℕ} :
    u ∈ (q.appended v k).contents.queued ↔ u = v ∨ u ∈ q.contents.queued := by
  simp [contents, appended]

/-- Appending inserts into the contents. -/
theorem contents_appended (h : v < q.keys.size) :
    (q.appended v k).contents = q.contents.insert v k := by
  refine KeyedSet.ext ?_ (Finset.ext fun u => ?_)
  · have hkey : (q.withKey v k).contents.key = Function.update q.contents.key v k :=
      congrArg KeyedSet.key (contents_withKey h)
    exact hkey
  · rw [mem_queued_appended, KeyedSet.mem_queued_insert]

/-- Appending what is not queued keeps every variable in its place. -/
theorem Placed.appended (h : Placed c q) (hv : v ≤ c) (hmem : v ∉ q.contents.queued) (k : ℕ) :
    Placed c (q.appended v k) where
  keys_size := by simpa [KeyedHeap.appended] using h.keys_size
  places_size := by simpa [KeyedHeap.appended] using h.places_size
  place_of_entry := by
    intro u i hi
    have hvp : v < q.places.size := by rw [h.places_size]; omega
    simp only [KeyedHeap.appended, Array.getElem?_push, Array.getElem?_setIfInBounds] at hi ⊢
    by_cases his : i = q.heap.size
    · rw [if_pos his, Option.some.injEq] at hi
      rw [if_pos hi, if_pos hvp, his, size]
    · rw [if_neg his] at hi
      have hne : v ≠ u := fun hvu => hmem (mem_queued_iff.mpr ⟨i, hvu ▸ hi⟩)
      rw [if_neg hne]
      exact h.place_of_entry hi

/-- Appending leaves the keys at the earlier places. -/
theorem rank_appended (hmem : v ∉ q.contents.queued) (hv : v < q.keys.size) (hi : i < q.size) :
    (q.appended v k).rank i = q.rank i := by
  obtain ⟨w, hw⟩ := exists_entry hi
  have hwv : w ≠ v := fun hwv => hmem (mem_queued_iff.mpr ⟨i, hwv ▸ hw⟩)
  have hne : i ≠ q.heap.size := Nat.ne_of_lt hi
  have hentry : (q.appended v k).heap[i]? = some w := by
    simp only [appended, Array.getElem?_push, if_neg hne, hw]
  rw [rank_eq hentry, rank_eq hw, contents_appended hv, KeyedSet.key_insert_of_ne hwv]

/-- An insertion inserts into the contents and keeps the heap well formed. -/
theorem WellFormed.insert (h : WellFormed c q) (hv : v ≤ c) (k : ℕ) :
    ∃ q', q.insert v k = .ok q' ∧ WellFormed c q' ∧ q'.contents = q.contents.insert v k := by
  have hvk : v < q.keys.size := by rw [h.keys_size]; omega
  rcases h.place_cases hv with ⟨i, hi, -, hmem⟩ | ⟨hnone, hmem⟩
  · obtain ⟨q', hq', hwf, hcontents⟩ := h.update hv k
    refine ⟨q', ?_, hwf, hcontents.trans (KeyedSet.insert_of_mem hmem).symm⟩
    simp only [KeyedHeap.insert, hi, bind, Except.bind, hq']
  · have hvp : v < (q.withKey v k).places.size := by
      show v < q.places.size
      rw [h.places_size]
      omega
    have hsize : (q.appended v k).size = q.size + 1 := by
      simp only [appended, size, Array.size_push]
    obtain ⟨q', hq', hsifted⟩ := (h.toPlaced.appended hv hmem k).siftUp (i := q.size)
      (by omega)
      (by rw [hsize]; exact h.ordered.push fun j hj => rank_appended hmem hvk hj)
    refine ⟨q', ?_, hsifted.wellFormed fun {u} hu hnot => ?_, ?_⟩
    · simp only [KeyedHeap.insert, hnone, h.setKey_eq hv, KeyedHeap.setPlace_eq hvp, bind,
        Except.bind]
      exact hq'
    · rw [mem_queued_appended, not_or] at hnot
      simp only [appended, Array.getElem?_setIfInBounds, if_neg (Ne.symm hnot.1)]
      exact h.place_of_absent hu hnot.2
    · rw [hsifted.contents_eq, contents_appended hvk]

end KeyedHeap

end SatSearch
