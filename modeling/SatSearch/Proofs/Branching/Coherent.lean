import SatSearch.Branching
import SatSearch.Proofs.Faults
import SatSearch.Proofs.KeyedHeap.History
import SatSearch.Proofs.Priority

/-!
# Keys and scores agree

A state of the branching order keeps scores in one table and keys in another. It is coherent if each
queued variable is queued under the key of its present unit score. The state holds only unit scores
whose keys fit, so giving a variable the key of its score always succeeds.
-/

namespace SatSearch

namespace Branching

variable {n v w : ℕ} {b : Bool} {e : Entry} {s s' : Branching}

/-- What is known about a variable, with nothing known beyond the table. -/
def entryAt (s : Branching) (v : ℕ) : Entry := s.entries[v]?.getD {}

/-- The values that the variables have. -/
def valueAt (s : Branching) (v : ℕ) : Option Bool := (s.entryAt v).value

/-- The queued variables. -/
def waiting (s : Branching) : Finset ℕ := s.queue.contents.queued

/-- The tables are for `n` variables, which can be named apart, and the keys of all unit scores
fit. -/
structure Sized (n : ℕ) (s : Branching) : Prop where
  count_lt : n < 2 ^ 32
  entries_size : s.entries.size = n + 1
  unit_fits : ∀ v, Priority.Fits n (s.entryAt v).unit
  queue : s.queue.WellFormed n

/-- Every queued variable has the key of its present unit score. -/
structure Coherent (n : ℕ) (s : Branching) : Prop extends Sized n s where
  key_eq : ∀ v ∈ s.waiting, s.queue.contents.key v = Priority.keyOf n (s.entryAt v).unit v

/-- Every variable up to the last one has its entry in the table. -/
theorem entryAt_of_le (hsize : s.entries.size = n + 1) (hv : v ≤ n) :
    s.entries[v]? = some (s.entryAt v) := by
  have hlt : v < s.entries.size := by omega
  rw [entryAt, Array.getElem?_eq_getElem hlt, Option.getD_some]

/-- Tables of one size with the same entries are the same. -/
theorem entries_ext {t : Branching} (hsize : s.entries.size = t.entries.size)
    (h : s.entryAt = t.entryAt) : s.entries = t.entries := by
  refine Array.ext hsize fun i hs ht => ?_
  have hi := congrFun h i
  rwa [entryAt, entryAt, Array.getElem?_eq_getElem hs, Array.getElem?_eq_getElem ht,
    Option.getD_some, Option.getD_some] at hi

/-- The state with another entry for one variable, whose key has not changed yet. -/
def withEntry (s : Branching) (v : ℕ) (e : Entry) : Branching :=
  { s with entries := s.entries.setIfInBounds v e }

namespace Sized

/-- A waiting variable is one of the formula. -/
theorem le_of_mem (h : Sized n s) (hv : v ∈ s.waiting) : v ≤ n := h.queue.le_of_mem hv

/-- The last variable has a name. -/
theorem lt_wordSize (h : Sized n s) : n < wordSize := h.count_lt

/-- Looking up a variable gives its entry. -/
theorem entry_eq (h : Sized n s) (hv : v ≤ n) : s.entry v = .ok (s.entryAt v) := by
  rw [entry, entryAt_of_le h.entries_size hv]

/-- Beyond the last variable there is no entry to look up. -/
theorem entry_of_lt (h : Sized n s) (hv : n < v) : s.entry v = .error (.unknownVariable v) := by
  have hnone : s.entries[v]? = none := by
    rw [Array.getElem?_eq_none_iff, h.entries_size]
    omega
  rw [entry, hnone]

/-- What is looked up is the entry of a variable. -/
theorem entry_ok (h : Sized n s) (hok : s.entry v = .ok e) : v ≤ n ∧ s.entryAt v = e := by
  by_cases hv : v ≤ n
  · exact ⟨hv, Except.ok.inj ((h.entry_eq hv).symm.trans hok)⟩
  · rw [h.entry_of_lt (by omega)] at hok
    cases hok

/-- Looking up the value of a variable gives the value it has. -/
theorem value_eq (h : Sized n s) (hv : v ≤ n) : s.value v = .ok (s.valueAt v) := by
  rw [value, h.entry_eq hv]
  rfl

/-- A value that is looked up is that of a variable. -/
theorem value_ok (h : Sized n s) {r : Option Bool} (hok : s.value v = .ok r) :
    v ≤ n ∧ s.valueAt v = r := by
  obtain ⟨e, he, hr⟩ := bind_eq_ok.mp hok
  obtain ⟨hv, rfl⟩ := h.entry_ok he
  exact ⟨hv, pure_eq_ok.mp hr⟩

/-- The model lists the values of the variables, the open ones as false. -/
theorem model_eq (h : Sized n s) :
    s.model = Assignment.complete n fun v => (s.valueAt v).getD false := by
  have hcount : s.count % wordSize = n := by
    rw [count, h.entries_size, Nat.add_sub_cancel, Nat.mod_eq_of_lt h.lt_wordSize]
  rw [model, hcount]
  congr 1
  funext v
  rw [valueAt, entryAt]
  cases s.entries[v]? <;> rfl

/-- Writing the entry of a variable succeeds. -/
theorem setEntry_eq (h : Sized n s) (hv : v ≤ n) : s.setEntry v e = .ok (s.withEntry v e) := by
  have hlt : v < s.entries.size := by have := h.entries_size; omega
  simp only [setEntry, withEntry, Array.setIfInBounds, dif_pos hlt]

/-- Only the written entry is another one. -/
theorem entryAt_withEntry (h : Sized n s) (hv : v ≤ n) :
    (s.withEntry v e).entryAt = Function.update s.entryAt v e := by
  have hlt : v < s.entries.size := by have := h.entries_size; omega
  funext w
  rw [entryAt, withEntry, Array.getElem?_setIfInBounds, Function.update_apply]
  by_cases hwv : w = v
  · rw [if_pos hwv.symm, if_pos hlt, if_pos hwv, Option.getD_some]
  · rw [if_neg (Ne.symm hwv), if_neg hwv, entryAt]

/-- Another entry with a key that fits keeps all sizes right. -/
theorem withEntry (h : Sized n s) (hv : v ≤ n) (he : Priority.Fits n e.unit) :
    Sized n (s.withEntry v e) where
  count_lt := h.count_lt
  entries_size := by simpa [Branching.withEntry] using h.entries_size
  unit_fits w := by
    rw [h.entryAt_withEntry hv, Function.update_apply]
    split
    · exact he
    · exact h.unit_fits w
  queue := h.queue

/-- The priority of a variable, at any unit score, is its key over the scale. -/
theorem priority_eq (h : Sized n s) (hv : v ≤ n) :
    s.priority v = .ok ⟨Priority.keyOf n (s.entryAt v).unit v, n + 1⟩ := by
  rw [priority, h.entry_eq hv, scale, h.entries_size]
  exact Priority.ofScore_of_fits (h.unit_fits v) hv

/-- The priority is that of the new unit score. -/
theorem priority_withEntry (h : Sized n s) (hv : v ≤ n) :
    (s.withEntry v e).priority v = Priority.ofScore (n + 1) e.unit v := by
  have hsize : (s.withEntry v e).entries.size = n + 1 := by
    simpa [Branching.withEntry] using h.entries_size
  rw [priority, entry, entryAt_of_le hsize hv, h.entryAt_withEntry hv, Function.update_self, scale,
    hsize]
  rfl

/-- A key that does not fit is not given. -/
theorem rekey_of_not_fits (h : Sized n s) (hv : v ≤ n) (he : ¬Priority.Fits n e.unit) :
    (s.withEntry v e).rekey v = .error .overflow := by
  have htop : below longSize ((2 * e.unit + 1) * (n + 1)) = .error .overflow := if_neg he
  have hpriority : (s.withEntry v e).priority v = .error .overflow := by
    rw [h.priority_withEntry hv, Priority.ofScore, htop]
    rfl
  rw [Branching.rekey, hpriority]
  rfl

/-- A key is computed only for a unit score with which it fits. -/
theorem unit_fits_of_rekey (h : Sized n s) (hv : v ≤ n)
    (hok : (s.withEntry v e).rekey v = .ok s') : Priority.Fits n e.unit := by
  by_contra he
  rw [h.rekey_of_not_fits hv he] at hok
  cases hok

/-- Giving a variable the key of its score makes the state coherent if the others have theirs. -/
theorem rekey (h : Sized n s) (hv : v ≤ n)
    (hothers : ∀ w ∈ s.waiting, w ≠ v →
      s.queue.contents.key w = Priority.keyOf n (s.entryAt w).unit w) :
    ∃ s', s.rekey v = .ok s' ∧ Coherent n s' ∧ s'.entryAt = s.entryAt ∧ s'.waiting = s.waiting := by
  obtain ⟨q, hq, hwf, hcontents⟩ := h.queue.update hv (Priority.keyOf n (s.entryAt v).unit v)
  refine ⟨{ s with queue := q }, ?_, ⟨⟨h.count_lt, h.entries_size, h.unit_fits, hwf⟩, ?_⟩, rfl, ?_⟩
  · simp only [Branching.rekey, h.priority_eq hv, hq, bind, Except.bind, pure, Except.pure]
  · intro w hw
    simp only [waiting, hcontents, KeyedSet.queued_setKey] at hw
    rw [hcontents]
    by_cases hwv : w = v
    · rw [hwv, KeyedSet.key_setKey_self]
      rfl
    · rw [KeyedSet.key_setKey_of_ne hwv]
      exact hothers w hw hwv
  · simp only [waiting, hcontents, KeyedSet.queued_setKey]

end Sized

namespace Coherent

/-- An entry with the same unit score leaves the keys right. -/
theorem withEntry (h : Coherent n s) (hv : v ≤ n) (he : e.unit = (s.entryAt v).unit) :
    Coherent n (s.withEntry v e) where
  toSized := h.toSized.withEntry hv (he ▸ h.unit_fits v)
  key_eq w hw := by
    rw [h.entryAt_withEntry hv, Function.update_apply]
    split
    case isTrue hwv => rw [he, ← hwv]; exact h.key_eq w hw
    case isFalse => exact h.key_eq w hw

/-- Any entry with a unit score in range can be given to a variable together with its key. -/
theorem setEntry_rekey (h : Coherent n s) (hv : v ≤ n) (he : Priority.Fits n e.unit) :
    ∃ s', (s.withEntry v e).rekey v = .ok s' ∧ Coherent n s' ∧
      s'.entryAt = Function.update s.entryAt v e ∧ s'.waiting = s.waiting := by
  obtain ⟨s', hs', hcoherent, hentries, hwaiting⟩ := (h.toSized.withEntry hv he).rekey hv
    fun w hw hwv => by
      rw [h.entryAt_withEntry hv, Function.update_of_ne hwv]
      exact h.key_eq w hw
  exact ⟨s', hs', hcoherent, hentries.trans (h.entryAt_withEntry hv), hwaiting⟩

/-- Queueing a variable, queued already or not, gives it the key of its score. -/
theorem enqueue (h : Coherent n s) (hv : v ≤ n) :
    ∃ s', s.enqueue v = .ok s' ∧ Coherent n s' ∧ s'.entryAt = s.entryAt ∧
      s'.waiting = insert v s.waiting := by
  obtain ⟨q, hq, hwf, hcontents⟩ := h.queue.insert hv (Priority.keyOf n (s.entryAt v).unit v)
  refine ⟨{ s with queue := q }, ?_, ⟨⟨h.count_lt, h.entries_size, h.unit_fits, hwf⟩, ?_⟩, rfl, ?_⟩
  · simp only [Branching.enqueue, h.priority_eq hv, hq, bind, Except.bind, pure, Except.pure]
  · intro w hw
    simp only [waiting, hcontents, KeyedSet.mem_queued_insert] at hw
    rw [hcontents]
    by_cases hwv : w = v
    · rw [hwv, KeyedSet.key_insert_self]
      rfl
    · rw [KeyedSet.key_insert_of_ne hwv]
      exact h.key_eq w (hw.resolve_left hwv)
  · simp only [waiting, hcontents]
    rfl

/-- Asking for a variable tells whether it waits. -/
theorem isQueued_eq (h : Coherent n s) (hv : v ≤ n) :
    s.isQueued v = .ok (decide (v ∈ s.waiting)) :=
  h.queue.contains_eq hv

/-- Beyond the last variable there is nothing to ask for. -/
theorem isQueued_of_lt (h : Coherent n s) (hv : n < v) :
    s.isQueued v = .error (.unknownVariable v) :=
  h.queue.contains_of_lt hv

/-- The answer is yes exactly for the waiting variables. -/
theorem isQueued_iff (h : Coherent n s) : s.isQueued v = .ok true ↔ v ∈ s.waiting := by
  by_cases hv : v ≤ n
  · rw [h.isQueued_eq hv, Except.ok.injEq, decide_eq_true_iff]
  · rw [h.isQueued_of_lt (by omega)]
    exact ⟨fun heq => (nomatch heq), fun hmem => absurd (h.le_of_mem hmem) hv⟩

/-- The queue is as long as there are waiting variables. -/
theorem queued_eq (h : Coherent n s) : s.queued = s.waiting.card := h.queue.size_eq_card

/-- Some variable is queued exactly if one waits. -/
theorem anyQueued_iff (h : Coherent n s) : s.anyQueued = true ↔ s.waiting ≠ ∅ := by
  rw [anyQueued, Bool.not_eq_true', ← Bool.not_eq_true, h.queue.isEmpty_iff]
  rfl

end Coherent

end Branching

end SatSearch
