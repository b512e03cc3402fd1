import SatSearch.Proofs.Branching.Entries
import Mathlib.Algebra.Group.Pi.Basic
import Mathlib.Algebra.Ring.Int.Defs
import Mathlib.Algebra.Ring.Nat

/-!
# Scores that have grown

Counting changes the scores of open variables and gives them the keys that belong to the new scores.
`Raised` says by how much the scores have grown and that nothing else has changed; it holds of every
state, coherent or not. What it says of the queue needs a well-formed heap only: the same variables
are queued, and a key that belonged to its unit score still does.
-/

namespace SatSearch

variable {v n : ℕ}

/-- The entry with more in both scores. -/
def Entry.raised (e : Entry) (unit : ℕ) (polarity : ℤ) : Entry :=
  { e with unit := e.unit + unit, polarity := e.polarity + polarity }

namespace Branching

variable {s s₁ t u : Branching} {e : Entry} {units units' : ℕ → ℕ} {polarities polarities' : ℕ → ℤ}

/-- The variable has the key of its present unit score. -/
def Keyed (s : Branching) (v : ℕ) : Prop :=
  ∃ p, s.priority v = .ok p ∧ s.queue.key v = .ok p.key

/-- The same variables are queued, and whichever had the key of its unit score has it still. -/
structure KeepsQueue (n : ℕ) (s t : Branching) : Prop where
  wellFormed : t.queue.WellFormed n
  waiting_eq : t.waiting = s.waiting
  keyed : ∀ v, s.Keyed v → t.Keyed v

/-- The scores of the open variables have grown by so much. All else is as before. -/
structure Raised (units : ℕ → ℕ) (polarities : ℕ → ℤ) (s t : Branching) : Prop where
  size_eq : t.entries.size = s.entries.size
  entryAt_eq : ∀ v, t.entryAt v =
    if s.valueAt v = none then (s.entryAt v).raised (units v) (polarities v) else s.entryAt v
  keepsQueue : ∀ {n}, s.queue.WellFormed n → KeepsQueue n s t

/-- A state keeps its own queue. -/
theorem KeepsQueue.refl (h : s.queue.WellFormed n) : KeepsQueue n s s := ⟨h, rfl, fun _ hv => hv⟩

/-- What is kept twice in succession is kept. -/
theorem KeepsQueue.trans (hst : KeepsQueue n s t) (htu : KeepsQueue n t u) : KeepsQueue n s u where
  wellFormed := htu.wellFormed
  waiting_eq := htu.waiting_eq.trans hst.waiting_eq
  keyed v hv := htu.keyed v (hst.keyed v hv)

/-- The same variables are queued. -/
theorem KeepsQueue.isQueued_eq (h : KeepsQueue n s t) (hs : s.queue.WellFormed n) (v : ℕ) :
    t.isQueued v = s.isQueued v := by
  by_cases hv : v ≤ n
  · have hmem : v ∈ t.queue.contents.queued ↔ v ∈ s.queue.contents.queued :=
      iff_of_eq (congrArg (v ∈ ·) h.waiting_eq)
    simp only [isQueued, h.wellFormed.contains_eq hv, hs.contains_eq hv, hmem]
  · rw [isQueued, isQueued, h.wellFormed.contains_of_lt (by omega), hs.contains_of_lt (by omega)]

/-- The queue is as long as before. -/
theorem KeepsQueue.queued_eq (h : KeepsQueue n s t) (hs : s.queue.WellFormed n) :
    t.queued = s.queued := by
  have hcard : t.queue.contents.queued.card = s.queue.contents.queued.card :=
    congrArg Finset.card h.waiting_eq
  rw [queued, queued, h.wellFormed.size_eq_card, hs.size_eq_card, hcard]

/-- Another entry for a variable, with the key that belongs to it. -/
theorem KeepsQueue.of_rekey (h : s.queue.WellFormed n) (hset : s.setEntry v e = .ok s₁)
    (hok : s₁.rekey v = .ok t) : KeepsQueue n s t := by
  obtain ⟨hsize, hothers, hqueue⟩ := frame_of_setEntry_ok hset
  obtain ⟨p, q, hp, hq, rfl⟩ := rekey_ok hok
  rw [hqueue] at hq
  have hv : v ≤ n := by
    obtain ⟨k, hk, -⟩ := bind_eq_ok.mp hq
    exact (h.key_ok hk).1
  obtain ⟨q', hq', hwf, hcontents⟩ := h.update hv p.key
  obtain rfl := Except.ok.inj (hq'.symm.trans hq)
  refine ⟨hwf, ?_, fun w hw => ?_⟩
  · rw [waiting, hcontents, KeyedSet.queued_setKey, waiting]
  · by_cases hwv : w = v
    · rw [hwv]
      refine ⟨p, hp, ?_⟩
      rw [hwf.key_eq hv, hcontents, KeyedSet.key_setKey_self]
    · obtain ⟨p', hp', hkey⟩ := hw
      obtain ⟨hwn, hkey⟩ := h.key_ok hkey
      refine ⟨p', ?_, ?_⟩
      · rw [← hp', priority, priority, entry, entry, scale, scale, hothers w hwv, hsize]
      · rw [hwf.key_eq hwn, hcontents, KeyedSet.key_setKey_of_ne hwv, hkey]

namespace Raised

/-- Without counting no score is raised. -/
theorem refl (s : Branching) : Raised 0 0 s s where
  size_eq := rfl
  entryAt_eq v := by
    split <;> simp [Entry.raised]
  keepsQueue := .refl

/-- Raised scores come with the same values. -/
theorem valueAt_eq (h : Raised units polarities s t) : t.valueAt = s.valueAt := by
  funext v
  rw [valueAt, h.entryAt_eq]
  split <;> rfl

/-- One raise after another adds them up. -/
theorem trans (hst : Raised units polarities s t) (htu : Raised units' polarities' t u) :
    Raised (units + units') (polarities + polarities') s u where
  size_eq := htu.size_eq.trans hst.size_eq
  entryAt_eq v := by
    rw [htu.entryAt_eq, hst.valueAt_eq, hst.entryAt_eq]
    split
    · simp [Entry.raised, add_assoc]
    · rfl
  keepsQueue hs := (hst.keepsQueue hs).trans (htu.keepsQueue (hst.keepsQueue hs).wellFormed)

/-- A look-up finds the raised entry if the variable is open, else the old one. -/
theorem entry_eq (h : Raised units polarities s t) (v : ℕ) : t.entry v =
    (fun e => if e.value = none then e.raised (units v) (polarities v) else e) <$> s.entry v := by
  by_cases hv : v < s.entries.size
  · rw [entry_of_lt hv, entry_of_lt (by rwa [h.size_eq]), h.entryAt_eq]
    rfl
  · rw [entry_of_le (Nat.not_lt.mp hv), entry_of_le (by rw [h.size_eq]; omega)]
    rfl

/-- A look-up of a value finds what it found before. -/
theorem value_eq (h : Raised units polarities s t) (v : ℕ) : t.value v = s.value v := by
  rw [value, value, h.entry_eq]
  cases s.entry v with
  | error fault => rfl
  | ok e =>
    refine congrArg Except.ok ?_
    simp only
    split <;> rfl

/-- By how much the scores of variables with a value have grown does not matter. -/
theorem congr (h : Raised units polarities s t)
    (hsame : ∀ v, s.valueAt v = none → units' v = units v ∧ polarities' v = polarities v) :
    Raised units' polarities' s t where
  size_eq := h.size_eq
  entryAt_eq v := by
    rw [h.entryAt_eq]
    split
    case isTrue hopen => rw [(hsame v hopen).1, (hsame v hopen).2]
    case isFalse => rfl
  keepsQueue := h.keepsQueue

/-- The scores of one open variable have grown and its key has been renewed. -/
theorem of_rekey {unit : ℕ} {polarity : ℤ} (hopen : s.valueAt v = none)
    (hset : s.setEntry v ((s.entryAt v).raised unit polarity) = .ok s₁) (hok : s₁.rekey v = .ok t) :
    Raised (Pi.single v unit) (Pi.single v polarity) s t where
  size_eq := by
    obtain ⟨p, q, -, -, rfl⟩ := rekey_ok hok
    exact (frame_of_setEntry_ok hset).1
  entryAt_eq w := by
    rw [entryAt_of_rekey_ok hok, entryAt_of_setEntry_ok hset, Function.update_apply]
    by_cases hwv : w = v
    · rw [if_pos hwv, hwv, if_pos hopen, Pi.single_eq_same, Pi.single_eq_same]
    · rw [if_neg hwv, Pi.single_eq_of_ne hwv, Pi.single_eq_of_ne hwv]
      split <;> simp [Entry.raised]
  keepsQueue hs := .of_rekey hs hset hok

end Raised

/-- Counting a unit raises one unit score by one. -/
theorem raised_of_countUnit_ok (hok : s.countUnit v = .ok t) : Raised (Pi.single v 1) 0 s t := by
  obtain ⟨_, hopen, hok⟩ := bind_eq_ok.mp hok
  obtain ⟨e, he, hok⟩ := bind_eq_ok.mp hok
  obtain ⟨unit, hunit, hok⟩ := bind_eq_ok.mp hok
  obtain ⟨s₁, hs₁, hrekey⟩ := bind_eq_ok.mp hok
  obtain rfl := entryAt_of_entry_ok he
  obtain ⟨-, rfl⟩ := below_eq_ok.mp hunit
  have hset : s.setEntry v ((s.entryAt v).raised 1 0) = .ok s₁ := by
    rw [← hs₁, Entry.raised, add_zero]
  have hraised := Raised.of_rekey (valueAt_of_requireOpen_ok hopen) hset hrekey
  rwa [Pi.single_zero] at hraised

/-- Counting an occurrence raises or lowers one polarity by one. -/
theorem raised_of_countOccurrence_ok {positive : Bool}
    (hok : s.countOccurrence v positive = .ok t) :
    Raised 0 (Pi.single v (if positive then 1 else -1)) s t := by
  obtain ⟨_, hopen, hok⟩ := bind_eq_ok.mp hok
  obtain ⟨e, he, hok⟩ := bind_eq_ok.mp hok
  obtain ⟨polarity, hpolarity, hok⟩ := bind_eq_ok.mp hok
  obtain ⟨s₁, hs₁, hrekey⟩ := bind_eq_ok.mp hok
  obtain rfl := entryAt_of_entry_ok he
  obtain ⟨-, rfl⟩ := inSignedWord_eq_ok.mp hpolarity
  have hset : s.setEntry v ((s.entryAt v).raised 0 (if positive then 1 else -1)) = .ok s₁ := by
    rw [← hs₁, Entry.raised, add_zero]
  have hraised := Raised.of_rekey (valueAt_of_requireOpen_ok hopen) hset hrekey
  rwa [Pi.single_zero] at hraised

end Branching

end SatSearch
