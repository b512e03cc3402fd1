import SatSearch.Proofs.Branching.Steps

/-!
# Entries without a look at the queue

What a variable's entry says is looked up and changed in one table, whatever the queue holds. So the
effect of a step on the entries can be stated for every state, coherent or not: the step either
faults or changes the entry of its variable as it should.
-/

namespace SatSearch

namespace Branching

variable {v : ℕ} {e : Entry} {s t : Branching}

/-- What a look-up finds is the entry of the variable. -/
theorem entryAt_of_entry_ok (hok : s.entry v = .ok e) : s.entryAt v = e := by
  unfold entry at hok
  split at hok
  case h_1 e' he =>
    cases hok
    rw [entryAt, he, Option.getD_some]
  case h_2 => cases hok

/-- A look-up within the table succeeds. -/
theorem entry_of_lt (h : v < s.entries.size) : s.entry v = .ok (s.entryAt v) := by
  rw [entry, entryAt, Array.getElem?_eq_getElem h, Option.getD_some]

/-- A look-up beyond the table faults. -/
theorem entry_of_le (h : s.entries.size ≤ v) : s.entry v = .error (.unknownVariable v) := by
  rw [entry, Array.getElem?_eq_none_iff.mpr h]

/-- What a look-up finds is the value of the variable. -/
theorem valueAt_of_value_ok {r : Option Bool} (hok : s.value v = .ok r) : s.valueAt v = r := by
  obtain ⟨e, he, hr⟩ := bind_eq_ok.mp hok
  rw [valueAt, entryAt_of_entry_ok he, pure_eq_ok.mp hr]

/-- Writing an entry changes no other. -/
theorem entryAt_of_setEntry_ok (hok : s.setEntry v e = .ok t) :
    t.entryAt = Function.update s.entryAt v e := by
  unfold setEntry at hok
  split at hok
  case isFalse => cases hok
  case isTrue hv =>
    cases hok
    funext w
    rw [entryAt, Array.getElem?_set, Function.update_apply]
    by_cases hwv : w = v
    · rw [if_pos hwv.symm, if_pos hwv, Option.getD_some]
    · rw [if_neg (Ne.symm hwv), if_neg hwv, entryAt]

/-- The entries of other variables, the size of the table and the queue stay as they are. -/
theorem frame_of_setEntry_ok (hok : s.setEntry v e = .ok t) :
    t.entries.size = s.entries.size ∧ (∀ w, w ≠ v → t.entries[w]? = s.entries[w]?) ∧
      t.queue = s.queue := by
  unfold setEntry at hok
  split at hok
  case isFalse => cases hok
  case isTrue hv =>
    cases hok
    exact ⟨Array.size_set hv, fun w hw => Array.getElem?_set_ne hv (Ne.symm hw), rfl⟩

/-- What a new key changes. -/
theorem rekey_ok (hok : s.rekey v = .ok t) :
    ∃ p q, s.priority v = .ok p ∧ s.queue.update v p.key = .ok q ∧ t = { s with queue := q } := by
  obtain ⟨p, hp, hok⟩ := bind_eq_ok.mp hok
  obtain ⟨q, hq, hok⟩ := bind_eq_ok.mp hok
  exact ⟨p, q, hp, hq, (pure_eq_ok.mp hok).symm⟩

/-- A new key does not show in the entries. -/
theorem entryAt_of_rekey_ok (hok : s.rekey v = .ok t) : t.entryAt = s.entryAt := by
  obtain ⟨p, q, -, -, rfl⟩ := rekey_ok hok
  rfl

/-- A decision gives its variable a value and changes no other entry. -/
theorem entryAt_of_assign_ok {b : Bool} (hok : s.assign v b = .ok t) :
    t.entryAt = Function.update s.entryAt v { s.entryAt v with value := some b } := by
  obtain ⟨e, he, hok⟩ := bind_eq_ok.mp hok
  obtain rfl := entryAt_of_entry_ok he
  exact entryAt_of_setEntry_ok hok

/-- Taking a decision back takes the value away and changes no other entry. -/
theorem entryAt_of_unassign_ok (hok : s.unassign v = .ok t) :
    t.entryAt = Function.update s.entryAt v { s.entryAt v with value := none } := by
  obtain ⟨e, he, hok⟩ := bind_eq_ok.mp hok
  obtain rfl := entryAt_of_entry_ok he
  exact entryAt_of_setEntry_ok hok

/-- Queueing a variable changes no entry. -/
theorem entryAt_of_requeue_ok (hok : s.requeue v = .ok t) : t.entryAt = s.entryAt := by
  obtain ⟨_, -, hok⟩ := bind_eq_ok.mp hok
  obtain ⟨p, -, hok⟩ := bind_eq_ok.mp hok
  obtain ⟨q, -, hok⟩ := bind_eq_ok.mp hok
  obtain rfl := pure_eq_ok.mp hok
  rfl

/-- Selection clears the scores of the variable that it answers with. -/
theorem entryAt_of_select_ok {choice : Choice}
    (hok : s.select.result = .ok (some (choice, t))) :
    t.entryAt = Function.update s.entryAt choice.var (s.entryAt choice.var).cleared := by
  obtain ⟨r, -, hok⟩ := Logged.bind_eq_ok.mp hok
  cases r with
  | none => cases hok
  | some r =>
    obtain ⟨v, queue⟩ := r
    obtain ⟨e, he, hok⟩ := Logged.bind_eq_ok.mp hok
    obtain ⟨s₁, hs₁, hok⟩ := Logged.bind_eq_ok.mp hok
    obtain ⟨_, -, hok⟩ := Logged.bind_eq_ok.mp hok
    obtain ⟨s₂, hs₂, hok⟩ := Logged.bind_eq_ok.mp hok
    cases hok
    obtain rfl := entryAt_of_entry_ok he
    have hset : s₁.entryAt = Function.update s.entryAt v (s.entryAt v).cleared :=
      entryAt_of_setEntry_ok (s := ⟨s.entries, queue⟩) hs₁
    exact (entryAt_of_rekey_ok hs₂).trans hset

/-- A variable that passes for open has no value. -/
theorem valueAt_of_requireOpen_ok (hok : s.requireOpen v = .ok ()) : s.valueAt v = none := by
  obtain ⟨r, hr, hok⟩ := bind_eq_ok.mp hok
  cases r with
  | none => exact valueAt_of_value_ok hr
  | some b => cases hok

/-- Counting a unit raises the unit score of an open variable by one. -/
theorem entryAt_of_countUnit_ok (hok : s.countUnit v = .ok t) :
    s.valueAt v = none ∧ t.entryAt =
      Function.update s.entryAt v { s.entryAt v with unit := (s.entryAt v).unit + 1 } := by
  obtain ⟨_, hopen, hok⟩ := bind_eq_ok.mp hok
  obtain ⟨e, he, hok⟩ := bind_eq_ok.mp hok
  obtain ⟨unit, hunit, hok⟩ := bind_eq_ok.mp hok
  obtain ⟨s', hs', hrekey⟩ := bind_eq_ok.mp hok
  obtain rfl := entryAt_of_entry_ok he
  obtain ⟨-, rfl⟩ := below_eq_ok.mp hunit
  exact ⟨valueAt_of_requireOpen_ok hopen,
    (entryAt_of_rekey_ok hrekey).trans (entryAt_of_setEntry_ok hs')⟩

/-- Counting an occurrence moves the polarity of an open variable by one. -/
theorem entryAt_of_countOccurrence_ok {positive : Bool}
    (hok : s.countOccurrence v positive = .ok t) :
    s.valueAt v = none ∧ t.entryAt = Function.update s.entryAt v
      { s.entryAt v with polarity := (s.entryAt v).polarity + if positive then 1 else -1 } := by
  obtain ⟨_, hopen, hok⟩ := bind_eq_ok.mp hok
  obtain ⟨e, he, hok⟩ := bind_eq_ok.mp hok
  obtain ⟨polarity, hpolarity, hok⟩ := bind_eq_ok.mp hok
  obtain ⟨s', hs', hrekey⟩ := bind_eq_ok.mp hok
  obtain rfl := entryAt_of_entry_ok he
  obtain ⟨-, rfl⟩ := inSignedWord_eq_ok.mp hpolarity
  exact ⟨valueAt_of_requireOpen_ok hopen,
    (entryAt_of_rekey_ok hrekey).trans (entryAt_of_setEntry_ok hs')⟩

/-- Another entry with the same value leaves all values as they are. -/
theorem valueAt_of_update (hentries : t.entryAt = Function.update s.entryAt v e)
    (hvalue : e.value = s.valueAt v) : t.valueAt = s.valueAt := by
  funext w
  rw [valueAt, hentries, Function.update_apply]
  split
  case isTrue hwv => rw [hvalue, hwv]
  case isFalse => rfl

/-- Counting a unit changes no value. -/
theorem valueAt_of_countUnit_ok (hok : s.countUnit v = .ok t) : t.valueAt = s.valueAt :=
  valueAt_of_update (entryAt_of_countUnit_ok hok).2 rfl

/-- Counting an occurrence changes no value. -/
theorem valueAt_of_countOccurrence_ok {positive : Bool}
    (hok : s.countOccurrence v positive = .ok t) : t.valueAt = s.valueAt :=
  valueAt_of_update (entryAt_of_countOccurrence_ok hok).2 rfl

end Branching

end SatSearch
