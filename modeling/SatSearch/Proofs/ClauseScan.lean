import SatSearch.ClauseScan
import SatSearch.Proofs.Branching.Entries
import SatSearch.Proofs.Branching.Steps
import SatSearch.Proofs.Formula.PartialValues

/-!
# What a scan looks for and what it leaves alone

In a clause a scan looks for the open literals, unless there is a true one. What it counts of them
are scores of open variables. They change together with the keys of these variables, and nothing
else changes.
-/

namespace SatSearch

namespace Branching

variable {n v : ℕ} {s t u : Branching} {c : Clause} {f : Formula}

/-- Scores of open variables may differ, with the keys of the queued ones. All else agrees. -/
structure Scored (n : ℕ) (s t : Branching) : Prop where
  coherent : Coherent n t
  waiting_eq : t.waiting = s.waiting
  valueAt_eq : t.valueAt = s.valueAt
  entryAt_eq : ∀ v, s.valueAt v ≠ none → t.entryAt v = s.entryAt v

namespace Scored

/-- Nothing is scored if nothing is done. -/
theorem refl (h : Coherent n s) : Scored n s s := ⟨h, rfl, rfl, fun _ _ => rfl⟩

/-- What is scored in two steps is scored in one. -/
theorem trans (hst : Scored n s t) (htu : Scored n t u) : Scored n s u where
  coherent := htu.coherent
  waiting_eq := htu.waiting_eq.trans hst.waiting_eq
  valueAt_eq := htu.valueAt_eq.trans hst.valueAt_eq
  entryAt_eq v hv := (htu.entryAt_eq v (by rwa [hst.valueAt_eq])).trans (hst.entryAt_eq v hv)

/-- Another entry for an open variable that stays open. -/
theorem of_reads {e : Entry} (h : Reads n (Function.update s.entryAt v e) s.waiting t)
    (hopen : s.valueAt v = none) (he : e.value = none) : Scored n s t where
  coherent := h.coherent
  waiting_eq := h.waiting_eq
  valueAt_eq := by rw [h.valueAt_eq, he, ← hopen, Function.update_eq_self]
  entryAt_eq w hw := by
    have hwv : w ≠ v := fun hwv => hw (hwv ▸ hopen)
    rw [h.entryAt_eq, Function.update_of_ne hwv]

end Scored

/-- A scan ends as the scan of the clauses from no forced literals on. -/
theorem scan_result (p : Propagator) (f : Formula) (s : Branching) :
    (p.scan f s).result = p.clear.scanFrom s true f.clauses := by
  rw [Propagator.scan]
  cases h : p.clear.scanFrom s true f.clauses with
  | error e => rfl
  | ok r =>
    obtain ⟨finding, q, t⟩ := r
    cases finding <;> rfl

/-- Looking for the open literals finds all of them unless a true one comes first. -/
theorem openLiterals_ok {seen : ℕ} {r : Option (List Literal)}
    (hok : s.openLiterals seen c.literals = .ok r) :
    c.satisfied s.valueAt = true ∧ r = none ∨
      c.satisfied s.valueAt = false ∧ r = some (c.openLiterals s.valueAt) := by
  obtain ⟨ls, hnonzero⟩ := c
  simp only [Clause.satisfied, Clause.openLiterals] at *
  clear hnonzero
  induction ls generalizing seen r with
  | nil =>
    cases hok
    simp
  | cons l ls ih =>
    obtain ⟨value, hvalue, hok⟩ := bind_eq_ok.mp hok
    have hv := valueAt_of_value_ok hvalue
    cases value with
    | none =>
      obtain ⟨seen', -, hok⟩ := bind_eq_ok.mp hok
      obtain ⟨rest, hrest, hok⟩ := bind_eq_ok.mp hok
      obtain rfl := pure_eq_ok.mp hok
      rcases ih hrest with ⟨hany, rfl⟩ | ⟨hany, rfl⟩
      · simp [hany]
      · simp [hany, hv]
    | some b =>
      simp only at hok
      split at hok
      case isTrue hb =>
        obtain rfl := pure_eq_ok.mp hok
        simp [hv, hb]
      case isFalse hb => simpa [hv, hb] using ih hok

/-- The only open literal found in a clause is one of its literals and open. -/
theorem mem_of_openLiterals_singleton {seen : ℕ} {l : Literal}
    (hok : s.openLiterals seen c.literals = .ok (some [l])) :
    l ∈ c.literals ∧ s.valueAt l.var = none := by
  rcases openLiterals_ok hok with ⟨-, hnone⟩ | ⟨-, hsome⟩
  · cases hnone
  · rw [← Clause.mem_openLiterals, ← Option.some.inj hsome]
    exact List.mem_singleton_self l

namespace Coherent

/-- Counting a unit changes scores of open variables alone. -/
theorem countUnit_scored (h : Coherent n s) (hok : s.countUnit v = .ok t) : Scored n s t := by
  obtain ⟨-, hopen, hreads⟩ := h.countUnit_ok hok
  exact .of_reads hreads hopen hopen

/-- Counting an occurrence changes scores of open variables alone. -/
theorem countOccurrence_scored {b : Bool} (h : Coherent n s) (hok : s.countOccurrence v b = .ok t) :
    Scored n s t := by
  obtain ⟨-, hopen, hreads⟩ := h.countOccurrence_ok hok
  exact .of_reads hreads hopen hopen

/-- Counting the occurrences of literals changes scores of open variables alone. -/
theorem countOccurrences_scored (h : Coherent n s) {ls : List Literal}
    (hok : s.countOccurrences ls = .ok t) : Scored n s t := by
  induction ls generalizing s with
  | nil =>
    cases hok
    exact .refl h
  | cons l ls ih =>
    obtain ⟨value, -, hok⟩ := bind_eq_ok.mp hok
    cases value with
    | some b => exact ih h hok
    | none =>
      obtain ⟨s₁, hs₁, hok⟩ := bind_eq_ok.mp hok
      have hfirst := h.countOccurrence_scored hs₁
      exact hfirst.trans (ih hfirst.coherent hok)

end Coherent

end Branching

end SatSearch
