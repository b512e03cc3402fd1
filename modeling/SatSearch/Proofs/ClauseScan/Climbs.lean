import SatSearch.Proofs.Branching.Order
import SatSearch.Proofs.ClauseScan.Verdict

/-!
# Calls that lower no unit score

Of the calls that change the state of the branching order only a selection lowers a unit score, that
of the variable it answers with. A scan makes none, so while it goes on the unit scores only grow.
-/

namespace SatSearch.Branching

variable {p q : Propagator} {s t u : Branching} {c : Call} {answer : Option Choice}

/-- Calls lead from one state to the other, and none of them lowers the unit score of any
variable. -/
inductive Climbs : Branching → Branching → Prop
  | refl {s : Branching} : Climbs s s
  | call {s t u : Branching} {c : Call} {answer : Option Choice}
      (made : (s.perform c).result = .ok (answer, t))
      (rises : ∀ w, (s.entryAt w).unit ≤ (t.entryAt w).unit) (rest : Climbs t u) : Climbs s u

/-- Another entry for one variable does not lower any unit score if it does not lower that of this
variable. -/
theorem unit_le_of_update {v : ℕ} {e : Entry} (hentries : t.entryAt = Function.update s.entryAt v e)
    (he : (s.entryAt v).unit ≤ e.unit) (w : ℕ) : (s.entryAt w).unit ≤ (t.entryAt w).unit := by
  rw [hentries, Function.update_apply]
  split
  case isTrue hwv => rwa [hwv]
  case isFalse => exact le_rfl

/-- Only a selection lowers a unit score. -/
theorem unit_le_of_perform (hselect : c ≠ .select)
    (hok : (s.perform c).result = .ok (answer, t)) (w : ℕ) :
    (s.entryAt w).unit ≤ (t.entryAt w).unit := by
  cases c with
  | select => exact absurd rfl hselect
  | countUnit v =>
    obtain ⟨s', hs', hok⟩ := Logged.bind_eq_ok.mp hok
    cases hok
    exact unit_le_of_update (entryAt_of_countUnit_ok hs').2 (Nat.le_succ _) w
  | countOccurrence v positive =>
    obtain ⟨s', hs', hok⟩ := Logged.bind_eq_ok.mp hok
    cases hok
    exact unit_le_of_update (entryAt_of_countOccurrence_ok hs').2 le_rfl w
  | requeue v =>
    obtain ⟨s', hs', hok⟩ := Logged.bind_eq_ok.mp hok
    cases hok
    rw [entryAt_of_requeue_ok hs']
  | assign v b =>
    obtain ⟨s', hs', hok⟩ := Logged.bind_eq_ok.mp hok
    cases hok
    exact unit_le_of_update (entryAt_of_assign_ok hs') le_rfl w
  | unassign v =>
    obtain ⟨s', hs', hok⟩ := Logged.bind_eq_ok.mp hok
    cases hok
    exact unit_le_of_update (entryAt_of_unassign_ok hs') le_rfl w

/-- A selection lowers the unit score of no variable but the one it answers with. -/
theorem unit_eq_of_select_ok {choice : Choice}
    (hok : s.select.result = .ok (some (choice, t))) {w : ℕ} (hw : w ≠ choice.var) :
    (t.entryAt w).unit = (s.entryAt w).unit := by
  rw [entryAt_of_select_ok hok, Function.update_of_ne hw]

namespace Climbs

/-- Two climbs after each other are one. -/
theorem trans (hst : Climbs s t) (htu : Climbs t u) : Climbs s u := by
  induction hst with
  | refl => exact htu
  | call made rises _ ih => exact .call made rises (ih htu)

/-- One call that is not a selection. -/
theorem of_perform (c : Call) (hselect : c ≠ .select)
    (hok : (s.perform c).result = .ok (answer, t)) : Climbs s t :=
  .call hok (unit_le_of_perform hselect hok) .refl

/-- A call that only leaves another state answers with nothing. -/
theorem result_of_step {x : Except Fault Branching} (hok : x = .ok t) :
    (do return (none, ← x) : Logged Fault (Option Choice × Branching)).result = .ok (none, t) := by
  rw [Logged.lift_bind_of_ok hok]
  rfl

/-- Counting a unit lowers no unit score. -/
theorem of_countUnit {v : ℕ} (hok : s.countUnit v = .ok t) : Climbs s t :=
  of_perform (.countUnit v) nofun (result_of_step hok)

/-- Counting an occurrence lowers no unit score. -/
theorem of_countOccurrence {v : ℕ} {positive : Bool} (hok : s.countOccurrence v positive = .ok t) :
    Climbs s t :=
  of_perform (.countOccurrence v positive) nofun (result_of_step hok)

/-- A variable that goes back into the queue lowers no unit score. -/
theorem of_requeue {v : ℕ} (hok : s.requeue v = .ok t) : Climbs s t :=
  of_perform (.requeue v) nofun (result_of_step hok)

/-- An assignment lowers no unit score. -/
theorem of_assign {v : ℕ} {b : Bool} (hok : s.assign v b = .ok t) : Climbs s t :=
  of_perform (.assign v b) nofun (result_of_step hok)

/-- Taking an assignment back lowers no unit score. -/
theorem of_unassign {v : ℕ} (hok : s.unassign v = .ok t) : Climbs s t :=
  of_perform (.unassign v) nofun (result_of_step hok)

/-- Counting a list of literals lowers no unit score. -/
theorem of_countOccurrences {ls : List Literal} (hok : s.countOccurrences ls = .ok t) :
    Climbs s t := by
  induction ls generalizing s with
  | nil =>
    cases hok
    exact .refl
  | cons l ls ih =>
    obtain ⟨value, -, hok⟩ := bind_eq_ok.mp hok
    cases value with
    | some b => exact ih hok
    | none =>
      obtain ⟨s₁, hs₁, hok⟩ := bind_eq_ok.mp hok
      exact (of_countOccurrence hs₁).trans (ih hok)

/-- What a scan does with an unsatisfied clause lowers no unit score. -/
theorem of_countsClause {d : Clause} (h : s.CountsClause d t) : Climbs s t := by
  cases h with
  | forcing _ hunit hoccurrences =>
    exact (of_countUnit hunit).trans (of_countOccurrences hoccurrences)
  | several _ _ hoccurrences => exact of_countOccurrences hoccurrences

/-- The rest of a scan lowers no unit score. -/
theorem of_scanFrom {done cs : List Clause} {allSatisfied : Bool} {finding : Finding}
    (hforced : Forced s.valueAt done p.forced)
    (hok : p.scanFrom s allSatisfied cs = .ok (finding, q, t)) : Climbs s t := by
  induction cs generalizing p s allSatisfied done with
  | nil =>
    cases hok
    exact .refl
  | cons c cs ih =>
    rcases scanFrom_cons_ok hforced hok with ⟨-, hforced', hok⟩ | ⟨-, -, rfl⟩ |
      ⟨-, p', s', hcounts, hforced', hok⟩
    · exact ih hforced' hok
    · exact .refl
    · rw [← hcounts.valueAt_eq] at hforced'
      exact (of_countsClause hcounts).trans (ih hforced' hok)

/-- A scan lowers no unit score. -/
theorem of_scan {f : Formula} {finding : Finding}
    (hok : (p.scan f s).result = .ok (finding, q, t)) : Climbs s t := by
  rw [scan_result] at hok
  have hforced : Forced s.valueAt [] p.clear.forced := by simp [Forced, Propagator.clear]
  exact of_scanFrom hforced hok

end Climbs

end SatSearch.Branching
