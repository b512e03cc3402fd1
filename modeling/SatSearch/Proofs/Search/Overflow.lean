import SatSearch.Proofs.Branching.Overflow
import SatSearch.Proofs.Search.Outcome

/-!
# Nothing but overflow cuts a search short

A search on a formula in range whose literals have negations looks up variables of its tables only,
and queues and unqueues only what it may. So whatever the scores and the counters are, the one fault
that can end it is a count or a key that leaves its range.
-/

namespace SatSearch.SearchState

variable {n v left : ℕ} {b : Bool} {f : Formula} {s : SearchState}

namespace Tracked

/-- An evaluation at worst overflows. -/
theorem evaluate_upTo (h : Tracked f.variableCount none s) (hrange : f.InRange) :
    UpToOverflow (fun _ => True) (s.evaluate f) := by
  obtain ⟨holds, hcheck⟩ := h.exists_check hrange
  refine (UpToOverflow.below _ _).bind fun evaluations _ => ?_
  simp only [hcheck, ok_bind]
  exact .ok trivial

/-- A scan at worst overflows, and leaves the trail. -/
theorem scan_upTo (h : Tracked f.variableCount none s) (hrange : f.InRange)
    (hneg : f.Negatable) :
    UpToOverflow (fun r => Tracked f.variableCount none r.2 ∧ r.2.trail = s.trail)
      (s.scan f).result := by
  have hscans : UpToOverflow (fun _ => True) (s.scan f).result := by
    refine (UpToOverflow.below _ _).logged_bind fun scans _ => ?_
    exact (h.coherent.scan_upTo hrange hneg).logged_bind fun r _ => .ok trivial
  refine hscans.of_ok fun r hr => ?_
  obtain ⟨ht, htrail, -⟩ := h.scan hr
  exact ⟨ht, htrail⟩

/-- An assignment at worst overflows, and extends the trail. -/
theorem assign_upTo (h : Tracked n (some v) s) :
    UpToOverflow (fun t => Tracked n none t ∧ t.trail = (v, b) :: s.trail)
      (s.assign v b).result := by
  obtain ⟨-, hvn, -⟩ := (h.trackedAt v).held_open rfl
  have hassigns : UpToOverflow (fun _ => True) (s.assign v b).result := by
    have hassign : UpToOverflow (fun _ => True) (s.branching.assign v b) := by
      rw [h.coherent.assign_eq hvn]
      exact .ok trivial
    exact (UpToOverflow.below _ _).logged_bind fun _ _ => hassign.logged_bind fun _ _ => .ok trivial
  exact hassigns.of_ok fun t => h.assign

/-- A backtrack at worst overflows. -/
theorem backtrack_upTo (h : Tracked n (some v) s) :
    UpToOverflow (fun _ => True) (s.backtrack v).result := by
  obtain ⟨-, hvn, hopen⟩ := (h.trackedAt v).held_open rfl
  obtain ⟨branching, hrequeue, hreads⟩ := h.coherent.requeue hvn hopen
  have hrequeues : UpToOverflow (fun t => t.Coherent n) (s.branching.requeue v) := by
    rw [hrequeue]
    exact .ok hreads.coherent
  refine (UpToOverflow.below _ _).logged_bind fun _ _ => hrequeues.logged_bind fun t ht => ?_
  have hpriority : UpToOverflow (fun _ => True) (t.priority v) := by
    rw [ht.priority_eq hvn]
    exact .ok trivial
  exact hpriority.logged_bind fun _ _ => .ok trivial

/-- Taking back the last assignment at worst overflows, and shortens the trail. -/
theorem retract_upTo (h : Tracked n none s) {rest : List (ℕ × Bool)}
    (htrail : s.trail = (v, b) :: rest) :
    UpToOverflow (fun t => Tracked n (some v) t ∧ t.trail = rest) (s.retract v) := by
  have hvn : v ≤ n := (h.in_range (v, b) (by rw [htrail]; exact List.mem_cons_self)).2
  have hretracts : UpToOverflow (fun _ => True) (s.retract v) := by
    rw [SearchState.retract, h.coherent.unassign_eq hvn, ok_bind]
    exact .ok trivial
  exact hretracts.of_ok fun t => h.retract htrail

end Tracked

variable (hrange : f.InRange) (hneg : f.Negatable)

include hrange hneg

/-- Trying a value at worst overflows, if the search below does. -/
theorem tryValue_upTo
    (hdescend : ∀ s, Tracked f.variableCount none s → s.trail.length + left = f.variableCount →
      UpToOverflow (fun _ => True) (explore f left s).result)
    (h : Tracked f.variableCount (some v) s)
    (hleft : s.trail.length + (left + 1) = f.variableCount) :
    UpToOverflow (Settled f.variableCount f ((v, b) :: s.trail))
      (tryValue f (explore f left) v b s).result := by
  have htries : UpToOverflow (fun _ => True) (tryValue f (explore f left) v b s).result := by
    refine h.assign_upTo.logged_bind fun s₁ ⟨h₁, htrail₁⟩ => ?_
    split
    case isTrue =>
      refine (h₁.scan_upTo hrange hneg).logged_bind fun r ⟨h₂, htrail₂⟩ => ?_
      obtain ⟨finding, s₂⟩ := r
      cases finding with
      | satisfied => exact .ok trivial
      | conflict why => exact .ok trivial
      | undecided =>
        refine hdescend s₂ h₂ ?_
        rw [htrail₂, htrail₁, List.length_cons]
        omega
    case isFalse => exact h₁.evaluate_upTo hrange
  refine htries.of_ok fun r hr => ?_
  rw [← run_watchValue (run_watchExplore left)] at hr
  exact (watchValue_settled (fun s hs hleft => watchExplore_settled hs hleft) h hleft).result r hr

/-- Trying the remaining values at worst overflows, if the search below does. -/
theorem tryValues_upTo
    (hdescend : ∀ s, Tracked f.variableCount none s → s.trail.length + left = f.variableCount →
      UpToOverflow (fun _ => True) (explore f left s).result)
    {bs : List Bool} (h : Tracked f.variableCount (some v) s)
    (hleft : s.trail.length + (left + 1) = f.variableCount) :
    UpToOverflow (fun _ => True) (tryValues f (explore f left) v bs s).result := by
  induction bs generalizing s with
  | nil => exact h.backtrack_upTo.logged_bind fun _ _ => .ok trivial
  | cons b bs ih =>
    refine (tryValue_upTo hrange hneg hdescend h hleft).logged_bind fun r hr => ?_
    cases hr with
    | solved => exact .ok trivial
    | exhausted h₁ htrail₁ _ =>
      refine (h₁.retract_upTo htrail₁).logged_bind fun s₂ ⟨h₂, htrail₂⟩ => ?_
      exact ih h₂ (by rw [htrail₂]; exact hleft)

/-- A search below a trail ends with a result or with an overflow. -/
theorem explore_upTo (h : Tracked f.variableCount none s)
    (hleft : s.trail.length + left = f.variableCount) :
    UpToOverflow (fun _ => True) (explore f left s).result := by
  induction left generalizing s with
  | zero => exact h.evaluate_upTo hrange
  | succ left ih =>
    have hselect : UpToOverflow (fun r => s.branching.select.result = .ok r)
        s.branching.select.result := by
      rcases h.coherent.select with ⟨-, hselect⟩ | ⟨v, selected, -, hselect, -⟩
      · rw [hselect]
        exact .ok rfl
      · rw [hselect]
        exact .ok rfl
    refine hselect.logged_bind fun r hr => ?_
    cases r with
    | none => exact h.evaluate_upTo hrange
    | some r => exact tryValues_upTo hrange hneg (fun s hs hleft => ih hs hleft) (h.select hr) hleft

/-- A run at worst overflows. -/
theorem run_upTo (h : Tracked f.variableCount none s) :
    UpToOverflow (fun r => Tracked f.variableCount none r.2) (s.run f).result := by
  have hruns : UpToOverflow (fun _ => True) (s.run f).result := by
    refine (explore_upTo hrange hneg h h.length_add_queued).logged_bind fun r _ => ?_
    obtain ⟨outcome, t⟩ := r
    cases outcome <;> exact .ok trivial
  refine hruns.of_ok fun r hr => ?_
  rw [← run_watchRun] at hr
  exact (watchRun_tracked h).result r hr

/-- However often a search is run, only an overflow can end the runs early. -/
theorem runs_upTo {k : ℕ} (h : Tracked f.variableCount none s) :
    UpToOverflow (fun _ => True) (runs f k s).result := by
  induction k generalizing s with
  | zero => exact .ok trivial
  | succ k ih =>
    refine (run_upTo hrange hneg h).logged_bind fun r hr => ?_
    exact (ih hr).logged_bind fun _ _ => .ok trivial

end SatSearch.SearchState
