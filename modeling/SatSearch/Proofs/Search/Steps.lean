import SatSearch.Search
import SatSearch.Proofs.Faults

/-!
# What each step of a search does

A step that does not fault has made at most one call on the branching order, moved at most one entry
of the trail and counted itself. Everything else about a step is derived from these equations.
-/

namespace SatSearch.SearchState

variable {v : ℕ} {b : Bool} {f : Formula} {s t : SearchState}

/-- An evaluation counts itself and changes nothing else. -/
theorem evaluate_ok {outcome : Outcome} (hok : s.evaluate f = .ok (outcome, t)) :
    ∃ holds, f.check (fun v => do return (← s.branching.value v).getD false) = .ok holds ∧
      outcome = (if holds then .solved else .exhausted) ∧ t = { s with
        statistics := { s.statistics with evaluations := s.statistics.evaluations + 1 } } := by
  obtain ⟨evaluations, hcount, hok⟩ := bind_eq_ok.mp hok
  obtain ⟨-, rfl⟩ := below_eq_ok.mp hcount
  obtain ⟨holds, hcheck, hok⟩ := bind_eq_ok.mp hok
  cases hok
  exact ⟨holds, hcheck, rfl, rfl⟩

/-- A scan leaves the trail alone. -/
theorem scan_ok {finding : Finding} (hok : (s.scan f).result = .ok (finding, t)) :
    ∃ (propagator : Propagator) (branching : Branching),
      (s.propagator.scan f s.branching).result = .ok (finding, propagator, branching) ∧
      t = { s with
        branching
        propagator
        statistics := { s.statistics with scans := s.statistics.scans + 1 } } := by
  obtain ⟨scans, hcount, hok⟩ := Logged.bind_eq_ok.mp hok
  obtain ⟨-, rfl⟩ := below_eq_ok.mp hcount
  obtain ⟨⟨finding', propagator, branching⟩, hscan, hok⟩ := Logged.bind_eq_ok.mp hok
  cases hok
  exact ⟨propagator, branching, hscan, rfl⟩

/-- A decision goes on top of the trail. -/
theorem assign_ok (hok : (s.assign v b).result = .ok t) :
    ∃ branching, s.branching.assign v b = .ok branching ∧
      t = { s with
        branching
        trail := (v, b) :: s.trail
        statistics := { s.statistics with decisions := s.statistics.decisions + 1 } } := by
  obtain ⟨decisions, hcount, hok⟩ := Logged.bind_eq_ok.mp hok
  obtain ⟨-, rfl⟩ := below_eq_ok.mp hcount
  obtain ⟨branching, hassign, hok⟩ := Logged.bind_eq_ok.mp hok
  cases hok
  exact ⟨branching, hassign, rfl⟩

/-- Taking a decision back is not counted. -/
theorem retract_ok (hok : s.retract v = .ok t) :
    ∃ branching, s.branching.unassign v = .ok branching ∧
      t = { s with branching, trail := s.trail.tail } := by
  obtain ⟨branching, hunassign, hok⟩ := bind_eq_ok.mp hok
  cases hok
  exact ⟨branching, hunassign, rfl⟩

/-- Giving a variable up queues it and leaves the trail alone. -/
theorem backtrack_ok (hok : (s.backtrack v).result = .ok t) :
    ∃ branching, s.branching.requeue v = .ok branching ∧
      t = { s with
        branching
        statistics := { s.statistics with backtracks := s.statistics.backtracks + 1 } } := by
  obtain ⟨backtracks, hcount, hok⟩ := Logged.bind_eq_ok.mp hok
  obtain ⟨-, rfl⟩ := below_eq_ok.mp hcount
  obtain ⟨branching, hrequeue, hok⟩ := Logged.bind_eq_ok.mp hok
  obtain ⟨p, -, hok⟩ := Logged.bind_eq_ok.mp hok
  cases hok
  exact ⟨branching, hrequeue, rfl⟩

section

variable {descend : SearchState → Logged Fault (Outcome × SearchState)}

/-- One value of a variable as the logged search tries it. -/
def tryValue (f : Formula) (descend : SearchState → Logged Fault (Outcome × SearchState))
    (v : ℕ) (b : Bool) (s : SearchState) : Logged Fault (Outcome × SearchState) :=
  tryValueIn (fun _ => pure ()) f descend v b s

/-- Values of a variable as the logged search tries them. -/
def tryValues (f : Formula) (descend : SearchState → Logged Fault (Outcome × SearchState))
    (v : ℕ) (bs : List Bool) (s : SearchState) : Logged Fault (Outcome × SearchState) :=
  tryValuesIn (fun _ => pure ()) f descend v bs s

/-- After a decision comes a scan if a variable is queued, else an evaluation. -/
theorem tryValue_eq : tryValue f descend v b s = (do
    let s ← s.assign v b
    if s.branching.anyQueued then
      let (finding, s) ← s.scan f
      match finding with
      | .satisfied => return (.solved, s)
      | .conflict _ => return (.exhausted, s)
      | .undecided => descend s
    else
      s.evaluate f) := rfl

/-- A variable without further values is given up. -/
theorem tryValues_nil :
    tryValues f descend v [] s = (do return (.exhausted, ← s.backtrack v)) := rfl

/-- Unless the first value succeeds, it is taken back and the others are tried. -/
theorem tryValues_cons {bs : List Bool} : tryValues f descend v (b :: bs) s = (do
    let (outcome, s) ← tryValue f descend v b s
    match outcome with
    | .solved => return (.solved, s)
    | .exhausted => tryValues f descend v bs (← s.retract v)) := rfl

end

/-- Below the last variable the formula is evaluated. -/
theorem explore_zero : explore f 0 s = s.evaluate f := rfl

/-- With variables queued one of them is selected and its values are tried. -/
theorem explore_succ {left : ℕ} : explore f (left + 1) s = (do
    match ← s.branching.select with
    | none => s.evaluate f
    | some (choice, branching) =>
      tryValues f (explore f left) choice.var choice.values { s with branching }) := rfl

/-- A run begins with as many levels to go as there are variables in the queue. -/
theorem run_eq : s.run f = (do
    let (outcome, s) ← explore f s.branching.queued s
    match outcome with
    | .solved => return (some s.branching.model, s)
    | .exhausted => return (none, s)) := rfl

end SatSearch.SearchState
