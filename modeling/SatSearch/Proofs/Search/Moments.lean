import SatSearch.Proofs.Search.Steps
import SatSearch.Proofs.Search.Watched

/-!
# The states that a search goes through

The result of a search says nothing about the states on its way. A watched search is the same search
carried out so that it also lists each moment it meets, those in which it goes one level down,
begins to try a value, to scan or to evaluate, or gives a variable up. Leaving the list out gives
back the logged search, so what is shown of the listed states is shown of that search, also of one
that a fault cuts short. No state is left out of the list: the counters of the search count exactly
the listed moments.
-/

namespace SatSearch

namespace SearchState

variable (f : Formula)

/-- Runs the search so many times in succession and lists the answers. -/
def runs : ℕ → SearchState → Logged Fault (List (Option Assignment) × SearchState)
  | 0, s => return ([], s)
  | k + 1, s => do
    let (answer, s) ← s.run f
    let (answers, s) ← runs k s
    return (answer :: answers, s)

/-- An evaluation with the moment in which it begins. -/
def watchEvaluate (s : SearchState) : Watched (Outcome × SearchState) :=
  s.evaluateIn Watched.meet f

/-- A scan with the moment in which it begins. -/
def watchScan (s : SearchState) : Watched (Finding × SearchState) :=
  s.scanIn Watched.meet f

/-- A decision with the moment in which it is made. -/
def watchAssign (s : SearchState) (v : ℕ) (b : Bool) : Watched SearchState :=
  s.assignIn Watched.meet v b

/-- Giving a variable up with the moment in which that happens. -/
def watchBacktrack (v : ℕ) (s : SearchState) : Watched SearchState :=
  s.backtrackIn Watched.meet v

/-- One value of a variable with the moments of trying it. -/
def watchValue (descend : SearchState → Watched (Outcome × SearchState)) (v : ℕ) (b : Bool)
    (s : SearchState) : Watched (Outcome × SearchState) :=
  tryValueIn Watched.meet f descend v b s

/-- Values of a variable with the moments of trying them. -/
def watchValues (descend : SearchState → Watched (Outcome × SearchState)) (v : ℕ)
    (bs : List Bool) (s : SearchState) : Watched (Outcome × SearchState) :=
  tryValuesIn Watched.meet f descend v bs s

/-- The search below the present values with its moments. -/
def watchExplore (left : ℕ) (s : SearchState) : Watched (Outcome × SearchState) :=
  exploreIn Watched.meet f left s

/-- A run with its moments. -/
def watchRun (s : SearchState) : Watched (Option Assignment × SearchState) :=
  runIn Watched.meet f s

/-- Runs in succession with their moments. -/
def watchRuns : ℕ → SearchState → Watched (List (Option Assignment) × SearchState)
  | 0, s => return ([], s)
  | k + 1, s => do
    let (answer, s) ← s.watchRun f
    let (answers, s) ← watchRuns k s
    return (answer :: answers, s)

variable {f}

section

variable {descend : SearchState → Watched (Outcome × SearchState)} {v : ℕ} {b : Bool}
  {s : SearchState}

/-- After a decision comes a scan if a variable is queued, else an evaluation. -/
theorem watchValue_eq : watchValue f descend v b s = (do
    let s ← s.watchAssign v b
    if s.branching.anyQueued then
      let (finding, s) ← s.watchScan f
      match finding with
      | .satisfied => return (.solved, s)
      | .conflict _ => return (.exhausted, s)
      | .undecided => descend s
    else
      s.watchEvaluate f) := rfl

/-- A variable without further values is given up. -/
theorem watchValues_nil :
    watchValues f descend v [] s = (do return (.exhausted, ← s.watchBacktrack v)) := rfl

/-- Unless the first value succeeds, it is taken back and the others are tried. -/
theorem watchValues_cons {bs : List Bool} : watchValues f descend v (b :: bs) s = (do
    let (outcome, s) ← watchValue f descend v b s
    match outcome with
    | .solved => return (.solved, s)
    | .exhausted => watchValues f descend v bs (← s.retract v)) := rfl

/-- Below the last variable the formula is evaluated. -/
theorem watchExplore_zero : watchExplore f 0 s = (do
    Watched.meet (.descent s)
    s.watchEvaluate f) := rfl

/-- With variables queued one of them is selected and its values are tried. -/
theorem watchExplore_succ {left : ℕ} : watchExplore f (left + 1) s = (do
    Watched.meet (.descent s)
    match ← s.branching.select with
    | none => s.watchEvaluate f
    | some (choice, branching) =>
      watchValues f (watchExplore f left) choice.var choice.values { s with branching }) := rfl

/-- A run begins with as many levels to go as there are variables in the queue. -/
theorem watchRun_eq : s.watchRun f = (do
    let (outcome, s) ← watchExplore f s.branching.queued s
    match outcome with
    | .solved => return (some s.branching.model, s)
    | .exhausted => return (none, s)) := rfl

end

/-- Leaving the moments out of the trial of a value gives back the logged one. -/
theorem run_watchValue {descend : SearchState → Watched (Outcome × SearchState)}
    {descend' : SearchState → Logged Fault (Outcome × SearchState)}
    (hdescend : ∀ s, (descend s).run = descend' s) (v : ℕ) (b : Bool) (s : SearchState) :
    (watchValue f descend v b s).run = tryValue f descend' v b s := by
  rw [watchValue_eq, tryValue_eq, Watched.run_bind]
  refine bind_congr fun s => ?_
  simp only
  split
  · rw [Watched.run_bind]
    refine bind_congr fun x => ?_
    obtain ⟨finding, s⟩ := x
    cases finding with
    | satisfied => rfl
    | conflict why => rfl
    | undecided => exact hdescend s
  · rfl

/-- Leaving the moments out of the trials of values gives back the logged ones. -/
theorem run_watchValues {descend : SearchState → Watched (Outcome × SearchState)}
    {descend' : SearchState → Logged Fault (Outcome × SearchState)}
    (hdescend : ∀ s, (descend s).run = descend' s) (v : ℕ) (bs : List Bool) (s : SearchState) :
    (watchValues f descend v bs s).run = tryValues f descend' v bs s := by
  induction bs generalizing s with
  | nil => rfl
  | cons b bs ih =>
    rw [watchValues_cons, tryValues_cons, Watched.run_bind, run_watchValue hdescend]
    refine bind_congr fun x => ?_
    obtain ⟨outcome, s⟩ := x
    cases outcome with
    | solved => rfl
    | exhausted => exact bind_congr fun s => ih s

/-- Leaving the moments out gives back the search. -/
theorem run_watchExplore (left : ℕ) (s : SearchState) :
    (watchExplore f left s).run = explore f left s := by
  induction left generalizing s with
  | zero => rfl
  | succ left ih =>
    rw [watchExplore_succ, explore_succ]
    simp only [Watched.run_bind, Watched.run_meet, Watched.run_lift, pure_bind]
    refine bind_congr fun r => ?_
    cases r with
    | none => rfl
    | some r => exact run_watchValues ih _ _ _

/-- Leaving the moments out of a run gives back the run. -/
theorem run_watchRun (s : SearchState) : (s.watchRun f).run = s.run f := by
  rw [watchRun_eq, run_eq, Watched.run_bind, run_watchExplore]
  refine bind_congr fun x => ?_
  obtain ⟨outcome, s⟩ := x
  cases outcome <;> rfl

/-- Leaving the moments out of runs in succession gives back the runs. -/
theorem run_watchRuns (k : ℕ) (s : SearchState) : (watchRuns f k s).run = runs f k s := by
  induction k generalizing s with
  | zero => rfl
  | succ k ih =>
    simp only [watchRuns, runs, Watched.run_bind, run_watchRun]
    refine bind_congr fun x => ?_
    rw [ih]
    rfl

/-- An evaluation counts its moment. -/
theorem watchEvaluate_tallies (s : SearchState) :
    (s.watchEvaluate f).Tallies s.statistics fun r => r.2.statistics := by
  refine .meet (.lift_except fun r hr => ?_)
  obtain ⟨holds, -, -, ht⟩ := evaluate_ok hr
  rw [ht]
  rfl

/-- A scan counts its moment. -/
theorem watchScan_tallies (s : SearchState) :
    (s.watchScan f).Tallies s.statistics fun r => r.2.statistics := by
  refine .meet (.lift fun r hr => ?_)
  obtain ⟨propagator, branching, -, ht⟩ := scan_ok hr
  rw [ht]
  rfl

/-- A decision counts its moment. -/
theorem watchAssign_tallies (v : ℕ) (b : Bool) (s : SearchState) :
    (s.watchAssign v b).Tallies s.statistics statistics := by
  refine .meet (.lift fun t ht => ?_)
  obtain ⟨branching, -, rfl⟩ := assign_ok ht
  rfl

/-- Giving a variable up counts its moment. -/
theorem watchBacktrack_tallies (v : ℕ) (s : SearchState) :
    (s.watchBacktrack v).Tallies s.statistics statistics := by
  refine .meet (.lift fun t ht => ?_)
  obtain ⟨branching, -, rfl⟩ := backtrack_ok ht
  rfl

/-- Taking a decision back counts nothing. -/
theorem retract_tallies (v : ℕ) (s : SearchState) :
    Watched.Tallies s.statistics statistics (liftM (s.retract v) : Watched SearchState) := by
  refine .lift_except fun t ht => ?_
  obtain ⟨branching, -, rfl⟩ := retract_ok ht
  rfl

/-- Trying a value counts its moments if going on does. -/
theorem watchValue_tallies {descend : SearchState → Watched (Outcome × SearchState)}
    (hdescend : ∀ s, (descend s).Tallies s.statistics fun r => r.2.statistics) (v : ℕ) (b : Bool)
    (s : SearchState) :
    (watchValue f descend v b s).Tallies s.statistics fun r => r.2.statistics := by
  refine (watchAssign_tallies v b s).bind fun s => ?_
  split
  · refine (watchScan_tallies s).bind fun r => ?_
    obtain ⟨finding, s⟩ := r
    cases finding with
    | satisfied => exact .pure rfl
    | conflict why => exact .pure rfl
    | undecided => exact hdescend s
  · exact watchEvaluate_tallies s

/-- Trying values counts its moments if going on does. -/
theorem watchValues_tallies {descend : SearchState → Watched (Outcome × SearchState)}
    (hdescend : ∀ s, (descend s).Tallies s.statistics fun r => r.2.statistics) (v : ℕ)
    (bs : List Bool) (s : SearchState) :
    (watchValues f descend v bs s).Tallies s.statistics fun r => r.2.statistics := by
  induction bs generalizing s with
  | nil => exact (watchBacktrack_tallies v s).bind fun s => .pure rfl
  | cons b bs ih =>
    refine (watchValue_tallies hdescend v b s).bind fun r => ?_
    obtain ⟨outcome, s⟩ := r
    cases outcome with
    | solved => exact .pure rfl
    | exhausted => exact (retract_tallies v s).bind ih

/-- The search below the present values counts its moments. -/
theorem watchExplore_tallies (left : ℕ) (s : SearchState) :
    (watchExplore f left s).Tallies s.statistics fun r => r.2.statistics := by
  induction left generalizing s with
  | zero => exact .meet (watchEvaluate_tallies s)
  | succ left ih =>
    have hselect : Watched.Tallies s.statistics (fun _ => s.statistics)
        (liftM s.branching.select : Watched (Option (Choice × Branching))) := .lift fun _ _ => rfl
    refine .meet (hselect.bind fun r => ?_)
    cases r with
    | none => exact watchEvaluate_tallies _
    | some r => exact watchValues_tallies ih _ _ _

/-- A run counts its moments. -/
theorem watchRun_tallies (s : SearchState) :
    (s.watchRun f).Tallies s.statistics fun r => r.2.statistics := by
  refine (watchExplore_tallies _ s).bind fun r => ?_
  obtain ⟨outcome, s⟩ := r
  cases outcome <;> exact .pure rfl

/-- The counters of a search count the listed moments. -/
theorem watchRuns_tallies (k : ℕ) (s : SearchState) :
    (watchRuns f k s).Tallies s.statistics fun r => r.2.statistics := by
  induction k generalizing s with
  | zero => exact .pure rfl
  | succ k ih =>
    refine (watchRun_tallies s).bind fun r => ?_
    exact (ih r.2).bind fun r => .pure rfl

end SearchState

end SatSearch
