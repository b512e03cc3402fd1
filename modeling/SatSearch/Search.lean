import SatSearch.ClauseScan

/-!
# Backtracking search

The search takes the variable with the highest priority from the queue, tries its two values in
the chosen order, and gives it back when both fail. Below the last variable the formula is
evaluated; above it a scan of the clauses decides whether the search can stop, must turn back, or
goes on. The state is kept from one run to the next: a run after a model goes on with the variables
that are still queued.

The recursion goes down by the number of queued variables, one for each level of the search. It can
be carried out in any monad that runs its steps, and `meet` is called with each step and its state
before the step begins. The search itself ignores these calls.
-/

namespace SatSearch

/-- How a part of the search ended. -/
inductive Outcome where
  /-- The present values satisfy the formula, whatever the open variables are. -/
  | solved
  /-- No extension of the values at the start satisfies the formula. -/
  | exhausted
deriving DecidableEq, Repr

/-- The state of a search. The trail holds the variables branched on with their present values,
innermost first. -/
structure SearchState where
  branching : Branching
  propagator : Propagator := {}
  trail : List (Nat × Bool) := []
  statistics : Statistics := {}
deriving DecidableEq, Repr

/-- A step of a search that is about to begin, with the state it begins in. -/
inductive Moment where
  /-- The search goes one level down. -/
  | descent (s : SearchState)
  | decision (v : Nat) (b : Bool) (s : SearchState)
  | scan (s : SearchState)
  | evaluation (s : SearchState)
  /-- The values of the variable have failed. -/
  | backtrack (v : Nat) (s : SearchState)
deriving DecidableEq, Repr

namespace SearchState

/-- A search over `n` variables that has not begun. -/
def create (n : Nat) : Except Fault SearchState := do
  return { branching := ← Branching.create n }

/-- The decisions that lead to the present values, outermost first. -/
def path (s : SearchState) : List (Nat × Bool) := s.trail.reverse

/-- Evaluates the formula under the present values, an open variable taken as false. -/
def evaluate (f : Formula) (s : SearchState) : Except Fault (Outcome × SearchState) := do
  let evaluations ← below longSize (s.statistics.evaluations + 1)
  let s := { s with statistics := { s.statistics with evaluations } }
  let holds ← f.check fun v => do return (← s.branching.value v).getD false
  return (if holds then .solved else .exhausted, s)

/-- Scans the clauses of the formula under the present values. -/
def scan (f : Formula) (s : SearchState) : Logged Fault (Finding × SearchState) := do
  let scans ← below longSize (s.statistics.scans + 1)
  let ⟨branching, propagator, trail, statistics⟩ := s
  let (finding, propagator, branching) ← propagator.scan f branching
  return (finding, ⟨branching, propagator, trail, { statistics with scans }⟩)

/-- Puts a variable with a value on the trail. -/
def assign (s : SearchState) (v : Nat) (b : Bool) : Logged Fault SearchState := do
  let decisions ← below longSize (s.statistics.decisions + 1)
  let ⟨branching, propagator, trail, statistics⟩ := s
  let branching ← branching.assign v b
  let trail := (v, b) :: trail
  Logged.log (.tried trail.length v b)
  return ⟨branching, propagator, trail, { statistics with decisions }⟩

/-- Takes the innermost decision back, which is on this variable. -/
def retract (s : SearchState) (v : Nat) : Except Fault SearchState := do
  let ⟨branching, propagator, trail, statistics⟩ := s
  return ⟨← branching.unassign v, propagator, trail.tail, statistics⟩

/-- Gives a variable up after its values have failed: it is queued again. -/
def backtrack (s : SearchState) (v : Nat) : Logged Fault SearchState := do
  let backtracks ← below longSize (s.statistics.backtracks + 1)
  let ⟨branching, propagator, trail, statistics⟩ := s
  let branching ← branching.requeue v
  Logged.log (.backtracked v (trail.length + 1) (← branching.priority v))
  return ⟨branching, propagator, trail, { statistics with backtracks }⟩

section

variable {m : Type → Type} [Monad m] [MonadLiftT (Logged Fault) m] [MonadLiftT (Except Fault) m]

/-- Meets an evaluation and carries it out. -/
@[inline] def evaluateIn (meet : Moment → m Unit) (f : Formula) (s : SearchState) :
    m (Outcome × SearchState) := do
  meet (.evaluation s)
  s.evaluate f

/-- Meets a scan and carries it out. -/
@[inline] def scanIn (meet : Moment → m Unit) (f : Formula) (s : SearchState) :
    m (Finding × SearchState) := do
  meet (.scan s)
  s.scan f

/-- Meets a decision and makes it. -/
@[inline] def assignIn (meet : Moment → m Unit) (s : SearchState) (v : Nat) (b : Bool) :
    m SearchState := do
  meet (.decision v b s)
  s.assign v b

/-- Meets the end of the values of a variable and gives it up. -/
@[inline] def backtrackIn (meet : Moment → m Unit) (s : SearchState) (v : Nat) : m SearchState := do
  meet (.backtrack v s)
  s.backtrack v

/-- Tries one value of a variable. If a scan leaves the matter open, the search goes on as `descend`
says. -/
@[specialize] def tryValueIn (meet : Moment → m Unit) (f : Formula)
    (descend : SearchState → m (Outcome × SearchState)) (v : Nat) (b : Bool) (s : SearchState) :
    m (Outcome × SearchState) := do
  let s ← s.assignIn meet v b
  if s.branching.anyQueued then
    let (finding, s) ← s.scanIn meet f
    match finding with
    | .satisfied => return (.solved, s)
    | .conflict _ => return (.exhausted, s)
    | .undecided => descend s
  else
    s.evaluateIn meet f

/-- Tries these values of a variable in turn until one succeeds, and gives the variable up if none
does. -/
@[specialize] def tryValuesIn (meet : Moment → m Unit) (f : Formula)
    (descend : SearchState → m (Outcome × SearchState)) (v : Nat) :
    List Bool → SearchState → m (Outcome × SearchState)
  | [], s => do return (.exhausted, ← s.backtrackIn meet v)
  | b :: bs, s => do
    let (outcome, s) ← tryValueIn meet f descend v b s
    match outcome with
    | .solved => return (.solved, s)
    | .exhausted => tryValuesIn meet f descend v bs (← s.retract v)

/-- Searches below the present values, with so many variables in the queue. -/
@[specialize] def exploreIn (meet : Moment → m Unit) (f : Formula) :
    Nat → SearchState → m (Outcome × SearchState)
  | 0, s => do
    meet (.descent s)
    s.evaluateIn meet f
  | left + 1, s => do
    meet (.descent s)
    let ⟨branching, propagator, trail, statistics⟩ := s
    match ← branching.select with
    | none => evaluateIn meet f ⟨branching, propagator, trail, statistics⟩
    | some (choice, branching) =>
      tryValuesIn meet f (exploreIn meet f left) choice.var choice.values
        ⟨branching, propagator, trail, statistics⟩

/-- Runs the search from its present state. A model gives false to the variables that the search
never had to assign. -/
@[specialize] def runIn (meet : Moment → m Unit) (f : Formula) (s : SearchState) :
    m (Option Assignment × SearchState) := do
  let (outcome, s) ← exploreIn meet f s.branching.queued s
  match outcome with
  | .solved => return (some s.branching.model, s)
  | .exhausted => return (none, s)

end

/-- The search below the present values as a logged computation. -/
def explore (f : Formula) (left : Nat) (s : SearchState) : Logged Fault (Outcome × SearchState) :=
  exploreIn (fun _ => pure ()) f left s

/-- A run of the search as a logged computation. -/
def run (f : Formula) (s : SearchState) : Logged Fault (Option Assignment × SearchState) :=
  runIn (fun _ => pure ()) f s

end SearchState

end SatSearch
