import SatSearch.Assignment
import SatSearch.KeyedHeap
import SatSearch.Log.Logged

/-!
# Which variable to branch on next

Every variable has a value or none and two scores, which scans of the clauses collect: the unit
score counts the clauses in which the variable was the only one open, the polarity score its open
positive occurrences less the negative ones. The queued variables wait for their turn under the key
of their priority. Taking a variable from the queue fixes which of its values is tried first and
clears its scores.

Scores and keys change together: whatever changes a unit score also gives the variable the key that
belongs to the new score.
-/

namespace SatSearch

/-- What is known about one variable. -/
structure Entry where
  value : Option Bool := none
  unit : Nat := 0
  polarity : Int := 0
deriving DecidableEq, Repr

/-- The value to try first: true if more of the open occurrences are positive. -/
def Entry.preferred (e : Entry) : Bool := decide (0 < e.polarity)

/-- A variable to branch on, with the value to try first. -/
structure Choice where
  var : Nat
  first : Bool
deriving DecidableEq, Repr

/-- Both values in the order in which they are tried. -/
def Choice.values (c : Choice) : List Bool := [c.first, !c.first]

/-- The variables `0..n` and the queue of those that wait to be branched on. Variable 0 is never
queued by itself. -/
structure Branching where
  entries : Array Entry
  queue : KeyedHeap
deriving DecidableEq, Repr

namespace Branching

/-- The number of variables, variable 0 not counted. -/
def count (s : Branching) : Nat := s.entries.size - 1

/-- By how much a priority is multiplied to be a key. -/
def scale (s : Branching) : Nat := s.entries.size

/-- What is known about a variable. -/
def entry (s : Branching) (v : Nat) : Except Fault Entry :=
  match s.entries[v]? with
  | some e => .ok e
  | none => .error (.unknownVariable v)

/-- The value of a variable, if it has one. -/
def value (s : Branching) (v : Nat) : Except Fault (Option Bool) := do
  return (← s.entry v).value

/-- Replaces what is known about a variable. -/
def setEntry (s : Branching) (v : Nat) (e : Entry) : Except Fault Branching :=
  if h : v < s.entries.size then .ok { s with entries := s.entries.set v e h }
  else .error (.unknownVariable v)

/-- The priority of a variable at its present unit score. -/
def priority (s : Branching) (v : Nat) : Except Fault Priority := do
  let e ← s.entry v
  Priority.ofScore s.scale e.unit v

/-- Gives a variable the key of its present priority. -/
def rekey (s : Branching) (v : Nat) : Except Fault Branching := do
  let p ← s.priority v
  return { s with queue := ← s.queue.update v p.key }

/-- Queues a variable at its present priority. -/
def enqueue (s : Branching) (v : Nat) : Except Fault Branching := do
  let p ← s.priority v
  return { s with queue := ← s.queue.insert v p.key }

/-- The variables `1..n` without values and with zero scores, all of them queued. Variables are
named by 32-bit words, so of a larger count only the part that fits into a word is queued. What is
known about a variable takes 12 bytes. -/
def create (n : Nat) : Except Fault Branching := do
  checkTable 12 n
  let s := ⟨Array.replicate (n + 1) {}, ← KeyedHeap.create n⟩
  (List.range' 1 (n % wordSize)).foldlM enqueue s

/-- Whether a variable is queued. -/
def isQueued (s : Branching) (v : Nat) : Except Fault Bool := s.queue.contains v

/-- The number of queued variables. -/
def queued (s : Branching) : Nat := s.queue.size

/-- Whether any variable is queued. -/
def anyQueued (s : Branching) : Bool := !s.queue.isEmpty

/-- Takes the variable with the highest priority from the queue, chooses its first value by its
polarity, and clears its scores. -/
def select (s : Branching) : Logged Fault (Option (Choice × Branching)) := do
  match ← s.queue.popMax with
  | none => return none
  | some (v, queue) =>
    let s : Branching := { s with queue }
    let e ← s.entry v
    let s ← s.setEntry v { e with unit := 0, polarity := 0 }
    Logged.log (.selected v e.preferred s.queued)
    return some (⟨v, e.preferred⟩, ← s.rekey v)

/-- Faults if a variable has a value. -/
def requireOpen (s : Branching) (v : Nat) : Except Fault Unit := do
  match ← s.value v with
  | none => return ()
  | some _ => throw (.hasValue v)

/-- Raises the unit score of a variable without a value by one. -/
def countUnit (s : Branching) (v : Nat) : Except Fault Branching := do
  s.requireOpen v
  let e ← s.entry v
  let unit ← below wordSize (e.unit + 1)
  let s ← s.setEntry v { e with unit }
  s.rekey v

/-- Counts one occurrence of a variable without a value in its polarity score. -/
def countOccurrence (s : Branching) (v : Nat) (positive : Bool) : Except Fault Branching := do
  s.requireOpen v
  let e ← s.entry v
  let polarity ← inSignedWord (e.polarity + if positive then 1 else -1)
  let s ← s.setEntry v { e with polarity }
  s.rekey v

/-- Queues a variable without a value again. -/
def requeue (s : Branching) (v : Nat) : Except Fault Branching := do
  s.requireOpen v
  s.enqueue v

/-- Gives a variable a value. -/
def assign (s : Branching) (v : Nat) (b : Bool) : Except Fault Branching := do
  s.setEntry v { ← s.entry v with value := some b }

/-- Takes the value of a variable away. -/
def unassign (s : Branching) (v : Nat) : Except Fault Branching := do
  s.setEntry v { ← s.entry v with value := none }

/-- The values of the variables `1..n`; one without a value is reported as false. -/
def model (s : Branching) : Assignment :=
  Assignment.complete (s.count % wordSize) fun v =>
    (s.entries[v]?.bind fun e => e.value).getD false

/-- The first `k` choices that repeated selection makes. -/
def firstChoices : Nat → Branching → Except Fault (List Choice)
  | 0, _ => .ok []
  | k + 1, s => do
    match ← s.select.result with
    | none => return []
    | some (c, s) => return c :: (← firstChoices k s)

/-- The queued variables in the order in which repeated selection takes them. -/
def agenda (s : Branching) : Except Fault (List Choice) := firstChoices s.queued s

end Branching

end SatSearch
