import SatSearch.Formula
import SatSearch.Method
import SatSearch.Priority

/-!
# Messages

What the library and the program report while they work. A message is data: what happened, with
the values involved. How it is worded, how severe it is and which part of the program it comes from
are functions of it.
-/

namespace SatSearch

/-- How severe a message is, the most severe first. -/
inductive Level where
  | error
  | warn
  | info
  | debug
  | trace
deriving DecidableEq, Repr

namespace Level

/-- The number of levels that are at least as severe. -/
def rank : Level → Nat
  | error => 1
  | warn => 2
  | info => 3
  | debug => 4
  | trace => 5

/-- The word for a level in a message. -/
def word : Level → String
  | error => "ERROR"
  | warn => "WARN"
  | info => "INFO"
  | debug => "DEBUG"
  | trace => "TRACE"

end Level

/-- The part of the program that a message comes from. -/
inductive Origin where
  | program
  | reader
  | solver
  | ordering
  | search
  | scan
  | enumeration
deriving DecidableEq, Repr

/-- The name of a part, by which messages are filtered. -/
def Origin.path : Origin → String
  | program => "priority_sat"
  | reader => "priority_sat::dimacs_parser"
  | solver => "priority_sat::solver"
  | ordering => "priority_sat::variables"
  | search => "priority_sat::dpll"
  | scan => "priority_sat::propagate"
  | enumeration => "priority_sat::exhaustive"

/-- Something that happened. -/
inductive Message where
  /-- The program starts. -/
  | banner
  /-- The program opens its input. -/
  | reading (path : String)
  /-- A formula was read. -/
  | parsed (variableCount clauseCount : Nat)
  /-- A formula is about to be decided. -/
  | solving (variableCount clauseCount : Nat) (method : Method)
  /-- The search has ended with these counters. -/
  | finished (s : Statistics)
  /-- A model turned out not to satisfy the formula. -/
  | modelRejected
  /-- The formula was decided within this time, written in seconds. -/
  | elapsed (seconds : String)
  /-- The program ends with an error. -/
  | failed (cause : String)
  /-- A variable was taken from the queue, its first value chosen, and so many are left. -/
  | selected (v : Nat) (first : Bool) (left : Nat)
  /-- A value is tried for a variable; the trail with it has this length. -/
  | tried (depth v : Nat) (value : Bool)
  /-- A scan met a clause without an open or a true literal. -/
  | falsified (c : Clause)
  /-- A scan met two clauses that force both values of a variable. -/
  | forcedBothWays (v : Nat)
  /-- Both values failed at this depth, and the variable is queued again. -/
  | backtracked (v depth : Nat) (p : Priority)
  /-- The enumeration stopped at a model, the `k`-th assignment. -/
  | modelFound (k : Nat)
  /-- The enumeration tried all `k` assignments in vain. -/
  | noModel (k : Nat)
deriving DecidableEq, Repr

namespace Message

/-- How severe a message is. -/
def level : Message → Level
  | modelRejected | failed _ => .error
  | banner | reading _ | parsed .. | solving .. | finished _ | elapsed _ => .info
  | backtracked .. | modelFound _ | noModel _ => .debug
  | selected .. | tried .. | falsified _ | forcedBothWays _ => .trace

/-- The part of the program that a message comes from. -/
def origin : Message → Origin
  | banner | reading _ | elapsed _ | failed _ => .program
  | parsed .. => .reader
  | solving .. | finished _ | modelRejected => .solver
  | selected .. => .ordering
  | tried .. | backtracked .. => .search
  | falsified _ | forcedBothWays _ => .scan
  | modelFound _ | noModel _ => .enumeration

/-- A list of items in brackets, separated by commas. -/
def bracketed (items : List String) : String :=
  "[" ++ ", ".intercalate items ++ "]"

/-- The wording of a message. -/
def text : Message → String
  | banner => "This is priority-sat 0.1.0"
  | reading path => s!"Reading file '{path}'"
  | parsed n m => s!"Parsed {n} variables and {m} clauses"
  | solving n m method =>
    let name := method.name
    s!"Solving {n} variables, {m} clauses with {name}"
  | finished s =>
    let d := s.decisions
    let k := s.scans
    let e := s.evaluations
    let b := s.backtracks
    s!"{d} decisions, {k} scans, {e} full evaluations, {b} backtracks"
  | modelRejected => "Model check failed"
  | elapsed seconds => s!"Execution time: {seconds} seconds"
  | failed cause => cause
  | selected v first left =>
    let order := bracketed [toString first, toString (!first)]
    s!"selected {v} (order {order}, {left} left)"
  | tried depth v value => s!"depth {depth}: {v} = {value}"
  | falsified c =>
    let literals := bracketed (c.literals.map fun l => toString l.code)
    s!"scan: falsified clause {literals}"
  | forcedBothWays v => s!"scan: {v} forced both ways"
  | backtracked v depth p =>
    let priority := p.text
    s!"backtrack over {v} at depth {depth} (priority {priority})"
  | modelFound k => s!"exhaustive: model found after {k} assignments"
  | noModel k => s!"exhaustive: all {k} assignments fail"

end Message

end SatSearch
