import SatSearch.Branching

/-!
# Scanning the clauses under a partial assignment

A scan goes through the clauses once. A clause with a true literal says nothing. Of any other
clause only the open literals count, those whose variable has no value: without one the clause is
falsified, and a single one is forced. The scan ends with a conflict at a falsified clause and at a
clause that forces the negation of a literal forced before. Up to there it collects the scores of
the open variables. Forced literals are not assigned.

The set of forced literals is kept by a propagator from one scan to the next and cleared when a scan
begins.
-/

namespace SatSearch

/-- Why no assignment of the open variables can satisfy the formula. -/
inductive Conflict where
  /-- All literals of this clause are false. -/
  | falsified (c : Clause)
  /-- Two clauses force both values of this variable. -/
  | forcedBothWays (v : Nat)
deriving DecidableEq, Repr

/-- What a scan reports about a conflict. -/
def Conflict.message : Conflict → Message
  | falsified c => .falsified c
  | forcedBothWays v => .forcedBothWays v

/-- The result of a scan. -/
inductive Finding where
  /-- Every clause has a true literal. -/
  | satisfied
  /-- The values cannot be extended to a model. -/
  | conflict (why : Conflict)
  /-- Neither of the two was found. -/
  | undecided
deriving DecidableEq, Repr

/-- The most open literals that a clause may have, plus one. -/
def openLimit : Nat := 0x80000000

namespace Branching

/-- The open literals among these, in order and with repetitions, or `none` if one of these is
true. Literals after the first true one are not looked up. The first argument is the number of open
literals before these. -/
def openLiterals (s : Branching) : Nat → List Literal → Except Fault (Option (List Literal))
  | _, [] => .ok (some [])
  | seen, l :: ls => do
    match ← s.value l.var with
    | some b => if b = l.positive then return none else s.openLiterals seen ls
    | none =>
      let seen ← below openLimit (seen + 1)
      return (← s.openLiterals seen ls).map (l :: ·)

/-- Counts the open literals among these in the polarity scores. -/
def countOccurrences (s : Branching) : List Literal → Except Fault Branching
  | [] => .ok s
  | l :: ls => do
    match ← s.value l.var with
    | some _ => s.countOccurrences ls
    | none => countOccurrences (← s.countOccurrence l.var l.positive) ls

end Branching

/-- What scans of clauses share: the set of literals that clauses with a single open literal have
forced. -/
structure Propagator where
  forced : List Literal := []
deriving DecidableEq, Repr

namespace Propagator

/-- Forgets the forced literals. -/
def clear (p : Propagator) : Propagator := { p with forced := [] }

/-- Adds a forced literal. -/
def force (p : Propagator) (l : Literal) : Propagator := { p with forced := p.forced.insert l }

/-- Scans the remaining clauses, given whether all of the earlier ones have a true literal. -/
def scanFrom (p : Propagator) (s : Branching) (allSatisfied : Bool) :
    List Clause → Except Fault (Finding × Propagator × Branching)
  | [] => .ok (if allSatisfied then .satisfied else .undecided, p, s)
  | c :: cs => do
    match ← s.openLiterals 0 c.literals with
    | none => p.scanFrom s allSatisfied cs
    | some [] => return (.conflict (.falsified c), p, s)
    | some [l] =>
      if p.forced.contains (← l.negate) then
        return (.conflict (.forcedBothWays l.var), p, s)
      else
        let s ← s.countUnit l.var
        let s ← s.countOccurrences c.literals
        (p.force l).scanFrom s false cs
    | some (_ :: _ :: _) =>
      let s ← s.countOccurrences c.literals
      p.scanFrom s false cs

/-- Scans the clauses of a formula from no forced literals on, and reports a conflict. -/
def scan (p : Propagator) (f : Formula) (s : Branching) :
    Logged Fault (Finding × Propagator × Branching) := do
  let (finding, p, s) ← p.clear.scanFrom s true f.clauses
  if let .conflict why := finding then
    Logged.log why.message
  return (finding, p, s)

end Propagator

/-- A scan with a propagator that is not kept. -/
def Branching.scan (s : Branching) (f : Formula) : Logged Fault (Finding × Branching) := do
  let (finding, _, s) ← ({} : Propagator).scan f s
  return (finding, s)

end SatSearch
