/-!
# Solving methods

The two ways to decide a formula, their names, and the counters that the backtracking search keeps.
-/

namespace SatSearch

/-- A way to decide a formula. -/
inductive Method where
  /-- Backtracking search that branches by priority. -/
  | dpll
  /-- Enumeration of all assignments. -/
  | exhaustive
deriving DecidableEq, Repr

namespace Method

/-- The name by which a method is chosen and reported. -/
def name : Method → String
  | dpll => "dpll"
  | exhaustive => "exhaustive"

/-- The method with a name; ASCII letters of either case are the same. -/
def ofName? (s : String) : Option Method :=
  let lower := s.toList.map Char.toLower
  if lower = dpll.name.toList then some dpll
  else if lower = exhaustive.name.toList then some exhaustive
  else none

end Method

/-- What a backtracking search counts. -/
structure Statistics where
  /-- Values tried, one for each assignment of a branching variable. -/
  decisions : Nat := 0
  /-- Scans of the clauses under a partial assignment. -/
  scans : Nat := 0
  /-- Evaluations under an assignment of all variables. -/
  evaluations : Nat := 0
  /-- Variables given up after both values failed. -/
  backtracks : Nat := 0
deriving DecidableEq, Repr

end SatSearch
