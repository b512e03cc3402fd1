import SatSearch.Literal

/-!
# Clauses and formulas

A formula is a conjunction of clauses over variables `1..n`, and a clause is a disjunction of
literals. Nothing here asks that the literals stay within `1..n`: a literal is looked up only when
it is reached, and evaluation stops at the first clause that fails and, within a clause, at the
first literal that holds.

`holds` evaluates under a value for every variable. `check` does the same with a look-up that can
fault, so that it also says which look-ups take place.
-/

namespace SatSearch

/-- A disjunction of nonzero literals, in the order in which they are tried. -/
structure Clause where
  literals : List Literal
  nonzero : ∀ l ∈ literals, l.code ≠ 0
deriving DecidableEq, Repr

namespace Clause

/-- The clause without literals, which no assignment satisfies. -/
def empty : Clause := ⟨[], by simp⟩

/-- The clause with these literals, unless one of them is 0. -/
def ofList (ls : List Literal) : Except Fault Clause :=
  if h : ∀ l ∈ ls, l.code ≠ 0 then .ok ⟨ls, h⟩ else .error .zeroLiteral

/-- The clause with one more literal at its end, unless that literal is 0. -/
def insert (c : Clause) (l : Literal) : Except Fault Clause :=
  if h : l.code ≠ 0 then
    .ok ⟨c.literals ++ [l], by
      intro x hx
      rcases List.mem_append.mp hx with hx | hx
      · exact c.nonzero x hx
      · exact List.mem_singleton.mp hx ▸ h⟩
  else .error .zeroLiteral

/-- The clause with one more literal at its front. -/
def cons (l : Literal) (h : l.code ≠ 0) (c : Clause) : Clause :=
  ⟨l :: c.literals, by
    intro x hx
    rcases List.mem_cons.mp hx with rfl | hx
    · exact h
    · exact c.nonzero x hx⟩

/-- The same literals in the opposite order. -/
def reverse (c : Clause) : Clause :=
  ⟨c.literals.reverse, fun x hx => c.nonzero x (List.mem_reverse.mp hx)⟩

/-- The number of literals, repetitions counted. -/
def length (c : Clause) : Nat := c.literals.length

/-- Whether the clause has no literal. -/
def isEmpty (c : Clause) : Bool := c.literals.isEmpty

/-- Whether a literal occurs in the clause. -/
def contains (c : Clause) (l : Literal) : Bool := c.literals.contains l

/-- Whether some literal is true under a value for every variable. -/
def holds (value : Nat → Bool) (c : Clause) : Bool :=
  c.literals.any fun l => value l.var == l.positive

/-- `holds` with a look-up that can fault. Literals after the first true one are not looked up. -/
def check (value : Nat → Except Fault Bool) (c : Clause) : Except Fault Bool :=
  c.literals.anyM fun l => do return (← value l.var) == l.positive

/-- Clauses with the same literals are the same. -/
@[ext] theorem ext {a b : Clause} (h : a.literals = b.literals) : a = b := by
  cases a; cases b; simp_all

end Clause

/-- A conjunction of clauses, with the number of variables it is declared over. -/
structure Formula where
  variableCount : Nat
  clauses : List Clause
deriving DecidableEq, Repr

namespace Formula

/-- The formula with these lists of literals as clauses, unless one of them holds a 0. -/
def ofLists (variableCount : Nat) (clauses : List (List Literal)) : Except Fault Formula := do
  return ⟨variableCount, ← clauses.mapM Clause.ofList⟩

/-- The number of clauses. -/
def clauseCount (f : Formula) : Nat := f.clauses.length

/-- Whether every clause holds under a value for every variable. -/
def holds (value : Nat → Bool) (f : Formula) : Bool :=
  f.clauses.all (Clause.holds value)

/-- `holds` with a look-up that can fault. Clauses after the first false one are not looked at. -/
def check (value : Nat → Except Fault Bool) (f : Formula) : Except Fault Bool :=
  f.clauses.allM (Clause.check value)

end Formula

/-- A look-up that never faults evaluates a clause as `holds` does. -/
theorem Clause.check_ok (value : Nat → Bool) (c : Clause) :
    c.check (fun v => .ok (value v)) = .ok (c.holds value) := by
  simp only [check, holds]
  induction c.literals with
  | nil => rfl
  | cons l ls ih =>
    rw [List.anyM_cons, List.any_cons]
    cases h : value l.var == l.positive
    · simpa [h, bind, Except.bind, pure, Except.pure] using ih
    · simp [h, bind, Except.bind, pure, Except.pure]

/-- A look-up that never faults evaluates a formula as `holds` does. -/
theorem Formula.check_ok (value : Nat → Bool) (f : Formula) :
    f.check (fun v => .ok (value v)) = .ok (f.holds value) := by
  simp only [check, holds]
  induction f.clauses with
  | nil => rfl
  | cons c cs ih =>
    rw [List.allM_cons, List.all_cons, Clause.check_ok]
    cases c.holds value
    · rfl
    · simpa [bind, Except.bind] using ih

end SatSearch
