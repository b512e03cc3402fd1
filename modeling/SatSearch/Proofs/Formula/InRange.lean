import SatSearch.Formula
import SatSearch.Proofs.Faults
import Mathlib.Algebra.Group.Nat.Defs
import Mathlib.Data.Nat.Notation

/-!
# Formulas whose literals are in range

A literal is in range if its variable is one of those that the formula is declared over. Where all
of them are, every look-up of a literal succeeds, and so does the evaluation of the formula.
-/

namespace SatSearch

variable {f : Formula} {l : Literal}

/-- The clause of the literals with these codes. Numbers that are no code of a nonzero literal are
left out. -/
def Clause.ofCodes (codes : List Int) : Clause where
  literals := (codes.filterMap Literal.ofCode?).filter fun l => l.code ≠ 0
  nonzero l hl := by simpa using (List.mem_filter.mp hl).2

/-- Every variable of the formula is one of those it is declared over. -/
def Formula.InRange (f : Formula) : Prop :=
  ∀ c ∈ f.clauses, ∀ l ∈ c.literals, l.var ≤ f.variableCount

instance (f : Formula) : Decidable f.InRange :=
  inferInstanceAs (Decidable (∀ c ∈ f.clauses, ∀ l ∈ c.literals, l.var ≤ f.variableCount))

/-- The number of literals in all clauses together, repetitions counted. -/
def Formula.occurrences (f : Formula) : ℕ := (f.clauses.flatMap Clause.literals).length

/-- No literal of the formula has the smallest code, the only one without a negation. -/
def Formula.Negatable (f : Formula) : Prop :=
  ∀ c ∈ f.clauses, ∀ l ∈ c.literals, l.code ≠ -0x80000000

instance (f : Formula) : Decidable f.Negatable :=
  inferInstanceAs (Decidable (∀ c ∈ f.clauses, ∀ l ∈ c.literals, l.code ≠ -0x80000000))

/-- Every literal but the least can be negated. -/
theorem Literal.exists_negate (h : l.code ≠ -0x80000000) : ∃ m, l.negate = .ok m :=
  ⟨_, dif_neg h⟩

/-- Below `2 ^ 31` variables every literal has a negation. -/
theorem Formula.InRange.negatable (h : f.InRange) (hn : f.variableCount < 2 ^ 31) :
    f.Negatable := by
  intro c hc l hl hcode
  have hvar := h c hc l hl
  rw [Literal.var, hcode] at hvar
  omega

/-- An evaluation in which no look-up faults does not fault. -/
theorem Formula.exists_check {lookup : ℕ → Except Fault Bool}
    (hlookup : ∀ c ∈ f.clauses, ∀ l ∈ c.literals, ∃ b, lookup l.var = .ok b) :
    ∃ r, f.check lookup = .ok r := by
  refine exists_allM fun c hc => exists_anyM fun l hl => ?_
  obtain ⟨b, hb⟩ := hlookup c hc l hl
  exact ⟨b == l.positive, by rw [hb]; rfl⟩

end SatSearch
