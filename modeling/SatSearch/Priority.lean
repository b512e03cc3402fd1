import SatSearch.Fault
import SatSearch.Number.Binary64

/-!
# Priorities

Among `n` variables, variable `v` with unit score `u` has the priority `2 u + 1 - v / (n + 1)`: the
unit score decides, and the smaller variable wins a tie. Multiplied by the scale `n + 1` it is an
integer, the key under which the variable is queued, and keys have to fit into 64 bits.
-/

namespace SatSearch

/-- A priority as the quotient of a key and the scale. -/
structure Priority where
  key : Nat
  scale : Nat
deriving DecidableEq, Repr

namespace Priority

/-- The priority of a variable with a unit score, if its key fits into 64 bits. -/
def ofScore (scale unit v : Nat) : Except Fault Priority := do
  let top ← below longSize ((2 * unit + 1) * scale)
  if v ≤ top then return ⟨top - v, scale⟩ else throw .overflow

/-- The priority as a double precision number: key and scale are rounded, then their quotient. -/
def toBinary64 (p : Priority) : Binary64 :=
  (Binary64.ofNat p.key).div (Binary64.ofNat p.scale)

/-- The priority with three decimal places. -/
def text (p : Priority) : String := p.toBinary64.text 3

/-- A priority exists exactly if its key neither exceeds 64 bits nor falls below zero. -/
theorem ofScore_eq_ok {scale unit v : Nat} {p : Priority} :
    ofScore scale unit v = .ok p ↔
      (2 * unit + 1) * scale < longSize ∧ v ≤ (2 * unit + 1) * scale ∧
        p = ⟨(2 * unit + 1) * scale - v, scale⟩ := by
  simp only [ofScore, below]
  split
  case isTrue h =>
    simp only [h, true_and, bind, Except.bind, pure, Except.pure, throw, throwThe,
      MonadExceptOf.throw]
    split
    case isTrue hv => simp [hv, eq_comm]
    case isFalse hv => simp [hv]
  case isFalse h => simp [h, bind, Except.bind]

end Priority

end SatSearch
