/-!
# Faults and bounded counters

A fault is a broken promise of a caller or a counter that leaves its range. It ends the
computation that meets it; it is never an answer about a formula. Counters are mathematical
numbers here, and every step that could take one out of its range is a checked step.
-/

namespace SatSearch

/-- The ways a computation can be cut short. -/
inductive Fault where
  /-- A clause was given the literal 0, which only ever ends a clause. -/
  | zeroLiteral
  /-- The literal with the smallest code has no negation in range. -/
  | noNegation
  /-- A table has no entry for this variable. -/
  | unknownVariable (v : Nat)
  /-- The heap has no entry at this place. -/
  | unknownPlace (i : Nat)
  /-- A score or the queue was to change for a variable that has a value. -/
  | hasValue (v : Nat)
  /-- A counter or a key would leave its range. -/
  | overflow
  /-- A table for this many variables cannot be addressed. -/
  | tableTooLarge (n : Nat)
deriving DecidableEq, Repr

/-- The number of values of a 32-bit word; variables are named by such words. -/
def wordSize : Nat := 0x100000000

/-- The number of values of a 64-bit word; keys, counts and statistics fit into one. -/
def longSize : Nat := 0x10000000000000000

/-- Tables are limited by what a signed 64-bit offset can address, in bytes. -/
def maxTableBytes : Nat := 0x7fffffffffffffff

/-- A number that has to stay below a limit. -/
def below (limit n : Nat) : Except Fault Nat :=
  if n < limit then .ok n else .error .overflow

/-- A signed number that has to fit into 32 bits. -/
def inSignedWord (i : Int) : Except Fault Int :=
  if -0x80000000 ≤ i ∧ i < 0x80000000 then .ok i else .error .overflow

/-- Whether a table with one entry for each of `0..n` can be addressed. -/
def checkTable (entryBytes n : Nat) : Except Fault Unit :=
  if entryBytes * (n + 1) ≤ maxTableBytes then .ok () else .error (.tableTooLarge n)

/-- A number passes exactly if it is below the limit. -/
theorem below_eq_ok {limit n m : Nat} : below limit n = .ok m ↔ n < limit ∧ n = m := by
  unfold below
  split <;> simp <;> omega

/-- A signed number passes exactly if it fits into 32 bits. -/
theorem inSignedWord_eq_ok {i j : Int} :
    inSignedWord i = .ok j ↔ (-0x80000000 ≤ i ∧ i < 0x80000000) ∧ i = j := by
  unfold inSignedWord
  split <;> simp <;> omega

end SatSearch
