import SatSearch.Fault

/-!
# Literals

A literal is a signed variable: its code is the variable's name, negative where the literal asks
for the value false. Codes are signed 32-bit numbers. The code 0 is no literal of a clause, but it
is what ends a clause in a file, so the type holds it and `Clause` excludes it.
-/

namespace SatSearch

/-- A signed 32-bit code that stands for a variable with a sign. -/
structure Literal where
  code : Int
  lower : -0x80000000 ≤ code := by decide
  upper : code < 0x80000000 := by decide
deriving DecidableEq, Repr

namespace Literal

/-- The code that ends a clause. -/
def zero : Literal := ⟨0, by decide, by decide⟩

/-- The literal with a given code, if the code is in range. -/
def ofCode? (code : Int) : Option Literal :=
  if h : -0x80000000 ≤ code ∧ code < 0x80000000 then some ⟨code, h.1, h.2⟩ else none

/-- The variable that a literal is about. -/
def var (l : Literal) : Nat := l.code.natAbs

/-- The value that makes a literal true. -/
def positive (l : Literal) : Bool := decide (0 < l.code)

/-- The literal of the same variable that asks for the other value. The smallest code has no
counterpart in range. -/
def negate (l : Literal) : Except Fault Literal :=
  if h : l.code = -0x80000000 then .error .noNegation
  else .ok ⟨-l.code, by have := l.upper; omega, by have := l.lower; omega⟩

/-- The literal that a 32-bit word stands for when it is read as a signed number. -/
def ofWord (w : Nat) : Literal :=
  ⟨Int.bmod w 0x100000000,
    by have := @Int.le_bmod w 0x100000000 (by decide); omega,
    by have := @Int.bmod_lt w 0x100000000 (by decide); omega⟩

/-- The literal that a variable with a given value satisfies. Names from 2 ^ 31 on are read as
signed words, and the one that has no negation is refused for the value false. -/
def ofVariable (v : Nat) (value : Bool) : Except Fault Literal :=
  if value then .ok (ofWord v) else (ofWord v).negate

/-- Literals with the same code are the same. -/
@[ext] theorem ext {a b : Literal} (h : a.code = b.code) : a = b := by
  cases a; cases b; simp_all

/-- The variable of a nonzero literal has a name from 1 on. -/
theorem var_pos {l : Literal} (h : l.code ≠ 0) : 0 < l.var := by
  simp only [var]
  omega

end Literal

end SatSearch
