import SatSearch.Literal

/-!
# Decimal numerals

A numeral is an optional sign and one or more ASCII digits; leading zeros are allowed. Counts take
no minus sign and fit into 64 bits, literals take either sign and fit into 32 bits.
-/

namespace SatSearch.Numeral

/-- The number that a digit adds to ten times the number before it. -/
def digitValue (c : Char) : Nat := c.toNat - '0'.toNat

/-- The number written with one or more digits. -/
def digits? (cs : List Char) : Option Nat :=
  if cs ≠ [] ∧ cs.all Char.isDigit then
    some (cs.foldl (fun n c => 10 * n + digitValue c) 0)
  else none

/-- The number written with an optional sign and digits. -/
def integer? : List Char → Option Int
  | '-' :: cs => (digits? cs).map fun n => -(n : Int)
  | '+' :: cs => (digits? cs).map Int.ofNat
  | cs => (digits? cs).map Int.ofNat

/-- The number written with an optional plus sign and digits. -/
def natural? : List Char → Option Nat
  | '+' :: cs => digits? cs
  | cs => digits? cs

/-- The count that a numeral stands for, if it fits into 64 bits. -/
def count? (cs : List Char) : Option Nat :=
  (natural? cs).filter fun n => n < longSize

/-- The literal whose code a numeral stands for, if it fits into 32 bits. -/
def literal? (cs : List Char) : Option Literal :=
  (integer? cs).bind Literal.ofCode?

end SatSearch.Numeral
