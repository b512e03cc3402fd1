/-!
# Hexadecimal numbers

Numbers in base sixteen, with digits of either case, any number of them but at least one.
-/

namespace SatSearch.Text

/-- The value of a hexadecimal digit. -/
def hexDigit? (c : Char) : Option Nat :=
  if c.isDigit then some (c.toNat - '0'.toNat)
  else if 'a' ≤ c ∧ c ≤ 'f' then some (c.toNat - 'a'.toNat + 10)
  else if 'A' ≤ c ∧ c ≤ 'F' then some (c.toNat - 'A'.toNat + 10)
  else none

/-- The number written with one or more hexadecimal digits. -/
def hexNumber? : List Char → Option Nat
  | [] => none
  | cs => (cs.mapM hexDigit?).map fun ds => ds.foldl (fun n d => 16 * n + d) 0

end SatSearch.Text
