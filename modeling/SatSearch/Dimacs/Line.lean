import SatSearch.Number.Numeral
import SatSearch.Text.Blank

/-!
# Lines of a DIMACS file

A line is text in UTF-8. With the white space at its ends removed, its first character says what it
is: nothing or a `c` makes it a line to skip, a `p` a header line, and anything else a line of
clauses, of which only the words matter.
-/

namespace SatSearch.Dimacs

/-- The characters that bytes stand for, if they are valid UTF-8. -/
def decode? (bytes : List UInt8) : Option (List Char) :=
  (String.fromUTF8? ⟨bytes.toArray⟩).map String.toList

/-- What a line is. -/
inductive Line where
  /-- A blank line or a comment. -/
  | skipped
  /-- A header line, whether well formed or not, without the white space at its ends. -/
  | header (text : List Char)
  /-- A line of clauses, as its words. -/
  | clauses (words : List (List Char))
deriving DecidableEq, Repr

/-- What a line with these characters is. -/
def Line.ofText (text : List Char) : Line :=
  match Text.trim text with
  | [] => .skipped
  | c :: cs =>
    if c = 'c' then .skipped
    else if c = 'p' then .header (c :: cs)
    else .clauses (Text.words (c :: cs))

/-- What a line with these bytes is, if they are valid UTF-8. -/
def Line.ofBytes? (bytes : List UInt8) : Option Line :=
  (decode? bytes).map Line.ofText

/-- The counts that a header declares. -/
structure Header where
  variableCount : Nat
  clauseCount : Nat
deriving DecidableEq, Repr

/-- The header that a line of text is: `p`, `cnf` and two counts. -/
def Header.ofText? (text : List Char) : Option Header :=
  match Text.words text with
  | [p, cnf, n, m] =>
    if p = ['p'] ∧ cnf = ['c', 'n', 'f'] then
      (Numeral.count? n).bind fun variableCount =>
        (Numeral.count? m).map fun clauseCount => ⟨variableCount, clauseCount⟩
    else none
  | _ => none

end SatSearch.Dimacs
