import SatSearch.Dimacs.Error
import SatSearch.Dimacs.Line
import SatSearch.Log.Logged

/-!
# Reading a DIMACS file

The lines are read in order. Before the header only blank lines and comments may stand. After it
the words of the lines of clauses are literals, and a 0 ends a clause wherever in a line it stands.
Once the declared number of clauses is there, further words are not looked at, but the remaining
lines still have to be text without a second header. The first offending place decides the error.
-/

namespace SatSearch.Dimacs

/-- How far the reading has come after the header. The finished clauses and the literals of the
unfinished one are listed with the latest first. -/
structure Progress where
  header : Header
  /-- How many of the declared clauses are still to come. -/
  missing : Nat
  finished : List Clause
  unfinished : Clause
deriving DecidableEq, Repr

namespace Progress

/-- The state right after the header. -/
def start (h : Header) : Progress := ⟨h, h.clauseCount, [], Clause.empty⟩

/-- The state after the end of a clause. -/
def close (p : Progress) : Progress :=
  { p with
    missing := p.missing - 1
    finished := p.unfinished.reverse :: p.finished
    unfinished := Clause.empty }

/-- The state after one more literal of the unfinished clause. -/
def add (p : Progress) (l : Literal) (h : l.code ≠ 0) : Progress :=
  { p with unfinished := p.unfinished.cons l h }

/-- Reads the words of a line until the declared number of clauses is there. -/
def readWords (line : Nat) (p : Progress) : List (List Char) → Except Error Progress
  | [] => .ok p
  | w :: ws =>
    if p.missing = 0 then .ok p
    else match Numeral.literal? w with
      | none => .error (.invalidLiteral line (String.ofList w))
      | some l =>
        if h : l.code = 0 then p.close.readWords line ws
        else if p.header.variableCount < l.var then
          .error (.variableOutOfRange line l p.header.variableCount)
        else (p.add l h).readWords line ws

/-- The formula that was read, or what is missing at the end of an input of so many lines. -/
def finish (p : Progress) (lineCount : Nat) : Except Error Formula :=
  if !p.unfinished.isEmpty then .error (.unterminatedClause lineCount)
  else if p.missing ≠ 0 then .error (.clauseCount p.finished.length p.header.clauseCount)
  else .ok ⟨p.header.variableCount, p.finished.reverse⟩

end Progress

/-- Reads one line with its number. The state before the header is `none`. -/
def readLine (state : Option Progress) (bytes : List UInt8) (line : Nat) :
    Except Error (Option Progress) :=
  match Line.ofBytes? bytes with
  | none => .error (.unreadable .invalidUtf8)
  | some .skipped => .ok state
  | some (.header text) =>
    match state, Header.ofText? text with
    | none, some h => .ok (some (Progress.start h))
    | _, _ => .error (.invalidHeader line (String.ofList text))
  | some (.clauses words) =>
    match state with
    | none => .error (.missingHeader line)
    | some p => some <$> p.readWords line words

/-- The formula that the lines of an input stand for, or their first error. -/
def readLines (ls : List (List UInt8)) : Except Error Formula := do
  match ← (ls.zipIdx 1).foldlM (fun state l => readLine state l.1 l.2) none with
  | none => throw .noHeader
  | some p => p.finish ls.length

/-- The lines of an input; the last one need not be ended by a line feed. -/
def lines (bytes : List UInt8) : List (List UInt8) := Text.lines (· = 10) bytes

/-- The formula that an input stands for, or its first error. -/
def read (bytes : List UInt8) : Except Error Formula := readLines (lines bytes)

/-- Reads a formula and reports its size. -/
def load (bytes : List UInt8) : Logged Error Formula := do
  let f ← read bytes
  Logged.log (.parsed f.variableCount f.clauseCount)
  return f

end SatSearch.Dimacs
