import SatSearch.Literal

/-!
# Errors in a DIMACS file

Why a formula could not be read, with the place and the offending text. Lines are counted from 1.
-/

namespace SatSearch

/-- Why the text of an input could not be had. -/
inductive ReadFailure where
  /-- The operating system refused to hand out the bytes. -/
  | system (description : String) (code : Nat)
  /-- The bytes are not valid UTF-8. -/
  | invalidUtf8
deriving DecidableEq, Repr

namespace ReadFailure

/-- There is no such file. -/
def notFound : ReadFailure := system "No such file or directory" 2

/-- A part of the path that should be a directory is a file. -/
def notDirectory : ReadFailure := system "Not a directory" 20

/-- The path leads to a directory. -/
def isDirectory : ReadFailure := system "Is a directory" 21

/-- The wording of a failure. -/
def message : ReadFailure → String
  | system description code => s!"{description} (os error {code})"
  | invalidUtf8 => "stream did not contain valid UTF-8"

end ReadFailure

namespace Dimacs

/-- Why an input is not a formula. -/
inductive Error where
  /-- A line that starts with `p` is not a header or not the first one. -/
  | invalidHeader (line : Nat) (header : String)
  /-- A line with literals comes before the header. -/
  | missingHeader (line : Nat)
  /-- No line is a header. -/
  | noHeader
  /-- A word is no literal. -/
  | invalidLiteral (line : Nat) (token : String)
  /-- A literal is about a variable that the header does not declare. -/
  | variableOutOfRange (line : Nat) (literal : Literal) (variableCount : Nat)
  /-- The input ends, at this line, within a clause. -/
  | unterminatedClause (line : Nat)
  /-- The input has fewer clauses than the header declares. -/
  | clauseCount (found declared : Nat)
  /-- The input could not be read. -/
  | unreadable (cause : ReadFailure)
deriving DecidableEq, Repr

/-- The wording of an error. -/
def Error.message : Error → String
  | invalidHeader line header => s!"line {line}: Invalid header syntax: {header}"
  | missingHeader line => s!"line {line}: Clause before the header"
  | noHeader => "No header found"
  | invalidLiteral line token => s!"line {line}: Invalid literal '{token}'"
  | variableOutOfRange line literal variableCount =>
    let code := literal.code
    s!"line {line}: Literal {code} exceeds the declared {variableCount} variables"
  | unterminatedClause line => s!"line {line}: Unterminated clause"
  | clauseCount found declared =>
    s!"Formula has {found} clauses while the header specifies {declared} clauses"
  | unreadable cause => cause.message

end Dimacs

end SatSearch
