import SatSearch.Pattern.CharSet

/-!
# Patterns

A pattern is a regular expression over sets of characters, with conditions on the place between two
characters. Which stretches of a text it stands for is all that is kept: what a group remembers and
in which order alternatives are tried make no difference to whether a text holds such a stretch.
-/

namespace SatSearch

namespace Pattern

/-- The digits of ASCII. -/
def digits : CharSet := .range '0' '9'

/-- The white space of ASCII. -/
def spaces : CharSet := .unions [.range '\t' '\r', .single ' ']

/-- The characters of ASCII that words consist of. -/
def wordChars : CharSet := .unions [.range 'a' 'z', .range 'A' 'Z', digits, .single '_']

/-- A condition on the place between two characters, either of which may be missing at an end of
the text. -/
inductive Look where
  | textStart
  | textEnd
  /-- The text starts, or the line behind a line end. -/
  | lineStart (crlf : Bool)
  /-- The text ends, or the line before a line end. -/
  | lineEnd (crlf : Bool)
  /-- A word starts or ends. -/
  | wordEdge
  /-- No word starts or ends. -/
  | noWordEdge
  | wordStart
  | wordEnd
  /-- Before the place is no character of a word. -/
  | noWordBefore
  /-- Behind the place is no character of a word. -/
  | noWordBehind
deriving DecidableEq, Repr

/-- Whether a character is there and part of a word. -/
def inWord (c : Option Char) : Bool := c.any fun c => wordChars.contains c.toNat

/-- Whether a condition holds between two characters. If carriage returns end lines, a carriage
return and a line feed behind it are one line end. -/
def Look.holds (before behind : Option Char) : Look → Bool
  | textStart => before.isNone
  | textEnd => behind.isNone
  | lineStart false => before.isNone || before == some '\n'
  | lineEnd false => behind.isNone || behind == some '\n'
  | lineStart true =>
    before.isNone || before == some '\n' || (before == some '\r' && behind != some '\n')
  | lineEnd true =>
    behind.isNone || behind == some '\r' || (behind == some '\n' && before != some '\r')
  | wordEdge => inWord before != inWord behind
  | noWordEdge => inWord before == inWord behind
  | wordStart => !inWord before && inWord behind
  | wordEnd => inWord before && !inWord behind
  | noWordBefore => !inWord before
  | noWordBehind => !inWord behind

end Pattern

/-- What a stretch of a text has to be. -/
inductive Pattern where
  /-- Nothing. -/
  | empty
  /-- One character of a set. -/
  | one (s : Pattern.CharSet)
  /-- Nothing, at a place where a condition holds. -/
  | look (l : Pattern.Look)
  /-- A stretch for the first and then one for the second. -/
  | seq (p q : Pattern)
  /-- A stretch for either. -/
  | either (p q : Pattern)
  /-- Several stretches for one pattern, from the least to the most number of them. -/
  | repeated (p : Pattern) (least : Nat) (most : Option Nat)
  /-- A stretch that is remembered. -/
  | group (p : Pattern)
deriving DecidableEq, Repr

namespace Pattern

/-- Patterns one after the other. -/
def sequence : List Pattern → Pattern
  | [] => empty
  | [p] => p
  | p :: ps => seq p (sequence ps)

/-- A stretch for one of two patterns; two sets of characters make up one. -/
def alternate : Pattern → Pattern → Pattern
  | one s, one t => one (s.union t)
  | p, q => either p q

/-- A stretch for any of several patterns. -/
def choice : List Pattern → Pattern
  | [] => empty
  | [p] => p
  | p :: ps => alternate p (choice ps)

end Pattern

end SatSearch
