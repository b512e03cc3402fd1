import SatSearch.Pattern.Flags
import SatSearch.Text.Hex

/-!
# Escapes

What a backslash in a pattern stands for with the characters behind it: one character, a set of
characters, or a condition on a place. A backslash before a punctuation mark takes away the meaning
of that mark; before a letter it has a meaning of its own, or none at all.

A reading function yields what it has read and the text behind it.
-/

namespace SatSearch.Pattern

/-- The smallest part of a pattern. -/
inductive Atom where
  | char (c : Char)
  | set (s : CharSet)
  | look (l : Look)
deriving DecidableEq, Repr

/-- The character with a number. -/
def character? (n : Nat) : Option Char :=
  if n.isValidChar then some (Char.ofNat n) else none

/-- The conditions on words, by their names in braces. -/
def Look.named? (name : List Char) : Option Look :=
  [("start", wordStart), ("end", wordEnd), ("start-half", noWordBefore),
    ("end-half", noWordBehind)].lookup (String.ofList name)

namespace Flags

/-- Reads the number of a character: hexadecimal digits in braces or as many as given. Two digits
name a byte, which is less than 128 where sets hold characters of ASCII. -/
def readNumbered (f : Flags) (digits : Nat) (cs : List Char) : Option (Atom × List Char) :=
  match f.skip cs with
  | '{' :: cs => do
    let (written, rest) ← f.braced? cs
    let c ← (Text.hexNumber? written).bind character?
    return (.char c, rest)
  | cs => do
    let (written, rest) ← f.take? digits cs
    let c ← (Text.hexNumber? written).bind character?
    if f.unicode ∨ digits ≠ 2 ∨ c.toNat < 128 then return (.char c, rest) else none

/-- A condition on words, which are of ASCII. -/
def wordLook? (f : Flags) (l : Look) : Option Atom := if f.unicode then none else some (.look l)

/-- Reads which edge of a word is meant. Braces that do not start with a letter or a hyphen have
nothing to do with it. -/
def readEdge (f : Flags) (cs : List Char) : Option (Atom × List Char) :=
  let plain := (f.wordLook? .wordEdge).map fun a => (a, cs)
  match cs with
  | '{' :: inner =>
    match f.skip inner with
    | [] => none
    | c :: _ =>
      if c.isAlpha ∨ c = '-' then do
        let (name, rest) ← f.braced? inner
        let a ← f.wordLook? (← Look.named? name)
        return (a, rest)
      else plain
  | _ => plain

/-- A class of ASCII characters. Its complement is no set of such characters. -/
def asciiClass? (f : Flags) (s : CharSet) : Option Atom := if f.unicode then none else some (.set s)

/-- The atom of an escape that consists of a single character. -/
def single? (f : Flags) (c : Char) : Option Atom :=
  match c with
  | 'd' => f.asciiClass? digits
  | 's' => f.asciiClass? spaces
  | 'w' => f.asciiClass? wordChars
  | 'a' => some (.char '\x07')
  | 'f' => some (.char '\x0c')
  | 't' => some (.char '\t')
  | 'n' => some (.char '\n')
  | 'r' => some (.char '\r')
  | 'v' => some (.char '\x0b')
  | 'A' => some (.look .textStart)
  | 'z' => some (.look .textEnd)
  | 'B' => f.wordLook? .noWordEdge
  | '<' => f.wordLook? .wordStart
  | '>' => f.wordLook? .wordEnd
  | _ => if c.toNat < 128 ∧ !c.isAlphanum then some (.char c) else none

/-- Reads what follows a backslash. -/
def readEscape (f : Flags) : List Char → Option (Atom × List Char)
  | [] => none
  | 'x' :: cs => f.readNumbered 2 cs
  | 'u' :: cs => f.readNumbered 4 cs
  | 'U' :: cs => f.readNumbered 8 cs
  | 'b' :: cs => f.readEdge cs
  | c :: cs => (f.single? c).map fun a => (a, cs)

end Flags

end SatSearch.Pattern
