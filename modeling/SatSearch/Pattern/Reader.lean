import SatSearch.Number.Numeral
import SatSearch.Pattern.Bracket
import SatSearch.Pattern.Size
import SatSearch.Text.Letter

/-!
# Reading a pattern

A pattern is read from left to right in steps. Between two steps it is known what was read of each
group and each bracket that is still open, the innermost first. A step takes one part of the
pattern: a character, an escape, a member of a set, a repetition, or a mark that opens or closes
something. A text is no pattern if a step cannot be taken, if something is left open at the end, or
if what was read nests too deeply or is too large.
-/

namespace SatSearch.Pattern

/-- A part of a pattern and how deep it nests. -/
structure Part where
  pattern : Pattern
  depth : Nat := 0
deriving DecidableEq, Repr

/-- One part made of several that follow each other. Where flags are switched stands no part. -/
def Part.inSequence (parts : List (Option Part)) : Part :=
  let present := parts.filterMap id
  let depth := (present.map Part.depth).foldl max 0
  ⟨sequence (present.map Part.pattern), if parts.length ≤ 1 then depth else depth + 1⟩

/-- One part made of several alternatives. -/
def Part.choice (branches : List Part) : Part :=
  let depth := (branches.map Part.depth).foldl max 0
  ⟨Pattern.choice (branches.map Part.pattern), if branches.length ≤ 1 then depth else depth + 1⟩

/-- A group that is still open, or the whole pattern. -/
structure Group where
  /-- What the group takes is remembered. -/
  remembered : Bool := false
  /-- The flags around the group. -/
  outside : Flags := {}
  /-- The alternatives that are complete, the last one first. -/
  branches : List Part := []
  /-- The parts of the alternative that is read, the last one first. -/
  parts : List (Option Part) := []
deriving DecidableEq, Repr

namespace Group

/-- Adds a part, or the place where flags are switched. -/
def add (g : Group) (p : Option Part) : Group := { g with parts := p :: g.parts }

/-- Starts the next alternative. -/
def branch (g : Group) : Group :=
  { g with branches := .inSequence g.parts.reverse :: g.branches, parts := [] }

/-- What was read of the group. -/
def content (g : Group) : Part := .choice g.branch.branches.reverse

/-- The part that the group is, now that it is closed. -/
def close (g : Group) : Part :=
  ⟨if g.remembered then .group g.content.pattern else g.content.pattern, g.content.depth + 1⟩

/-- Repeats the last part, which has to be there. -/
def repeatLast? (g : Group) (least : Nat) (most : Option Nat) : Option Group :=
  match g.parts with
  | some p :: ps => some { g with parts := some ⟨.repeated p.pattern least most, p.depth + 1⟩ :: ps }
  | _ => none

end Group

/-- How far a pattern was read. -/
structure Reading where
  flags : Flags := {}
  /-- The innermost open group. -/
  here : Group := {}
  /-- The groups around it. -/
  around : List Group := []
  /-- The open brackets. -/
  brackets : List Bracket := []
  /-- The names of groups. -/
  names : List (List Char) := []
deriving DecidableEq, Repr

namespace Reading

/-- Adds a part. -/
def add (s : Reading) (p : Pattern) (depth : Nat := 0) : Reading :=
  { s with here := s.here.add (some ⟨p, depth⟩) }

/-- Opens a group. -/
def openGroup (s : Reading) (remembered : Bool) (inside : Flags) : Reading :=
  { s with
    flags := inside
    here := { remembered := remembered, outside := s.flags }
    around := s.here :: s.around }

/-- Closes a group, if one is open. -/
def closeGroup? (s : Reading) : Option Reading :=
  match s.around with
  | [] => none
  | g :: gs =>
    some { s with flags := s.here.outside, here := g.add (some s.here.close), around := gs }

/-- Whether a text can be the name of a group: a letter or a low line, and then letters, numerals,
low lines, points and square brackets. -/
def isGroupName : List Char → Bool
  | [] => false
  | c :: cs =>
    (c = '_' || Text.isLetter c) &&
      cs.all fun c => c ∈ ['_', '.', '[', ']'] || Text.isLetter c || Text.isNumeral c

/-- Opens a group with a name, which no other group has. -/
def openNamed (s : Reading) (cs : List Char) : Option (Reading × List Char) :=
  let name := cs.takeWhile (· ≠ '>')
  match cs.dropWhile (· ≠ '>') with
  | [] => none
  | _ :: rest =>
    if isGroupName name ∧ name ∉ s.names then
      some ({ s.openGroup true s.flags with names := name :: s.names }, rest)
    else none

/-- Switches flags, for a group that starts or for the rest of the group that is open. -/
def switchFlags (s : Reading) (cs : List Char) : Option (Reading × List Char) := do
  let written := cs.takeWhile fun c => c ≠ ':' ∧ c ≠ ')'
  let flags ← s.flags.switchAll? written
  match cs.drop written.length with
  | ':' :: rest => return (s.openGroup false flags, rest)
  | ')' :: rest =>
    if written = [] then none
    else return ({ s with flags := flags, here := s.here.add none }, rest)
  | _ => none

/-- Reads what follows an opening parenthesis. -/
def readGroup (s : Reading) (cs : List Char) : Option (Reading × List Char) :=
  match s.flags.skip cs with
  | '?' :: 'P' :: '<' :: cs => s.openNamed cs
  | '?' :: '<' :: cs => s.openNamed cs
  | '?' :: cs => s.switchFlags cs
  | cs => some (s.openGroup true s.flags, cs)

/-- Repeats the last part. A question mark behind a repetition makes it prefer small numbers. -/
def repeatLast (s : Reading) (least : Nat) (most : Option Nat) (cs : List Char) :
    Option (Reading × List Char) := do
  let here ← s.here.repeatLast? least most
  return ({ s with here := here }, if cs.head? = some '?' then cs.tail else cs)

/-- A number of repetitions. -/
def count? (cs : List Char) : Option Nat :=
  (Numeral.digits? (Text.trim cs)).filter fun n => n < 0x100000000

/-- The least and the most number of repetitions, as written between braces. -/
def counts? (written : List Char) : Option (Nat × Option Nat) :=
  match Text.pieces (· = ',') written with
  | [exact] => (count? exact).map fun n => (n, some n)
  | [least, []] => (count? least).map fun n => (n, none)
  | [least, most] => do
    let n ← count? least
    let m ← count? most
    if n ≤ m then return (n, some m) else none
  | _ => none

/-- Reads what follows an opening brace. -/
def readCounts (s : Reading) (cs : List Char) : Option (Reading × List Char) := do
  let (written, rest) ← s.flags.braced? cs
  let (least, most) ← counts? written
  s.repeatLast least most (s.flags.skip rest)

/-- The set that a dot stands for. -/
def dot? (f : Flags) : Option CharSet :=
  if !f.unicode then none
  else if f.dotAll then some .all
  else if f.crlf then some (.compl (.union (.single '\r') (.single '\n')))
  else some (.compl (.single '\n'))

/-- The pattern that an atom is. -/
def atom? (f : Flags) : Atom → Option Pattern
  | .char c => (f.charSet? c).map .one
  | .set s => some (.one s)
  | .look l => some (.look l)

/-- Takes a step outside brackets. -/
def stepOutside (s : Reading) : List Char → Option (Reading × List Char)
  | [] => some (s, [])
  | '(' :: cs => s.readGroup cs
  | ')' :: cs => s.closeGroup?.map fun s => (s, cs)
  | '|' :: cs => some ({ s with here := s.here.branch }, cs)
  | '[' :: cs =>
    let (b, rest) := Bracket.start s.flags cs
    some ({ s with brackets := [b] }, rest)
  | '?' :: cs => s.repeatLast 0 (some 1) cs
  | '*' :: cs => s.repeatLast 0 none cs
  | '+' :: cs => s.repeatLast 1 none cs
  | '{' :: cs => s.readCounts cs
  | '.' :: cs => (dot? s.flags).map fun set => (s.add (.one set), cs)
  | '^' :: cs =>
    some (s.add (.look (if s.flags.multiline then .lineStart s.flags.crlf else .textStart)), cs)
  | '$' :: cs =>
    some (s.add (.look (if s.flags.multiline then .lineEnd s.flags.crlf else .textEnd)), cs)
  | '\\' :: cs => do
    let (a, rest) ← s.flags.readEscape cs
    return (s.add (← atom? s.flags a), rest)
  | c :: cs => do return (s.add (← atom? s.flags (.char c)), cs)

/-- Takes a step in the innermost open bracket. -/
def stepInBracket (s : Reading) (b : Bracket) (outer : List Bracket) (cs : List Char) :
    Option (Reading × List Char) :=
  let goOn (b : Bracket) (rest : List Char) : Option (Reading × List Char) :=
    some ({ s with brackets := b :: outer }, rest)
  let literal (c : Char) (fresh : Bool) (rest : List Char) : Option (Reading × List Char) :=
    if s.flags.canHold c then goOn { b.add ⟨.single c, 0⟩ with fresh := fresh } rest else none
  match b.fresh, b.members, cs with
  | true, _, '-' :: cs => literal '-' true cs
  | true, [], ']' :: cs => literal ']' false cs
  | _, _, cs =>
    let b := { b with fresh := false }
    match cs with
    | [] => none
    | '[' :: cs =>
      match readNamedClass? cs with
      | some (negated, set, rest) => do
        let set ← s.flags.classMember? negated set
        goOn (b.add ⟨set, 0⟩) rest
      | none =>
        let (inner, rest) := Bracket.start s.flags cs
        some ({ s with brackets := inner :: b :: outer }, rest)
    | ']' :: cs => do
      let closed ← b.close? s.flags
      match outer with
      | [] => return ({ s with brackets := [] }.add (.one closed.set) closed.depth, cs)
      | o :: os => return ({ s with brackets := o.add closed :: os }, cs)
    | '&' :: '&' :: cs => goOn (b.operate s.flags .inter) cs
    | '-' :: '-' :: cs => goOn (b.operate s.flags .diff) cs
    | '~' :: '~' :: cs => goOn (b.operate s.flags .symmDiff) cs
    | cs => do
      let (set, rest) ← s.flags.readMember cs
      goOn (b.add ⟨set, 0⟩) rest

/-- Takes a step. -/
def step (s : Reading) (cs : List Char) : Option (Reading × List Char) :=
  match s.brackets with
  | [] => s.stepOutside (s.flags.skip cs)
  | b :: outer => s.stepInBracket b outer (s.flags.skip cs)

/-- Takes steps up to the end of the text. A step that takes nothing would lead nowhere. -/
def run (s : Reading) (cs : List Char) : Option Reading :=
  match cs with
  | [] => some s
  | c :: cs =>
    match s.step (c :: cs) with
    | none => none
    | some (next, rest) => if rest.length ≤ cs.length then next.run rest else none
termination_by cs.length

/-- How deep a pattern may nest. -/
def depthLimit : Nat := 250

/-- What was read, if it is a whole pattern within the limits. -/
def finish? (s : Reading) : Option Pattern :=
  let p := s.here.content
  if s.around = [] ∧ s.brackets = [] ∧ p.depth ≤ depthLimit ∧ p.pattern.size ≤ sizeLimit then
    some p.pattern
  else none

end Reading

/-- The pattern that a text is. -/
def ofText? (cs : List Char) : Option Pattern := (Reading.run {} cs).bind Reading.finish?

end SatSearch.Pattern
