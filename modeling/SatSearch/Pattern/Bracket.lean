import SatSearch.Pattern.Escape

/-!
# Sets in brackets

Between brackets stand the members of a set: characters, ranges of characters, escapes, named
classes such as `[:digit:]`, and further sets in brackets. Between several groups of members stand
operators, which are applied from left to right. With `^` behind the opening bracket the set is the
complement. Sets nest, so that a reader keeps the brackets that are open; each knows how deep the
sets in it nest.
-/

namespace SatSearch.Pattern

/-- An operator between two sets. -/
inductive SetOperator where
  | inter
  | diff
  | symmDiff
deriving DecidableEq, Repr

/-- The set that an operator makes of two. -/
def SetOperator.apply : SetOperator → CharSet → CharSet → CharSet
  | inter => CharSet.inter
  | diff => CharSet.diff
  | symmDiff => CharSet.symmDiff

/-- A set and how deep it nests. -/
structure NestedSet where
  set : CharSet
  depth : Nat := 0
deriving DecidableEq, Repr

/-- A bracket that is still open. -/
structure Bracket where
  /-- The set is the complement of what the bracket holds. -/
  negated : Bool := false
  /-- Only hyphens were read so far. -/
  fresh : Bool := true
  /-- The left side and the last operator. -/
  left : Option (NestedSet × SetOperator) := none
  /-- The members behind the last operator, the last one first. -/
  members : List NestedSet := []
deriving DecidableEq, Repr

namespace Bracket

/-- Adds a member. -/
def add (b : Bracket) (s : NestedSet) : Bracket := { b with members := s :: b.members }

/-- The union of the members behind the last operator. -/
def right (b : Bracket) : NestedSet :=
  let depth := (b.members.map NestedSet.depth).foldl max 0
  ⟨.unions (b.members.map NestedSet.set).reverse, if b.members.length ≤ 1 then depth else depth + 1⟩

/-- The set of all that was read. Case variants are added to both sides of an operator. -/
def whole (f : Flags) (b : Bracket) : NestedSet :=
  match b.left with
  | none => b.right
  | some (l, op) => ⟨op.apply (f.fold l.set) (f.fold b.right.set), max l.depth b.right.depth + 1⟩

/-- Reads on behind an operator. -/
def operate (f : Flags) (op : SetOperator) (b : Bracket) : Bracket :=
  { b with left := some (b.whole f, op), members := [] }

/-- The set, now that the bracket is closed. -/
def close? (f : Flags) (b : Bracket) : Option NestedSet :=
  (f.complement? b.negated (f.fold (b.whole f).set)).map fun s => ⟨s, (b.whole f).depth + 1⟩

/-- Reads what stands directly behind an opening bracket. -/
def start (f : Flags) (cs : List Char) : Bracket × List Char :=
  match f.skip cs with
  | '^' :: cs => ({ negated := true }, cs)
  | cs => ({}, cs)

end Bracket

/-- The classes of ASCII characters that have a name between colons. -/
def CharSet.named? (name : List Char) : Option CharSet :=
  let upper := range 'A' 'Z'
  let lower := range 'a' 'z'
  [("alnum", unions [digits, upper, lower]), ("alpha", union upper lower),
    ("ascii", range '\x00' '\x7f'), ("blank", union (single '\t') (single ' ')),
    ("cntrl", union (range '\x00' '\x1f') (single '\x7f')), ("digit", digits),
    ("graph", range '!' '~'), ("lower", lower), ("print", range ' ' '~'),
    ("punct", unions [range '!' '/', range ':' '@', range '[' '\x60', range '\x7b' '~']),
    ("space", spaces), ("upper", upper), ("word", wordChars),
    ("xdigit", unions [digits, range 'A' 'F', range 'a' 'f'])].lookup (String.ofList name)

/-- The class between `[:` and `:]` behind an opening bracket, whether its complement is meant, and
what follows. -/
def readNamedClass? : List Char → Option (Bool × CharSet × List Char)
  | ':' :: cs =>
    let (negated, cs) := match cs with
      | '^' :: cs => (true, cs)
      | cs => (false, cs)
    match cs.dropWhile (· ≠ ':') with
    | ':' :: ']' :: rest =>
      (CharSet.named? (cs.takeWhile (· ≠ ':'))).map fun s => (negated, s, rest)
    | _ => none
  | _ => none

namespace Flags

/-- The member that a named class or its complement is. -/
def classMember? (f : Flags) (negated : Bool) (s : CharSet) : Option CharSet :=
  if f.unicode ∧ f.caseless then none else f.complement? negated (f.fold s)

/-- The member that an atom is. -/
def member? (f : Flags) : Atom → Option CharSet
  | .char c => if f.canHold c then some (.single c) else none
  | .set s => some s
  | .look _ => none

/-- Reads a character or an escape in brackets. -/
def readAtom (f : Flags) : List Char → Option (Atom × List Char)
  | [] => none
  | '\\' :: cs => f.readEscape cs
  | c :: cs => some (.char c, cs)

/-- The next character with a meaning. A character behind `#` counts, though it stands in a
comment. -/
def peek? (f : Flags) (cs : List Char) : Option Char :=
  if f.spaced then
    match cs.dropWhile Text.isBlank with
    | '#' :: cs => (cs.dropWhile Text.isBlank).head?
    | cs => cs.head?
  else cs.head?

/-- Reads a member: a range, or a character or escape. A hyphen before a closing bracket or another
hyphen makes no range. -/
def readMember (f : Flags) (cs : List Char) : Option (CharSet × List Char) := do
  let (first, rest) ← f.readAtom cs
  let rest := f.skip rest
  match rest with
  | '-' :: behind =>
    if f.peek? behind = some ']' ∨ f.peek? behind = some '-' then
      return (← f.member? first, rest)
    else
      let (last, rest) ← f.readAtom (f.skip behind)
      match first, last with
      | .char a, .char b =>
        if a ≤ b ∧ f.canHold a ∧ f.canHold b then return (.range a b, rest) else none
      | _, _ => none
  | _ => return (← f.member? first, rest)

end Flags

end SatSearch.Pattern
