import SatSearch.Pattern.Basic

/-!
# The size of a pattern

How many bytes the automaton of a pattern takes, as far as it matters: a pattern with an automaton
of more than ten mebibytes is refused, which only large numbers of repetitions can bring about. A
character takes a state for each of its bytes, a set of ASCII characters a state with an arc for
each range, any other set a small automaton of its own, and a repetition the states of what it
repeats as often as it may.
-/

namespace SatSearch.Pattern

/-- The size of a state. -/
def stateSize : Nat := 32

/-- The size of an arc. -/
def arcSize : Nat := 8

/-- The number of bytes of a character. -/
def byteCount (n : Nat) : Nat :=
  if n < 0x80 then 1 else if n < 0x800 then 2 else if n < 0x10000 then 3 else 4

/-- The size of a set of characters. -/
def CharSet.size (s : CharSet) : Nat :=
  match s.ranges with
  | [r] =>
    if r.first = r.last then byteCount r.first * stateSize
    else if r.last < 0x80 then 2 * stateSize + arcSize
    else 12 * stateSize
  | rs =>
    if rs.all fun r => r.last < 0x80 then 2 * stateSize + rs.length * arcSize
    else 10 * stateSize + rs.length * (stateSize + arcSize)

/-- Whether all stretches for a pattern are empty. -/
def takesNothing : Pattern → Bool
  | empty | look _ => true
  | one _ => false
  | seq p q | either p q => p.takesNothing && q.takesNothing
  | repeated p _ most => p.takesNothing || most == some 0
  | group p => p.takesNothing

/-- The size of a pattern. -/
def size : Pattern → Nat
  | empty => 0
  | one s => s.size
  | look _ => stateSize
  | seq p q => p.size + q.size
  | either p q => p.size + q.size + 2 * (stateSize + arcSize)
  | repeated p least most =>
    let cut (k : Nat) := if p.takesNothing then min k 1 else k
    let fork := stateSize + arcSize
    match most with
    | none => max 1 (cut least) * p.size + fork
    | some most => cut least * p.size + (cut most - cut least) * (p.size + fork)
  | group p => p.size + 2 * stateSize

/-- The size that a pattern may have. -/
def sizeLimit : Nat := 10 * 1024 * 1024

end SatSearch.Pattern
