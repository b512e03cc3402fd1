import SatSearch.Pattern.Basic

/-!
# Looking for a pattern in a text

A text of `n` characters has `n + 1` places, before, between and behind the characters. A set of
places is kept in the bits of a number: bit `i` stands for the place before the character with
index `i`. Seen from one text a pattern takes a set of places where stretches start to the set of
the places where they end, and the pattern occurs in the text if anything is left of the set of all
places.

No stretch ends before its start. So among more repetitions than there are places, one takes nothing
and can be left out or repeated, and the number of repetitions may be cut down to that of the
places.
-/

namespace SatSearch.Pattern

/-- The places of a text where a condition holds on the characters before and behind. The first
argument is the character before the text. -/
def placesWhere (holds : Option Char → Option Char → Bool) (before : Option Char) :
    List Char → Nat
  | [] => (holds before none).toNat
  | c :: cs => (holds before (some c)).toNat + 2 * placesWhere holds (some c) cs

/-- A pattern seen from one text. -/
inductive Walk where
  /-- Stays at the place, which has to be one of these. -/
  | stay (places : Nat)
  /-- Takes the character behind the place, which has to be one of these. -/
  | step (places : Nat)
  | seq (w v : Walk)
  | either (w v : Walk)
  /-- Walks so many times, and then up to so many times more. -/
  | repeated (w : Walk) (least more : Nat)
deriving DecidableEq, Repr

namespace Walk

/-- Applies a function so many times, but stops where it makes no difference any more. -/
def iterate (f : Nat → Nat) : Nat → Nat → Nat
  | 0, x => x
  | k + 1, x =>
    let y := f x
    if y = x then x else iterate f k y

/-- The places where a walk ends that starts at one of these. -/
def run : Walk → Nat → Nat
  | stay places, x => x &&& places
  | step places, x => (x &&& places) <<< 1
  | seq w v, x => v.run (w.run x)
  | either w v, x => w.run x ||| v.run x
  | repeated w least more, x =>
    iterate (fun y => y ||| w.run y) more (iterate (fun y => w.run y) least x)

end Walk

/-- The pattern seen from a text. -/
def walk (text : List Char) : Pattern → Walk
  | empty => .stay (placesWhere (fun _ _ => true) none text)
  | one s => .step (placesWhere (fun _ c => c.any fun c => s.contains c.toNat) none text)
  | look l => .stay (placesWhere (fun before behind => l.holds before behind) none text)
  | seq p q => .seq (p.walk text) (q.walk text)
  | either p q => .either (p.walk text) (q.walk text)
  | repeated p least most =>
    let cut (k : Nat) := min k (text.length + 1)
    .repeated (p.walk text) (cut least)
      (match most with
        | none => text.length + 1
        | some most => cut (most - least))
  | group p => p.walk text

/-- Whether a stretch of the text is one for the pattern. -/
def occursIn (p : Pattern) (text : List Char) : Bool :=
  (p.walk text).run (placesWhere (fun _ _ => true) none text) ≠ 0

end SatSearch.Pattern
