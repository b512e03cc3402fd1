/-!
# Sets of characters

A set of characters is a list of ranges of code points, in ascending order and with gaps between
them. All sets come from ranges by union and difference.
-/

namespace SatSearch.Pattern

/-- The code points from the first to the last. -/
structure CodeRange where
  first : Nat
  last : Nat
  first_le_last : first ≤ last
deriving DecidableEq, Repr

namespace CodeRange

/-- The range between two code points, if they are in order. -/
def between? (first last : Nat) : Option CodeRange :=
  if h : first ≤ last then some ⟨first, last, h⟩ else none

/-- Whether a code point lies in a range. -/
def contains (r : CodeRange) (n : Nat) : Bool := decide (r.first ≤ n ∧ n ≤ r.last)

/-- What is left of a range without another one: something before it and something behind it. -/
def without (r s : CodeRange) : List CodeRange :=
  (if s.first = 0 then [] else (between? r.first (min r.last (s.first - 1))).toList) ++
    (between? (max r.first (s.last + 1)) r.last).toList

/-- Adds a range to ascending ones, and makes one range of those that meet or touch. -/
def insert (r : CodeRange) : List CodeRange → List CodeRange
  | [] => [r]
  | s :: rs =>
    if r.last + 1 < s.first then r :: s :: rs
    else if s.last + 1 < r.first then s :: insert r rs
    else
      insert ⟨min r.first s.first, max r.last s.last, by have := r.first_le_last; omega⟩ rs

end CodeRange

/-- A set of characters. -/
structure CharSet where
  ranges : List CodeRange
deriving DecidableEq, Repr

namespace CharSet

/-- Whether the character with a code point belongs to a set. -/
def contains (s : CharSet) (n : Nat) : Bool := s.ranges.any fun r => r.contains n

/-- The set without characters. -/
def none : CharSet := ⟨[]⟩

/-- The characters from one to another. -/
def range (first last : Char) : CharSet :=
  ⟨(CodeRange.between? first.toNat last.toNat).toList⟩

/-- The set of one character. -/
def single (c : Char) : CharSet := range c c

/-- The characters of either set. -/
def union (s t : CharSet) : CharSet := ⟨s.ranges.foldr CodeRange.insert t.ranges⟩

/-- The characters of several sets. -/
def unions (ss : List CharSet) : CharSet := ss.foldr union none

/-- The characters of the first set that are not in the second. -/
def diff (s t : CharSet) : CharSet :=
  ⟨t.ranges.foldl (fun rs r => rs.flatMap fun q => q.without r) s.ranges⟩

/-- All characters. -/
def all : CharSet := ⟨[⟨0, 0x10ffff, by omega⟩]⟩

/-- The characters that are not in a set. -/
def compl (s : CharSet) : CharSet := diff all s

/-- The characters of both sets. -/
def inter (s t : CharSet) : CharSet := diff s (diff s t)

/-- The characters of one of two sets only. -/
def symmDiff (s t : CharSet) : CharSet := union (diff s t) (diff t s)

/-- The letters of ASCII that are the other case of one in a set. -/
def otherCase (s : CharSet) : CharSet :=
  let toLower (r : CodeRange) : CodeRange :=
    ⟨r.first + 32, r.last + 32, Nat.add_le_add_right r.first_le_last 32⟩
  let toUpper (r : CodeRange) : CodeRange :=
    ⟨r.first - 32, r.last - 32, Nat.sub_le_sub_right r.first_le_last 32⟩
  ⟨(inter s (range 'a' 'z')).ranges.map toUpper ++ (inter s (range 'A' 'Z')).ranges.map toLower⟩

/-- The characters of a set and the ASCII letters that are the other case of one in it. -/
def withOtherCase (s : CharSet) : CharSet := union (otherCase s) s

end CharSet

end SatSearch.Pattern
