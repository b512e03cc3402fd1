import SatSearch.Pattern.Basic
import SatSearch.Text.Blank

/-!
# How a pattern is to be read

A pattern may say of its parts how they are to be read: by flags, single letters that are switched
on or, behind a hyphen, off. With one of the flags blanks and comments between the parts of a
pattern have no meaning; this module also takes text from a pattern with or without them.
-/

namespace SatSearch.Pattern

/-- How the characters of a pattern are understood. -/
structure Flags where
  /-- Case makes no difference. -/
  caseless : Bool := false
  /-- The anchors also stand for the ends of lines. -/
  multiline : Bool := false
  /-- A dot also stands for a line end. -/
  dotAll : Bool := false
  /-- Sets hold characters of Unicode. For these it is not known which are digits, white space or
  parts of words, nor which are case variants of each other. Otherwise sets hold characters of ASCII
  only, and the dot and complements are no such sets. -/
  unicode : Bool := true
  /-- Carriage returns end lines, too. -/
  crlf : Bool := false
  /-- Blanks and comments have no meaning. -/
  spaced : Bool := false
deriving DecidableEq, Repr

namespace Flags

/-- Switches the flag with a letter. Whether repetitions prefer small numbers, which is what `U`
switches, makes no difference to what a pattern stands for. -/
def switch? (on : Bool) (f : Flags) : Char → Option Flags
  | 'i' => some { f with caseless := on }
  | 'm' => some { f with multiline := on }
  | 's' => some { f with dotAll := on }
  | 'U' => some f
  | 'u' => some { f with unicode := on }
  | 'R' => some { f with crlf := on }
  | 'x' => some { f with spaced := on }
  | _ => none

/-- Switches the flags that are written in a group: those before a hyphen on, those behind it off.
No letter is written twice, and behind a hyphen is one at least. -/
def switchAll? (f : Flags) (written : List Char) : Option Flags :=
  match Text.pieces (· = '-') written with
  | [on] => if on.Nodup then on.foldlM (switch? true) f else none
  | [on, off] =>
    if (on ++ off).Nodup ∧ off ≠ [] then
      (on.foldlM (switch? true) f).bind fun f => off.foldlM (switch? false) f
    else none
  | _ => none

/-- What is left of a text without the blanks and comments at its start. The first argument tells
whether the text starts in a comment; a comment starts with `#` and lasts to the end of the line. -/
def dropBlank : Bool → List Char → List Char
  | _, [] => []
  | true, c :: cs => dropBlank (c ≠ '\n') cs
  | false, c :: cs =>
    if Text.isBlank c then dropBlank false cs
    else if c = '#' then dropBlank true cs
    else c :: cs

/-- What is left of a text without that at its start which has no meaning. -/
def skip (f : Flags) (cs : List Char) : List Char := if f.spaced then dropBlank false cs else cs

/-- The characters that have a meaning, as many as asked for, and what follows. -/
def take? (f : Flags) : Nat → List Char → Option (List Char × List Char)
  | 0, cs => some ([], cs)
  | n + 1, cs =>
    match f.skip cs with
    | [] => none
    | c :: cs => (f.take? n cs).map fun (taken, rest) => (c :: taken, rest)

/-- The characters with a meaning up to a closing brace, and what follows the brace. The first
argument tells whether the text starts in a comment. -/
def bracedFrom? (f : Flags) : Bool → List Char → Option (List Char × List Char)
  | _, [] => none
  | true, c :: cs => f.bracedFrom? (c ≠ '\n') cs
  | false, c :: cs =>
    if c = '}' then some ([], cs)
    else if f.spaced ∧ Text.isBlank c then f.bracedFrom? false cs
    else if f.spaced ∧ c = '#' then f.bracedFrom? true cs
    else (f.bracedFrom? false cs).map fun (taken, rest) => (c :: taken, rest)

/-- The characters with a meaning up to a closing brace, and what follows the brace. -/
def braced? (f : Flags) (cs : List Char) : Option (List Char × List Char) := f.bracedFrom? false cs

/-- A character alone, or together with its other case. -/
def charSet? (f : Flags) (c : Char) : Option CharSet :=
  if !f.caseless then some (.single c)
  else if f.unicode then none
  else some (CharSet.single c).withOtherCase

/-- A set of members of brackets, alone or with the other case of its letters. -/
def fold (f : Flags) (s : CharSet) : CharSet := if f.caseless then s.withOtherCase else s

/-- The complement of a set, if asked for. -/
def complement? (f : Flags) (negated : Bool) (s : CharSet) : Option CharSet :=
  if !negated then some s else if f.unicode then some s.compl else none

/-- Whether a character can be a member of a set. -/
def canHold (f : Flags) (c : Char) : Bool :=
  if f.unicode then !f.caseless else decide (c.toNat < 128)

end Flags

end SatSearch.Pattern
