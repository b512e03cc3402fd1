import SatSearch.Log.Message
import SatSearch.Pattern.Reader
import SatSearch.Pattern.Occurrence

/-!
# Which messages are shown

A filter is a list of directives, each with a threshold and most with the name of an origin. For a
message the directive with the longest name decides that its origin starts with; the directive
without a name stands in for the others.

A filter is written as items between commas. An item is a level, which replaces the directive
without a name, or an origin with or without `=` and a level. After a slash follows a pattern that
has to occur in a message. Items that cannot be understood are passed over, and so is a text after a
slash that is no pattern.

Nothing that is proved of a session depends on how a filter is written and read: the results hold
for every choice of the messages that are shown.
-/

namespace SatSearch

/-- The least severe level that is shown, or `none` if nothing is. -/
abbrev Threshold := Option Level

/-- Whether a message of a level is shown. -/
def Threshold.admits (t : Threshold) (l : Level) : Bool :=
  match t with
  | none => false
  | some m => decide (l.rank ≤ m.rank)

/-- The thresholds by their names, in lower case. -/
def Threshold.names : List (List Char × Threshold) :=
  [("off".toList, none), ("error".toList, some .error), ("warn".toList, some .warn),
    ("info".toList, some .info), ("debug".toList, some .debug), ("trace".toList, some .trace)]

/-- The threshold with a name; ASCII letters of either case are the same. -/
def Threshold.ofName? (cs : List Char) : Option Threshold :=
  Threshold.names.lookup (cs.map Char.toLower)

/-- A threshold for the origins that start with a name, or for all without one. -/
structure Directive where
  name : Option (List Char)
  threshold : Threshold
deriving DecidableEq, Repr

namespace Directive

/-- The directive that an item of a filter is. -/
def ofItem? (item : List Char) : Option Directive :=
  match Text.pieces (· = '=') item with
  | [name] =>
    match Threshold.ofName? name with
    | some threshold => some ⟨none, threshold⟩
    | none => some ⟨some name, some .trace⟩
  | [name, level] =>
    match Text.trim level with
    | [] => some ⟨some name, some .trace⟩
    | level => (Threshold.ofName? level).map fun threshold => ⟨some name, threshold⟩
  | _ => none

/-- How specific a directive is. -/
def length (d : Directive) : Nat := (d.name.map List.length).getD 0

/-- Whether a directive is about an origin. -/
def covers (d : Directive) (origin : Origin) : Bool :=
  match d.name with
  | none => true
  | some name => name.isPrefixOf origin.path.toList

end Directive

/-- Directives, each name once, in the order of their first mention, and maybe a pattern to look
for. -/
structure LogFilter where
  directives : List Directive
  pattern : Option Pattern := none
deriving DecidableEq, Repr

namespace LogFilter

/-- The filter that shows everything up to a level. -/
def upTo (l : Level) : LogFilter := { directives := [⟨none, some l⟩] }

/-- Puts a directive in the place of the one with its name, or at the end. -/
def addDirective (d : Directive) : List Directive → List Directive
  | [] => [d]
  | e :: ds => if e.name = d.name then d :: ds else e :: addDirective d ds

/-- The directives that a list of items stands for. -/
def directivesOf (items : List Char) : List Directive :=
  ((Text.pieces (· = ',') items).map Text.trim).filterMap fun item =>
    if item.isEmpty then none else Directive.ofItem? item

/-- The filter with the directives of a written one added. With more than one slash nothing is
added. -/
def extend (filter : LogFilter) (written : List Char) : LogFilter :=
  let add (items : List Char) := (directivesOf items).foldl (fun ds d => addDirective d ds)
    filter.directives
  match Text.pieces (· = '/') written with
  | [items] => { filter with directives := add items }
  | [items, pattern] => ⟨add items, Pattern.ofText? pattern⟩
  | _ => filter

/-- The directive that decides about an origin: the most specific one, the later of two equals. -/
def deciding? (filter : LogFilter) (origin : Origin) : Option Directive :=
  filter.directives.foldl
    (fun best d =>
      if d.covers origin then
        match best with
        | none => some d
        | some b => if b.length ≤ d.length then some d else some b
      else best)
    none

/-- Whether a message is shown. -/
def shows (filter : LogFilter) (m : Message) : Bool :=
  match filter.deciding? m.origin with
  | none => false
  | some d =>
    d.threshold.admits m.level && filter.pattern.all fun p => p.occursIn m.text.toList

/-- A filter stands for the choice of messages that it makes. -/
instance : Coe LogFilter (Message → Bool) := ⟨shows⟩

end LogFilter

end SatSearch
