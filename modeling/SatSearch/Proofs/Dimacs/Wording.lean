import SatSearch.Proofs.Dimacs.Earliest
import SatSearch.Proofs.Dimacs.Encoding
import SatSearch.Proofs.Text.OneLine

/-!
# The wording of errors

An error quotes a line or a word of the file. Neither has a line feed in it, since the file is cut
at line feeds before anything else is looked at. So whatever is in a file, the error that it is
rejected with is worded on one line.
-/

namespace SatSearch.Dimacs

open Text

/-- The text from outside that an error quotes. -/
def Error.quoted : Error → String
  | invalidHeader _ header => header
  | invalidLiteral _ token => token
  | unreadable (.system description _) => description
  | _ => ""

variable {bytes l : List UInt8} {text w : List Char} {e : Error}
  {before : List (ℕ × Place)} {place : ℕ × Place}

/-- An error fits on a line if what it quotes does. -/
theorem Error.oneLine_message (h : OneLine e.quoted) : OneLine e.message := by
  cases e with
  | noHeader => decide
  | unreadable cause =>
    cases cause with
    | invalidUtf8 => decide
    | system description code =>
      have hdescription : OneLine description := h
      dsimp only [message, ReadFailure.message]
      simp only [oneLine_append_iff, oneLine_toString, oneLine_toString_nat, hdescription, and_true,
        true_and]
      decide
  | invalidHeader line text | invalidLiteral line text =>
    have htext : OneLine text := h
    dsimp only [message]
    simp only [oneLine_append_iff, oneLine_toString, oneLine_toString_nat, htext, and_true]
    decide
  | _ =>
    dsimp only [message]
    simp only [oneLine_append_iff, oneLine_toString_nat, oneLine_toString_int, and_true]
    decide

/-- The text of a line has no line feed. -/
theorem lineFeed_notMem_of_decode? (hl : l ∈ lines bytes) (htext : decode? l = some text) :
    '\n' ∉ text := by
  intro hfeed
  have hten : 10 ∈ l := by
    rw [decode?_eq_some_iff.mp htext]
    exact List.mem_flatMap.mpr ⟨'\n', hfeed, by decide⟩
  exact absurd (mark_of_mem_lines l hl 10 hten) (by decide)

/-- A word stands on one line. -/
theorem oneLine_of_mem_words (hw : w ∈ words text) : OneLine (String.ofList w) := by
  rw [OneLine, String.toList_ofList]
  exact fun hfeed => absurd ((not_blank_of_mem_words hw).2 '\n' hfeed) (by decide)

/-- A line without its blanks stands on one line. -/
theorem oneLine_trim (htext : '\n' ∉ text) : OneLine (String.ofList (trim text)) := by
  rw [OneLine, String.toList_ofList, trim]
  intro hfeed
  have hfeed := (List.dropWhile_sublist _).subset (List.mem_reverse.mp hfeed)
  exact htext ((List.dropWhile_sublist _).subset (List.mem_reverse.mp hfeed))

/-- What an error at a place can quote. -/
def Place.quotable : Place → String
  | noText => ""
  | declaration text => String.ofList (trim text)
  | word w => String.ofList w

/-- What can be quoted from a file stands on one line. -/
theorem Place.oneLine_quotable (h : place ∈ places bytes) : OneLine place.2.quotable := by
  obtain ⟨⟨l, line⟩, hl, h⟩ := List.mem_flatMap.mp h
  obtain ⟨what, hwhat, rfl⟩ := List.mem_map.mp h
  have hl : l ∈ lines bytes := List.fst_mem_of_mem_zipIdx hl
  simp only [placesOn] at hwhat
  split at hwhat
  case h_1 =>
    obtain rfl := List.mem_singleton.mp hwhat
    exact List.not_mem_nil
  case h_2 text htext =>
    split at hwhat
    · cases hwhat
    split at hwhat
    · obtain rfl := List.mem_singleton.mp hwhat
      exact oneLine_trim (lineFeed_notMem_of_decode? hl htext)
    · obtain ⟨w, hw, rfl⟩ := List.mem_map.mp hwhat
      exact oneLine_of_mem_words hw

/-- What an error quotes from its place stands on one line. -/
theorem Offends.oneLine_quoted (h : Offends before place e) (hplace : OneLine place.2.quotable) :
    OneLine e.quoted := by
  cases h with
  | headerAgain | badHeader | noNumeral => exact hplace
  | noText | early | outOfRange => exact List.not_mem_nil

/-- An error at the end of a file quotes nothing of more than one line. -/
theorem Lacks.oneLine_quoted (h : Lacks bytes e) : OneLine e.quoted := by
  cases h <;> exact List.not_mem_nil

/-- A file is rejected with an error that fits on a line. -/
theorem oneLine_message_of_read (h : read bytes = .error e) : OneLine e.message := by
  apply Error.oneLine_message
  rcases sound_or_earliest (places bytes) with hsound | ⟨e', he'⟩
  · rcases hsound.lacks_or_complete with ⟨e', he'⟩ | hcomplete
    · obtain rfl := Except.error.inj (h.symm.trans (he'.read_eq hsound))
      exact he'.oneLine_quoted
    · obtain ⟨f, hf⟩ := hcomplete.read_eq hsound
      cases h.symm.trans hf
  · obtain rfl := Except.error.inj (h.symm.trans he'.read_eq)
    obtain ⟨before, place, after, hsplit, -, hoffends⟩ := he'
    have hplace : place ∈ places bytes := by
      rw [hsplit]
      exact List.mem_append_right _ List.mem_cons_self
    exact hoffends.oneLine_quoted (Place.oneLine_quotable hplace)

end SatSearch.Dimacs
