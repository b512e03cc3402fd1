import SatSearch.Proofs.Number.Spelling
import SatSearch.Proofs.Text.Words

/-!
# Texts that fit on a line

A text is printed on as many lines as it has pieces between line feeds. One without a line feed is
printed on a single line, and put in front of another text it only makes the first line longer.
Numbers are printed without line feeds, and so is what is put together from texts without them.
-/

namespace SatSearch.Text

/-- A text without a line feed. -/
def OneLine (s : String) : Prop := '\n' ∉ s.toList

instance : DecidablePred OneLine := fun s => inferInstanceAs (Decidable ('\n' ∉ s.toList))

/-- The lines that a text takes up when it is printed. -/
def printedLines (s : String) : List String := (pieces (· = '\n') s.toList).map String.ofList

variable {s t : String} {ss : List String}

/-- Two texts stand on one line together if both do. -/
theorem oneLine_append_iff : OneLine (s ++ t) ↔ OneLine s ∧ OneLine t := by
  simp only [OneLine, String.toList_append, List.mem_append, not_or]

/-- Texts of one line can be put together on it. -/
theorem OneLine.append (hs : OneLine s) (ht : OneLine t) : OneLine (s ++ t) :=
  oneLine_append_iff.mpr ⟨hs, ht⟩

/-- Texts of one line can be joined on it. -/
theorem oneLine_intercalate (hs : OneLine s) (hss : ∀ t ∈ ss, OneLine t) :
    OneLine (s.intercalate ss) := by
  induction ss with
  | nil =>
    rw [String.intercalate_nil]
    decide
  | cons t ss ih =>
    obtain ⟨ht, hss⟩ := List.forall_mem_cons.mp hss
    cases ss with
    | nil => rwa [String.intercalate_singleton]
    | cons u ss =>
      rw [String.intercalate_cons_cons]
      exact (ht.append hs).append (ih hss)

/-- Other characters than line feeds may be added. -/
theorem oneLine_pushn {c : Char} (hs : OneLine s) (hc : c ≠ '\n') (n : ℕ) :
    OneLine (s.pushn c n) := by
  rw [String.pushn_eq_repeat_push]
  induction n with
  | zero => exact hs
  | succ n ih =>
    rw [Nat.repeat, OneLine, String.toList_push, List.mem_append, List.mem_singleton, not_or]
    exact ⟨ih, hc.symm⟩

/-- A text is shown as it is. -/
theorem oneLine_toString : OneLine (toString s) ↔ OneLine s := Iff.rfl

/-- An integer is shown on one line. -/
theorem oneLine_toString_int (i : ℤ) : OneLine (toString i) := by
  intro hfeed
  have hmark := (Numeral.spellsInteger_toString i).isMark '\n' hfeed
  exact absurd hmark.isBlank_eq (by decide)

/-- A number is shown on one line. -/
theorem oneLine_toString_nat (n : ℕ) : OneLine (toString n) := oneLine_toString_int n

/-- A truth value is shown on one line. -/
theorem oneLine_toString_bool (b : Bool) : OneLine (toString b) := by
  cases b <;> decide

/-- No character of a text of one line is a line feed. -/
theorem OneLine.not_lineFeed (hs : OneLine s) : ∀ c ∈ s.toList, decide (c = '\n') = false := by
  intro c hc
  exact decide_eq_false fun hfeed => hs (hfeed ▸ hc)

/-- A text without a line feed is printed on a line of its own. -/
theorem OneLine.printedLines_eq (hs : OneLine s) : printedLines s = [s] := by
  rw [printedLines, pieces_of_unmarked hs.not_lineFeed, List.map_singleton, String.ofList_toList]

/-- What comes before the first line feed is printed on the first line. -/
theorem OneLine.printedLines_append (hs : OneLine s) (t : String) :
    ∃ line rest, printedLines t = line :: rest ∧ printedLines (s ++ t) = (s ++ line) :: rest := by
  obtain ⟨p, ps, hps, happend⟩ := pieces_append_of_unmarked hs.not_lineFeed t.toList
  refine ⟨String.ofList p, ps.map String.ofList, by rw [printedLines, hps, List.map_cons], ?_⟩
  rw [printedLines, String.toList_append, happend, List.map_cons, String.ofList_append,
    String.ofList_toList]

end SatSearch.Text
