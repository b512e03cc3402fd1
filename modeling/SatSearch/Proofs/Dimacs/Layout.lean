import SatSearch.Proofs.Dimacs.Encoding
import SatSearch.Proofs.Dimacs.Lines

/-!
# Layout moves line numbers and nothing else

Lines that say nothing can be put in anywhere, and lines can be ended by a carriage return and a
line feed instead of a line feed. The reader comes through the same states at the lines that were
there before, only with other line numbers. So it ends with the same formula, or with the same error
at the place to which the line has moved.
-/

namespace SatSearch.Dimacs

variable {state : Option Progress} {p : Progress} {start : ℕ}
  {l l' : List UInt8} {ls ls' : List (List UInt8)}

/-- The same error when each line has moved to `place` and the last line to `last`. -/
def Error.moved (place last : ℕ → ℕ) : Error → Error
  | invalidHeader line header => invalidHeader (place line) header
  | missingHeader line => missingHeader (place line)
  | noHeader => noHeader
  | invalidLiteral line token => invalidLiteral (place line) token
  | variableOutOfRange line literal variableCount =>
    variableOutOfRange (place line) literal variableCount
  | unterminatedClause line => unterminatedClause (last line)
  | clauseCount found declared => clauseCount found declared
  | unreadable cause => unreadable cause

/-- The lines with groups of lines put in: the first group before the first line, the second one
before the second line, and so on, and what is left of the groups after the last line. -/
def interleave : List (List (List UInt8)) → List (List UInt8) → List (List UInt8)
  | groups, [] => groups.flatten
  | groups, l :: ls => groups.headD [] ++ l :: interleave groups.tail ls

/-- The same error after these groups of lines have been put in. -/
def Error.movedBy (groups : List (List (List UInt8))) : Error → Error :=
  moved (fun line => line + (groups.take line).flatten.length)
    (fun line => line + groups.flatten.length)

/-- A line of text that is blank or a comment. -/
def Insertable (l : List UInt8) : Prop := 10 ∉ l ∧ ∃ text, decode? l = some text ∧ Silent text

/-- The bytes with a carriage return put in before each line feed. -/
def withReturns (bytes : List UInt8) : List UInt8 :=
  bytes.flatMap fun b => if b = 10 then [13, 10] else [b]

section Moved

variable (place last : ℕ → ℕ)

/-- What is read at a line depends on its number only in the errors. -/
theorem Progress.readWords_moved (p : Progress) (line : ℕ) (ws : List (List Char)) :
    p.readWords (place line) ws = (p.readWords line ws).mapError (Error.moved place last) := by
  induction ws generalizing p with
  | nil => rfl
  | cons w ws ih =>
    unfold readWords
    by_cases hmissing : p.missing = 0
    · rw [if_pos hmissing, if_pos hmissing]
      rfl
    rw [if_neg hmissing, if_neg hmissing]
    cases Numeral.literal? w with
    | none => rfl
    | some l =>
      by_cases hl : l.code = 0
      · simp only [dif_pos hl]
        exact ih p.close
      by_cases hvar : p.header.variableCount < l.var
      · simp only [dif_neg hl, if_pos hvar]
        rfl
      · simp only [dif_neg hl, if_neg hvar]
        exact ih (p.add l hl)

/-- A line read at another place gives the same result, with its error moved. -/
theorem readLine_moved (state : Option Progress) (bytes : List UInt8) (line : ℕ) :
    readLine state bytes (place line) =
      (readLine state bytes line).mapError (Error.moved place last) := by
  unfold readLine
  cases Line.ofBytes? bytes with
  | none => rfl
  | some l =>
    cases l with
    | skipped => rfl
    | header text =>
      cases state with
      | none => cases hheader : Header.ofText? text <;> simp only [hheader] <;> rfl
      | some p => rfl
    | clauses words =>
      cases state with
      | none => rfl
      | some p =>
        simp only [p.readWords_moved place last line words]
        cases p.readWords line words <;> rfl

/-- The end of a file at another line gives the same result, with its error moved. -/
theorem Progress.finish_moved (p : Progress) (lineCount : ℕ) :
    p.finish (last lineCount) = (p.finish lineCount).mapError (Error.moved place last) := by
  unfold finish
  by_cases hopen : (!p.unfinished.isEmpty) = true
  · rw [if_pos hopen, if_pos hopen]
    rfl
  rw [if_neg hopen, if_neg hopen]
  by_cases hmissing : p.missing ≠ 0
  · rw [if_pos hmissing]
    rfl
  · rw [if_neg hmissing]
    rfl

end Moved

/-- Lines that say nothing are read over. -/
theorem readNumbered_of_insertable (h : ∀ l ∈ ls, Insertable l) :
    readNumbered state (ls.zipIdx start) = .ok state := by
  rcases texts_or_first Silent ls with
    ⟨texts, htexts, hsilent⟩ | ⟨before, l, after, -, rfl, -, -, hl⟩
  · exact readNumbered_of_silent htexts hsilent
  · obtain ⟨-, text, htext, hsilent⟩ := h l (by simp)
    exact absurd hsilent (hl text htext)

/-- Inserted lines add their number to the number of lines. -/
theorem length_interleave (groups : List (List (List UInt8))) (ls : List (List UInt8)) :
    (interleave groups ls).length = ls.length + groups.flatten.length := by
  induction ls generalizing groups with
  | nil => simp [interleave]
  | cons l ls ih =>
    have hsum : groups.flatten.length =
        (groups.headD []).length + groups.tail.flatten.length := by
      cases groups <;> simp
    rw [interleave, List.length_append, List.length_cons, List.length_cons, ih]
    omega

/-- A line is preceded by the groups up to the one that is put in right before it. -/
theorem length_flatten_take (groups : List (List (List UInt8))) (i : ℕ) :
    (groups.take (i + 1)).flatten.length =
      (groups.headD []).length + (groups.tail.take i).flatten.length := by
  cases groups with
  | nil => rw [List.take_nil, List.tail_nil, List.take_nil]; rfl
  | cons g groups => rw [List.take_succ_cons, List.flatten_cons, List.length_append]; rfl

/-- With lines put in the reader comes to the same states, and each line is read at its new place.
The induction is on the lines that were there before. -/
theorem readNumbered_interleave {place : ℕ → ℕ} (last : ℕ → ℕ)
    {groups : List (List (List UInt8))} {start' : ℕ}
    (hgroups : ∀ g ∈ groups, ∀ l ∈ g, Insertable l)
    (hplace : ∀ i, place (start + i) = start' + i + (groups.take (i + 1)).flatten.length) :
    readNumbered state ((interleave groups ls).zipIdx start') =
      (readNumbered state (ls.zipIdx start)).mapError (Error.moved place last) := by
  induction ls generalizing groups start start' state with
  | nil =>
    have hflat : ∀ l ∈ groups.flatten, Insertable l := by
      intro l hl
      obtain ⟨g, hg, hl⟩ := List.mem_flatten.mp hl
      exact hgroups g hg l hl
    rw [interleave, readNumbered_of_insertable hflat]
    rfl
  | cons l ls ih =>
    have hhead : ∀ l ∈ groups.headD [], Insertable l := by
      cases groups with
      | nil => exact List.forall_mem_nil _
      | cons g groups => exact hgroups g List.mem_cons_self
    have hfirst : start' + (groups.headD []).length = place start := by
      have hstart := hplace 0
      rw [length_flatten_take] at hstart
      simpa [eq_comm] using hstart
    -- The lines behind the first one are moved by its group and by those after it.
    have hrest : ∀ i, place (start + 1 + i) =
        place start + 1 + i + (groups.tail.take (i + 1)).flatten.length := by
      intro i
      have hi := hplace (i + 1)
      rw [length_flatten_take] at hi
      rw [Nat.add_assoc, Nat.add_comm 1 i, hi, ← hfirst]
      omega
    rw [interleave, List.zipIdx_append, readNumbered_append, readNumbered_of_insertable hhead,
      ok_bind, List.zipIdx_cons, List.zipIdx_cons, readNumbered_cons, readNumbered_cons,
      mapError_bind, hfirst, readLine_moved place last]
    exact bind_congr fun state => ih (fun g hg => hgroups g (List.mem_of_mem_tail hg)) hrest

/-- Lines between which others are inserted read as before, with an error moved. -/
theorem readLines_interleave {groups : List (List (List UInt8))}
    (hgroups : ∀ g ∈ groups, ∀ l ∈ g, Insertable l) (ls : List (List UInt8)) :
    readLines (interleave groups ls) = (readLines ls).mapError (Error.movedBy groups) := by
  have hread : readNumbered none ((interleave groups ls).zipIdx 1) =
      (readNumbered none (ls.zipIdx 1)).mapError (Error.movedBy groups) :=
    readNumbered_interleave _ hgroups fun i => by rw [Nat.add_comm 1 i]
  unfold readNumbered at hread
  unfold readLines
  rw [hread, mapError_bind]
  refine bind_congr fun state => ?_
  cases state with
  | none => rfl
  | some p =>
    rw [length_interleave]
    exact p.finish_moved _ (fun line => line + groups.flatten.length) ls.length

/-- Lines that stand for the same are read alike. -/
theorem readNumbered_congr
    (h : List.Forall₂ (fun l l' => Line.ofBytes? l' = Line.ofBytes? l) ls ls') :
    readNumbered state (ls'.zipIdx start) = readNumbered state (ls.zipIdx start) := by
  induction h generalizing state start with
  | nil => rfl
  | cons hl _ ih =>
    rw [List.zipIdx_cons, List.zipIdx_cons, readNumbered_cons, readNumbered_cons, readLine, readLine,
      hl]
    exact bind_congr fun state => ih

/-- A carriage return at the end of a line does not show. -/
theorem ofBytes?_concat_return (l : List UInt8) : Line.ofBytes? (l ++ [13]) = Line.ofBytes? l := by
  rw [Line.ofBytes?, @decode?_concat '\r' 13 (by decide) (by decide), Option.map_map,
    Line.ofBytes?]
  congr 1
  funext text
  rw [Function.comp_apply, Line.ofText, Text.trim_concat (by decide), Line.ofText]

/-- A byte in front of lines does not touch the end of the first one. -/
theorem addFront_concat_return {mark : UInt8 → Bool} (b : UInt8)
    (h : List.Forall₂ (fun l l' => l' = l ∨ l' = l ++ [13]) ls ls') :
    List.Forall₂ (fun l l' => l' = l ∨ l' = l ++ [13]) (Text.addFront mark b ls)
      (Text.addFront mark b ls') := by
  unfold Text.addFront
  split
  · exact .cons (.inl rfl) h
  · cases h with
    | nil => exact .cons (.inl rfl) .nil
    | cons hl hrest => exact .cons (hl.imp (congrArg (b :: ·)) (congrArg (b :: ·))) hrest

/-- Carriage returns before the line feeds come at the ends of lines. -/
theorem lines_withReturns (bytes : List UInt8) :
    List.Forall₂ (fun l l' => l' = l ∨ l' = l ++ [13]) (lines bytes) (lines (withReturns bytes)) := by
  induction bytes with
  | nil => exact .nil
  | cons b bytes ih =>
    by_cases hb : b = 10
    · subst hb
      exact .cons (.inr rfl) ih
    · have hkept : withReturns (b :: bytes) = b :: withReturns bytes := by
        rw [withReturns, List.flatMap_cons, if_neg hb, List.singleton_append, withReturns]
      rw [hkept, lines, lines, Text.lines_cons, Text.lines_cons]
      exact addFront_concat_return b ih

/-- Carriage returns before the line feeds do not change what is read. -/
theorem read_withReturns (bytes : List UInt8) : read (withReturns bytes) = read bytes := by
  have hlines := lines_withReturns bytes
  have hsame : List.Forall₂ (fun l l' => Line.ofBytes? l' = Line.ofBytes? l) (lines bytes)
      (lines (withReturns bytes)) := by
    refine hlines.imp fun l l' hl => ?_
    rcases hl with rfl | rfl
    · rfl
    · exact ofBytes?_concat_return l
  have hread : readNumbered none ((lines (withReturns bytes)).zipIdx 1) =
      readNumbered none ((lines bytes).zipIdx 1) := readNumbered_congr hsame
  unfold readNumbered at hread
  unfold read readLines
  rw [hread, hlines.length_eq]

/-- Any lines without line feeds are the lines of some input. -/
theorem exists_lines_eq (h : ∀ l ∈ ls, 10 ∉ l) : ∃ bytes, lines bytes = ls := by
  induction ls with
  | nil => exact ⟨[], rfl⟩
  | cons l ls ih =>
    obtain ⟨hl, hls⟩ := List.forall_mem_cons.mp h
    obtain ⟨bytes, rfl⟩ := ih hls
    refine ⟨l ++ 10 :: bytes, Text.lines_append_cons rfl (fun b hb => ?_) bytes⟩
    exact decide_eq_false fun hten => hl (hten ▸ hb)

/-- A line of a file has no line feed. -/
theorem lineFeed_not_mem_of_mem_lines {bytes : List UInt8} (hl : l ∈ lines bytes) : 10 ∉ l := by
  intro hten
  exact absurd (Text.mark_of_mem_lines l hl 10 hten) (by decide)

/-- A line is an inserted one or one of those before. -/
theorem mem_interleave {groups : List (List (List UInt8))} (hl : l ∈ interleave groups ls) :
    (∃ g ∈ groups, l ∈ g) ∨ l ∈ ls := by
  induction ls generalizing groups with
  | nil => exact .inl (List.mem_flatten.mp hl)
  | cons l' ls ih =>
    rcases List.mem_append.mp hl with hl | hl
    · cases groups with
      | nil => cases hl
      | cons g groups => exact .inl ⟨g, List.mem_cons_self, hl⟩
    · rcases List.mem_cons.mp hl with rfl | hl
      · exact .inr List.mem_cons_self
      · rcases ih hl with ⟨g, hg, hl⟩ | hl
        · exact .inl ⟨g, List.mem_of_mem_tail hg, hl⟩
        · exact .inr (List.mem_cons_of_mem _ hl)

/-- Layout moves line numbers and nothing else. Take any input and groups of lines to put in, all of
them text that is blank or a comment. There is an input with these lines put in, and every such
input is read as the same formula if there is one, else with the same error: its line, if it has
one, has moved by the number of lines put in before it, and the line at which an unterminated clause
is reported by the number of all of them. The same holds if then every line feed is replaced by a
carriage return and a line feed. -/
theorem layout_moves_lines (bytes : List UInt8) (groups : List (List (List UInt8)))
    (hgroups : ∀ g ∈ groups, ∀ l ∈ g, Insertable l) :
    (∃ bytes', lines bytes' = interleave groups (lines bytes)) ∧
      ∀ bytes', lines bytes' = interleave groups (lines bytes) →
        read bytes' = (read bytes).mapError (Error.movedBy groups) ∧
        read (withReturns bytes') = (read bytes).mapError (Error.movedBy groups) := by
  constructor
  · refine exists_lines_eq fun l hl => ?_
    rcases mem_interleave hl with ⟨g, hg, hl⟩ | hl
    · exact (hgroups g hg l hl).1
    · exact lineFeed_not_mem_of_mem_lines hl
  · intro bytes' hlines
    have hread : read bytes' = (read bytes).mapError (Error.movedBy groups) := by
      rw [read, hlines, readLines_interleave hgroups, read]
    exact ⟨hread, (read_withReturns bytes').trans hread⟩

/-- The literal out of range is on the third line. One line is put in before the first line, two
before the third and one at the end. -/
theorem layout_moves_lines_within_clause :
    let bytes := "p cnf 1 2\n1\n 3 0".toUTF8.toList
    let groups := [["c".toUTF8.toList], [], [" ".toUTF8.toList, "c 0".toUTF8.toList],
      ["".toUTF8.toList]]
    let bytes' := "c\np cnf 1 2\n1\n \nc 0\n 3 0\n\n".toUTF8.toList
    (∀ g ∈ groups, ∀ l ∈ g, Insertable l) ∧ lines bytes' = interleave groups (lines bytes) ∧
      read bytes = .error (.variableOutOfRange 3 ⟨3, by decide, by decide⟩ 1) ∧
      read bytes' = .error (.variableOutOfRange 6 ⟨3, by decide, by decide⟩ 1) ∧
      read (withReturns bytes') = .error (.variableOutOfRange 6 ⟨3, by decide, by decide⟩ 1) := by
  intro bytes groups bytes'
  have hgroups : ∀ g ∈ groups, ∀ l ∈ g, Insertable l := by
    simp only [groups, List.forall_mem_cons]
    exact ⟨⟨⟨by decide +kernel, ['c'], by decide +kernel, by decide⟩, nofun⟩, nofun,
      ⟨⟨by decide +kernel, [' '], by decide +kernel, by decide⟩,
        ⟨by decide +kernel, ['c', ' ', '0'], by decide +kernel, by decide⟩, nofun⟩,
      ⟨⟨by decide +kernel, [], by decide +kernel, by decide⟩, nofun⟩, nofun⟩
  have hlines : lines bytes' = interleave groups (lines bytes) := by decide +kernel
  have hread : read bytes = .error (.variableOutOfRange 3 ⟨3, by decide, by decide⟩ 1) := by
    decide +kernel
  obtain ⟨hmoved, hreturns⟩ := (layout_moves_lines bytes groups hgroups).2 bytes' hlines
  rw [hread] at hmoved hreturns
  exact ⟨hgroups, hlines, hread, hmoved, hreturns⟩

end SatSearch.Dimacs
