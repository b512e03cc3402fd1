import SatSearch.Cli.Session
import SatSearch.Proofs.Text.OneLine

/-!
# Output that is read by its lines

How a line starts tells a reader of the output what it is: a comment, the result, or the values of a
model. An answer keeps to this. So if the log goes before an answer, all depends on the log: the
output can be read in this way exactly if every line that the log takes up is a comment.
-/

namespace SatSearch.Cli

open Text

/-- A line that only comments on the run. -/
def IsComment (line : String) : Prop := "c ".toList <+: line.toList

/-- A line that gives the verdict. -/
def IsResult (line : String) : Prop := line = "s SATISFIABLE" ∨ line = "s UNSATISFIABLE"

/-- A line that gives the values of a model. -/
def IsValues (line : String) : Prop := "v ".toList <+: line.toList

instance : DecidablePred IsComment := fun _ => inferInstanceAs (Decidable (_ <+: _))

instance : DecidablePred IsResult := fun _ => inferInstanceAs (Decidable (_ ∨ _))

instance : DecidablePred IsValues := fun _ => inferInstanceAs (Decidable (_ <+: _))

/-- Every line of a report says what it is. -/
structure Readable (r : Report) : Prop where
  /-- Every line is of one of the three kinds. -/
  kinds : ∀ line ∈ r.lines, IsComment line ∨ IsResult line ∨ IsValues line
  /-- There is one result at most. -/
  one_result : r.lines.countP (IsResult ·) ≤ 1
  /-- The values of one model at most are given. -/
  one_model : r.lines.countP (IsValues ·) ≤ 1
  /-- There is a result exactly if the exit code says so. -/
  result_iff : (∃ line ∈ r.lines, IsResult line) ↔ r.exitCode = 10 ∨ r.exitCode = 20
  /-- Values are given only after the formula was said to be satisfiable. -/
  values_after : ∀ before line after, r.lines = before ++ line :: after → IsValues line →
    "s SATISFIABLE" ∈ before

/-- An exit code and the lines of the answer that go with it. -/
inductive Verdict : ℕ → List String → Prop
  | none : Verdict 1 []
  | unsatisfiable : Verdict 20 ["s UNSATISFIABLE"]
  | satisfiable : Verdict 10 ["s SATISFIABLE"]
  | model (m : Assignment) : Verdict 10 ["s SATISFIABLE", modelLine m]

variable {line : String} {r : Report} {log answer before after : List String} {code : ℕ}
  {m : Assignment}

/-- A comment is no result line. -/
theorem IsComment.not_isResult (h : IsComment line) : ¬IsResult line := by
  rintro (rfl | rfl)
  · exact absurd h (by decide)
  · exact absurd h (by decide)

/-- A comment is no line of values. -/
theorem IsComment.not_isValues (h : IsComment line) : ¬IsValues line := by
  rintro ⟨rest, hrest⟩
  obtain ⟨rest', hrest'⟩ := h
  exact absurd (List.cons.inj (hrest'.trans hrest.symm)).1 (by decide)

/-- A line of values is no result line. -/
theorem IsValues.not_isResult (h : IsValues line) : ¬IsResult line := by
  rintro (rfl | rfl)
  · exact absurd h (by decide)
  · exact absurd h (by decide)

/-- A result line is no line of values. -/
theorem IsResult.not_isValues (h : IsResult line) : ¬IsValues line :=
  fun hvalues => hvalues.not_isResult h

/-- A line is a comment if it starts as one. -/
theorem isComment_append {s t : String} (hs : IsComment s) : IsComment (s ++ t) := by
  rw [IsComment, String.toList_append]
  exact hs.trans (List.prefix_append _ _)

/-- The line that names a model is a line of values. -/
theorem isValues_modelLine (m : Assignment) : IsValues (modelLine m) := by
  have hne : m.signed.map toString ++ ["0"] ≠ [] := by simp
  rw [modelLine, List.cons_append, String.intercalate_cons_of_ne_nil hne, IsValues,
    String.toList_append]
  exact List.prefix_append _ _

/-- A model is named on one line. -/
theorem oneLine_modelLine (m : Assignment) : OneLine (modelLine m) := by
  refine oneLine_intercalate (by decide) (List.forall_mem_append.mpr ⟨?_, ?_⟩)
  · refine List.forall_mem_cons.mpr ⟨by decide, List.forall_mem_map.mpr fun i _ => ?_⟩
    exact oneLine_toString_int i
  · exact List.forall_mem_singleton.mpr (by decide)

namespace Verdict

/-- An answer has no line feed in its lines. -/
theorem oneLine (h : Verdict code answer) : ∀ line ∈ answer, OneLine line := by
  cases h with
  | none => exact nofun
  | unsatisfiable | satisfiable => exact List.forall_mem_singleton.mpr (by decide)
  | model m =>
    exact List.forall_mem_cons.mpr
      ⟨by decide, List.forall_mem_singleton.mpr (oneLine_modelLine m)⟩

/-- An answer has result lines and lines of values only. -/
theorem kinds (h : Verdict code answer) : ∀ line ∈ answer, IsResult line ∨ IsValues line := by
  have hsatisfiable : IsResult "s SATISFIABLE" := .inl rfl
  cases h with
  | none => exact nofun
  | unsatisfiable => exact List.forall_mem_singleton.mpr (.inl (.inr rfl))
  | satisfiable => exact List.forall_mem_singleton.mpr (.inl hsatisfiable)
  | model m =>
    exact List.forall_mem_cons.mpr
      ⟨.inl hsatisfiable, List.forall_mem_singleton.mpr (.inr (isValues_modelLine m))⟩

/-- There is one result in an answer, unless it is empty. -/
theorem countP_isResult (h : Verdict code answer) :
    answer.countP (IsResult ·) = if code = 10 ∨ code = 20 then 1 else 0 := by
  cases h with
  | none | unsatisfiable | satisfiable => decide
  | model m =>
    have hmodel : ¬IsResult (modelLine m) := (isValues_modelLine m).not_isResult
    rw [List.countP_cons, List.countP_singleton, decide_eq_false hmodel]
    decide

/-- An answer has at most one line of values. -/
theorem countP_isValues_le (h : Verdict code answer) : answer.countP (IsValues ·) ≤ 1 := by
  cases h with
  | none | unsatisfiable | satisfiable => decide
  | model m =>
    have hresult : ¬IsValues "s SATISFIABLE" := IsResult.not_isValues (.inl rfl)
    rw [List.countP_cons, decide_eq_false hresult]
    exact List.countP_le_length

/-- Values are the second line of an answer, after the result. -/
theorem satisfiable_mem (h : Verdict code answer) (hsplit : answer = before ++ line :: after)
    (hvalues : IsValues line) : "s SATISFIABLE" ∈ before := by
  cases before with
  | cons first before =>
    cases h with
    | none => cases hsplit
    | unsatisfiable | satisfiable => simp at hsplit
    | model m => exact (List.cons.inj hsplit).1 ▸ List.mem_cons_self
  | nil =>
    -- The first line is a result.
    cases h with
    | none => cases hsplit
    | unsatisfiable =>
      obtain rfl := (List.cons.inj hsplit).1
      exact absurd (.inr rfl) hvalues.not_isResult
    | satisfiable | model =>
      obtain rfl := (List.cons.inj hsplit).1
      exact absurd (.inl rfl) hvalues.not_isResult

end Verdict

/-- Lines without line feeds are printed as they are. -/
theorem flatMap_printedLines (h : ∀ line ∈ answer, OneLine line) :
    answer.flatMap printedLines = answer := by
  induction answer with
  | nil => rfl
  | cons line answer ih =>
    obtain ⟨hline, hanswer⟩ := List.forall_mem_cons.mp h
    rw [List.flatMap_cons, hline.printedLines_eq, ih hanswer, List.singleton_append]

/-- A report prints the log and then the answer. -/
theorem Verdict.lines_eq (h : Verdict code answer) :
    (Report.mk code (log ++ answer)).lines = log.flatMap printedLines ++ answer := by
  show (log ++ answer).flatMap printedLines = _
  rw [List.flatMap_append, flatMap_printedLines h.oneLine]

/-- What is not in the log comes after all of the log. -/
theorem exists_before_of_notMem (h : log ++ answer = before ++ line :: after) (hline : line ∉ log) :
    ∃ mid, before = log ++ mid ∧ answer = mid ++ line :: after := by
  rcases List.append_eq_append_iff.mp h with hmid | ⟨mid, hlog, hafter⟩
  · exact hmid
  · cases mid with
    | nil => exact ⟨[], by rw [hlog, List.append_nil, List.append_nil], hafter.symm⟩
    | cons first mid =>
      obtain rfl := (List.cons.inj hafter).1
      exact absurd (hlog ▸ List.mem_append_right _ List.mem_cons_self) hline

/-- An answer below comments can be read. -/
theorem readable_of_comments (h : Verdict code answer)
    (hlog : ∀ line ∈ log.flatMap printedLines, IsComment line) :
    Readable ⟨code, log ++ answer⟩ := by
  have hresults : (log.flatMap printedLines).countP (IsResult ·) = 0 :=
    List.countP_eq_zero.mpr fun line hline => by simpa using (hlog line hline).not_isResult
  have hvalues : (log.flatMap printedLines).countP (IsValues ·) = 0 :=
    List.countP_eq_zero.mpr fun line hline => by simpa using (hlog line hline).not_isValues
  have hcount : (log.flatMap printedLines ++ answer).countP (IsResult ·) =
      if code = 10 ∨ code = 20 then 1 else 0 := by
    rw [List.countP_append, hresults, Nat.zero_add, h.countP_isResult]
  refine ⟨?_, ?_, ?_, ?_, ?_⟩
  all_goals rw [h.lines_eq]
  · exact List.forall_mem_append.mpr ⟨fun line hline => .inl (hlog line hline),
      fun line hline => .inr (h.kinds line hline)⟩
  · rw [hcount]
    split <;> decide
  · rw [List.countP_append, hvalues, Nat.zero_add]
    exact h.countP_isValues_le
  · have hpos : (∃ line ∈ log.flatMap printedLines ++ answer, IsResult line) ↔
        0 < (log.flatMap printedLines ++ answer).countP (IsResult ·) := by
      simp only [List.countP_pos_iff, decide_eq_true_eq]
    rw [hpos, hcount, Nat.pos_iff_ne_zero, ne_eq, ite_eq_right_iff]
    simp only [Nat.one_ne_zero, imp_false, not_not]
  · intro before line after hsplit hline
    obtain ⟨mid, hbefore, hanswer⟩ :=
      exists_before_of_notMem hsplit fun hmem => (hlog line hmem).not_isValues hline
    rw [hbefore]
    exact List.mem_append_right _ (h.satisfiable_mem hanswer hline)

/-- Above an answer that can be read everything is a comment. -/
theorem comments_of_readable (h : Verdict code answer) (hr : Readable ⟨code, log ++ answer⟩) :
    ∀ line ∈ log.flatMap printedLines, IsComment line := by
  obtain ⟨hkinds, hone, -, hresult, hafter⟩ := hr
  rw [h.lines_eq] at hkinds hone hresult hafter
  -- A result in the log would be a second one, or the exit code would not admit any.
  have hno : ∀ line ∈ log.flatMap printedLines, ¬IsResult line := by
    intro line hline his
    have hcode : code = 10 ∨ code = 20 :=
      hresult.mp ⟨line, List.mem_append_left _ hline, his⟩
    have hpos : 0 < (log.flatMap printedLines).countP (IsResult ·) :=
      List.countP_pos_iff.mpr ⟨line, hline, decide_eq_true his⟩
    rw [List.countP_append, h.countP_isResult, if_pos hcode] at hone
    omega
  intro line hline
  rcases hkinds line (List.mem_append_left _ hline) with hcomment | his | hvalues
  · exact hcomment
  · exact absurd his (hno line hline)
  · obtain ⟨before, after, hsplit⟩ := List.append_of_mem hline
    have hmem : "s SATISFIABLE" ∈ before := by
      refine hafter before line (after ++ answer) ?_ hvalues
      rw [hsplit, List.append_assoc, List.cons_append]
    have hearlier : "s SATISFIABLE" ∈ log.flatMap printedLines :=
      hsplit ▸ List.mem_append_left _ hmem
    exact absurd (.inl rfl) (hno _ hearlier)

/-- An answer after a log can be read by its lines exactly if the log has comments only. -/
theorem readable_iff_comments (h : Verdict code answer) : Readable ⟨code, log ++ answer⟩ ↔
    ∀ line ∈ log.flatMap printedLines, IsComment line :=
  ⟨comments_of_readable h, readable_of_comments h⟩

end SatSearch.Cli
