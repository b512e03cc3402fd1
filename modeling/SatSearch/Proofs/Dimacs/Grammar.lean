import SatSearch.Proofs.Dimacs.Lines

/-!
# The grammar of DIMACS files

A file is read exactly if it has the form that is described here: every line is text, one line is a
header, the lines before it say nothing, and the words after it begin with literals in range up to
the zero that ends the last declared clause. These words alone, with the two counts of the header,
determine the formula.
-/

namespace SatSearch

namespace Clause

variable {cs : List Clause} {row : List Literal}

/-- As many zeros as clauses. -/
theorem count_zero_listing (cs : List Clause) : (listing cs).count Literal.zero = cs.length := by
  induction cs with
  | nil => rfl
  | cons c cs ih =>
    have hc : c.literals.count Literal.zero = 0 :=
      List.count_eq_zero_of_not_mem fun hmem => c.nonzero Literal.zero hmem rfl
    rw [listing_cons, List.count_append, List.count_cons_self, hc, ih, List.length_cons,
      Nat.zero_add]

/-- A listing of clauses ends in a zero. -/
theorem getLast?_listing {l : Literal} (h : (listing cs).getLast? = some l) : l = Literal.zero := by
  induction cs generalizing l with
  | nil => cases h
  | cons c cs ih =>
    rw [listing_cons, List.getLast?_append_cons, List.getLast?_cons, Option.some.injEq] at h
    cases hrest : (listing cs).getLast? with
    | none => rw [← h, hrest, Option.getD_none]
    | some m =>
      rw [← h, hrest, Option.getD_some]
      exact ih hrest

/-- Every row that ends with a zero lists clauses. -/
theorem exists_listing (h : ∀ l, row.getLast? = some l → l = Literal.zero) :
    ∃ cs, row = listing cs := by
  induction row with
  | nil => exact ⟨[], rfl⟩
  | cons l row ih =>
    obtain ⟨cs, rfl⟩ := ih fun m hm => h m (by rw [List.getLast?_cons, hm, Option.getD_some])
    by_cases hl : l.code = 0
    · obtain rfl := Literal.eq_zero_iff.mpr hl
      exact ⟨empty :: cs, rfl⟩
    cases cs with
    | nil => exact absurd (Literal.eq_zero_iff.mp (h l rfl)) hl
    | cons c cs => exact ⟨cons l hl c :: cs, by rw [listing_cons, listing_cons]; rfl⟩

end Clause

namespace Dimacs

variable {n m : ℕ} {bytes : List UInt8} {before after : List (List Char)} {header : List Char}
  {row : List Literal} {hd : Header} {f : Formula}

/-- The lines of a file are text: lines that say nothing, a line that claims to be the header, and
lines of which none does so again. -/
structure Framed (bytes : List UInt8) (before : List (List Char)) (header : List Char)
    (after : List (List Char)) : Prop where
  lines_eq : (lines bytes).map decode? = (before ++ header :: after).map some
  before_silent : ∀ t ∈ before, Silent t
  header_declares : Declares header
  after_not_declares : ∀ t ∈ after, ¬Declares t

/-- A header line that declares `n` variables and `m` clauses. -/
def DeclaresCounts (n m : ℕ) (header : List Char) : Prop :=
  ∃ v c, Text.words header = [['p'], ['c', 'n', 'f'], v, c] ∧
    Numeral.count? v = some n ∧ Numeral.count? c = some m

/-- A file that declares `n` variables and `m` clauses. The words after its header begin with
numerals for the literals `row`, which are on the variables `1..n` and end at the `m`-th zero. -/
def IsFile (n m : ℕ) (row : List Literal) (bytes : List UInt8) : Prop :=
  ∃ before header after used rest, Framed bytes before header after ∧ DeclaresCounts n m header ∧
    after.flatMap spoken = used ++ rest ∧ List.Forall₂ (Denotes n) used row ∧
    row.count Literal.zero = m ∧ ∀ l, row.getLast? = some l → l = Literal.zero

/-- A header declares two counts exactly if it is read as them. -/
theorem declaresCounts_iff :
    DeclaresCounts n m header ↔ Header.ofText? (Text.trim header) = some ⟨n, m⟩ :=
  (Header.ofText?_eq_some_iff (h := ⟨n, m⟩)).symm

/-- A file with a well formed header has the words after it read in one row. -/
theorem Framed.read_eq (h : Framed bytes before header after)
    (hheader : Header.ofText? (Text.trim header) = some hd) :
    ∃ start, read bytes = (tokens start after).foldlM Progress.readWord (Progress.start hd) >>=
      fun p => p.finish (lines bytes).length := by
  have hlines := h.lines_eq
  rw [List.map_append, List.map_cons] at hlines
  obtain ⟨ls, ls', hsplit, hls, hls'⟩ := List.map_eq_append_iff.mp hlines
  obtain ⟨l, ls', rfl, hl, hls'⟩ := List.map_eq_cons_iff.mp hls'
  have hread : readNumbered none ((lines bytes).zipIdx 1) =
      some <$> (tokens (1 + ls.length + 1) after).foldlM Progress.readWord (Progress.start hd) := by
    rw [hsplit, List.zipIdx_append, readNumbered_append, readNumbered_of_silent hls h.before_silent]
    refine (readNumbered_cons (_, _) _).trans ?_
    rw [readLine_of_header hl h.header_declares hheader]
    exact readNumbered_of_not_declares hls' h.after_not_declares
  refine ⟨1 + ls.length + 1, ?_⟩
  unfold read readLines
  change (readNumbered none _ >>= _) = _
  rw [hread, bind_map_left]

/-- After the header all lines have to be text without another header. -/
theorem exists_texts_of_readNumbered {p : Progress} {ls : List (List UInt8)} {start : ℕ}
    {state : Option Progress} (hread : readNumbered (some p) (ls.zipIdx start) = .ok state) :
    ∃ texts : List (List Char), ls.map decode? = texts.map some ∧ ∀ t ∈ texts, ¬Declares t := by
  rcases texts_or_first (¬Declares ·) ls with
    htexts | ⟨before, l, after, texts, rfl, hbefore, hplain, hl⟩
  · exact htexts
  rw [List.zipIdx_append, readNumbered_append, readNumbered_of_not_declares hbefore hplain] at hread
  obtain ⟨state', hstate', hread⟩ := bind_eq_ok.mp hread
  obtain ⟨q, -, hq⟩ := bind_eq_ok.mp ((map_eq_pure_bind _ _).symm.trans hstate')
  obtain rfl := pure_eq_ok.mp hq
  obtain ⟨state'', hstate'', -⟩ := bind_eq_ok.mp ((readNumbered_cons (_, _) _).symm.trans hread)
  cases hdecode : decode? l with
  | none =>
    rw [readLine_of_not_text hdecode] at hstate''
    cases hstate''
  | some text =>
    rw [readLine_of_declares_again hdecode (not_not.mp (hl text hdecode))] at hstate''
    cases hstate''

/-- Only a file with silent lines, one well formed header and further text can be read. -/
theorem exists_framed_of_read_eq_ok (hok : read bytes = .ok f) :
    ∃ before header after hd, Framed bytes before header after ∧
      Header.ofText? (Text.trim header) = some hd := by
  obtain ⟨state, hread, hfinish⟩ := bind_eq_ok.mp hok
  change readNumbered none _ = _ at hread
  rcases texts_or_first Silent (lines bytes) with
    ⟨before, hbefore, hsilent⟩ | ⟨ls, l, ls', before, hsplit, hbefore, hsilent, hl⟩
  · rw [readNumbered_of_silent hbefore hsilent] at hread
    cases hread
    cases hfinish
  rw [hsplit, List.zipIdx_append, readNumbered_append,
    readNumbered_of_silent hbefore hsilent] at hread
  obtain ⟨state', hstate', hrest⟩ := bind_eq_ok.mp ((readNumbered_cons (_, _) _).symm.trans hread)
  -- The first line that says something has to be the header.
  cases hdecode : decode? l with
  | none =>
    rw [readLine_of_not_text hdecode] at hstate'
    cases hstate'
  | some header =>
    by_cases hdeclares : Declares header
    · cases hheader : Header.ofText? (Text.trim header) with
      | none =>
        rw [readLine_of_bad_header hdecode hdeclares hheader] at hstate'
        cases hstate'
      | some hd =>
        rw [readLine_of_header hdecode hdeclares hheader] at hstate'
        cases hstate'
        obtain ⟨after, hafter, hplain⟩ := exists_texts_of_readNumbered hrest
        refine ⟨before, header, after, hd, ⟨?_, hsilent, hdeclares, hplain⟩, hheader⟩
        simp only [hsplit, List.map_append, List.map_cons, hbefore, hdecode, hafter]
    · rw [readLine_of_speaks_early hdecode (hl header hdecode) hdeclares] at hstate'
      cases hstate'

/-- A file is read as the clauses that its words list after the header. -/
theorem read_eq_ok_iff : read bytes = .ok f ↔
    IsFile f.variableCount f.clauseCount (Clause.listing f.clauses) bytes := by
  constructor
  · intro hok
    obtain ⟨before, header, after, hd, hframed, hheader⟩ := exists_framed_of_read_eq_ok hok
    obtain ⟨start, hread⟩ := hframed.read_eq hheader
    rw [hread, Progress.readWords_finish_eq_ok_iff fun _ => rfl, map_snd_tokens] at hok
    obtain ⟨cs, ⟨used, rest, row, hused, hrow, hlisting, hlength⟩, rfl⟩ := hok
    obtain rfl : row = Clause.listing cs := hlisting
    refine ⟨before, header, after, used, rest, hframed, ?_, hused, hrow, ?_, fun l hl => ?_⟩
    · have hcount : hd = ⟨hd.variableCount, cs.length⟩ := by rw [hlength]; rfl
      rw [declaresCounts_iff, hheader, hcount]
      rfl
    · exact Clause.count_zero_listing cs
    · exact Clause.getLast?_listing hl
  · rintro ⟨before, header, after, used, rest, hframed, hcounts, hused, hrow, -, -⟩
    obtain ⟨start, hread⟩ := hframed.read_eq (declaresCounts_iff.mp hcounts)
    rw [hread, Progress.readWords_finish_eq_ok_iff fun _ => rfl, map_snd_tokens]
    exact ⟨f.clauses, ⟨used, rest, _, hused, hrow, rfl, rfl⟩, rfl⟩

/-- A row that ends at its `m`-th zero lists `m` clauses. -/
theorem IsFile.exists_formula (h : IsFile n m row bytes) :
    ∃ f : Formula, f.variableCount = n ∧ f.clauseCount = m ∧ row = Clause.listing f.clauses := by
  obtain ⟨-, -, -, -, -, -, -, -, -, hzeros, hlast⟩ := h
  obtain ⟨cs, rfl⟩ := Clause.exists_listing hlast
  exact ⟨⟨n, cs⟩, rfl, by rw [← hzeros, Clause.count_zero_listing]; rfl, rfl⟩

/-- An input can be read exactly if it is a file: lines of text, of which one is a header that
declares some counts `n` and `m`, those before it say nothing, and the words of those after it begin
with literals in range that end at the `m`-th zero. The formula read has the declared counts, and
its clauses are the literals between the zeros. Every other file that declares the same counts and
has the same literals up to the `m`-th zero is read as the same formula, whatever comes after it. -/
theorem read_accepts_files (bytes : List UInt8) :
    ((∃ f, read bytes = .ok f) ↔ ∃ n m row, IsFile n m row bytes) ∧
      ∀ n m row, IsFile n m row bytes →
        ∃ f, read bytes = .ok f ∧ f.variableCount = n ∧ f.clauseCount = m ∧
          row = Clause.listing f.clauses ∧
          ∀ bytes', IsFile n m row bytes' → read bytes' = .ok f := by
  have hread : ∀ n m row, IsFile n m row bytes →
      ∃ f, read bytes = .ok f ∧ f.variableCount = n ∧ f.clauseCount = m ∧
        row = Clause.listing f.clauses ∧
        ∀ bytes', IsFile n m row bytes' → read bytes' = .ok f := by
    intro n m row hfile
    obtain ⟨f, rfl, rfl, rfl⟩ := hfile.exists_formula
    exact ⟨f, read_eq_ok_iff.mpr hfile, rfl, rfl, rfl, fun _ => read_eq_ok_iff.mpr⟩
  refine ⟨⟨?_, ?_⟩, hread⟩
  · rintro ⟨f, hok⟩
    exact ⟨_, _, _, read_eq_ok_iff.mp hok⟩
  · rintro ⟨n, m, row, hfile⟩
    obtain ⟨f, hok, -⟩ := hread n m row hfile
    exact ⟨f, hok⟩

/-- A comment within a clause, signs before a closing zero and words after the last clause do not
show in what is read. -/
theorem read_accepts_files_interrupted :
    let bytes := "c x\n p  cnf 2 2\n1 -2\nc 3 0\n +0 -0 9 0".toUTF8.toList
    let bytes' := "p cnf 2 2\n1 -2 0 0\n".toUTF8.toList
    let row := [⟨1, by decide, by decide⟩, ⟨-2, by decide, by decide⟩, Literal.zero, Literal.zero]
    IsFile 2 2 row bytes ∧ IsFile 2 2 row bytes' ∧
      ∃ f, read bytes = .ok f ∧ f.clauseCount = 2 ∧ row = Clause.listing f.clauses ∧
        read bytes' = .ok f := by
  intro bytes bytes' row
  have hbytes : IsFile 2 2 row bytes := by
    refine ⟨["c x".toList], " p  cnf 2 2".toList,
      ["1 -2".toList, "c 3 0".toList, " +0 -0 9 0".toList],
      [['1'], ['-', '2'], ['+', '0'], ['-', '0']], [['9'], ['0']],
      ⟨by decide +kernel, by decide +kernel, by decide +kernel, by decide +kernel⟩,
      ⟨['2'], ['2'], by decide +kernel⟩, by decide +kernel, ?_, by decide, by decide⟩
    exact .cons ⟨by decide, by decide⟩ (.cons ⟨by decide, by decide⟩ (.cons ⟨by decide, by decide⟩
      (.cons ⟨by decide, by decide⟩ .nil)))
  have hbytes' : IsFile 2 2 row bytes' := by
    refine ⟨[], "p cnf 2 2".toList, ["1 -2 0 0".toList], [['1'], ['-', '2'], ['0'], ['0']], [],
      ⟨by decide +kernel, by decide, by decide +kernel, by decide +kernel⟩,
      ⟨['2'], ['2'], by decide +kernel⟩, by decide +kernel, ?_, by decide, by decide⟩
    exact .cons ⟨by decide, by decide⟩ (.cons ⟨by decide, by decide⟩ (.cons ⟨by decide, by decide⟩
      (.cons ⟨by decide, by decide⟩ .nil)))
  obtain ⟨f, hf, -, hcount, hrow, hothers⟩ := (read_accepts_files bytes).2 2 2 row hbytes
  exact ⟨hbytes, hbytes', f, hf, hcount, hrow, hothers bytes' hbytes'⟩

end Dimacs

end SatSearch
