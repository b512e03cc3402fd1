import SatSearch.Proofs.Dimacs.Grammar

/-!
# The earliest error

A file is read place by place: a line that is not text or that claims to be the header is one place,
and every other line has a place for each of its words. Whether a place offends depends only on what
stands before it: the counts of the header and the number of zeros so far. The error is that of the
first place that offends. If no place does, the file can still lack its header, the end of a clause
or some of its clauses.
-/

namespace SatSearch.Dimacs

/-- What is found at a place of a file. -/
inductive Place where
  /-- A line that is not text. -/
  | noText
  /-- A line that claims to be the header. -/
  | declaration (line : List Char)
  /-- A word of a line that says something else. -/
  | word (w : List Char)

/-- The places on a line in reading order. -/
def placesOn (bytes : List UInt8) : List Place :=
  match decode? bytes with
  | none => [.noText]
  | some line =>
    if Silent line then []
    else if Declares line then [.declaration line]
    else (Text.words line).map .word

/-- The places on consecutive lines, each with the number of its line. -/
def placesFrom (start : ℕ) (ls : List (List UInt8)) : List (ℕ × Place) :=
  (ls.zipIdx start).flatMap fun l => (placesOn l.1).map (l.2, ·)

/-- The places of a file, whose lines are counted from 1. -/
def places (bytes : List UInt8) : List (ℕ × Place) := placesFrom 1 (lines bytes)

/-- The lines among these places that claim to be the header. -/
def declarations (ps : List (ℕ × Place)) : List (List Char) :=
  ps.filterMap fun p => match p.2 with
    | .declaration line => some line
    | _ => none

/-- The words among these places. -/
def wordsAt (ps : List (ℕ × Place)) : List (List Char) :=
  ps.filterMap fun p => match p.2 with
    | .word w => some w
    | _ => none

/-- The first line that claims to be the header declares these counts. -/
def Declared (ps : List (ℕ × Place)) (n m : ℕ) : Prop :=
  ∃ line, (declarations ps).head? = some line ∧ DeclaresCounts n m line

/-- How many of these words are numerals for zero. -/
def zeros (ws : List (List Char)) : ℕ := ws.countP fun w => Numeral.literal? w = some Literal.zero

/-- There is a word after the last zero. -/
def LeftOpen (ws : List (List Char)) : Prop :=
  ∃ w, ws.getLast? = some w ∧ Numeral.literal? w ≠ some Literal.zero

/-- With these places before it, a place causes an error. -/
inductive Offends (before : List (ℕ × Place)) : ℕ × Place → Error → Prop
  | noText {line : ℕ} : Offends before (line, .noText) (.unreadable .invalidUtf8)
  | headerAgain {line : ℕ} {text : List Char} (again : declarations before ≠ []) :
      Offends before (line, .declaration text) (.invalidHeader line (String.ofList (Text.trim text)))
  | badHeader {line : ℕ} {text : List Char} (bad : ∀ n m, ¬DeclaresCounts n m text) :
      Offends before (line, .declaration text) (.invalidHeader line (String.ofList (Text.trim text)))
  | early {line : ℕ} {w : List Char} (early : declarations before = []) :
      Offends before (line, .word w) (.missingHeader line)
  | noNumeral {line n m : ℕ} {w : List Char} (counts : Declared before n m)
      (needed : zeros (wordsAt before) < m) (bad : Numeral.literal? w = none) :
      Offends before (line, .word w) (.invalidLiteral line (String.ofList w))
  | outOfRange {line n m : ℕ} {w : List Char} {l : Literal} (counts : Declared before n m)
      (needed : zeros (wordsAt before) < m) (numeral : Numeral.literal? w = some l)
      (large : n < l.var) : Offends before (line, .word w) (.variableOutOfRange line l n)

/-- No place offends. -/
def Sound (ps : List (ℕ × Place)) : Prop :=
  ∀ before place after, ps = before ++ place :: after → ∀ e, ¬Offends before place e

/-- The first place that offends causes this error. -/
def Earliest (ps : List (ℕ × Place)) (e : Error) : Prop :=
  ∃ before place after, ps = before ++ place :: after ∧ Sound before ∧ Offends before place e

variable {before ps ps' : List (ℕ × Place)} {place : ℕ × Place} {e : Error} {n m n' m' : ℕ}
  {state : Option Progress} {p : Progress} {ws : List (List Char)} {w : List Char} {start : ℕ}

section Before

/-- The declarations of two parts are those of the first and those of the second. -/
theorem declarations_append :
    declarations (ps ++ ps') = declarations ps ++ declarations ps' := List.filterMap_append

/-- The words of two parts are those of the first and those of the second. -/
theorem wordsAt_append : wordsAt (ps ++ ps') = wordsAt ps ++ wordsAt ps' := List.filterMap_append

/-- Where counts are declared there is a declaration. -/
theorem Declared.ne_nil (h : Declared ps n m) : declarations ps ≠ [] := by
  obtain ⟨line, hline, -⟩ := h
  rintro hnil
  rw [hnil] at hline
  cases hline

/-- Only one pair of counts is declared. -/
theorem Declared.unique (h : Declared ps n m) (h' : Declared ps n' m') : n = n' ∧ m = m' := by
  obtain ⟨line, hline, hcounts⟩ := h
  obtain ⟨line', hline', hcounts'⟩ := h'
  obtain rfl := Option.some.inj (hline.symm.trans hline')
  rw [declaresCounts_iff] at hcounts hcounts'
  exact Header.mk.inj (Option.some.inj (hcounts.symm.trans hcounts'))

/-- What comes later does not change the header. -/
theorem Declared.append (h : Declared ps n m) (ps' : List (ℕ × Place)) :
    Declared (ps ++ ps') n m := by
  obtain ⟨line, hline, hcounts⟩ := h
  refine ⟨line, ?_, hcounts⟩
  rw [declarations_append, List.head?_append, hline, Option.some_or]

/-- Without words no clause is open. -/
theorem not_leftOpen_nil : ¬LeftOpen [] := nofun

/-- A clause is left open by any word that is not zero. -/
theorem leftOpen_concat :
    LeftOpen (ws ++ [w]) ↔ Numeral.literal? w ≠ some Literal.zero := by
  rw [LeftOpen, List.getLast?_concat]
  constructor
  · rintro ⟨w', hw', hne⟩
    obtain rfl := Option.some.inj hw'
    exact hne
  · exact fun hne => ⟨w, rfl, hne⟩

/-- A last word adds to the zeros if it spells zero. -/
theorem zeros_concat : zeros (ws ++ [w]) =
    zeros ws + if Numeral.literal? w = some Literal.zero then 1 else 0 := by
  rw [zeros, List.countP_append, List.countP_singleton, zeros]
  simp only [decide_eq_true_eq]

/-- The places of a file are those on its first line and those below. -/
theorem placesFrom_cons (start : ℕ) (l : List UInt8) (ls : List (List UInt8)) :
    placesFrom start (l :: ls) = (placesOn l).map (start, ·) ++ placesFrom (start + 1) ls := rfl

/-- A line declares something only if its text does. -/
theorem declarations_placesOn (line : ℕ) (l : List UInt8) :
    declarations ((placesOn l).map (line, ·)) = (decode? l).toList.filter (Declares ·) := by
  unfold placesOn
  cases decode? l with
  | none => rfl
  | some text =>
    by_cases hsilent : Silent text
    · simp [hsilent, hsilent.not_declares, declarations]
    by_cases hdeclares : Declares text
    · simp [hsilent, hdeclares, declarations]
    · simp [hsilent, hdeclares, declarations, Function.comp_def]

/-- The lines of a file that claim to be the header. -/
theorem declarations_placesFrom (start : ℕ) (ls : List (List UInt8)) :
    declarations (placesFrom start ls) = (ls.filterMap decode?).filter (Declares ·) := by
  induction ls generalizing start with
  | nil => rfl
  | cons l ls ih =>
    rw [placesFrom_cons, declarations_append, declarations_placesOn, ih]
    cases hdecode : decode? l with
    | none => rw [List.filterMap_cons_none hdecode]; rfl
    | some text =>
      rw [List.filterMap_cons_some hdecode, ← List.filter_append]
      rfl

/-- A file without declarations has no line that declares anything. -/
theorem declarations_places_eq_nil_iff {bytes : List UInt8} : declarations (places bytes) = [] ↔
    ∀ l ∈ lines bytes, ∀ text, decode? l = some text → ¬Declares text := by
  rw [places, declarations_placesFrom, List.filter_eq_nil_iff]
  simp only [List.mem_filterMap, decide_eq_true_eq]
  constructor
  · exact fun h l hl text htext => h text ⟨l, hl, htext⟩
  · rintro h text ⟨l, hl, htext⟩
    exact h l hl text htext

end Before

/-- Reads what is found at a place. -/
def readPlace (state : Option Progress) : ℕ × Place → Except Error (Option Progress)
  | (_, .noText) => .error (.unreadable .invalidUtf8)
  | (line, .declaration text) =>
    match state, Header.ofText? (Text.trim text) with
    | none, some h => .ok (some (Progress.start h))
    | _, _ => .error (.invalidHeader line (String.ofList (Text.trim text)))
  | (line, .word w) =>
    match state with
    | none => .error (.missingHeader line)
    | some p => some <$> p.readWord (line, w)

/-- A first declaration with two counts starts the clauses. -/
theorem readPlace_of_header {line : ℕ} {text : List Char} (h : DeclaresCounts n m text) :
    readPlace none (line, .declaration text) = .ok (some (Progress.start ⟨n, m⟩)) := by
  rw [declaresCounts_iff] at h
  simp only [readPlace, h]

/-- A declaration without two counts is an error wherever it stands. -/
theorem readPlace_of_bad_header {line : ℕ} {text : List Char}
    (h : ∀ n m, ¬DeclaresCounts n m text) : readPlace state (line, .declaration text) =
      .error (.invalidHeader line (String.ofList (Text.trim text))) := by
  have hnone : Header.ofText? (Text.trim text) = none := by
    refine Option.eq_none_iff_forall_ne_some.mpr fun hd hhd => ?_
    exact h hd.variableCount hd.clauseCount (declaresCounts_iff.mpr hhd)
  cases state <;> simp only [readPlace, hnone]

/-- The words of a line are read one after another. -/
theorem readPlace_words (line : ℕ) (ws : List (List Char)) :
    (ws.map fun w => (line, Place.word w)).foldlM readPlace (some p) =
      some <$> (ws.map (line, ·)).foldlM Progress.readWord p := by
  induction ws generalizing p with
  | nil => rfl
  | cons w ws ih =>
    rw [List.map_cons, List.map_cons, List.foldlM_cons, List.foldlM_cons, map_bind]
    refine (bind_map_left ..).trans ?_
    exact bind_congr fun q => ih

/-- A line is read place by place. -/
theorem readLine_eq_foldlM (state : Option Progress) (bytes : List UInt8) (line : ℕ) :
    readLine state bytes line = ((placesOn bytes).map (line, ·)).foldlM readPlace state := by
  unfold placesOn
  cases hdecode : decode? bytes with
  | none => exact readLine_of_not_text hdecode
  | some text =>
    by_cases hsilent : Silent text
    · rw [readLine_of_silent hdecode hsilent]
      simp only [if_pos hsilent]
      rfl
    by_cases hdeclares : Declares text
    · simp only [if_neg hsilent, if_pos hdeclares]
      cases state with
      | some p => exact readLine_of_declares_again hdecode hdeclares
      | none =>
        simp only [List.map_singleton, List.foldlM_cons, List.foldlM_nil, bind_pure]
        cases hheader : Header.ofText? (Text.trim text) with
        | none =>
          rw [readLine_of_bad_header hdecode hdeclares hheader]
          simp only [readPlace, hheader]
        | some h =>
          rw [readLine_of_header hdecode hdeclares hheader]
          simp only [readPlace, hheader]
    · simp only [if_neg hsilent, if_neg hdeclares, List.map_map]
      cases state with
      | some p =>
        rw [readLine_of_not_declares hdecode hdeclares, spoken, if_neg hsilent]
        exact (readPlace_words line _).symm
      | none =>
        rw [readLine_of_speaks_early hdecode hsilent hdeclares]
        -- A line that says something has a first word.
        obtain ⟨w, ws, hws⟩ := List.exists_cons_of_ne_nil fun hnil =>
          hsilent (.inl (Text.trim_eq_nil_iff.mpr hnil))
        rw [hws]
        rfl

/-- Reading lines is reading their places. -/
theorem readNumbered_eq_foldlM (state : Option Progress) (ls : List (List UInt8)) (start : ℕ) :
    readNumbered state (ls.zipIdx start) = (placesFrom start ls).foldlM readPlace state := by
  induction ls generalizing state start with
  | nil => rfl
  | cons l ls ih =>
    rw [List.zipIdx_cons, readNumbered_cons, placesFrom_cons, List.foldlM_append,
      readLine_eq_foldlM]
    exact bind_congr fun state => ih state (start + 1)

/-- Reading a file is reading its places, and finishing at its end. -/
theorem read_eq_foldlM (bytes : List UInt8) :
    read bytes = (places bytes).foldlM readPlace none >>= fun state =>
      match state with
      | none => .error .noHeader
      | some p => p.finish (lines bytes).length := by
  rw [places, ← readNumbered_eq_foldlM]
  rfl

/-- What the state after some places tells of them. After the header it is known how many clauses
are missing, and whether a clause is unfinished. -/
inductive Reached (ps : List (ℕ × Place)) : Option Progress → Prop
  | before (undeclared : declarations ps = []) (wordless : wordsAt ps = []) : Reached ps none
  | after {p : Progress} (counts : Declared ps p.header.variableCount p.header.clauseCount)
      (missing : p.missing = p.header.clauseCount - zeros (wordsAt ps))
      (finished : p.finished.length + p.missing = p.header.clauseCount)
      (unfinished : p.unfinished.literals ≠ [] ↔ p.missing ≠ 0 ∧ LeftOpen (wordsAt ps)) :
      Reached ps (some p)

/-- After a header that declares these counts the state is known. -/
theorem Reached.of_declared (h : Reached ps state) (hcounts : Declared ps n m) :
    ∃ p, state = some p ∧ p.header = ⟨n, m⟩ ∧ p.missing = m - zeros (wordsAt ps) ∧
      p.finished.length + p.missing = m ∧
      (p.unfinished.literals ≠ [] ↔ p.missing ≠ 0 ∧ LeftOpen (wordsAt ps)) := by
  cases h with
  | before hundeclared => exact absurd hundeclared hcounts.ne_nil
  | @after p hcounts' hmissing hfinished hunfinished =>
    obtain ⟨rfl, rfl⟩ := hcounts.unique hcounts'
    exact ⟨p, rfl, rfl, hmissing, hfinished, hunfinished⟩

/-- A place that offends ends the reading with its error. -/
theorem Offends.readPlace_eq (h : Offends before place e) (hstate : Reached before state) :
    readPlace state place = .error e := by
  cases h with
  | noText => rfl
  | headerAgain hagain =>
    cases hstate with
    | before hundeclared => exact absurd hundeclared hagain
    | after => rfl
  | badHeader hbad => exact readPlace_of_bad_header hbad
  | early hearly =>
    cases hstate with
    | before => rfl
    | after hcounts => exact absurd hearly hcounts.ne_nil
  | noNumeral hcounts hneeded hbad =>
    obtain ⟨p, rfl, -, hmissing, -⟩ := hstate.of_declared hcounts
    have hne : p.missing ≠ 0 := by omega
    rw [readPlace, Progress.readWord_of_not_numeral hne hbad]
    rfl
  | @outOfRange line n m w l hcounts hneeded hnumeral hlarge =>
    obtain ⟨p, rfl, hheader, hmissing, -⟩ := hstate.of_declared hcounts
    have hne : p.missing ≠ 0 := by omega
    have hl : l.code ≠ 0 := by
      intro hzero
      rw [Literal.var, hzero] at hlarge
      omega
    have hout : p.header.variableCount < l.var := by rwa [hheader]
    rw [readPlace, Progress.readWord_of_out_of_range hne hnumeral hl hout, hheader]
    rfl

section Step

variable {line : ℕ} {l : Literal}

/-- A word at the end is the last word. -/
theorem wordsAt_concat_word : wordsAt (ps ++ [(line, .word w)]) = wordsAt ps ++ [w] :=
  wordsAt_append

/-- A declaration of two counts is where the clauses begin. -/
theorem Reached.begins {text : List Char} (h : Reached ps none)
    (hcounts : DeclaresCounts n m text) :
    Reached (ps ++ [(line, .declaration text)]) (some (Progress.start ⟨n, m⟩)) := by
  cases h with
  | before hundeclared hwordless =>
    have hdeclarations : declarations (ps ++ [(line, .declaration text)]) = [text] := by
      rw [declarations_append, hundeclared]
      rfl
    have hwords : wordsAt (ps ++ [(line, .declaration text)]) = [] := by
      rw [wordsAt_append, hwordless]
      rfl
    refine .after ⟨text, by rw [hdeclarations]; rfl, hcounts⟩ ?_ (Nat.zero_add m) ?_
    · rw [hwords]
      rfl
    · rw [hwords]
      exact ⟨fun h => absurd rfl h, fun h => absurd h.2 not_leftOpen_nil⟩

/-- Words after the last declared clause are not looked at. -/
theorem Reached.done (h : Reached ps (some p)) (hdone : p.missing = 0) :
    Reached (ps ++ [(line, .word w)]) (some p) := by
  cases h with
  | after hcounts hmissing hfinished hunfinished =>
    refine .after (hcounts.append _) ?_ hfinished ?_
    · rw [wordsAt_concat_word, zeros_concat]
      omega
    · rw [hunfinished]
      exact ⟨fun h => absurd hdone h.1, fun h => absurd hdone h.1⟩

/-- A zero closes a clause that is still missing. -/
theorem Reached.close (h : Reached ps (some p)) (hne : p.missing ≠ 0)
    (hzero : Numeral.literal? w = some Literal.zero) :
    Reached (ps ++ [(line, .word w)]) (some p.close) := by
  cases h with
  | after hcounts hmissing hfinished hunfinished =>
    refine .after (hcounts.append _) ?_ ?_ ?_
    · rw [wordsAt_concat_word, zeros_concat, if_pos hzero]
      simp only [Progress.close]
      omega
    · simp only [Progress.close, List.length_cons]
      omega
    · rw [wordsAt_concat_word, leftOpen_concat]
      exact ⟨fun h => absurd rfl h, fun h => absurd hzero h.2⟩

/-- A word for a literal goes on with the open clause. -/
theorem Reached.add (h : Reached ps (some p)) (hne : p.missing ≠ 0)
    (hnumeral : Numeral.literal? w = some l) (hl : l.code ≠ 0) :
    Reached (ps ++ [(line, .word w)]) (some (p.add l hl)) := by
  have hzero : Numeral.literal? w ≠ some Literal.zero := by
    rw [hnumeral]
    exact fun h => hl (Literal.eq_zero_iff.mp (Option.some.inj h))
  cases h with
  | after hcounts hmissing hfinished hunfinished =>
    refine .after (hcounts.append _) ?_ hfinished ?_
    · rw [wordsAt_concat_word, zeros_concat, if_neg hzero]
      exact hmissing
    · rw [wordsAt_concat_word, leftOpen_concat]
      exact ⟨fun _ => ⟨hne, hzero⟩, fun _ => List.cons_ne_nil _ _⟩

/-- At a place that does not offend the reading goes on. -/
theorem Reached.step (h : Reached before state) (hsound : ∀ e, ¬Offends before place e) :
    ∃ state', readPlace state place = .ok state' ∧ Reached (before ++ [place]) state' := by
  obtain ⟨line, what⟩ := place
  cases what with
  | noText => exact absurd .noText (hsound _)
  | declaration text =>
    cases state with
    | some p =>
      cases h with
      | after hcounts => exact absurd (.headerAgain hcounts.ne_nil) (hsound _)
    | none =>
      by_cases hgood : ∃ n m, DeclaresCounts n m text
      · obtain ⟨n, m, hcounts⟩ := hgood
        exact ⟨_, readPlace_of_header hcounts, h.begins hcounts⟩
      · exact absurd (.badHeader fun n m hcounts => hgood ⟨n, m, hcounts⟩) (hsound _)
  | word w =>
    have hreached := h
    cases h with
    | before hundeclared => exact absurd (.early hundeclared) (hsound _)
    | @after p hcounts hmissing =>
      by_cases hdone : p.missing = 0
      · exact ⟨some p, by rw [readPlace, Progress.readWord_of_done hdone]; rfl, hreached.done hdone⟩
      have hneeded : zeros (wordsAt before) < p.header.clauseCount := by omega
      cases hnumeral : Numeral.literal? w with
      | none => exact absurd (.noNumeral hcounts hneeded hnumeral) (hsound _)
      | some l =>
        by_cases hl : l.code = 0
        · have hzero : Numeral.literal? w = some Literal.zero := by
            rw [hnumeral, Literal.eq_zero_iff.mpr hl]
          refine ⟨some p.close, ?_, hreached.close hdone hzero⟩
          rw [readPlace, Progress.readWord_zero hdone hnumeral hl]
          rfl
        by_cases hlarge : p.header.variableCount < l.var
        · exact absurd (.outOfRange hcounts hneeded hnumeral hlarge) (hsound _)
        · refine ⟨some (p.add l hl), ?_, hreached.add hdone hnumeral hl⟩
          rw [readPlace, Progress.readWord_literal hdone hnumeral hl (Nat.not_lt.mp hlarge)]
          rfl

end Step

/-- Every beginning of a sound file is sound. -/
theorem Sound.of_append (h : Sound (ps ++ ps')) : Sound ps := by
  rintro before place after rfl
  exact h before place (after ++ ps') (by rw [List.append_assoc, List.cons_append])

/-- As long as no place offends the reading goes on. -/
theorem Sound.reached (h : Sound ps) :
    ∃ state, ps.foldlM readPlace none = .ok state ∧ Reached ps state := by
  induction ps using List.reverseRecOn with
  | nil => exact ⟨none, rfl, .before rfl rfl⟩
  | append_singleton ps place ih =>
    obtain ⟨state, hread, hstate⟩ := ih h.of_append
    obtain ⟨state', hread', hstate'⟩ := hstate.step (h ps place [] rfl)
    refine ⟨state', ?_, hstate'⟩
    simp only [List.foldlM_append, hread, ok_bind, List.foldlM_cons, List.foldlM_nil, bind_pure,
      hread']

/-- Either no place offends, or there is a first one that does. -/
theorem sound_or_earliest (ps : List (ℕ × Place)) : Sound ps ∨ ∃ e, Earliest ps e := by
  -- From the end, since a place offends or not by what stands before it.
  induction ps using List.reverseRecOn with
  | nil => exact .inl fun before place after h => by simp at h
  | append_singleton ps place ih =>
    rcases ih with hsound | ⟨e, before, place', after, rfl, hsound, hoffends⟩
    · by_cases hoffends : ∃ e, Offends ps place e
      · obtain ⟨e, he⟩ := hoffends
        exact .inr ⟨e, ps, place, [], rfl, hsound, he⟩
      · refine .inl fun before place' after hsplit e he => ?_
        rcases List.eq_nil_or_concat after with rfl | ⟨after', last, rfl⟩
        · obtain ⟨rfl, hplace⟩ := List.append_inj' hsplit rfl
          obtain rfl := List.singleton_inj.mp hplace
          exact hoffends ⟨e, he⟩
        · rw [List.concat_eq_append, ← List.cons_append, ← List.append_assoc] at hsplit
          exact hsound before place' after' (List.append_inj' hsplit rfl).1 e he
    · exact .inr ⟨e, before, place', after ++ [place],
        by rw [List.append_assoc, List.cons_append], hsound, hoffends⟩

/-- A file whose earliest offence is this error is rejected with it. -/
theorem Earliest.read_eq {bytes : List UInt8} (h : Earliest (places bytes) e) :
    read bytes = .error e := by
  obtain ⟨before, place, after, hsplit, hsound, hoffends⟩ := h
  obtain ⟨state, hread, hstate⟩ := hsound.reached
  rw [read_eq_foldlM, hsplit, List.foldlM_append, hread, ok_bind, List.foldlM_cons,
    hoffends.readPlace_eq hstate]
  rfl

/-- What a file can lack at its end, with the error that tells so. -/
inductive Lacks (bytes : List UInt8) : Error → Prop
  | header (undeclared : ∀ l ∈ lines bytes, ∀ text, decode? l = some text → ¬Declares text) :
      Lacks bytes .noHeader
  | terminator {n m : ℕ} (counts : Declared (places bytes) n m)
      (needed : zeros (wordsAt (places bytes)) < m) (unfinished : LeftOpen (wordsAt (places bytes))) :
      Lacks bytes (.unterminatedClause (lines bytes).length)
  | clauses {n m : ℕ} (counts : Declared (places bytes) n m)
      (needed : zeros (wordsAt (places bytes)) < m)
      (finished : ¬LeftOpen (wordsAt (places bytes))) :
      Lacks bytes (.clauseCount (zeros (wordsAt (places bytes))) m)

/-- A file has a header and as many zeros after it as declared clauses. -/
def Complete (bytes : List UInt8) : Prop :=
  ∃ n m, Declared (places bytes) n m ∧ m ≤ zeros (wordsAt (places bytes))

section AtTheEnd

variable {bytes : List UInt8}

/-- A file without offences lacks something at its end or is complete. -/
theorem Sound.lacks_or_complete (h : Sound (places bytes)) :
    (∃ e, Lacks bytes e) ∨ Complete bytes := by
  obtain ⟨state, -, hstate⟩ := h.reached
  cases hstate with
  | before hundeclared => exact .inl ⟨_, .header (declarations_places_eq_nil_iff.mp hundeclared)⟩
  | after hcounts =>
    rcases Nat.lt_or_ge (zeros (wordsAt (places bytes))) _ with hneeded | hall
    · by_cases hopen : LeftOpen (wordsAt (places bytes))
      · exact .inl ⟨_, .terminator hcounts hneeded hopen⟩
      · exact .inl ⟨_, .clauses hcounts hneeded hopen⟩
    · exact .inr ⟨_, _, hcounts, hall⟩

/-- Without an offending place the error tells what the file lacks. -/
theorem Lacks.read_eq (h : Lacks bytes e) (hsound : Sound (places bytes)) :
    read bytes = .error e := by
  obtain ⟨state, hread, hstate⟩ := hsound.reached
  rw [read_eq_foldlM, hread, ok_bind]
  cases h with
  | header hundeclared =>
    cases hstate with
    | before => rfl
    | after hcounts =>
      exact absurd (declarations_places_eq_nil_iff.mpr hundeclared) hcounts.ne_nil
  | terminator hcounts hneeded hopen =>
    obtain ⟨p, rfl, -, hmissing, -, hunfinished⟩ := hstate.of_declared hcounts
    have hliterals : p.unfinished.literals ≠ [] := hunfinished.mpr ⟨by omega, hopen⟩
    simp [Progress.finish, Clause.isEmpty, hliterals]
  | clauses hcounts hneeded hclosed =>
    obtain ⟨p, rfl, hheader, hmissing, hfinished, hunfinished⟩ := hstate.of_declared hcounts
    have hliterals : p.unfinished.literals = [] :=
      not_not.mp fun hliterals => hclosed (hunfinished.mp hliterals).2
    have hne : p.missing ≠ 0 := by omega
    have hlength : p.finished.length = zeros (wordsAt (places bytes)) := by omega
    simp [Progress.finish, Clause.isEmpty, hliterals, hne, hlength, hheader]

/-- A complete file without offences is accepted. -/
theorem Complete.read_eq (h : Complete bytes) (hsound : Sound (places bytes)) :
    ∃ f, read bytes = .ok f := by
  obtain ⟨state, hread, hstate⟩ := hsound.reached
  obtain ⟨n, m, hcounts, hall⟩ := h
  obtain ⟨p, rfl, -, hmissing, -, hunfinished⟩ := hstate.of_declared hcounts
  have hdone : p.missing = 0 := by omega
  have hliterals : p.unfinished.literals = [] :=
    not_not.mp fun hliterals => (hunfinished.mp hliterals).1 hdone
  refine ⟨⟨p.header.variableCount, p.finished.reverse⟩, ?_⟩
  rw [read_eq_foldlM, hread, ok_bind]
  simp [Progress.finish, Clause.isEmpty, hliterals, hdone]

end AtTheEnd

/-- The reader reports the earliest error. A file is rejected with the error of its first offending
place, or if no place offends with an error that tells what is lacking. It is accepted if no place
offends and all declared clauses are there. So too many clauses are never reported, and no word
after the last declared clause causes an error. -/
theorem read_reports_earliest (bytes : List UInt8) :
    (∀ e, read bytes = .error e ↔
      Earliest (places bytes) e ∨ (Sound (places bytes) ∧ Lacks bytes e)) ∧
    ((∃ f, read bytes = .ok f) ↔ Sound (places bytes) ∧ Complete bytes) ∧
    (∀ k m, read bytes = .error (.clauseCount k m) → k < m) ∧
    ∀ before line w n m, Declared before n m → m ≤ zeros (wordsAt before) →
      ∀ e, ¬Offends before (line, .word w) e := by
  have hcases : (∃ e, read bytes = .error e ∧
      (Earliest (places bytes) e ∨ (Sound (places bytes) ∧ Lacks bytes e))) ∨
      ∃ f, read bytes = .ok f ∧ Sound (places bytes) ∧ Complete bytes := by
    rcases sound_or_earliest (places bytes) with hsound | ⟨e, he⟩
    · rcases hsound.lacks_or_complete with ⟨e, he⟩ | hcomplete
      · exact .inl ⟨e, he.read_eq hsound, .inr ⟨hsound, he⟩⟩
      · obtain ⟨f, hf⟩ := hcomplete.read_eq hsound
        exact .inr ⟨f, hf, hsound, hcomplete⟩
    · exact .inl ⟨e, he.read_eq, .inl he⟩
  have herror : ∀ e, read bytes = .error e ↔
      Earliest (places bytes) e ∨ (Sound (places bytes) ∧ Lacks bytes e) := by
    refine fun e => ⟨fun hread => ?_, fun h => ?_⟩
    · rcases hcases with ⟨e', hread', he'⟩ | ⟨f, hf, -⟩
      · obtain rfl := Except.error.inj (hread.symm.trans hread')
        exact he'
      · cases hread.symm.trans hf
    · rcases h with he | ⟨hsound, he⟩
      · exact he.read_eq
      · exact he.read_eq hsound
  refine ⟨herror, ⟨fun ⟨f, hf⟩ => ?_, fun ⟨hsound, hcomplete⟩ => hcomplete.read_eq hsound⟩, ?_, ?_⟩
  · rcases hcases with ⟨e, hread, -⟩ | ⟨_, -, hsound, hcomplete⟩
    · cases hread.symm.trans hf
    · exact ⟨hsound, hcomplete⟩
  · intro k m hread
    rcases (herror _).mp hread with ⟨_, _, _, -, -, hoffends⟩ | ⟨-, hlacks⟩
    · cases hoffends
    · cases hlacks with
      | clauses _ hneeded => exact hneeded
  · intro before line w n m hcounts hall e hoffends
    cases hoffends with
    | early hearly => exact hcounts.ne_nil hearly
    | noNumeral hcounts' hneeded =>
      obtain ⟨-, rfl⟩ := hcounts.unique hcounts'
      omega
    | outOfRange hcounts' hneeded =>
      obtain ⟨-, rfl⟩ := hcounts.unique hcounts'
      omega

/-- The literal out of range comes before a word that is no numeral, a second header and the missing
end of the clause. -/
theorem read_reports_earliest_of_four :
    let bytes := "p cnf 1 1\nc 3\n-1 2 x\np cnf 2 1".toUTF8.toList
    read bytes = .error (.variableOutOfRange 3 ⟨2, by decide, by decide⟩ 1) ∧
      Earliest (places bytes) (.variableOutOfRange 3 ⟨2, by decide, by decide⟩ 1) := by
  intro bytes
  have hread : read bytes = .error (.variableOutOfRange 3 ⟨2, by decide, by decide⟩ 1) := by
    decide +kernel
  rcases ((read_reports_earliest bytes).1 _).mp hread with hearliest | ⟨-, hlacks⟩
  · exact ⟨hread, hearliest⟩
  · cases hlacks

end SatSearch.Dimacs
