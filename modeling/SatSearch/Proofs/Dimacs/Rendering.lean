import SatSearch.Proofs.Dimacs.Encoding
import SatSearch.Proofs.Dimacs.Grammar
import SatSearch.Proofs.Formula.InRange
import SatSearch.Proofs.Number.Spelling

/-!
# Texts for a formula

A formula can be written down in many ways. Words are spaced with any white space, the words of
clauses also across lines; numbers are spelled with leading zeros and signs; blank lines and
comments come between the lines. Reading undoes all of it: every text for a formula is read as that
formula, so no text is one for two formulas.
-/

namespace SatSearch

/-- What a file can be about: its counts fit into 64 bits, its literals are on its variables. -/
structure Formula.FitsFile (f : Formula) : Prop where
  variableCount_lt : f.variableCount < longSize
  clauseCount_lt : f.clauseCount < longSize
  inRange : f.InRange

namespace Dimacs

open Numeral

/-- White space within a line. -/
def IsGap (c : Char) : Prop := Text.isBlank c = true ∧ c ≠ '\n'

instance : DecidablePred IsGap := fun _ => inferInstanceAs (Decidable (_ ∧ _))

/-- The words in their order, with white space between them and maybe around them. -/
inductive Spaced (white : Char → Prop) : List (List Char) → List Char → Prop
  | nil {gap : List Char} (hgap : ∀ c ∈ gap, white c) : Spaced white [] gap
  | cons {gap w rest : List Char} {ws : List (List Char)} (hgap : ∀ c ∈ gap, white c)
      (hrest : Spaced white ws rest) (hend : ∀ c ∈ rest.head?, white c) :
      Spaced white (w :: ws) (gap ++ w ++ rest)

/-- A blank line or a comment. -/
inductive Idle : List Char → Prop
  | blank {gap : List Char} (hgap : ∀ c ∈ gap, IsGap c) : Idle gap
  | comment {gap text : List Char} (hgap : ∀ c ∈ gap, IsGap c) (htext : '\n' ∉ text) :
      Idle (gap ++ 'c' :: text)

/-- The same lines with blank lines and comments inserted. -/
inductive WithIdle : List (List Char) → List (List Char) → Prop
  | nil : WithIdle [] []
  | keep {ls body : List (List Char)} (l : List Char) (h : WithIdle ls body) :
      WithIdle (l :: ls) (l :: body)
  | insert {ls body : List (List Char)} {l : List Char} (hl : Idle l) (h : WithIdle ls body) :
      WithIdle ls (l :: body)

/-- The texts for a formula: a header line with the counts, and after it lines with a word for each
literal and a word for a zero after each clause. -/
inductive Renders (f : Formula) : List Char → Prop
  | intro {before ls body ws : List (List Char)} {header v m : List Char}
      (hbefore : ∀ l ∈ before, Idle l)
      (hv : SpellsCount v f.variableCount) (hm : SpellsCount m f.clauseCount)
      (hheader : Spaced IsGap [['p'], ['c', 'n', 'f'], v, m] header)
      (hws : List.Forall₂ (fun w l => SpellsInteger w l.code) ws (Clause.listing f.clauses))
      (hls : ∀ l ∈ ls, '\n' ∉ l)
      (hspaced : Spaced (Text.isBlank · = true) ws (Text.join ls))
      (hbody : WithIdle ls body) :
      Renders f (Text.join (before ++ header :: body))

variable {white : Char → Prop} {ws ls body : List (List Char)} {text line w : List Char}
  {f : Formula} {bytes : List UInt8}

/-- The words of a spaced text can be told apart. -/
theorem Spaced.words_eq (h : Spaced white ws text) (hwhite : ∀ c, white c → Text.isBlank c = true)
    (hws : ∀ w ∈ ws, w ≠ [] ∧ ∀ c ∈ w, Text.isBlank c = false) : Text.words text = ws := by
  induction h with
  | @nil gap hgap =>
    have hwords := Text.words_append_of_blank (fun c hc => hwhite c (hgap c hc)) []
    rwa [List.append_nil] at hwords
  | @cons gap w rest ws hgap _ hend ih =>
    obtain ⟨⟨hne, hw⟩, hws⟩ := List.forall_mem_cons.mp hws
    rw [List.append_assoc, Text.words_append_of_blank fun c hc => hwhite c (hgap c hc),
      Text.words_append_of_word hne hw fun c hc => hwhite c (hend c hc), ih hws]

/-- What is spaced by some characters is spaced by any more of them. -/
theorem Spaced.mono {white' : Char → Prop} (h : Spaced white ws text)
    (hwhite : ∀ c, white c → white' c) : Spaced white' ws text := by
  induction h with
  | nil hgap => exact .nil fun c hc => hwhite c (hgap c hc)
  | cons hgap _ hend ih =>
    exact .cons (fun c hc => hwhite c (hgap c hc)) ih fun c hc => hwhite c (hend c hc)

/-- A character of a spaced text is between the words or in one of them. -/
theorem Spaced.mem_cases (h : Spaced white ws text) {c : Char} (hc : c ∈ text) :
    white c ∨ ∃ w ∈ ws, c ∈ w := by
  induction h with
  | nil hgap => exact .inl (hgap c hc)
  | @cons gap w rest ws hgap _ _ ih =>
    rcases List.mem_append.mp hc with hc | hc
    · rcases List.mem_append.mp hc with hc | hc
      · exact .inl (hgap c hc)
      · exact .inr ⟨w, List.mem_cons_self, hc⟩
    · obtain hc | ⟨w', hw', hc⟩ := ih hc
      · exact .inl hc
      · exact .inr ⟨w', List.mem_cons_of_mem _ hw', hc⟩

/-- Words with gaps in front of them, all but the first one not empty, are spaced. -/
theorem spaced_of_gaps {gaps : List (List Char × List Char)} {last : List Char}
    (hgaps : ∀ g ∈ gaps, ∀ c ∈ g.1, white c) (hlast : ∀ c ∈ last, white c)
    (hne : ∀ g ∈ gaps.tail, g.1 ≠ []) :
    Spaced white (gaps.map Prod.snd) (gaps.flatMap (fun g => g.1 ++ g.2) ++ last) := by
  induction gaps with
  | nil => exact .nil hlast
  | cons g gaps ih =>
    obtain ⟨hgap, hgaps⟩ := List.forall_mem_cons.mp hgaps
    rw [List.flatMap_cons, List.append_assoc]
    refine .cons hgap (ih hgaps fun g hg => hne g (List.mem_of_mem_tail hg)) fun c hc => ?_
    cases gaps with
    | nil => exact hlast c (List.mem_of_mem_head? hc)
    | cons g' gaps =>
      obtain ⟨b, gap, hb⟩ := List.exists_cons_of_ne_nil (hne g' List.mem_cons_self)
      rw [List.flatMap_cons, hb] at hc
      obtain rfl := Option.some.inj hc
      exact hgaps g' List.mem_cons_self b (hb ▸ List.mem_cons_self)

/-- The words of a text are those of its lines. -/
theorem words_join (ls : List (List Char)) : Text.words (Text.join ls) = ls.flatMap Text.words := by
  induction ls with
  | nil => rfl
  | cons l ls ih =>
    by_cases hls : ls = []
    · rw [hls, Text.join_singleton, List.flatMap_singleton]
    · rw [Text.join_cons l hls, Text.words_append_cons (by decide), ih, List.flatMap_cons]

/-- What a line is shows in its first word. -/
theorem silent_iff_words : Silent line ↔
    Text.words line = [] ∨ (Text.words line).head?.bind List.head? = some 'c' := by
  rw [Silent, Text.trim_eq_nil_iff, Text.head?_trim]

/-- A line declares something exactly if its first word starts with p. -/
theorem declares_iff_words :
    Declares line ↔ (Text.words line).head?.bind List.head? = some 'p' := by
  rw [Declares, Text.head?_trim]

/-- All words of a line count if they are numerals. -/
theorem spoken_eq_words (h : ∀ w ∈ Text.words line, ∀ c ∈ w, IsMark c) :
    spoken line = Text.words line ∧ ¬Declares line := by
  have hhead : ∀ c, (Text.words line).head?.bind List.head? = some c → IsMark c := by
    intro c hc
    obtain ⟨w, hw, hc⟩ := Option.bind_eq_some_iff.mp hc
    exact h w (List.mem_of_head? hw) c (List.mem_of_head? hc)
  constructor
  · unfold spoken
    split
    case isFalse => rfl
    case isTrue hsilent =>
      rcases silent_iff_words.mp hsilent with hwords | hc
      · exact hwords.symm
      · exact absurd (hhead 'c' hc) (by unfold IsMark; decide)
  · intro hp
    exact absurd (hhead 'p' (declares_iff_words.mp hp)) (by unfold IsMark; decide)

/-- An idle line says nothing. -/
theorem Idle.silent (h : Idle line) : Silent line := by
  rw [silent_iff_words]
  cases h with
  | blank hgap =>
    have hwords := Text.words_append_of_blank (fun c hc => (hgap c hc).1) []
    rw [List.append_nil] at hwords
    exact .inl hwords
  | @comment gap text hgap =>
    obtain ⟨w, ws, hws⟩ := Text.words_cons_of_not_blank (c := 'c') (by decide) text
    rw [Text.words_append_of_blank fun c hc => (hgap c hc).1, hws]
    exact .inr rfl

/-- An idle line has no line feed. -/
theorem Idle.not_lineFeed (h : Idle line) : '\n' ∉ line := by
  cases h with
  | blank hgap => exact fun hmem => (hgap _ hmem).2 rfl
  | comment hgap htext =>
    rw [List.mem_append, List.mem_cons]
    rintro (hmem | hmem | hmem)
    · exact (hgap _ hmem).2 rfl
    · cases hmem
    · exact htext hmem

/-- What holds of all lines and of all idle lines holds of all lines with idle ones between them. -/
theorem WithIdle.forall_mem {P : List Char → Prop} (h : WithIdle ls body) (hls : ∀ l ∈ ls, P l)
    (hidle : ∀ l, Idle l → P l) : ∀ l ∈ body, P l := by
  induction h with
  | nil => exact hls
  | keep l _ ih =>
    obtain ⟨hl, hls⟩ := List.forall_mem_cons.mp hls
    exact List.forall_mem_cons.mpr ⟨hl, ih hls⟩
  | insert hl _ ih => exact List.forall_mem_cons.mpr ⟨hidle _ hl, ih hls⟩

/-- Inserted lines say nothing. -/
theorem WithIdle.flatMap_spoken (h : WithIdle ls body) :
    body.flatMap spoken = ls.flatMap spoken := by
  induction h with
  | nil => rfl
  | keep l _ ih => rw [List.flatMap_cons, ih, List.flatMap_cons]
  | insert hl _ ih => rw [List.flatMap_cons, spoken, if_pos hl.silent, ih, List.nil_append]

/-- Encoded lines are decoded to the lines they were. -/
theorem map_decode?_encode (ls : List (List Char)) :
    (ls.map encode).map decode? = ls.map some := by
  rw [List.map_map]
  exact List.map_congr_left fun l _ => decode?_encode l

/-- The lines of a text are those it is made of, but for an empty one at its end. -/
theorem exists_lines_encode {before : List (List Char)} {header : List Char} (hheader : header ≠ [])
    (hfree : ∀ l ∈ before ++ header :: body, '\n' ∉ l) :
    ∃ after, (lines (encode (Text.join (before ++ header :: body)))).map decode? =
        (before ++ header :: after).map some ∧ (body = after ∨ body = after ++ [[]]) := by
  induction body using List.reverseRecOn with
  | nil =>
    rw [List.forall_mem_append, List.forall_mem_singleton] at hfree
    refine ⟨[], ?_, .inl rfl⟩
    rw [lines_encode_join hfree.1 hfree.2, if_neg hheader, ← map_decode?_encode, List.map_append,
      List.map_append, List.map_append]
    rfl
  | append_singleton body last _ =>
    rw [← List.cons_append, ← List.append_assoc] at hfree ⊢
    rw [List.forall_mem_append, List.forall_mem_singleton] at hfree
    rw [lines_encode_join hfree.1 hfree.2, List.map_append, map_decode?_encode]
    by_cases hlast : last = []
    · refine ⟨body, ?_, .inr (by rw [hlast])⟩
      rw [if_pos hlast, List.map_nil, List.append_nil]
    · refine ⟨body ++ [last], ?_, .inl rfl⟩
      rw [if_neg hlast, List.map_singleton, decode?_encode, ← List.cons_append, ← List.append_assoc,
        @List.map_append _ _ some _ [last], List.map_singleton]

/-- The literals of a formula in range, and its zeros, are within the declared variables. -/
theorem var_le_of_mem_listing (hf : f.InRange) :
    ∀ l ∈ Clause.listing f.clauses, l.var ≤ f.variableCount := by
  intro l hl
  obtain ⟨c, hc, hl⟩ := List.mem_flatMap.mp hl
  rcases List.mem_append.mp hl with hl | hl
  · exact hf c hc l hl
  · rw [List.mem_singleton.mp hl]
    exact Nat.zero_le _

/-- Words for literals and zeros are numerals. -/
theorem word_of_spells {row : List Literal}
    (h : List.Forall₂ (fun w l => SpellsInteger w l.code) ws row) :
    ∀ w ∈ ws, w ≠ [] ∧ ∀ c ∈ w, IsMark c := by
  induction h with
  | nil => exact nofun
  | cons hw _ ih => exact List.forall_mem_cons.mpr ⟨⟨hw.ne_nil, hw.isMark⟩, ih⟩

/-- A spaced header has its four words. -/
theorem words_of_header {v m header : List Char} {n k : ℕ} (hv : SpellsCount v n)
    (hm : SpellsCount m k) (h : Spaced IsGap [['p'], ['c', 'n', 'f'], v, m] header) :
    Text.words header = [['p'], ['c', 'n', 'f'], v, m] := by
  refine h.words_eq (fun c hc => hc.1) ?_
  simp only [List.forall_mem_cons]
  exact ⟨by decide, by decide, ⟨hv.ne_nil, fun c hc => (hv.isMark c hc).isBlank_eq⟩,
    ⟨hm.ne_nil, fun c hc => (hm.isMark c hc).isBlank_eq⟩, nofun⟩

/-- A header with spelled counts is a single line. -/
theorem not_lineFeed_of_header {v m header : List Char} {n k : ℕ} (hv : SpellsCount v n)
    (hm : SpellsCount m k) (h : Spaced IsGap [['p'], ['c', 'n', 'f'], v, m] header) :
    '\n' ∉ header := by
  intro hmem
  rcases h.mem_cases hmem with hgap | ⟨w, hw, hmem⟩
  · exact hgap.2 rfl
  · rw [← words_of_header hv hm h] at hw
    exact absurd ((Text.not_blank_of_mem_words hw).2 _ hmem) (by decide)

/-- Words that spell literals in range denote them. -/
theorem denotes_of_spells {n : ℕ} {row : List Literal}
    (h : List.Forall₂ (fun w l => SpellsInteger w l.code) ws row) (hrow : ∀ l ∈ row, l.var ≤ n) :
    List.Forall₂ (Denotes n) ws row := by
  induction h with
  | nil => exact .nil
  | cons hw _ ih =>
    obtain ⟨hl, hrow⟩ := List.forall_mem_cons.mp hrow
    exact .cons ⟨hw.literal?_eq, hl⟩ (ih hrow)

/-- Lines of numerals say their words, also with idle lines between them. -/
theorem words_of_body (hws : ∀ w ∈ ws, w ≠ [] ∧ ∀ c ∈ w, IsMark c)
    (hspaced : Spaced (Text.isBlank · = true) ws (Text.join ls)) (hbody : WithIdle ls body) :
    body.flatMap spoken = ws ∧ ∀ l ∈ body, ¬Declares l := by
  have hwords : ls.flatMap Text.words = ws := by
    rw [← words_join]
    exact hspaced.words_eq (fun _ => id) fun w hw =>
      ⟨(hws w hw).1, fun c hc => ((hws w hw).2 c hc).isBlank_eq⟩
  have hspeaks : ∀ l ∈ ls, spoken l = Text.words l ∧ ¬Declares l := fun l hl =>
    spoken_eq_words fun w hw => (hws w (hwords ▸ List.mem_flatMap_of_mem hl hw)).2
  constructor
  · rw [hbody.flatMap_spoken, ← hwords]
    exact List.flatMap_congr fun l hl => (hspeaks l hl).1
  · exact hbody.forall_mem (fun l hl => (hspeaks l hl).2) fun l hl => hl.silent.not_declares

/-- The bytes of a text for a formula are a file with the literals of that formula. -/
theorem Renders.isFile (h : Renders f text) (hf : f.FitsFile) :
    IsFile f.variableCount f.clauseCount (Clause.listing f.clauses) (encode text) := by
  cases h with
  | @intro before ls body ws header v m hbefore hv hm hheader hws hls hspaced hbody =>
    have hheaderWords := words_of_header hv hm hheader
    obtain ⟨hbodyWords, hplain⟩ := words_of_body (word_of_spells hws) hspaced hbody
    have hne : header ≠ [] := by
      rintro rfl
      cases hheaderWords
    have hfree : ∀ l ∈ before ++ header :: body, '\n' ∉ l := by
      rw [List.forall_mem_append, List.forall_mem_cons]
      exact ⟨fun l hl => (hbefore l hl).not_lineFeed, not_lineFeed_of_header hv hm hheader,
        hbody.forall_mem hls fun l hl => hl.not_lineFeed⟩
    obtain ⟨after, hafter, hend⟩ := exists_lines_encode hne hfree
    refine ⟨before, header, after, ws, [], ⟨hafter, fun l hl => (hbefore l hl).silent, ?_, ?_⟩,
      ⟨v, m, hheaderWords, hv.count?_eq hf.variableCount_lt, hm.count?_eq hf.clauseCount_lt⟩, ?_,
      denotes_of_spells hws (var_le_of_mem_listing hf.inRange),
      Clause.count_zero_listing f.clauses, fun l => Clause.getLast?_listing⟩
    · rw [declares_iff_words, hheaderWords]
      rfl
    · rcases hend with rfl | rfl
      · exact hplain
      · exact (List.forall_mem_append.mp hplain).1
    · rw [List.append_nil, ← hbodyWords]
      rcases hend with rfl | rfl
      · rfl
      · rw [List.flatMap_append]
        exact (List.append_nil _).symm

/-- Reading a rendering of a formula gives the formula back. -/
theorem Renders.read_eq (h : Renders f text) (hf : f.FitsFile) : read (encode text) = .ok f :=
  read_eq_ok_iff.mpr (h.isFile hf)

/-- Every row of literals can be spelt. -/
theorem exists_words (row : List Literal) :
    ∃ ws, List.Forall₂ (fun w l => SpellsInteger w l.code) ws row := by
  induction row with
  | nil => exact ⟨[], .nil⟩
  | cons l row ih =>
    obtain ⟨w, hw⟩ := exists_spellsInteger l.code
    obtain ⟨ws, hws⟩ := ih
    exact ⟨w :: ws, .cons hw hws⟩

/-- Any words can be spaced. -/
theorem exists_spaced (ws : List (List Char)) : ∃ text, Spaced (· = ' ') ws text := by
  have hblank : ∀ g ∈ ws.map ([' '], ·), g.1 = [' '] := by
    intro g hg
    obtain ⟨w, -, rfl⟩ := List.mem_map.mp hg
    rfl
  have hspaced := @spaced_of_gaps (· = ' ') (ws.map ([' '], ·)) []
    (fun g hg => by rw [hblank g hg]; exact List.forall_mem_singleton.mpr rfl) nofun
    fun g hg => by rw [hblank g (List.mem_of_mem_tail hg)]; exact List.cons_ne_nil _ _
  rw [List.map_map] at hspaced
  exact ⟨_, (List.map_id ws).subst (motive := fun ws => Spaced _ ws _) hspaced⟩

/-- Every formula can be written down, here with all clauses in one line. -/
theorem exists_renders (f : Formula) : ∃ text, Renders f text := by
  obtain ⟨ws, hws⟩ := exists_words (Clause.listing f.clauses)
  obtain ⟨header, hheader⟩ := exists_spaced
    [['p'], ['c', 'n', 'f'], padded 0 f.variableCount, padded 0 f.clauseCount]
  obtain ⟨line, hline⟩ := exists_spaced ws
  have hfree : '\n' ∉ line := by
    intro hmem
    rcases hline.mem_cases hmem with hblank | ⟨w, hw, hmem⟩
    · cases hblank
    · exact absurd ((word_of_spells hws w hw).2 _ hmem).isBlank_eq (by decide)
  have hspaced : Spaced (Text.isBlank · = true) ws (Text.join [line]) := by
    rw [Text.join_singleton]
    exact hline.mono fun c hc => by rw [hc]; decide
  have hgap : ∀ c, c = ' ' → IsGap c := by
    rintro c rfl
    exact ⟨by decide, by decide⟩
  exact ⟨_, @Renders.intro f [] [line] [line] ws header _ _ nofun (.plain 0 _) (.plain 0 _)
    (hheader.mono hgap) hws (List.forall_mem_singleton.mpr hfree) hspaced (.keep line .nil)⟩

/-- Literals that words denote are within the declared variables. -/
theorem var_le_of_denotes {n : ℕ} {row : List Literal} (h : List.Forall₂ (Denotes n) ws row) :
    ∀ l ∈ row, l.var ≤ n := by
  induction h with
  | nil => exact List.forall_mem_nil _
  | cons hw _ ih => exact List.forall_mem_cons.mpr ⟨hw.2, ih⟩

/-- A formula that was read keeps within what files are about. -/
theorem fitsFile_of_read (h : read bytes = .ok f) : f.FitsFile := by
  obtain ⟨before, header, after, used, rest, -, ⟨v, m, -, hv, hm⟩, -, hrow, -, -⟩ :=
    read_eq_ok_iff.mp h
  refine ⟨count?_lt hv, count?_lt hm, fun c hc l hl => ?_⟩
  exact var_le_of_denotes hrow l (List.mem_flatMap.mpr ⟨c, hc, List.mem_append_left _ hl⟩)

/-- Reading undoes writing in every layout. A formula that fits a file can be written down, and each
of its texts is read as this formula. So no text is one for two formulas. -/
theorem read_undoes_rendering (f : Formula) (hf : f.FitsFile) :
    (∃ text, Renders f text) ∧ ∀ text, Renders f text → read (encode text) = .ok f ∧
      ∀ g : Formula, g.FitsFile → Renders g text → g = f := by
  refine ⟨exists_renders f, fun text htext => ⟨htext.read_eq hf, fun g hg hgtext => ?_⟩⟩
  exact Except.ok.inj ((hgtext.read_eq hg).symm.trans (htext.read_eq hf))

/-- A comment within a clause, an empty clause, an ideographic space, a line separator that ends no
line, padded and signed numbers. -/
theorem read_undoes_rendering_sprawling :
    let f : Formula := ⟨2, [Clause.ofCodes [1, -2], Clause.ofCodes [], Clause.ofCodes [2]]⟩
    let text := "c x\n\u3000p  cnf +2 003\t\n 1 \n c 7 0\n-02\u20280\n\n+0 2 -0".toList
    f.FitsFile ∧ Renders f text ∧ read (encode text) = .ok f ∧
      ∀ g : Formula, g.FitsFile → Renders g text → g = f := by
  intro f text
  have hf : f.FitsFile := ⟨by decide, by decide, by decide⟩
  have hheader : Spaced IsGap [['p'], ['c', 'n', 'f'], ['+', '2'], ['0', '0', '3']] _ :=
    @spaced_of_gaps _ [(['\u3000'], ['p']), ([' ', ' '], ['c', 'n', 'f']), ([' '], ['+', '2']),
      ([' '], ['0', '0', '3'])] ['\t'] (by decide) (by decide) (by decide)
  have hws : List.Forall₂ (fun w l => SpellsInteger w l.code)
      [['1'], ['-', '0', '2'], ['0'], ['+', '0'], ['2'], ['-', '0']] (Clause.listing f.clauses) :=
    .cons (.natural (.plain 0 1)) (.cons (.minus 1 2) (.cons (.natural (.plain 0 0))
      (.cons (.natural (.plus 0 0)) (.cons (.natural (.plain 0 2)) (.cons (.minus 0 0) .nil)))))
  have hspaced : Spaced (Text.isBlank · = true)
      [['1'], ['-', '0', '2'], ['0'], ['+', '0'], ['2'], ['-', '0']]
      (Text.join [" 1 ".toList, "-02\u20280".toList, "+0 2 -0".toList]) :=
    @spaced_of_gaps _ [([' '], ['1']), ([' ', '\n'], ['-', '0', '2']), (['\u2028'], ['0']),
      (['\n'], ['+', '0']), ([' '], ['2']), ([' '], ['-', '0'])] [] (by decide) (by decide)
      (by decide)
  have hbefore : ∀ l ∈ ["c x".toList], Idle l :=
    List.forall_mem_singleton.mpr (@Idle.comment [] [' ', 'x'] nofun (by decide))
  have hbody : WithIdle [" 1 ".toList, "-02\u20280".toList, "+0 2 -0".toList] _ :=
    .keep _ (.insert (@Idle.comment [' '] [' ', '7', ' ', '0'] (by decide) (by decide))
      (.keep _ (.insert (@Idle.blank [] nofun) (.keep _ .nil))))
  have htext : Renders f text :=
    .intro hbefore (.plus 0 2) (.plain 2 3) hheader hws (by decide) hspaced hbody
  obtain ⟨hread, hunique⟩ := (read_undoes_rendering f hf).2 text htext
  exact ⟨hf, htext, hread, hunique⟩

end Dimacs

end SatSearch
