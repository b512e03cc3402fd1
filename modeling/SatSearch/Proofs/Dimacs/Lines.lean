import SatSearch.Proofs.Dimacs.Tokens
import SatSearch.Proofs.Text.Words

/-!
# From lines to words

Reading goes line by line. Up to the header only lines that say nothing leave the state alone, and
after it a line that does not claim to be another header has its words read. So a file that can be
read consists of silent lines, a header, and lines whose words are read in one row.
-/

namespace SatSearch.Dimacs

/-- A line says nothing if it is blank or a comment. -/
def Silent (line : List Char) : Prop :=
  Text.trim line = [] ∨ (Text.trim line).head? = some 'c'

/-- A line that starts with `p` claims to be the header. -/
def Declares (line : List Char) : Prop := (Text.trim line).head? = some 'p'

instance : DecidablePred Silent := fun _ => inferInstanceAs (Decidable (_ ∨ _))

instance : DecidablePred Declares := fun _ => inferInstanceAs (Decidable (_ = _))

variable {line : List Char}

/-- A line that says nothing declares nothing. -/
theorem Silent.not_declares (h : Silent line) : ¬Declares line := by
  intro hp
  rw [Declares] at hp
  rcases h with h | h
  · rw [h] at hp
    cases hp
  · exact absurd (Option.some.inj (h.symm.trans hp)) (by decide)

/-- A line that says nothing is skipped. -/
theorem Line.ofText_of_silent (h : Silent line) : Line.ofText line = .skipped := by
  unfold Line.ofText
  rcases h with h | h
  · rw [h]
  · obtain ⟨cs, hcs⟩ := List.head?_eq_some_iff.mp h
    rw [hcs]
    exact if_pos rfl

/-- A line that declares something is taken as a header. -/
theorem Line.ofText_of_declares (h : Declares line) :
    Line.ofText line = .header (Text.trim line) := by
  obtain ⟨cs, hcs⟩ := List.head?_eq_some_iff.mp h
  rw [Line.ofText, hcs]
  exact (if_neg (by decide)).trans (if_pos rfl)

/-- Any other line is taken as words of clauses. -/
theorem Line.ofText_of_speaks (hsilent : ¬Silent line) (hdeclares : ¬Declares line) :
    Line.ofText line = .clauses (Text.words line) := by
  rw [← Text.words_trim, Line.ofText]
  cases htrim : Text.trim line with
  | nil => exact absurd (.inl htrim) hsilent
  | cons c cs =>
    have hc : c ≠ 'c' := fun hc => hsilent (.inr (by rw [htrim, hc]; rfl))
    have hp : c ≠ 'p' := fun hp => hdeclares (by rw [Declares, htrim, hp]; rfl)
    exact (if_neg hc).trans (if_neg hp)

/-- A header is the word `p`, the word `cnf` and two counts. -/
theorem Header.ofText?_eq_some_iff {h : Header} : Header.ofText? (Text.trim line) = some h ↔
    ∃ n m, Text.words line = [['p'], ['c', 'n', 'f'], n, m] ∧
      Numeral.count? n = some h.variableCount ∧ Numeral.count? m = some h.clauseCount := by
  obtain ⟨variableCount, clauseCount⟩ := h
  rw [Header.ofText?, Text.words_trim]
  constructor
  · intro h
    split at h
    case h_2 => cases h
    case h_1 p cnf n m hwords =>
      split at h
      case isFalse => cases h
      case isTrue hnames =>
        obtain ⟨rfl, rfl⟩ := hnames
        simp only [Option.bind_eq_some_iff, Option.map_eq_some_iff, Header.mk.injEq] at h
        obtain ⟨_, hn, _, hm, rfl, rfl⟩ := h
        exact ⟨n, m, hwords, hn, hm⟩
  · rintro ⟨n, m, hwords, hn, hm⟩
    simp [hwords, hn, hm]

/-- The words that a line has to say. -/
def spoken (line : List Char) : List (List Char) := if Silent line then [] else Text.words line

/-- The words of consecutive lines, each with the number of its line. -/
def tokens (start : ℕ) (texts : List (List Char)) : List (ℕ × List Char) :=
  (texts.zipIdx start).flatMap fun t => (spoken t.1).map (t.2, ·)

/-- The numbered words of a text are those of its first line and those below. -/
theorem tokens_cons (start : ℕ) (text : List Char) (texts : List (List Char)) :
    tokens start (text :: texts) = (spoken text).map (start, ·) ++ tokens (start + 1) texts := rfl

/-- Without their numbers the words are those that the lines speak. -/
theorem map_snd_tokens (start : ℕ) (texts : List (List Char)) :
    (tokens start texts).map Prod.snd = texts.flatMap spoken := by
  induction texts generalizing start with
  | nil => rfl
  | cons text texts ih =>
    rw [tokens_cons, List.map_append, ih, List.map_map, List.flatMap_cons]
    exact congrArg (· ++ _) (List.map_id _)

/-- Reads numbered lines one after the other. -/
def readNumbered (state : Option Progress) (ls : List (List UInt8 × ℕ)) :
    Except Error (Option Progress) :=
  ls.foldlM (fun state l => readLine state l.1 l.2) state

variable {state : Option Progress} {p : Progress} {bytes : List UInt8} {start : ℕ}
  {ls : List (List UInt8)} {texts : List (List Char)}

/-- Bytes that are no text are an error. -/
theorem readLine_of_not_text (h : decode? bytes = none) :
    readLine state bytes start = .error (.unreadable .invalidUtf8) := by
  rw [readLine, Line.ofBytes?, h, Option.map_none]

/-- A line that says nothing changes nothing. -/
theorem readLine_of_silent (h : decode? bytes = some line) (hsilent : Silent line) :
    readLine state bytes start = .ok state := by
  rw [readLine, Line.ofBytes?, h, Option.map_some, Line.ofText_of_silent hsilent]

/-- A first header with two counts starts the clauses. -/
theorem readLine_of_header (h : decode? bytes = some line) (hdeclares : Declares line)
    {header : Header} (hheader : Header.ofText? (Text.trim line) = some header) :
    readLine none bytes start = .ok (some (Progress.start header)) := by
  rw [readLine, Line.ofBytes?, h, Option.map_some, Line.ofText_of_declares hdeclares]
  simp only [hheader]

/-- A first header without two counts is an error. -/
theorem readLine_of_bad_header (h : decode? bytes = some line) (hdeclares : Declares line)
    (hheader : Header.ofText? (Text.trim line) = none) : readLine none bytes start =
      .error (.invalidHeader start (String.ofList (Text.trim line))) := by
  rw [readLine, Line.ofBytes?, h, Option.map_some, Line.ofText_of_declares hdeclares]
  simp only [hheader]

/-- A second header is an error. -/
theorem readLine_of_declares_again (h : decode? bytes = some line) (hdeclares : Declares line) :
    readLine (some p) bytes start =
      .error (.invalidHeader start (String.ofList (Text.trim line))) := by
  rw [readLine, Line.ofBytes?, h, Option.map_some, Line.ofText_of_declares hdeclares]

/-- Words before the header are an error. -/
theorem readLine_of_speaks_early (h : decode? bytes = some line) (hsilent : ¬Silent line)
    (hdeclares : ¬Declares line) : readLine none bytes start = .error (.missingHeader start) := by
  rw [readLine, Line.ofBytes?, h, Option.map_some, Line.ofText_of_speaks hsilent hdeclares]

/-- After the header a line has its words read unless it claims to be another one. -/
theorem readLine_of_not_declares (h : decode? bytes = some line) (hdeclares : ¬Declares line) :
    readLine (some p) bytes start =
      some <$> ((spoken line).map (start, ·)).foldlM Progress.readWord p := by
  unfold spoken
  split
  case isTrue hsilent => exact readLine_of_silent h hsilent
  case isFalse hsilent =>
    rw [readLine, Line.ofBytes?, h, Option.map_some, Line.ofText_of_speaks hsilent hdeclares]
    exact congrArg (some <$> ·) (Progress.readWords_eq_foldlM start p _)

/-- Lines are read from the first on. -/
theorem readNumbered_cons (l : List UInt8 × ℕ) (ls : List (List UInt8 × ℕ)) :
    readNumbered state (l :: ls) = readLine state l.1 l.2 >>= fun state => readNumbered state ls :=
  List.foldlM_cons

/-- Lines are read part by part. -/
theorem readNumbered_append (ls ls' : List (List UInt8 × ℕ)) :
    readNumbered state (ls ++ ls') =
      readNumbered state ls >>= fun state => readNumbered state ls' :=
  List.foldlM_append

/-- Lines that say nothing change nothing. -/
theorem readNumbered_of_silent (h : ls.map decode? = texts.map some)
    (hsilent : ∀ t ∈ texts, Silent t) : readNumbered state (ls.zipIdx start) = .ok state := by
  induction ls generalizing start texts with
  | nil => rfl
  | cons l ls ih =>
    obtain ⟨text, texts, rfl, hl, hls⟩ := List.map_eq_cons_iff.mp h.symm
    rw [List.zipIdx_cons, readNumbered_cons, readLine_of_silent hl.symm (hsilent text (by simp))]
    exact ih hls.symm fun t ht => hsilent t (by simp [ht])

/-- After the header lines that do not claim to be another one have their words read in one row. -/
theorem readNumbered_of_not_declares (h : ls.map decode? = texts.map some)
    (hdeclares : ∀ t ∈ texts, ¬Declares t) : readNumbered (some p) (ls.zipIdx start) =
      some <$> (tokens start texts).foldlM Progress.readWord p := by
  induction ls generalizing start texts p with
  | nil =>
    obtain rfl := List.map_eq_nil_iff.mp h.symm
    rfl
  | cons l ls ih =>
    obtain ⟨text, texts, rfl, hl, hls⟩ := List.map_eq_cons_iff.mp h.symm
    rw [List.zipIdx_cons, readNumbered_cons, tokens_cons, List.foldlM_append,
      readLine_of_not_declares hl.symm (hdeclares text (by simp)), map_bind, bind_map_left]
    exact bind_congr fun q => ih hls.symm fun t ht => hdeclares t (by simp [ht])

/-- Either all lines are text of one kind, or there is a first one that is not. -/
theorem texts_or_first (P : List Char → Prop) (ls : List (List UInt8)) :
    (∃ texts : List (List Char), ls.map decode? = texts.map some ∧ ∀ t ∈ texts, P t) ∨
      ∃ before l after, ∃ texts : List (List Char), ls = before ++ l :: after ∧
        before.map decode? = texts.map some ∧
        (∀ t ∈ texts, P t) ∧ ∀ t, decode? l = some t → ¬P t := by
  induction ls with
  | nil => exact .inl ⟨[], rfl, by simp⟩
  | cons l ls ih =>
    by_cases hl : ∃ t, decode? l = some t ∧ P t
    · obtain ⟨t, ht, hP⟩ := hl
      rcases ih with ⟨texts, htexts, hPs⟩ | ⟨before, x, after, texts, rfl, htexts, hPs, hx⟩
      · exact .inl ⟨t :: texts, by rw [List.map_cons, List.map_cons, ht, htexts],
          List.forall_mem_cons.mpr ⟨hP, hPs⟩⟩
      · exact .inr ⟨l :: before, x, after, t :: texts, rfl,
          by rw [List.map_cons, List.map_cons, ht, htexts],
          List.forall_mem_cons.mpr ⟨hP, hPs⟩, hx⟩
    · exact .inr ⟨[], l, ls, [], rfl, rfl, by simp, fun t ht hP => hl ⟨t, ht, hP⟩⟩

end SatSearch.Dimacs
