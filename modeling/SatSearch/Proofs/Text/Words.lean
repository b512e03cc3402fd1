import SatSearch.Text.Blank
import Mathlib.Data.List.DropRight
import Mathlib.Data.List.Induction

/-!
# Words and white space

A text that is cut at a white space character has the words of its two parts. So white space at the
ends of a text adds no word, a trimmed text has the words of the text itself, and words with white
space between them are read back. What a trimmed text starts with is what its first word starts
with.
-/

namespace SatSearch.Text

/-- What holds for all characters of a text is decided by going through the text, not through all
characters that there are. -/
instance decidableForallMem (p : Char → Prop) [DecidablePred p] (cs : List Char) :
    Decidable (∀ c ∈ cs, p c) := List.decidableBAll p cs

variable {α : Type} {mark : α → Bool}

/-- An element in front of pieces changes the first one only. -/
theorem addFront_append (x : α) {ps : List (List α)} (h : ps ≠ []) (qs : List (List α)) :
    addFront mark x (ps ++ qs) = addFront mark x ps ++ qs := by
  obtain ⟨p, rest, rfl⟩ := List.exists_cons_of_ne_nil h
  unfold addFront
  split <;> rfl

/-- The pieces on both sides of a separator are the pieces of the two parts. -/
theorem pieces_append_cons {b : α} (hb : mark b = true) (xs ys : List α) :
    pieces mark (xs ++ b :: ys) = pieces mark xs ++ pieces mark ys := by
  induction xs with
  | nil => simp [pieces_cons, addFront, hb]
  | cons x xs ih =>
    rw [List.cons_append, pieces_cons, ih, addFront_append x (pieces_ne_nil mark xs), pieces_cons]

variable {b : Char}

/-- A blank separates the words before it from those behind. -/
theorem words_append_cons (hb : isBlank b = true) (xs ys : List Char) :
    words (xs ++ b :: ys) = words xs ++ words ys := by
  rw [words, pieces_append_cons hb, List.filter_append, words, words]

/-- The empty text has no words. -/
@[simp] theorem words_nil : words [] = [] := rfl

/-- A blank in front changes no words. -/
theorem words_cons (hb : isBlank b = true) (cs : List Char) : words (b :: cs) = words cs :=
  words_append_cons hb [] cs

/-- A blank at the end changes no words. -/
theorem words_concat (hb : isBlank b = true) (cs : List Char) : words (cs ++ [b]) = words cs := by
  rw [words_append_cons hb, words_nil, List.append_nil]

/-- Dropping blanks in front changes no words. -/
theorem words_dropWhile (cs : List Char) : words (cs.dropWhile isBlank) = words cs := by
  induction cs with
  | nil => rfl
  | cons c cs ih =>
    by_cases hc : isBlank c = true
    · rw [List.dropWhile_cons_of_pos hc, ih, words_cons hc]
    · rw [List.dropWhile_cons_of_neg hc]

/-- Dropping blanks at the end changes no words. -/
theorem words_dropWhile_reverse (cs : List Char) :
    words (cs.reverse.dropWhile isBlank).reverse = words cs := by
  induction cs using List.reverseRecOn with
  | nil => rfl
  | append_singleton cs c ih =>
    rw [List.reverse_append, List.reverse_singleton, List.singleton_append]
    by_cases hc : isBlank c = true
    · rw [List.dropWhile_cons_of_pos hc, ih, words_concat hc]
    · rw [List.dropWhile_cons_of_neg hc, List.reverse_cons, List.reverse_reverse]

/-- White space at the ends of a text does not show in its words. -/
theorem words_trim (cs : List Char) : words (trim cs) = words cs := by
  rw [trim, words_dropWhile_reverse, words_dropWhile]

/-- White space at the end of a text is trimmed away with the rest of it. -/
theorem trim_concat (hb : isBlank b = true) (cs : List Char) : trim (cs ++ [b]) = trim cs := by
  rw [trim, trim, List.dropWhile_append]
  split
  case isTrue hblank =>
    rw [List.isEmpty_iff.mp hblank, List.dropWhile_cons_of_pos hb, List.dropWhile_nil]
  case isFalse =>
    rw [List.reverse_append, List.reverse_singleton, List.singleton_append,
      List.dropWhile_cons_of_pos hb]

/-- A gap in front changes no words. -/
theorem words_append_of_blank {gap : List Char} (hgap : ∀ c ∈ gap, isBlank c = true)
    (cs : List Char) : words (gap ++ cs) = words cs := by
  induction gap with
  | nil => rfl
  | cons b gap ih =>
    obtain ⟨hb, hgap⟩ := List.forall_mem_cons.mp hgap
    rw [List.cons_append, words_cons hb, ih hgap]

variable {w : List Char}

/-- Without a separator there is one piece. -/
theorem pieces_of_unmarked {xs : List α} (hxs : ∀ x ∈ xs, mark x = false) :
    pieces mark xs = [xs] := by
  induction xs with
  | nil => rfl
  | cons x xs ih =>
    obtain ⟨hx, hxs⟩ := List.forall_mem_cons.mp hxs
    simp [pieces_cons, addFront, hx, ih hxs]

/-- What comes before the first separator belongs to the first piece. -/
theorem pieces_append_of_unmarked {xs : List α} (hxs : ∀ x ∈ xs, mark x = false) (ys : List α) :
    ∃ p ps, pieces mark ys = p :: ps ∧ pieces mark (xs ++ ys) = (xs ++ p) :: ps := by
  induction xs with
  | nil =>
    obtain ⟨p, ps, hps⟩ := List.exists_cons_of_ne_nil (pieces_ne_nil mark ys)
    exact ⟨p, ps, hps, hps⟩
  | cons x xs ih =>
    obtain ⟨hx, hxs⟩ := List.forall_mem_cons.mp hxs
    obtain ⟨p, ps, hps, happend⟩ := ih hxs
    exact ⟨p, ps, hps, by simp [pieces_cons, addFront, hx, happend]⟩

/-- A text without white space is a single word. -/
theorem words_of_word (hne : w ≠ []) (hw : ∀ c ∈ w, isBlank c = false) : words w = [w] := by
  rw [words, pieces_of_unmarked hw]
  exact List.filter_cons_of_pos (by simpa using hne)

/-- A word goes up to the next white space. -/
theorem words_append_of_word (hne : w ≠ []) (hw : ∀ c ∈ w, isBlank c = false) {rest : List Char}
    (hrest : ∀ c ∈ rest.head?, isBlank c = true) : words (w ++ rest) = w :: words rest := by
  cases rest with
  | nil => rw [List.append_nil, words_of_word hne hw, words_nil]
  | cons b rest =>
    have hb : isBlank b = true := hrest b rfl
    rw [words_append_cons hb, words_of_word hne hw, words_cons hb, List.singleton_append]

/-- Words with white space between them are the words of the text that they make. -/
theorem words_intercalate (hb : isBlank b = true) {ws : List (List Char)}
    (hws : ∀ w ∈ ws, w ≠ [] ∧ ∀ c ∈ w, isBlank c = false) : words ([b].intercalate ws) = ws := by
  induction ws with
  | nil => rfl
  | cons w ws ih =>
    obtain ⟨⟨hne, hw⟩, hws⟩ := List.forall_mem_cons.mp hws
    cases ws with
    | nil => rw [List.intercalate_singleton, words_of_word hne hw]
    | cons w' ws =>
      rw [List.intercalate_cons_cons, List.append_assoc, List.singleton_append,
        words_append_cons hb, words_of_word hne hw, ih hws, List.singleton_append]

/-- A text that does not start with white space starts with its first word. -/
theorem words_cons_of_not_blank {c : Char} (hc : isBlank c = false) (cs : List Char) :
    ∃ w ws, words (c :: cs) = (c :: w) :: ws := by
  obtain ⟨p, ps, hps⟩ := List.exists_cons_of_ne_nil (pieces_ne_nil isBlank cs)
  refine ⟨p, ps.filter fun w => !w.isEmpty, ?_⟩
  rw [words, pieces_cons, hps]
  simp [addFront, hc]

/-- A trimmed text does not start with a blank. -/
theorem not_blank_of_trim {c : Char} {cs rest : List Char} (h : trim cs = c :: rest) :
    isBlank c = false := by
  have hprefix : c :: rest <+: cs.dropWhile isBlank := h ▸ List.rdropWhile_prefix isBlank _
  obtain ⟨more, hmore⟩ := hprefix
  have hhead := List.head?_dropWhile_not isBlank cs
  rw [← hmore] at hhead
  exact hhead

/-- A trimmed text starts with its first word, and is empty if there is none. -/
theorem head?_trim (cs : List Char) : (trim cs).head? = (words cs).head?.bind List.head? := by
  rw [← words_trim cs]
  cases htrim : trim cs with
  | nil => rfl
  | cons c rest =>
    obtain ⟨w, ws, hws⟩ := words_cons_of_not_blank (not_blank_of_trim htrim) rest
    rw [hws]
    rfl

/-- A text is trimmed to nothing if it has no words. -/
theorem trim_eq_nil_iff {cs : List Char} : trim cs = [] ↔ words cs = [] := by
  rw [← List.head?_eq_none_iff, head?_trim]
  constructor
  · intro h
    cases hws : words cs with
    | nil => rfl
    | cons w ws =>
      rw [hws] at h
      have hw : w ∈ words cs := hws ▸ List.mem_cons_self
      exact absurd (List.head?_eq_none_iff.mp h) (not_blank_of_mem_words hw).1
  · intro h
    rw [h]
    rfl

end SatSearch.Text
