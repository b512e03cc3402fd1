import SatSearch.Dimacs.Reader
import SatSearch.Proofs.Faults
import Mathlib.Data.List.Forall2
import Mathlib.Data.Nat.Notation

/-!
# From words to clauses

After the header the words of all lines form one row, and where a line ends matters only for the
numbers in error messages. The row is read word by word. Reading succeeds exactly if the row begins
with words for the literals of the declared number of clauses, each clause followed by a zero.
-/

namespace SatSearch

/-- Zero is the literal with the code zero. -/
theorem Literal.eq_zero_iff {l : Literal} : l = zero ↔ l.code = 0 :=
  ⟨fun h => h ▸ rfl, fun h => ext h⟩

namespace Clause

/-- The literals of these clauses in order, with a zero after each clause. -/
def listing (cs : List Clause) : List Literal := cs.flatMap fun c => c.literals ++ [Literal.zero]

/-- Without clauses nothing is listed. -/
@[simp] theorem listing_nil : listing [] = [] := rfl

/-- A clause is listed with a zero behind it. -/
theorem listing_cons (c : Clause) (cs : List Clause) :
    listing (c :: cs) = c.literals ++ Literal.zero :: listing cs := by
  rw [listing, List.flatMap_cons, List.append_assoc, List.singleton_append, listing]

/-- Only the empty row of nonzero literals lists clauses. -/
theorem eq_listing_iff_of_nonzero {ls : List Literal} (hls : ∀ l ∈ ls, l.code ≠ 0)
    {cs : List Clause} : ls = listing cs ↔ ls = [] ∧ cs = [] := by
  constructor
  · intro h
    cases cs with
    | nil => exact ⟨h, rfl⟩
    | cons c cs =>
      rw [listing_cons] at h
      exact absurd rfl (hls Literal.zero (by simp [h]))
  · rintro ⟨rfl, rfl⟩
    rfl

/-- The literals before the first zero make up the first clause. -/
theorem append_zero_eq_listing_iff {ls rest : List Literal} (hls : ∀ l ∈ ls, l.code ≠ 0)
    {cs : List Clause} : ls ++ Literal.zero :: rest = listing cs ↔
      ∃ cs', cs = ⟨ls, hls⟩ :: cs' ∧ rest = listing cs' := by
  constructor
  · intro h
    cases cs with
    | nil => simp at h
    | cons c cs =>
      rw [listing_cons] at h
      rcases List.append_eq_append_iff.mp h with ⟨ms, hc, hms⟩ | ⟨ms, hl, hms⟩
      · cases ms with
        | nil =>
          rw [List.append_nil] at hc
          exact ⟨cs, by rw [List.cons.injEq]; exact ⟨ext hc, rfl⟩, (List.cons.inj hms).2⟩
        | cons m ms =>
          obtain rfl := (List.cons.inj hms).1
          exact absurd rfl (c.nonzero Literal.zero (by simp [hc]))
      · cases ms with
        | nil =>
          rw [List.append_nil] at hl
          exact ⟨cs, by rw [List.cons.injEq]; exact ⟨ext hl.symm, rfl⟩, (List.cons.inj hms).2.symm⟩
        | cons m ms =>
          obtain rfl := (List.cons.inj hms).1
          exact absurd rfl (hls Literal.zero (by simp [hl]))
  · rintro ⟨cs', rfl, rfl⟩
    rw [listing_cons]

end Clause

namespace Dimacs

/-- A word is a numeral for a literal of one of the variables `1..n`, or for the zero. -/
def Denotes (n : ℕ) (w : List Char) (l : Literal) : Prop :=
  Numeral.literal? w = some l ∧ l.var ≤ n

namespace Progress

/-- Reads one word, given with the number of its line. -/
def readWord (p : Progress) (w : ℕ × List Char) : Except Error Progress :=
  if p.missing = 0 then .ok p
  else match Numeral.literal? w.2 with
    | none => .error (.invalidLiteral w.1 (String.ofList w.2))
    | some l =>
      if h : l.code = 0 then .ok p.close
      else if p.header.variableCount < l.var then
        .error (.variableOutOfRange w.1 l p.header.variableCount)
      else .ok (p.add l h)

variable {p : Progress} {w : ℕ × List Char} {l : Literal} {f : Formula}

/-- Behind the last clause words are ignored. -/
theorem readWord_of_done (h : p.missing = 0) : p.readWord w = .ok p := if_pos h

/-- A word that is no numeral is an error. -/
theorem readWord_of_not_numeral (h : p.missing ≠ 0) (hw : Numeral.literal? w.2 = none) :
    p.readWord w = .error (.invalidLiteral w.1 (String.ofList w.2)) := by
  rw [readWord, if_neg h, hw]

/-- A zero closes the open clause. -/
theorem readWord_zero (h : p.missing ≠ 0) (hw : Numeral.literal? w.2 = some l) (hl : l.code = 0) :
    p.readWord w = .ok p.close := by
  rw [readWord, if_neg h, hw]
  exact dif_pos hl

/-- A literal of an undeclared variable is an error. -/
theorem readWord_of_out_of_range (h : p.missing ≠ 0) (hw : Numeral.literal? w.2 = some l)
    (hl : l.code ≠ 0) (hvar : p.header.variableCount < l.var) :
    p.readWord w = .error (.variableOutOfRange w.1 l p.header.variableCount) := by
  rw [readWord, if_neg h, hw]
  simp only [dif_neg hl, if_pos hvar]

/-- A literal of a declared variable goes to the open clause. -/
theorem readWord_literal (h : p.missing ≠ 0) (hw : Numeral.literal? w.2 = some l)
    (hl : l.code ≠ 0) (hvar : l.var ≤ p.header.variableCount) :
    p.readWord w = .ok (p.add l hl) := by
  rw [readWord, if_neg h, hw]
  simp only [dif_neg hl, if_neg (Nat.not_lt.mpr hvar)]

/-- The words of a line are read one after the other. -/
theorem readWords_eq_foldlM (line : ℕ) (p : Progress) (ws : List (List Char)) :
    p.readWords line ws = (ws.map (line, ·)).foldlM readWord p := by
  induction ws generalizing p with
  | nil => rfl
  | cons w ws ih =>
    rw [readWords, List.map_cons, List.foldlM_cons]
    by_cases hmissing : p.missing = 0
    · rw [if_pos hmissing, readWord_of_done hmissing]
      refine Eq.trans ?_ (ih p)
      cases ws with
      | nil => rfl
      | cons w' ws => exact (if_pos hmissing).symm
    · rw [if_neg hmissing]
      cases hw : Numeral.literal? w with
      | none => rw [readWord_of_not_numeral hmissing hw]; rfl
      | some l =>
        by_cases hl : l.code = 0
        · rw [readWord_zero hmissing hw hl]
          simp only [dif_pos hl]
          exact ih p.close
        · by_cases hvar : p.header.variableCount < l.var
          · rw [readWord_of_out_of_range hmissing hw hl hvar]
            simp only [dif_neg hl, if_pos hvar]
            rfl
          · rw [readWord_literal hmissing hw hl (Nat.not_lt.mp hvar)]
            simp only [dif_neg hl, if_neg hvar]
            exact ih (p.add l hl)

/-- A file can end where no clause is open and none is missing. -/
theorem finish_eq_ok_iff {lineCount : ℕ} : p.finish lineCount = .ok f ↔
    p.unfinished.literals = [] ∧ p.missing = 0 ∧
      f = ⟨p.header.variableCount, p.finished.reverse⟩ := by
  unfold finish
  cases hopen : p.unfinished.literals with
  | cons l ls => simp [Clause.isEmpty, hopen]
  | nil =>
    by_cases hmissing : p.missing = 0
    · simp [Clause.isEmpty, hopen, hmissing, eq_comm]
    · simp [Clause.isEmpty, hopen, hmissing]

/-- An open clause has no zeros. -/
theorem nonzero_unfinished (p : Progress) :
    ∀ l ∈ p.unfinished.literals.reverse, l.code ≠ 0 := fun l hl =>
  p.unfinished.nonzero l (List.mem_reverse.mp hl)

/-- The clauses that the words `ws` add to the finished ones: the unfinished clause goes on with
them, and as many clauses end in them as are missing. -/
def Completes (p : Progress) (ws : List (List Char)) (cs : List Clause) : Prop :=
  ∃ used rest row, ws = used ++ rest ∧ List.Forall₂ (Denotes p.header.variableCount) used row ∧
    p.unfinished.literals.reverse ++ row = Clause.listing cs ∧ cs.length = p.missing

variable {ws : List (List Char)} {cs : List Clause}

/-- Without words nothing is completed but what was complete. -/
theorem completes_nil_iff : p.Completes [] cs ↔
    p.unfinished.literals = [] ∧ p.missing = 0 ∧ cs = [] := by
  constructor
  · rintro ⟨used, rest, row, hused, hrow, hlisting, hlength⟩
    obtain ⟨rfl, -⟩ := List.append_eq_nil_iff.mp hused.symm
    obtain rfl := List.forall₂_nil_left_iff.mp hrow
    rw [List.append_nil, Clause.eq_listing_iff_of_nonzero p.nonzero_unfinished] at hlisting
    obtain ⟨hopen, rfl⟩ := hlisting
    exact ⟨List.reverse_eq_nil_iff.mp hopen, hlength.symm, rfl⟩
  · rintro ⟨hopen, hmissing, rfl⟩
    exact ⟨[], [], [], rfl, .nil, by simp [hopen], hmissing.symm⟩

/-- Behind the last clause no words complete anything more. -/
theorem completes_of_done (hmissing : p.missing = 0) (hopen : p.unfinished.literals = []) :
    p.Completes ws cs ↔ cs = [] := by
  constructor
  · rintro ⟨-, -, -, -, -, -, hlength⟩
    exact List.eq_nil_of_length_eq_zero (hlength.trans hmissing)
  · rintro rfl
    exact ⟨[], ws, [], rfl, .nil, by simp [hopen], hmissing.symm⟩

/-- As long as a clause is missing, the next word is for a literal in range. -/
theorem completes_cons_iff (hmissing : p.missing ≠ 0) : p.Completes (w.2 :: ws) cs ↔
    ∃ l, Denotes p.header.variableCount w.2 l ∧ ∃ used rest row, ws = used ++ rest ∧
      List.Forall₂ (Denotes p.header.variableCount) used row ∧
      p.unfinished.literals.reverse ++ l :: row = Clause.listing cs ∧ cs.length = p.missing := by
  constructor
  · rintro ⟨used, rest, row, hused, hrow, hlisting, hlength⟩
    cases hrow with
    | nil =>
      rw [List.append_nil, Clause.eq_listing_iff_of_nonzero p.nonzero_unfinished] at hlisting
      rw [hlisting.2] at hlength
      exact absurd hlength.symm hmissing
    | cons hl hrow =>
      obtain ⟨rfl, hws⟩ := List.cons.inj hused
      exact ⟨_, hl, _, rest, _, hws, hrow, hlisting, hlength⟩
  · rintro ⟨l, hl, used, rest, row, rfl, hrow, hlisting, hlength⟩
    exact ⟨w.2 :: used, rest, l :: row, rfl, .cons hl hrow, hlisting, hlength⟩

/-- A zero ends the unfinished clause. -/
theorem completes_zero_iff (hmissing : p.missing ≠ 0) (hw : Numeral.literal? w.2 = some l)
    (hl : l.code = 0) : p.Completes (w.2 :: ws) cs ↔
      ∃ cs', cs = p.unfinished.reverse :: cs' ∧ p.close.Completes ws cs' := by
  obtain rfl := Literal.eq_zero_iff.mpr hl
  rw [completes_cons_iff hmissing]
  constructor
  · rintro ⟨m, hm, used, rest, row, hws, hrow, hlisting, hlength⟩
    obtain rfl := Option.some.inj (hm.1.symm.trans hw)
    obtain ⟨cs', rfl, rfl⟩ := (Clause.append_zero_eq_listing_iff p.nonzero_unfinished).mp hlisting
    refine ⟨cs', rfl, used, rest, _, hws, hrow, rfl, ?_⟩
    rw [close, ← hlength, List.length_cons, Nat.add_sub_cancel]
  · rintro ⟨cs', rfl, used, rest, row, hws, hrow, hlisting, hlength⟩
    refine ⟨Literal.zero, ⟨hw, Nat.zero_le _⟩, used, rest, row, hws, hrow, ?_, ?_⟩
    · exact (Clause.append_zero_eq_listing_iff p.nonzero_unfinished).mpr ⟨cs', rfl, hlisting⟩
    · rw [List.length_cons, hlength]
      exact Nat.succ_pred_eq_of_ne_zero hmissing

/-- Any other literal continues the unfinished clause. -/
theorem completes_literal_iff (hmissing : p.missing ≠ 0) (hw : Numeral.literal? w.2 = some l)
    (hl : l.code ≠ 0) (hvar : l.var ≤ p.header.variableCount) :
    p.Completes (w.2 :: ws) cs ↔ (p.add l hl).Completes ws cs := by
  have hopen : ∀ row, (p.add l hl).unfinished.literals.reverse ++ row =
      p.unfinished.literals.reverse ++ l :: row := fun row => by simp [add, Clause.cons]
  rw [completes_cons_iff hmissing]
  constructor
  · rintro ⟨m, hm, used, rest, row, hws, hrow, hlisting, hlength⟩
    obtain rfl := Option.some.inj (hm.1.symm.trans hw)
    exact ⟨used, rest, row, hws, hrow, (hopen row).trans hlisting, hlength⟩
  · rintro ⟨used, rest, row, hws, hrow, hlisting, hlength⟩
    exact ⟨l, ⟨hw, hvar⟩, used, rest, row, hws, hrow, (hopen row).symm.trans hlisting, hlength⟩

/-- Reading a row of words to its end succeeds exactly if it begins with the missing clauses. -/
theorem readWords_finish_eq_ok_iff (hdone : p.missing = 0 → p.unfinished.literals = [])
    {ts : List (ℕ × List Char)} {lineCount : ℕ} :
    (do (← ts.foldlM readWord p).finish lineCount) = .ok f ↔
      ∃ cs, p.Completes (ts.map Prod.snd) cs ∧
        f = ⟨p.header.variableCount, p.finished.reverse ++ cs⟩ := by
  -- The cases are those of `readWord` in its order, each with its equation for `Completes`.
  induction ts generalizing p with
  | nil =>
    rw [List.foldlM_nil, pure_bind, finish_eq_ok_iff, List.map_nil]
    constructor
    · rintro ⟨hopen, hmissing, rfl⟩
      exact ⟨[], completes_nil_iff.mpr ⟨hopen, hmissing, rfl⟩, by rw [List.append_nil]⟩
    · rintro ⟨cs, hcs, rfl⟩
      obtain ⟨hopen, hmissing, rfl⟩ := completes_nil_iff.mp hcs
      exact ⟨hopen, hmissing, by rw [List.append_nil]⟩
  | cons w ts ih =>
    rw [List.foldlM_cons, List.map_cons]
    by_cases hmissing : p.missing = 0
    · have hrest := ih hdone
      simp only [completes_of_done hmissing (hdone hmissing)] at hrest ⊢
      rw [readWord_of_done hmissing]
      exact hrest
    cases hw : Numeral.literal? w.2 with
    | none =>
      rw [readWord_of_not_numeral hmissing hw]
      constructor
      · exact nofun
      · rintro ⟨cs, hcs, -⟩
        obtain ⟨l, hl, -⟩ := (completes_cons_iff hmissing).mp hcs
        exact absurd (hw.symm.trans hl.1) (Option.some_ne_none l).symm
    | some l =>
      by_cases hl : l.code = 0
      · rw [readWord_zero hmissing hw hl]
        refine (ih fun _ => rfl).trans ?_
        simp only [completes_zero_iff hmissing hw hl]
        constructor
        · rintro ⟨cs, hcs, rfl⟩
          exact ⟨_, ⟨cs, rfl, hcs⟩, by simp [close]⟩
        · rintro ⟨-, ⟨cs, rfl, hcs⟩, rfl⟩
          exact ⟨cs, hcs, by simp [close]⟩
      by_cases hvar : p.header.variableCount < l.var
      · rw [readWord_of_out_of_range hmissing hw hl hvar]
        constructor
        · exact nofun
        · rintro ⟨cs, hcs, -⟩
          obtain ⟨m, hm, -⟩ := (completes_cons_iff hmissing).mp hcs
          obtain rfl := Option.some.inj (hm.1.symm.trans hw)
          exact absurd hm.2 (Nat.not_le.mpr hvar)
      · rw [readWord_literal hmissing hw hl (Nat.not_lt.mp hvar)]
        refine (ih (p := p.add l hl) fun h => absurd h hmissing).trans ?_
        simp only [completes_literal_iff hmissing hw hl (Nat.not_lt.mp hvar)]
        rfl

end Progress

end Dimacs

end SatSearch
