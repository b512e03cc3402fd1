import SatSearch.Cli.Session
import SatSearch.Proofs.Formula.Answered
import SatSearch.Proofs.Number.Spelling
import SatSearch.Proofs.Text.Words
import Mathlib.Algebra.Group.Nat.Defs

/-!
# Model lines, written and read back

A model line is made of words: a `v`, the signed variables in ascending order, and a 0. The signed
variables are spelled as the literals of a file are, so the line can be read with the same numerals,
and reading it gives the model that it was written for.
-/

namespace SatSearch.Cli

/-- A variable with the sign of its value. -/
def signedName (m : Assignment) (v : ℕ) : String :=
  if m.value? v = some true then toString v else "-" ++ toString v

/-- The literals up to the 0 that ends them, which has to be the last word. -/
def readLiterals? : List (List Char) → Option (List Literal)
  | [] => none
  | w :: ws => do
    let l ← Numeral.literal? w
    if l.code = 0 then
      if ws = [] then some [] else none
    else
      return l :: (← readLiterals? ws)

/-- The assignment that a model line shows. -/
def readModelLine? (line : String) : Option Assignment :=
  match Text.words line.toList with
  | [] => none
  | v :: ws => if v = ['v'] then (readLiterals? ws).map .ofLiterals else none

/-- What a model line has to be for a formula. -/
structure ShowsModel (f : Formula) (line : String) (m : Assignment) : Prop where
  /-- After a `v` the declared variables are listed, each once, in ascending order and signed, and
  then a 0. -/
  listed : line = " ".intercalate
    ("v" :: (List.range' 1 f.variableCount).map (signedName m) ++ ["0"])
  /-- What is read back is the assignment shown. -/
  readBack : readModelLine? line = some m
  /-- It gives every declared variable a value and satisfies every clause. -/
  model : f.CompleteModel m

variable {f : Formula} {m : Assignment}

/-- A complete model is printed with each variable once, in ascending order. -/
theorem map_toString_signed (hm : f.CompleteModel m) :
    m.signed.map toString = (List.range' 1 f.variableCount).map (signedName m) := by
  rw [← hm.keys, Assignment.signed, List.map_map, List.map_map]
  refine List.map_congr_left fun x hx => ?_
  have hpos : 1 ≤ x.1 := (hm.bounds_of_mem hx).1
  simp only [Function.comp_apply, signedName, Assignment.value?_of_mem hx]
  cases x.2 with
  | true => rfl
  | false =>
    obtain ⟨v, hv⟩ := Nat.exists_eq_succ_of_ne_zero (Nat.ne_of_gt hpos)
    rw [hv]
    rfl

/-- A word that spells a literal is read as that literal. -/
theorem readLiterals?_cons {w : List Char} {l : Literal}
    (hw : Numeral.SpellsInteger w l.code) (hl : l.code ≠ 0) (ws : List (List Char)) :
    readLiterals? (w :: ws) = (readLiterals? ws).map (l :: ·) := by
  rw [readLiterals?, hw.literal?_eq, Option.bind_eq_bind, Option.bind_some, if_neg hl]
  cases readLiterals? ws <;> rfl

/-- Bindings that are printed as signed variables are read back. -/
theorem exists_readLiterals {bs : List (ℕ × Bool)} (hbs : ∀ x ∈ bs, 1 ≤ x.1 ∧ x.1 < 2 ^ 31) :
    ∃ ls : List Literal, ls.map (fun l => (l.var, l.positive)) = bs ∧
      readLiterals? (bs.map (fun x =>
        (toString (if x.2 then (x.1 : ℤ) else -x.1)).toList) ++ [['0']]) = some ls := by
  induction bs with
  | nil => exact ⟨[], rfl, by decide⟩
  | cons x bs ih =>
    obtain ⟨⟨hpos, hlt⟩, hbs⟩ := List.forall_mem_cons.mp hbs
    obtain ⟨ls, hmap, hread⟩ := ih hbs
    obtain ⟨v, b⟩ := x
    set code : ℤ := if b then (v : ℤ) else -v with hcode
    let l : Literal := ⟨code, by grind, by grind⟩
    have hl : (l.var, l.positive) = (v, b) := by
      simp only [Literal.var, Literal.positive, l]
      grind
    refine ⟨l :: ls, by rw [List.map_cons, hmap, hl], ?_⟩
    rw [List.map_cons, List.cons_append,
      readLiterals?_cons (l := l) (Numeral.spellsInteger_toString code) (by grind), hread]
    rfl

/-- The words of a model line are what it was put together from. -/
theorem words_modelLine (m : Assignment) : Text.words (modelLine m).toList =
    ['v'] :: (m.signed.map fun i => (toString i).toList) ++ [['0']] := by
  have hwords : ∀ w ∈ ['v'] :: (m.signed.map fun i => (toString i).toList) ++ [['0']],
      w ≠ [] ∧ ∀ c ∈ w, Text.isBlank c = false := by
    intro w hw
    rw [List.mem_append, List.mem_cons, List.mem_map, List.mem_singleton] at hw
    rcases hw with (rfl | ⟨i, -, rfl⟩) | rfl
    · decide
    · have hspells := Numeral.spellsInteger_toString i
      exact ⟨hspells.ne_nil, fun c hc => (hspells.isMark c hc).isBlank_eq⟩
    · decide
  have hline : (modelLine m).toList =
      [' '].intercalate (['v'] :: (m.signed.map fun i => (toString i).toList) ++ [['0']]) := by
    simp only [modelLine, String.toList_intercalate, List.map_cons, List.map_append, List.map_map,
      List.cons_append]
    rfl
  rw [hline, Text.words_intercalate (by decide) hwords]

/-- Reading the line that names a model gives the model back. -/
theorem readModelLine?_modelLine (hm : ∀ x ∈ m.bindings, 1 ≤ x.1 ∧ x.1 < 2 ^ 31) :
    readModelLine? (modelLine m) = some m := by
  obtain ⟨ls, hmap, hread⟩ := exists_readLiterals hm
  have hassignment : Assignment.ofLiterals ls = m := by
    rw [Assignment.ofLiterals, hmap, Assignment.mk.injEq,
      Assignment.bindings_ofBindings m.ascending]
  rw [readModelLine?, words_modelLine, Assignment.signed, List.map_map, List.cons_append]
  simp only [if_pos]
  rw [Function.comp_def, hread, Option.map_some, hassignment]

example : readModelLine? "v -1 +2 0" = some (.ofBindings [(1, false), (2, true)]) := by
  decide +kernel

/-- The line that names a complete model shows it. -/
theorem showsModel_modelLine (hn : f.variableCount ≤ 2 ^ 31 - 1) (hm : f.CompleteModel m) :
    ShowsModel f (modelLine m) m := by
  refine ⟨by rw [modelLine, map_toString_signed hm], readModelLine?_modelLine ?_, hm⟩
  intro x hx
  obtain ⟨hpos, hle⟩ := hm.bounds_of_mem hx
  exact ⟨hpos, by omega⟩

end SatSearch.Cli
