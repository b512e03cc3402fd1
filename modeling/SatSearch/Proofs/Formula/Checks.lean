import SatSearch.Proofs.Formula.Answered
import SatSearch.Proofs.Formula.InRange

/-!
# The two checks of an assignment

An assignment verifies a formula if every clause has a literal that it makes true, so whatever
values the other variables get, the formula holds. It satisfies a formula if the formula holds once
the other variables are false. The second is thus the first for one particular completion. The
converse of "it holds whatever values the other variables get" fails only for a clause with a
literal and its negation, which holds although no literal of it need be true yet.
-/

namespace SatSearch

variable {values : ℕ → Option Bool} {a : Assignment} {c : Clause} {f : Formula}

namespace Clause

/-- The clause has no literal together with its negation. -/
def TautologyFree (c : Clause) : Prop :=
  ∀ l ∈ c.literals, ∀ m ∈ c.literals, m.code ≠ -l.code

instance (c : Clause) : Decidable c.TautologyFree :=
  inferInstanceAs (Decidable (∀ l ∈ c.literals, ∀ m ∈ c.literals, m.code ≠ -l.code))

/-- The values that are set, and for any other variable the one that makes its literals in the
clause false. -/
def against (values : ℕ → Option Bool) (c : Clause) (v : ℕ) : Bool :=
  (values v).getD (c.literals.any fun l => l.var == v && !l.positive)

/-- Making a clause false changes no value that is set. -/
theorem extends_against : Extends values (c.against values) := by
  intro v b hv
  rw [against, hv, Option.getD_some]

/-- A literal of an open variable is false if its negation is not in the clause. -/
theorem against_ne_positive (hfree : c.TautologyFree) {l : Literal} (hl : l ∈ c.literals)
    (hopen : values l.var = none) : c.against values l.var ≠ l.positive := by
  rw [against, hopen, Option.getD_none]
  cases hpositive : l.positive with
  | false =>
    rw [Bool.ne_false_iff, List.any_eq_true]
    exact ⟨l, hl, by simp [hpositive]⟩
  | true =>
    rw [ne_eq, Bool.not_eq_true, List.any_eq_false]
    intro m hm
    simp only [Bool.and_eq_true, beq_iff_eq, Bool.not_eq_true', not_and, Bool.not_eq_false]
    intro hvar
    -- Two literals on one variable are the same or each other's negation.
    have hopposite := hfree l hl m hm
    simp only [Literal.positive, Literal.var, decide_eq_true_eq] at hpositive hvar ⊢
    omega

/-- A clause without a true literal can be made false, unless it has a literal and its negation. -/
theorem holds_against (hfree : c.TautologyFree) (hc : c.satisfied values = false) :
    c.holds (c.against values) = false := by
  rw [← Bool.not_eq_true]
  intro hholds
  obtain ⟨l, hl, htrue⟩ := exists_open_of_holds extends_against hc hholds
  obtain ⟨hmem, hopen⟩ := mem_openLiterals.mp hl
  exact against_ne_positive hfree hmem hopen htrue

end Clause

namespace Formula

/-- No clause has a literal together with its negation. -/
def TautologyFree (f : Formula) : Prop := ∀ c ∈ f.clauses, c.TautologyFree

instance (f : Formula) : Decidable f.TautologyFree :=
  inferInstanceAs (Decidable (∀ c ∈ f.clauses, c.TautologyFree))

/-- The variables of the literals, clause by clause. -/
def mentioned (f : Formula) : List ℕ := f.clauses.flatMap fun c => c.literals.map Literal.var

/-- The variables of the clauses are mentioned. -/
theorem var_mem_mentioned (hc : c ∈ f.clauses) {l : Literal} (hl : l ∈ c.literals) :
    l.var ∈ f.mentioned :=
  List.mem_flatMap_of_mem hc (List.mem_map_of_mem hl)

/-- Without tautologies, only a true literal in every clause makes a formula hold under all
extensions. -/
theorem satisfied_iff_forall_extends (hfree : f.TautologyFree) :
    f.satisfied values = true ↔ ∀ value, Extends values value → f.holds value = true := by
  constructor
  · exact fun hsat value hext => f.holds_of_satisfied hext hsat
  · intro hall
    rw [satisfied_eq_true]
    intro c hc
    by_contra hfalse
    rw [Bool.not_eq_true] at hfalse
    have hholds := holds_eq_true.mp (hall (c.against values) Clause.extends_against) c hc
    rw [Clause.holds_against (hfree c hc) hfalse] at hholds
    cases hholds

end Formula

namespace Assignment

/-- The assignment with the value false for those of these variables that have none. -/
def withFalse (a : Assignment) (vs : List ℕ) : Assignment :=
  vs.foldr (fun v a => a.bindNew v false) a

/-- Filling up with false changes no value that is set. -/
theorem value?_withFalse (a : Assignment) (vs : List ℕ) (v : ℕ) :
    (a.withFalse vs).value? v = (a.value? v).or (if v ∈ vs then some false else none) := by
  induction vs with
  | nil => simp [withFalse]
  | cons w vs ih =>
    have hbind : a.withFalse (w :: vs) = (a.withFalse vs).bindNew w false := rfl
    rw [hbind, value?_bindNew, ih, Option.or_assoc]
    by_cases hw : v = w
    · subst hw
      by_cases hv : v ∈ vs <;> simp [hv]
    · simp [hw]

/-- With a value for every variable of the formula both checks ask the same. -/
theorem verifies_eq_satisfies (h : ∀ v ∈ f.mentioned, a.value? v ≠ none) :
    a.verifies f = a.satisfies f := by
  rw [Bool.eq_iff_iff]
  refine ⟨satisfies_of_verifies, fun hsat => ?_⟩
  rw [verifies_eq, Formula.satisfied_eq_true]
  intro c hc
  obtain ⟨l, hl, htrue⟩ := Clause.holds_eq_true.mp (Formula.holds_eq_true.mp hsat c hc)
  obtain ⟨b, hb⟩ := Option.ne_none_iff_exists'.mp (h l.var (Formula.var_mem_mentioned hc hl))
  rw [hb, Option.getD_some] at htrue
  exact Clause.satisfied_eq_true.mpr ⟨l, hl, by rw [hb, htrue]⟩

/-- Taking missing values as false does not depend on whether they are written down. -/
theorem satisfies_withFalse (a : Assignment) (vs : List ℕ) (f : Formula) :
    (a.withFalse vs).satisfies f = a.satisfies f := by
  have hvalue : ∀ v, ((a.withFalse vs).value? v).getD false = (a.value? v).getD false := by
    intro v
    rw [value?_withFalse]
    cases a.value? v with
    | some b => rfl
    | none => split <;> rfl
  simp only [satisfies, hvalue]

/-- How the two checks of an assignment, complete or not, are related. If it verifies a formula,
then it satisfies it, the formula holds under every total assignment that extends it, and every
assignment that has its values and maybe more verifies the formula. It verifies and satisfies the
same formulas on variables that have a value. It satisfies a formula exactly if it verifies it after
all missing variables of the formula are set to false. If no clause has a literal and its negation,
it verifies the formula exactly if every total assignment that extends it makes the formula hold. -/
theorem checks_related (f : Formula) (a : Assignment) :
    (a.verifies f = true → a.satisfies f = true ∧
      ∀ value, Extends a.value? value → f.holds value = true) ∧
    (a.verifies f = true → ∀ a' : Assignment,
      (∀ v b, a.value? v = some b → a'.value? v = some b) → a'.verifies f = true) ∧
    ((∀ v ∈ f.mentioned, a.value? v ≠ none) → a.verifies f = a.satisfies f) ∧
    a.satisfies f = (a.withFalse f.mentioned).verifies f ∧
    (f.TautologyFree →
      (a.verifies f = true ↔ ∀ value, Extends a.value? value → f.holds value = true)) := by
  refine ⟨fun h => ⟨satisfies_of_verifies h, fun value hext => ?_⟩, fun h a' hle => ?_,
    verifies_eq_satisfies, ?_, Formula.satisfied_iff_forall_extends⟩
  · exact f.holds_of_satisfied hext h
  · exact f.satisfied_mono hle h
  · have hset : ∀ v ∈ f.mentioned, (a.withFalse f.mentioned).value? v ≠ none := by
      intro v hv
      rw [value?_withFalse, if_pos hv]
      cases a.value? v <;> exact Option.some_ne_none _
    rw [verifies_eq_satisfies hset, satisfies_withFalse]

/-- With variable 2 false all clauses have a true literal, whatever the others are. With nothing set
the formula is satisfied, but not verified until all variables are false. -/
theorem checks_related_unset :
    let f : Formula := ⟨3, [.ofCodes [1, -2], .ofCodes [-2, 3, 3]]⟩
    let a := ofLiterals [⟨-2, by decide, by decide⟩]
    let a' := ofLiterals [⟨-2, by decide, by decide⟩, ⟨1, by decide, by decide⟩]
    f.TautologyFree ∧ a.value? 1 = none ∧ a.verifies f = true ∧ a.satisfies f = true ∧
      a'.verifies f = true ∧ (∀ value : ℕ → Bool, Extends a.value? value → f.holds value = true) ∧
      empty.verifies f = false ∧ empty.satisfies f = true ∧
      (empty.withFalse f.mentioned).verifies f = true := by
  intro f a a'
  have hfree : f.TautologyFree := by decide
  have hverifies : a.verifies f = true := by decide
  have hmore : ∀ v b, a.value? v = some b → a'.value? v = some b := by
    intro v b hv
    have ha : a.value? v = if v = 2 then some false else none := by
      rw [show a = empty.bindNew 2 false from rfl, value?_bindNew, value?_empty, Option.none_or]
    have ha' : a'.value? v = (if v = 1 then some true else none).or (a.value? v) := by
      rw [ha, show a' = (empty.bindNew 1 true).bindNew 2 false from rfl, value?_bindNew,
        value?_bindNew, value?_empty, Option.none_or]
    rw [ha', hv]
    rw [ha] at hv
    split at hv
    · subst v
      rfl
    · cases hv
  obtain ⟨hholds, hmono, -, -, hall⟩ := checks_related f a
  obtain ⟨-, -, -, hcompletion, -⟩ := checks_related f empty
  have hsatisfies : empty.satisfies f = true := by decide
  exact ⟨hfree, by decide, hverifies, (hholds hverifies).1, hmono hverifies a' hmore,
    (hall hfree).mp hverifies, by decide, hsatisfies, hcompletion ▸ hsatisfies⟩

/-- A clause with a literal and its negation holds whatever the value, without a true literal. -/
example : (empty.verifies ⟨1, [.ofCodes [1, -1]]⟩ = false) ∧
    ∀ b : Bool, Formula.holds (fun _ => b) ⟨1, [.ofCodes [1, -1]]⟩ = true := by
  decide

end Assignment

end SatSearch
