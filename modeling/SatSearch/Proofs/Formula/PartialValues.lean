import SatSearch.Assignment
import SatSearch.Proofs.Faults
import Mathlib.Data.Nat.Notation
import Mathlib.Logic.Function.Basic

/-!
# Formulas under partial values

While some variables have no value, a clause may already be satisfied, may be falsified, or may
force its last open literal. A formula with a falsified clause, or with two clauses that force
opposite literals, is refuted: however the open variables are chosen, some clause fails.
-/

namespace SatSearch

variable {values values' : ℕ → Option Bool} {value : ℕ → Bool}
  {c : Clause} {f : Formula} {l : Literal}

/-- A value for every variable that agrees with the partial values. -/
def Extends (values : ℕ → Option Bool) (value : ℕ → Bool) : Prop :=
  ∀ v b, values v = some b → value v = b

/-- A negated literal has the code with the other sign. -/
theorem Literal.code_of_negate_ok {m : Literal} (hok : l.negate = .ok m) : m.code = -l.code := by
  unfold negate at hok
  split at hok
  · cases hok
  · cases hok
    rfl

namespace Clause

/-- Whether some literal is true already. -/
def satisfied (values : ℕ → Option Bool) (c : Clause) : Bool :=
  c.literals.any fun l => values l.var == some l.positive

/-- The literals whose variables have no value. -/
def openLiterals (values : ℕ → Option Bool) (c : Clause) : List Literal :=
  c.literals.filter fun l => (values l.var).isNone

/-- No literal is true and none is open. -/
def Falsified (values : ℕ → Option Bool) (c : Clause) : Prop :=
  c.satisfied values = false ∧ c.openLiterals values = []

/-- No literal is true and this is the only open one. -/
def Forces (values : ℕ → Option Bool) (c : Clause) (l : Literal) : Prop :=
  c.satisfied values = false ∧ c.openLiterals values = [l]

/-- A clause is satisfied if one of its literals has the value it asks for. -/
theorem satisfied_eq_true :
    c.satisfied values = true ↔ ∃ l ∈ c.literals, values l.var = some l.positive := by
  simp only [satisfied, List.any_eq_true, beq_iff_eq]

/-- A clause holds if one of its literals has the value it asks for. -/
theorem holds_eq_true : c.holds value = true ↔ ∃ l ∈ c.literals, value l.var = l.positive := by
  simp only [holds, List.any_eq_true, beq_iff_eq]

/-- The open literals are those without a value. -/
theorem mem_openLiterals :
    l ∈ c.openLiterals values ↔ l ∈ c.literals ∧ values l.var = none := by
  rw [openLiterals, List.mem_filter, Option.isNone_iff_eq_none]

/-- A satisfied clause stays satisfied when more values are set. -/
theorem satisfied_mono (hle : ∀ v b, values v = some b → values' v = some b)
    (hc : c.satisfied values = true) : c.satisfied values' = true := by
  obtain ⟨l, hl, htrue⟩ := satisfied_eq_true.mp hc
  exact satisfied_eq_true.mpr ⟨l, hl, hle _ _ htrue⟩

/-- A satisfied clause holds under every extension of the values. -/
theorem holds_of_satisfied (hext : Extends values value) (hc : c.satisfied values = true) :
    c.holds value = true := by
  obtain ⟨l, hl, htrue⟩ := satisfied_eq_true.mp hc
  exact holds_eq_true.mpr ⟨l, hl, hext _ _ htrue⟩

/-- A clause without a true literal can only come to hold through an open one. -/
theorem exists_open_of_holds (hext : Extends values value) (hc : c.satisfied values = false)
    (hholds : c.holds value = true) :
    ∃ l ∈ c.openLiterals values, value l.var = l.positive := by
  obtain ⟨l, hl, htrue⟩ := holds_eq_true.mp hholds
  refine ⟨l, mem_openLiterals.mpr ⟨hl, ?_⟩, htrue⟩
  cases hv : values l.var with
  | none => rfl
  | some b =>
    have hb : b = l.positive := (hext _ _ hv).symm.trans htrue
    have hsat := satisfied_eq_true.mpr ⟨l, hl, hb ▸ hv⟩
    rw [hc] at hsat
    cases hsat

/-- A falsified clause fails under every extension of the values. -/
theorem Falsified.holds_eq_false (hc : c.Falsified values) (hext : Extends values value) :
    c.holds value = false := by
  rw [← Bool.not_eq_true]
  intro hholds
  obtain ⟨l, hl, -⟩ := exists_open_of_holds hext hc.1 hholds
  rw [hc.2] at hl
  cases hl

/-- Where a clause holds, what it forces is true. -/
theorem Forces.eq_positive (hc : c.Forces values l) (hext : Extends values value)
    (hholds : c.holds value = true) : value l.var = l.positive := by
  obtain ⟨m, hm, htrue⟩ := exists_open_of_holds hext hc.1 hholds
  rw [hc.2, List.mem_singleton] at hm
  exact hm ▸ htrue

/-- What is forced is no zero. -/
theorem Forces.code_ne_zero (hc : c.Forces values l) : l.code ≠ 0 := by
  have hl : l ∈ c.openLiterals values := by rw [hc.2]; exact List.mem_singleton_self l
  exact c.nonzero l (mem_openLiterals.mp hl).1

end Clause

namespace Formula

/-- Whether every clause has a literal that is true already. -/
def satisfied (values : ℕ → Option Bool) (f : Formula) : Bool :=
  f.clauses.all (Clause.satisfied values)

/-- Some clause is falsified, or two clauses force opposite literals. -/
def Refuted (values : ℕ → Option Bool) (f : Formula) : Prop :=
  (∃ c ∈ f.clauses, c.Falsified values) ∨
    ∃ c ∈ f.clauses, ∃ d ∈ f.clauses, ∃ l m, c.Forces values l ∧ d.Forces values m ∧
      m.code = -l.code

/-- A formula with more clauses is refuted where one with fewer is. -/
theorem Refuted.mono {g : Formula} (hsub : ∀ c ∈ f.clauses, c ∈ g.clauses)
    (hf : f.Refuted values) : g.Refuted values := by
  rcases hf with ⟨c, hc, hfalse⟩ | ⟨c, hc, d, hd, hclash⟩
  · exact .inl ⟨c, hsub c hc, hfalse⟩
  · exact .inr ⟨c, hsub c hc, d, hsub d hd, hclash⟩

/-- A formula holds if all of its clauses do. -/
theorem holds_eq_true : f.holds value = true ↔ ∀ c ∈ f.clauses, c.holds value = true := by
  rw [holds, List.all_eq_true]

/-- A formula is satisfied if all of its clauses are. -/
theorem satisfied_eq_true :
    f.satisfied values = true ↔ ∀ c ∈ f.clauses, c.satisfied values = true := by
  rw [satisfied, List.all_eq_true]

/-- A satisfied formula stays satisfied when more values are set. -/
theorem satisfied_mono (hle : ∀ v b, values v = some b → values' v = some b)
    (hf : f.satisfied values = true) : f.satisfied values' = true :=
  satisfied_eq_true.mpr fun c hc => c.satisfied_mono hle (satisfied_eq_true.mp hf c hc)

/-- A satisfied formula holds under every extension of the values. -/
theorem holds_of_satisfied (hext : Extends values value) (hf : f.satisfied values = true) :
    f.holds value = true :=
  holds_eq_true.mpr fun c hc => c.holds_of_satisfied hext (satisfied_eq_true.mp hf c hc)

/-- However the open variables are chosen, a refuted formula fails. -/
theorem Refuted.holds_eq_false (hf : f.Refuted values) (hext : Extends values value) :
    f.holds value = false := by
  rw [← Bool.not_eq_true, holds_eq_true]
  intro hholds
  rcases hf with ⟨c, hc, hfalse⟩ | ⟨c, hc, d, hd, l, m, hl, hm, hopposite⟩
  · have hc' := hholds c hc
    rw [hfalse.holds_eq_false hext] at hc'
    cases hc'
  · have hlv := hl.eq_positive hext (hholds c hc)
    have hmv := hm.eq_positive hext (hholds d hd)
    have hnonzero := hl.code_ne_zero
    -- The two literals are on one variable and ask for different values of it.
    have hvar : m.var = l.var := by simp only [Literal.var, hopposite]; omega
    rw [hvar, hlv] at hmv
    simp only [Literal.positive, hopposite, decide_eq_decide] at hmv
    omega

end Formula

/-- Checking the assignment against a formula asks for a true literal in every clause. -/
theorem Assignment.verifies_eq (a : Assignment) : a.verifies f = f.satisfied a.value? := rfl

/-- If look-ups answer with the values of the variables, a check that does not fault either finds
a true literal or has looked at every literal and found it false. -/
theorem Clause.check_ok_cases {lookup : ℕ → Except Fault Bool}
    (hlookup : ∀ l ∈ c.literals, ∀ b, lookup l.var = .ok b → values l.var = some b) {r : Bool}
    (hok : c.check lookup = .ok r) :
    r = true ∧ c.satisfied values = true ∨ r = false ∧ c.Falsified values := by
  obtain ⟨ls, hnonzero⟩ := c
  simp only [check, Falsified, satisfied, openLiterals] at *
  clear hnonzero
  induction ls with
  | nil =>
    obtain rfl := pure_eq_ok.mp hok
    simp
  | cons l ls ih =>
    obtain ⟨t, ht, hok⟩ := bind_eq_ok.mp ((List.anyM_cons ..).symm.trans hok)
    obtain ⟨b, hb, ht⟩ := bind_eq_ok.mp ht
    obtain rfl := pure_eq_ok.mp ht
    have hv := hlookup l (by simp) b hb
    by_cases hbl : b = l.positive
    · rw [hbl, beq_self_eq_true] at hok
      obtain rfl := pure_eq_ok.mp hok
      simp [hv, hbl]
    · rw [beq_false_of_ne hbl] at hok
      have hrest := ih (fun m hm => hlookup m (by simp [hm])) hok
      simpa [hv, hbl] using hrest

/-- A check that returns true has found the formula satisfied, and one that returns false has found
it refuted. -/
theorem Formula.check_ok_cases {lookup : ℕ → Except Fault Bool}
    (hlookup : ∀ v b, v ≠ 0 → lookup v = .ok b → values v = some b) {r : Bool}
    (hok : f.check lookup = .ok r) :
    r = true ∧ f.satisfied values = true ∨ r = false ∧ f.Refuted values := by
  obtain ⟨n, cs⟩ := f
  simp only [check] at hok
  induction cs with
  | nil =>
    obtain rfl := pure_eq_ok.mp hok
    simp [satisfied]
  | cons c cs ih =>
    obtain ⟨t, ht, hok⟩ := bind_eq_ok.mp ((List.allM_cons ..).symm.trans hok)
    have hliteral : ∀ l ∈ c.literals, ∀ b, lookup l.var = .ok b → values l.var = some b :=
      fun l hl b hb => hlookup _ b (Nat.ne_of_gt (Literal.var_pos (c.nonzero l hl))) hb
    rcases c.check_ok_cases hliteral ht with ⟨rfl, hsat⟩ | ⟨rfl, hfalse⟩
    · rcases ih hok with ⟨hr, hrest⟩ | ⟨hr, hrest⟩
      · simp only [satisfied] at hrest
        exact .inl ⟨hr, by simp [satisfied, hsat, hrest]⟩
      · exact .inr ⟨hr, hrest.mono fun d hd => List.mem_cons_of_mem c hd⟩
    · obtain rfl := pure_eq_ok.mp hok
      exact .inr ⟨rfl, .inl ⟨c, by simp, hfalse⟩⟩

/-- A check that finds the formula true has found every clause true. -/
theorem Formula.check_eq_true {lookup : ℕ → Except Fault Bool} :
    f.check lookup = .ok true ↔ ∀ c ∈ f.clauses, c.check lookup = .ok true := by
  rw [Formula.check]
  induction f.clauses with
  | nil => simp
  | cons c cs ih =>
    rw [List.allM_cons, List.forall_mem_cons, ← ih]
    cases c.check lookup with
    | error e => simp [bind, Except.bind]
    | ok b => cases b <;> simp [bind, Except.bind, pure, Except.pure]

end SatSearch
