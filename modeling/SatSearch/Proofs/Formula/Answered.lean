import SatSearch.Proofs.Formula.PartialValues

/-!
# Right answers about a formula

A right answer is a complete model, or none if no assignment satisfies the formula. The two ways to
check an assignment differ only on variables without a value, so a complete model passes both.
-/

namespace SatSearch

variable {f : Formula} {m : Assignment} {answer : Option Assignment}

/-- An assignment that is accepted with missing values is accepted with all of them false. -/
theorem Assignment.satisfies_of_verifies (h : m.verifies f = true) : m.satisfies f = true := by
  rw [verifies_eq] at h
  refine f.holds_of_satisfied (fun v b hb => ?_) h
  rw [hb, Option.getD_some]

/-- A binding of an assignment is the value of its variable. -/
theorem Assignment.value?_of_mem {x : ℕ × Bool} (hx : x ∈ m.bindings) :
    m.value? x.1 = some x.2 := by
  obtain ⟨before, after, hsplit⟩ := List.append_of_mem hx
  have hascending := m.ascending
  rw [hsplit, List.pairwise_append] at hascending
  refine List.lookup_eq_some_iff.mpr ⟨before, after, hsplit, fun y hy => ?_⟩
  have hlt : y.1 < x.1 := hascending.2.2 y hy x List.mem_cons_self
  exact bne_iff_ne.mpr (by omega)

namespace Formula

/-- A model of exactly the variables `1..n` that passes both checks. -/
structure CompleteModel (f : Formula) (m : Assignment) : Prop where
  keys : m.bindings.map Prod.fst = List.range' 1 f.variableCount
  verifies : m.verifies f = true
  satisfies : m.satisfies f = true

/-- A complete model binds declared variables only. -/
theorem CompleteModel.bounds_of_mem (h : f.CompleteModel m) {x : ℕ × Bool}
    (hx : x ∈ m.bindings) : 1 ≤ x.1 ∧ x.1 ≤ f.variableCount := by
  have hmem : x.1 ∈ m.bindings.map Prod.fst := List.mem_map_of_mem hx
  rw [h.keys, List.mem_range'_1] at hmem
  omega

/-- A right answer about a formula. -/
inductive Answered (f : Formula) : Option Assignment → Prop
  | model {m : Assignment} (complete : f.CompleteModel m) : Answered f (some m)
  | none (unsatisfiable : ∀ value, f.holds value = false) : Answered f none

/-- A right answer is a model exactly if there is one. -/
theorem Answered.isSome_iff (h : f.Answered answer) :
    answer.isSome = true ↔ ∃ value, f.holds value = true := by
  cases h with
  | model hcomplete => exact ⟨fun _ => ⟨_, hcomplete.satisfies⟩, fun _ => rfl⟩
  | none hunsatisfiable =>
    refine ⟨nofun, fun ⟨value, hvalue⟩ => ?_⟩
    rw [hunsatisfiable value] at hvalue
    cases hvalue

/-- A model that is a right answer is complete. -/
theorem Answered.completeModel (h : f.Answered (some m)) : f.CompleteModel m := by
  cases h with
  | model hcomplete => exact hcomplete

end Formula

end SatSearch
