import SatSearch.Proofs.Formula.Answered
import SatSearch.Proofs.Search.Outcome

/-!
# A run decides the formula

A run on a new search that does not fault finds a model exactly if the formula is satisfiable. Its
model is complete, and not only the model but every assignment that agrees with the path satisfies
the formula. Nothing is asked of the literals: one outside the variables of the formula faults when
it is looked up, and where the run ends without looking it up the answer is right as well.
-/

namespace SatSearch

namespace SearchState

variable {n v : ℕ} {f : Formula} {s : SearchState}

namespace Tracked

/-- The path holds the variables with values. -/
theorem mem_path {held : Option ℕ} (h : Tracked n held s) {b : Bool} :
    (v, b) ∈ s.path ↔ s.branching.valueAt v = some b := by
  rw [path, List.mem_reverse, h.valueAt_iff]

/-- The model has the present values, and false for the open variables. -/
theorem value?_model (h : Tracked n none s) (v : ℕ) : s.branching.model.value? v =
    if 1 ≤ v ∧ v ≤ n then some ((s.branching.valueAt v).getD false) else none := by
  rw [h.coherent.model_eq, Assignment.value?_complete h.coherent.lt_wordSize]

/-- The model has a value for every variable, in their order. -/
theorem keys_model (h : Tracked n none s) :
    s.branching.model.bindings.map Prod.fst = List.range' 1 n := by
  rw [h.coherent.model_eq, Assignment.bindings_complete h.coherent.lt_wordSize, List.map_map]
  exact List.map_id _

/-- The model has the values on the path. -/
theorem value?_model_of_mem_path (h : Tracked n none s) {x : ℕ × Bool} (hx : x ∈ s.path) :
    s.branching.model.value? x.1 = some x.2 := by
  have hrange := h.in_range x (List.mem_reverse.mp hx)
  rw [h.value?_model, if_pos hrange, h.mem_path.mp hx, Option.getD_some]

/-- The model gives false to the variables that are not on the path. -/
theorem value?_model_of_notMem_path (h : Tracked n none s) (hv : 1 ≤ v) (hvn : v ≤ n)
    (hnot : v ∉ s.path.map Prod.fst) : s.branching.model.value? v = some false := by
  have hopen : s.branching.valueAt v = none := by
    by_contra hset
    rw [← ne_eq, h.valueAt_ne_none] at hset
    rw [path, List.map_reverse, List.mem_reverse] at hnot
    exact hnot hset
  rw [h.value?_model, if_pos ⟨hv, hvn⟩, hopen, Option.getD_none]

/-- If the values satisfy the formula already, the model verifies it. -/
theorem verifies_model (h : Tracked n none s) (hsat : f.satisfied s.branching.valueAt = true) :
    s.branching.model.verifies f = true := by
  rw [Assignment.verifies_eq]
  exact f.satisfied_mono (fun v b hb => h.value?_model_of_mem_path (h.mem_path.mpr hb)) hsat

/-- If the values satisfy the formula already, so does whatever agrees with the path. -/
theorem holds_of_agrees (h : Tracked n none s) (hsat : f.satisfied s.branching.valueAt = true)
    {value : ℕ → Bool} (hagree : ∀ x ∈ s.path, value x.1 = x.2) : f.holds value = true := by
  refine f.holds_of_satisfied (h.extends_iff.mpr fun x hx => ?_) hsat
  exact hagree x (List.mem_reverse.mpr hx)

/-- If the values satisfy the formula already, so does the model. -/
theorem holds_model (h : Tracked n none s) (hsat : f.satisfied s.branching.valueAt = true) :
    f.holds (fun v => (s.branching.model.value? v).getD false) = true := by
  refine h.holds_of_agrees hsat fun x hx => ?_
  rw [h.value?_model_of_mem_path hx, Option.getD_some]

/-- If the values satisfy the formula already, the model is complete. -/
theorem completeModel (h : Tracked f.variableCount none s)
    (hsat : f.satisfied s.branching.valueAt = true) : f.CompleteModel s.branching.model where
  keys := h.keys_model
  verifies := h.verifies_model hsat
  satisfies := h.holds_model hsat

end Tracked

/-- For at most `2 ^ 31 - 1` variables, if the first run of a search ends without a fault, it
answers with a model exactly if the formula is satisfiable. The model has the values of the path,
false for every other variable, and a true literal in every clause; and all assignments that agree
with the path satisfy the formula. -/
theorem run_decides {f : Formula} (hn : f.variableCount ≤ 2 ^ 31 - 1) {s₀ s : SearchState}
    {answer : Option Assignment} (hcreate : create f.variableCount = .ok s₀)
    (hrun : (s₀.run f).result = .ok (answer, s)) :
    (answer.isSome = true ↔ ∃ value, f.holds value = true) ∧
      ∀ model, answer = some model →
        model.bindings.map Prod.fst = List.range' 1 f.variableCount ∧
        (∀ x ∈ s.path, model.value? x.1 = some x.2) ∧
        (∀ v, 1 ≤ v → v ≤ f.variableCount → v ∉ s.path.map Prod.fst →
          model.value? v = some false) ∧
        model.verifies f = true ∧
        ∀ value : ℕ → Bool, (∀ x ∈ s.path, value x.1 = x.2) → f.holds value = true := by
  obtain ⟨s₁, hs₁, htracked, hempty⟩ := create_eq_ok (n := f.variableCount) (by omega)
  obtain rfl := Except.ok.inj (hs₁.symm.trans hcreate)
  rw [← run_watchRun] at hrun
  rcases (watchRun_settled htracked).result _ hrun with ⟨hsettled, hanswer⟩ | ⟨hsettled, hanswer⟩
  · cases hsettled with
    | solved h _ hsat =>
      obtain rfl : answer = some s.branching.model := hanswer
      refine ⟨⟨fun _ => ⟨_, h.holds_model hsat⟩, fun _ => rfl⟩, ?_⟩
      rintro model hmodel
      obtain rfl := Option.some.inj hmodel
      exact ⟨h.keys_model, fun x hx => h.value?_model_of_mem_path hx,
        fun v hv hvn hnot => h.value?_model_of_notMem_path hv hvn hnot, h.verifies_model hsat,
        fun value hagree => h.holds_of_agrees hsat hagree⟩
  · cases hsettled with
    | exhausted _ _ hhopeless =>
      obtain rfl : answer = none := hanswer
      refine ⟨⟨nofun, fun ⟨value, hvalue⟩ => ?_⟩, nofun⟩
      rw [hempty] at hhopeless
      rw [hhopeless value nofun] at hvalue
      cases hvalue

/-- One decision satisfies the only clause, so variables 2 and 3 never get a value and the model has
them as false. -/
theorem run_decides_early_stop :
    let f : Formula := ⟨3, [⟨[⟨-1, by decide, by decide⟩, ⟨3, by decide, by decide⟩], by decide⟩]⟩
    let model := Assignment.complete 3 fun _ => false
    f.variableCount ≤ 2 ^ 31 - 1 ∧ ∃ s₀ s, create f.variableCount = .ok s₀ ∧
      (s₀.run f).result = .ok (some model, s) ∧ s.path = [(1, false)] ∧
      (∃ value, f.holds value = true) ∧
      model.bindings.map Prod.fst = [1, 2, 3] ∧ (∀ x ∈ s.path, model.value? x.1 = some x.2) ∧
      (∀ v, 1 ≤ v → v ≤ 3 → v ∉ s.path.map Prod.fst → model.value? v = some false) ∧
      model.verifies f = true ∧
      ∀ value : ℕ → Bool, (∀ x ∈ s.path, value x.1 = x.2) → f.holds value = true := by
  intro f model
  let s₀ : SearchState := { branching := ⟨#[{}, {}, {}, {}],
    ⟨#[0, 3, 2, 1], #[1, 2, 3], #[none, some 0, some 1, some 2]⟩⟩ }
  let s : SearchState :=
    { branching := ⟨#[{}, { value := some false }, {}, {}],
        ⟨#[0, 3, 2, 1], #[2, 3], #[none, none, some 0, some 1]⟩⟩
      trail := [(1, false)]
      statistics := { decisions := 1, scans := 1 } }
  have hcreate : create f.variableCount = .ok s₀ := by decide +kernel
  have hrun : (s₀.run f).result = .ok (some model, s) := by decide +kernel
  obtain ⟨hiff, hmodel⟩ := run_decides (f := f) (by decide) hcreate hrun
  exact ⟨by decide, s₀, s, hcreate, hrun, rfl, hiff.mp rfl, hmodel model rfl⟩

end SearchState

end SatSearch
