import SatSearch.Decision
import SatSearch.Proofs.Enumeration
import SatSearch.Proofs.Search.Resumed

/-!
# All ways to decide a formula agree

The search and the enumeration may find different models, but where both end without a fault they
agree on whether there is one, and so do all entry points. The check of a model before it is handed
out is never what decides: every model found passes it, so leaving it out changes nothing at all.
-/

namespace SatSearch

namespace Formula

variable {f : Formula}

/-- What a search ends with is a right answer. -/
theorem search_answered (hn : f.variableCount < 2 ^ 32) {answer : Option Assignment}
    {statistics : Statistics} (hok : f.search.result = .ok (answer, statistics)) :
    f.Answered answer := by
  obtain ⟨s₀, hs₀, htracked, hempty⟩ := SearchState.create_eq_ok hn
  rw [search, Logged.lift_bind_of_ok hs₀] at hok
  obtain ⟨⟨answer', s⟩, hrun, hok⟩ := Logged.bind_eq_ok.mp hok
  cases hok
  have hpaused : SearchState.Paused f s₀ := ⟨htracked, .inl hempty⟩
  exact (hpaused.run hrun).answered

/-- So is the model that is handed out without the counters. -/
theorem searchModel_answered (hn : f.variableCount < 2 ^ 32) {answer : Option Assignment}
    (hok : f.searchModel.result = .ok answer) : f.Answered answer := by
  obtain ⟨⟨answer', statistics⟩, hsearch, hok⟩ := Logged.bind_eq_ok.mp hok
  cases hok
  exact search_answered hn hsearch

/-- Either method answers right. -/
theorem answer_answered (hn : f.variableCount < 2 ^ 32) {method : Method} {a : Answer}
    (hok : (f.answer method).result = .ok a) : f.Answered a.model := by
  cases method with
  | dpll =>
    obtain ⟨⟨answer, statistics⟩, hsearch, hok⟩ := Logged.bind_eq_ok.mp hok
    cases hok
    exact search_answered hn hsearch
  | exhaustive =>
    obtain ⟨answer, hfirst, hok⟩ := Logged.bind_eq_ok.mp hok
    cases hok
    exact firstModel_answered hn hfirst

/-- No model is rejected, so a formula is solved by handing out what the method answers. -/
theorem solve_eq (hn : f.variableCount < 2 ^ 32) (config : Config) :
    f.solve config = do
      Logged.log (.solving f.variableCount f.clauseCount config.method)
      let a ← f.answer config.method
      return .ok a := by
  unfold solve
  apply bind_congr
  intro _
  cases hok : (f.answer config.method).result with
  | error e => rw [Logged.bind_of_error hok, Logged.bind_of_error hok]
  | ok a =>
    rw [Logged.bind_of_ok hok, Logged.bind_of_ok hok]
    cases hmodel : a.model with
    | none => rfl
    | some m =>
      have hanswered := answer_answered hn hok
      rw [hmodel] at hanswered
      simp [hanswered.completeModel.verifies]

/-- Solving ends well exactly if the method does, and hands out its answer. -/
theorem solve_eq_ok (hn : f.variableCount < 2 ^ 32) {config : Config}
    {r : Except SolveError Answer} : (f.solve config).result = .ok r ↔
      ∃ a, (f.answer config.method).result = .ok a ∧ r = .ok a := by
  rw [solve_eq hn, Logged.bind_of_ok (by rfl), Logged.bind_eq_ok]
  simp [eq_comm]

/-- For at most `2 ^ 31 - 1` variables, whatever ends without a fault gives the same verdict: the
formula is solved without an error, by either method, found satisfiable, and given a model by the
search or by the enumeration exactly if some assignment satisfies it. Every model is complete and
passes both checks, and whether it is checked makes no difference to what is answered. -/
theorem entry_points_agree (hn : f.variableCount ≤ 2 ^ 31 - 1) :
    (∀ config r, (f.solve config).result = .ok r → ∃ a, r = .ok a ∧
      (a.satisfiable = true ↔ ∃ value, f.holds value = true) ∧
      ∀ m, a.model = some m → f.CompleteModel m) ∧
    (∀ answer, f.searchModel.result = .ok answer ∨ f.firstModel.result = .ok answer →
      (answer.isSome = true ↔ ∃ value, f.holds value = true) ∧
      ∀ m, answer = some m → f.CompleteModel m) ∧
    (∀ b, f.isSatisfiable.result = .ok b → (b = true ↔ ∃ value, f.holds value = true)) ∧
    ∀ method, f.solve ⟨method, true⟩ = f.solve ⟨method, false⟩ := by
  replace hn : f.variableCount < 2 ^ 32 := by omega
  refine ⟨fun config r hok => ?_, fun answer hok => ?_, fun b hok => ?_, fun method => ?_⟩
  · rw [solve_eq hn] at hok
    obtain ⟨_, -, hok⟩ := Logged.bind_eq_ok.mp hok
    obtain ⟨a, ha, hok⟩ := Logged.bind_eq_ok.mp hok
    cases hok
    have hanswered := answer_answered hn ha
    exact ⟨a, rfl, hanswered.isSome_iff, fun m hm => (hm ▸ hanswered).completeModel⟩
  · have hanswered : f.Answered answer := by
      rcases hok with hok | hok
      · exact searchModel_answered hn hok
      · exact firstModel_answered hn hok
    exact ⟨hanswered.isSome_iff, fun m hm => (hm ▸ hanswered).completeModel⟩
  · obtain ⟨⟨answer, statistics⟩, hsearch, hok⟩ := Logged.bind_eq_ok.mp hok
    cases hok
    exact (search_answered hn hsearch).isSome_iff
  · rw [solve_eq hn, solve_eq hn]

/-- One clause that asks for any of three variables. -/
def anyOfThree : Formula := ⟨3, [.ofCodes [1, 2, 3]]⟩

/-- The search prefers variable 2 to be true once variable 1 is false; the enumeration comes to
variable 3 first. Both models are right, with and without the check. -/
theorem entry_points_agree_different_models :
    let found := Assignment.ofBindings [(1, false), (2, true), (3, false)]
    let first := Assignment.ofBindings [(1, false), (2, false), (3, true)]
    anyOfThree.variableCount ≤ 2 ^ 31 - 1 ∧ anyOfThree.CompleteModel found ∧
      anyOfThree.CompleteModel first ∧ (∃ value, anyOfThree.holds value = true) ∧
      anyOfThree.searchModel.result = .ok (some found) ∧
      anyOfThree.firstModel.result = .ok (some first) ∧
      anyOfThree.isSatisfiable.result = .ok true ∧
      ∀ verify, (anyOfThree.solve ⟨.dpll, verify⟩).result =
          .ok (.ok ⟨.dpll, some found, some { decisions := 2, scans := 2 }⟩) ∧
        (anyOfThree.solve ⟨.exhaustive, verify⟩).result =
          .ok (.ok ⟨.exhaustive, some first, none⟩) := by
  intro found first
  have hsolve : (anyOfThree.solve ⟨.dpll, true⟩).result =
      .ok (.ok ⟨.dpll, some found, some { decisions := 2, scans := 2 }⟩) := by
    decide +kernel
  have hsolve' : (anyOfThree.solve ⟨.exhaustive, true⟩).result =
      .ok (.ok ⟨.exhaustive, some first, none⟩) := by
    decide +kernel
  have hfound : anyOfThree.searchModel.result = .ok (some found) := by decide +kernel
  have hfirst : anyOfThree.firstModel.result = .ok (some first) := by decide +kernel
  have hsatisfiable : anyOfThree.isSatisfiable.result = .ok true := by decide +kernel
  obtain ⟨-, hmodels, hverdict, hverify⟩ := entry_points_agree (f := anyOfThree) (by decide)
  obtain ⟨-, hcomplete⟩ := hmodels _ (.inl hfound)
  obtain ⟨-, hcomplete'⟩ := hmodels _ (.inr hfirst)
  refine ⟨by decide, hcomplete found rfl, hcomplete' first rfl,
    (hverdict true hsatisfiable).mp rfl, hfound, hfirst, hsatisfiable, fun verify => ?_⟩
  cases verify with
  | true => exact ⟨hsolve, hsolve'⟩
  | false => exact ⟨hverify .dpll ▸ hsolve, hverify .exhaustive ▸ hsolve'⟩

end Formula

end SatSearch
