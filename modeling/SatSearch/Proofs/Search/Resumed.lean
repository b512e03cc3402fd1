import SatSearch.Proofs.Formula.InRange
import SatSearch.Proofs.Search.Shown
import SatSearch.Proofs.Search.Sound

/-!
# Running a search again

A search keeps its state from one run to the next, and all of its runs agree. After a run without a
model the trail is empty as it was at first, so the next run decides the formula anew. After a run
with a model every clause is shown, so the next run stops as soon as it has looked: it gives a value
to one further variable if any is queued, and finds the formula satisfied.
-/

namespace SatSearch

/-- The result is this one, unless not all of these counters fit and one of them ends the
computation. -/
def Yields {α : Type} (t : Statistics) (a : α) (x : Except Fault α) : Prop :=
  x = .ok a ∨ ¬t.Fits ∧ x = .error .overflow

namespace Yields

variable {α β : Type} {t : Statistics} {a : α} {b : β}

/-- A result yields itself. -/
theorem ok : Yields t a (.ok a) := .inl rfl

/-- A counter that fits if the others do. -/
theorem below {count : ℕ} (h : t.Fits → count < longSize) :
    Yields t count (below longSize count) := by
  unfold SatSearch.below
  split
  case isTrue => exact .ok
  case isFalse hlt => exact .inr ⟨mt h hlt, rfl⟩

/-- One computation after another. -/
theorem bind {x : Except Fault α} {f : α → Except Fault β} (hx : Yields t a x)
    (hf : Yields t b (f a)) : Yields t b (x >>= f) := by
  rcases hx with rfl | ⟨hfull, rfl⟩
  · exact hf
  · exact .inr ⟨hfull, rfl⟩

end Yields

namespace SearchState

variable {n v : ℕ} {f : Formula} {s t : SearchState}

/-- What one more run comes to when the values satisfy the formula already. -/
inductive Resumes (s : SearchState) : SearchState → Prop
  /-- Nothing is queued, and the values are evaluated once more. -/
  | evaluated (empty : s.branching.anyQueued = false) :
      Resumes s { s with
        statistics := { s.statistics with evaluations := s.statistics.evaluations + 1 } }
  /-- The selected variable gets its first value, and a scan with others queued ends the run. -/
  | scanned {choice : Choice} {selected assigned : Branching}
      (select : s.branching.select.result = .ok (some (choice, selected)))
      (assign : selected.assign choice.var choice.first = .ok assigned)
      (queued : assigned.anyQueued = true) :
      Resumes s { s with
        branching := assigned
        propagator := s.propagator.clear
        trail := (choice.var, choice.first) :: s.trail
        statistics := { s.statistics with
          decisions := s.statistics.decisions + 1
          scans := s.statistics.scans + 1 } }
  /-- The last variable gets its first value, and an evaluation ends the run. -/
  | completed {choice : Choice} {selected assigned : Branching}
      (select : s.branching.select.result = .ok (some (choice, selected)))
      (assign : selected.assign choice.var choice.first = .ok assigned)
      (queued : assigned.anyQueued = false) :
      Resumes s { s with
        branching := assigned
        trail := (choice.var, choice.first) :: s.trail
        statistics := { s.statistics with
          decisions := s.statistics.decisions + 1
          evaluations := s.statistics.evaluations + 1 } }

/-- An evaluation finds the formula true when every clause is shown. -/
theorem evaluate_yields {t : Statistics} (h : s.branching.Shows f)
    (hfits : t.Fits → s.statistics.evaluations + 1 < longSize) :
    Yields t (.solved, { s with
      statistics := { s.statistics with evaluations := s.statistics.evaluations + 1 } })
      (s.evaluate f) := by
  have hcheck := Formula.check_eq_true.mpr fun c hc => Branching.check_of_openLiterals (h c hc)
  unfold evaluate
  apply (Yields.below hfits).bind
  exact .bind (.inl hcheck) .ok

/-- So does a scan, which leaves no forced literals. -/
theorem scan_yields {t : Statistics} (h : s.branching.Shows f)
    (hfits : t.Fits → s.statistics.scans + 1 < longSize) :
    Yields t (.satisfied, { s with
      propagator := s.propagator.clear
      statistics := { s.statistics with scans := s.statistics.scans + 1 } })
      (s.scan f).result := by
  have hscan : (s.propagator.scan f s.branching).result =
      .ok (.satisfied, s.propagator.clear, s.branching) := by
    rw [Branching.scan_of_shows h]
  unfold SearchState.scan
  simp only [Logged.result_bind]
  apply (Yields.below hfits).bind
  exact .bind (.inl hscan) .ok

/-- The result of a decision without its log. -/
theorem assign_result (s : SearchState) (v : ℕ) (b : Bool) :
    (s.assign v b).result = do
      let decisions ← below longSize (s.statistics.decisions + 1)
      let branching ← s.branching.assign v b
      return { s with
        branching
        trail := (v, b) :: s.trail
        statistics := { s.statistics with decisions } } := by
  simp only [SearchState.assign, Logged.result_bind, Logged.result_lift]
  rfl

section

variable {descend : SearchState → Logged Fault (Outcome × SearchState)} {b : Bool}
  {assigned : Branching} {t : Statistics} (hassign : s.branching.assign v b = .ok assigned)
  (hshows : assigned.Shows f) (hdecisions : t.Fits → s.statistics.decisions + 1 < longSize)

include hassign hdecisions

/-- A decision only counts itself and its value. -/
theorem assign_yields :
    Yields t { s with
      branching := assigned
      trail := (v, b) :: s.trail
      statistics := { s.statistics with decisions := s.statistics.decisions + 1 } }
      (s.assign v b).result := by
  rw [assign_result, hassign]
  exact (Yields.below hdecisions).bind .ok

include hshows

/-- A value that leaves every clause shown succeeds in a scan if other variables are queued. -/
theorem tryValue_scanned (hqueued : assigned.anyQueued = true)
    (hscans : t.Fits → s.statistics.scans + 1 < longSize) :
    Yields t (.solved, { s with
      branching := assigned
      propagator := s.propagator.clear
      trail := (v, b) :: s.trail
      statistics := { s.statistics with
        decisions := s.statistics.decisions + 1
        scans := s.statistics.scans + 1 } }) (tryValue f descend v b s).result := by
  rw [tryValue_eq, Logged.result_bind]
  apply (assign_yields hassign hdecisions).bind
  have hscan : Yields t _ (scan f { s with
      branching := assigned
      trail := (v, b) :: s.trail
      statistics := { s.statistics with decisions := s.statistics.decisions + 1 } }).result :=
    scan_yields hshows hscans
  simp only [hqueued, if_true, Logged.result_bind]
  exact hscan.bind .ok

/-- It succeeds in an evaluation if its variable was the last one queued. -/
theorem tryValue_completed (hqueued : assigned.anyQueued = false)
    (hevaluations : t.Fits → s.statistics.evaluations + 1 < longSize) :
    Yields t (.solved, { s with
      branching := assigned
      trail := (v, b) :: s.trail
      statistics := { s.statistics with
        decisions := s.statistics.decisions + 1
        evaluations := s.statistics.evaluations + 1 } }) (tryValue f descend v b s).result := by
  rw [tryValue_eq, Logged.result_bind]
  apply (assign_yields hassign hdecisions).bind
  simp only [hqueued, Bool.false_eq_true, if_false]
  exact evaluate_yields hshows hevaluations

end

/-- Taking the variable whose turn it is and giving it a value keeps every clause shown. -/
theorem Tracked.select_assign (h : Tracked n none s) (hshows : s.branching.Shows f)
    (hqueued : s.branching.anyQueued = true) :
    ∃ choice selected assigned, s.branching.select.result = .ok (some (choice, selected)) ∧
      selected.assign choice.var choice.first = .ok assigned ∧ assigned.Shows f := by
  rw [h.coherent.anyQueued_iff] at hqueued
  rcases h.coherent.select with ⟨hempty, -⟩ | ⟨v, selected, hnext, hselect, hselected⟩
  · exact absurd hempty hqueued
  have hvn := h.coherent.le_of_mem hnext.1
  have hopen := ((h.mem_waiting v).mp hnext.1).2.2.1
  have hassign := hselected.coherent.assign_eq (b := (s.branching.entryAt v).preferred) hvn
  obtain ⟨-, hassigned⟩ := hselected.coherent.assign_ok hassign
  refine ⟨_, selected, _, by rw [hselect], hassign, ?_⟩
  refine hshows.mono h.coherent hassigned.coherent fun w d hd => ?_
  have hwv : w ≠ v := by
    rintro rfl
    rw [hopen] at hd
    cases hd
  rw [hassigned.valueAt_eq, Function.update_of_ne hwv, hselected.valueAt_eq,
    Function.update_of_ne hwv, hd]

/-- A run that selects a variable ends with the first value that it tries if this succeeds. -/
theorem run_yields {choice : Choice} {selected : Branching} {left : ℕ}
    (hleft : s.branching.queued = left + 1)
    (hselect : s.branching.select.result = .ok (some (choice, selected))) {t : SearchState}
    (hvalue : Yields t.statistics (.solved, t) (tryValue f (explore f left) choice.var choice.first
      { s with branching := selected }).result) :
    Yields t.statistics (some t.branching.model, t) (s.run f).result := by
  have hexplore : Yields t.statistics (.solved, t) (explore f (left + 1) s).result := by
    rw [explore_succ, Logged.result_bind, hselect, ok_bind]
    simp only
    rw [Choice.values, tryValues_cons, Logged.result_bind]
    exact hvalue.bind .ok
  rw [run_eq, Logged.result_bind, hleft]
  exact hexplore.bind .ok

/-- A run from values that satisfy the formula already stops as soon as it has looked. -/
theorem Tracked.run_resumes (h : Tracked n none s) (hshows : s.branching.Shows f) :
    ∃ t, s.Resumes t ∧ Yields t.statistics (some t.branching.model, t) (s.run f).result := by
  have hcard := h.coherent.queued_eq
  cases hqueued : s.branching.anyQueued with
  | false =>
    refine ⟨_, .evaluated hqueued, ?_⟩
    rw [← Bool.not_eq_true, h.coherent.anyQueued_iff, not_not] at hqueued
    rw [hqueued, Finset.card_empty] at hcard
    rw [run_eq, Logged.result_bind, hcard, explore_zero]
    exact (evaluate_yields hshows fun hfits => hfits.evaluations).bind .ok
  | true =>
    obtain ⟨choice, selected, assigned, hselect, hassign, hassigned⟩ :=
      h.select_assign hshows hqueued
    have hpos : s.branching.queued ≠ 0 := by
      rw [h.coherent.anyQueued_iff] at hqueued
      rw [hcard]
      exact mt Finset.card_eq_zero.mp hqueued
    obtain ⟨left, hleft⟩ := Nat.exists_eq_succ_of_ne_zero hpos
    have hheld : (SearchState.branching { s with branching := selected }).assign choice.var
        choice.first = .ok assigned := hassign
    cases hrest : assigned.anyQueued with
    | true =>
      refine ⟨_, .scanned hselect hassign hrest, run_yields hleft hselect ?_⟩
      exact tryValue_scanned hheld hassigned (fun hfits => hfits.decisions) hrest
        fun hfits => hfits.scans
    | false =>
      refine ⟨_, .completed hselect hassign hrest, run_yields hleft hselect ?_⟩
      exact tryValue_completed hheld hassigned (fun hfits => hfits.decisions) hrest
        fun hfits => hfits.evaluations

/-- A run with a model leaves every clause shown. -/
theorem Tracked.run_shows (h : Tracked n none s) {m : Assignment}
    (hok : (s.run f).result = .ok (some m, t)) : t.branching.Shows f := by
  obtain ⟨⟨outcome, t'⟩, hexplore, hok⟩ := Logged.bind_eq_ok.mp hok
  cases outcome with
  | solved =>
    cases hok
    exact h.explore_shows h.length_add_queued hexplore
  | exhausted => cases hok

/-- A state between two runs: no decision is left, or every clause is shown. -/
structure Paused (f : Formula) (s : SearchState) : Prop where
  tracked : Tracked f.variableCount none s
  shows : s.trail = [] ∨ s.branching.Shows f

/-- What a run leaves, by its answer. -/
inductive Ended (f : Formula) : Option Assignment × SearchState → Prop
  | model {s : SearchState} (tracked : Tracked f.variableCount none s)
      (shows : s.branching.Shows f) : Ended f (some s.branching.model, s)
  | none {s : SearchState} (tracked : Tracked f.variableCount none s) (trail_eq : s.trail = [])
      (unsatisfiable : ∀ value, f.holds value = false) : Ended f (none, s)

/-- After a run another one can begin. -/
theorem Ended.paused {r : Option Assignment × SearchState} (h : Ended f r) : Paused f r.2 := by
  cases h with
  | model htracked hshows => exact ⟨htracked, .inr hshows⟩
  | none htracked htrail => exact ⟨htracked, .inl htrail⟩

/-- What a run ends with is an answer. -/
theorem Ended.answered {r : Option Assignment × SearchState} (h : Ended f r) :
    f.Answered r.1 := by
  cases h with
  | model htracked hshows =>
    exact .model (htracked.completeModel (hshows.satisfied))
  | none _ _ hunsatisfiable => exact .none hunsatisfiable

/-- A run from a paused state ends in one. -/
theorem Paused.run (h : Paused f s) {r : Option Assignment × SearchState}
    (hok : (s.run f).result = .ok r) : Ended f r := by
  obtain ⟨answer, t⟩ := r
  have hsettled := hok
  rw [← run_watchRun] at hsettled
  rcases (watchRun_settled h.tracked).result _ hsettled with
    ⟨hsettled, hanswer⟩ | ⟨hsettled, hanswer⟩
  · obtain rfl : answer = some t.branching.model := hanswer
    exact .model hsettled.tracked (h.tracked.run_shows hok)
  · obtain rfl : answer = none := hanswer
    rcases h.shows with hempty | hshows
    · cases hsettled with
      | exhausted htracked hunchanged hhopeless =>
        rw [hempty] at hunchanged hhopeless
        exact .none htracked hunchanged fun value => hhopeless value nofun
    -- Where every clause is shown a run finds a model again, so it does not end without one.
    · obtain ⟨u, -, hsome | ⟨-, herror⟩⟩ := h.tracked.run_resumes hshows
      · rw [hsome] at hok
        cases hok
      · rw [herror] at hok
        cases hok

/-- All runs in a succession give the same verdict. -/
theorem Paused.runs {k : ℕ} (h : Paused f s) {answers : List (Option Assignment)}
    (hok : (runs f k s).result = .ok (answers, t)) :
    Paused f t ∧ ∀ a ∈ answers, (a.isSome = true ↔ ∃ value, f.holds value = true) := by
  induction k generalizing s answers with
  | zero =>
    cases hok
    exact ⟨h, nofun⟩
  | succ k ih =>
    obtain ⟨⟨answer, s₁⟩, hs₁, hok⟩ := Logged.bind_eq_ok.mp hok
    obtain ⟨⟨answers', s₂⟩, hs₂, hok⟩ := Logged.bind_eq_ok.mp hok
    cases hok
    have hended := h.run hs₁
    obtain ⟨hpaused, hanswers⟩ := ih hended.paused hs₂
    exact ⟨hpaused, List.forall_mem_cons.mpr ⟨hended.answered.isSome_iff, hanswers⟩⟩

/-- For at most `2 ^ 31 - 1` variables, however often a search has been run, one more run that ends
without a fault gives the verdict of the runs before. If it finds no model, the trail is empty, no
variable has a value and all are queued. If it finds one, the run after it adds at most one decision
to the trail, counts it and one scan or evaluation, and finds a model again, unless a counter is
full. -/
theorem runs_agree {f : Formula} (hn : f.variableCount ≤ 2 ^ 31 - 1) {k : ℕ}
    {s₀ s t : SearchState} {answers : List (Option Assignment)} {answer : Option Assignment}
    (hcreate : create f.variableCount = .ok s₀) (hruns : (runs f k s₀).result = .ok (answers, s))
    (hrun : (s.run f).result = .ok (answer, t)) :
    (∀ a ∈ answers, a.isSome = answer.isSome) ∧
      (answer.isSome = true ↔ ∃ value, f.holds value = true) ∧
      (answer = none → t.trail = [] ∧ ∀ v, 1 ≤ v → v ≤ f.variableCount →
        t.branching.value v = .ok none ∧ t.branching.isQueued v = .ok true) ∧
      (answer.isSome = true → ∃ u, t.Resumes u ∧
        ((t.run f).result = .ok (some u.branching.model, u) ∨
          ¬ u.statistics.Fits ∧ (t.run f).result = .error .overflow)) := by
  obtain ⟨s₁, hs₁, htracked, hempty⟩ := create_eq_ok (n := f.variableCount) (by omega)
  obtain rfl := Except.ok.inj (hs₁.symm.trans hcreate)
  have hfirst : Paused f s₁ := ⟨htracked, .inl hempty⟩
  obtain ⟨hpaused, hanswers⟩ := hfirst.runs hruns
  have hended := hpaused.run hrun
  refine ⟨fun a ha => ?_, hended.answered.isSome_iff, ?_, ?_⟩
  · rw [Bool.eq_iff_iff, hanswers a ha, ← hended.answered.isSome_iff]
  · rintro rfl
    cases hended with
    | none ht htrail =>
      refine ⟨htrail, fun v hv hvn => ?_⟩
      have hopen : t.branching.valueAt v = none := by
        by_contra hset
        rw [← ne_eq, ht.valueAt_ne_none, htrail] at hset
        cases hset
      have hmem := (ht.mem_waiting v).mpr ⟨hv, hvn, hopen, (Option.some_ne_none v).symm⟩
      exact ⟨by rw [ht.coherent.value_eq hvn, hopen], ht.coherent.isQueued_iff.mpr hmem⟩
  · intro hsome
    cases hended with
    | model ht hshows =>
      obtain ⟨u, hresumes, hresult⟩ := ht.run_resumes hshows
      exact ⟨u, hresumes, hresult⟩
    | none => cases hsome

/-- Variable 1 implies variable 3. -/
def implication : Formula := ⟨3, [.ofCodes [-1, 3]]⟩

/-- The first run gives a value to variable 1 alone. The second one goes on with variable 2 and ends
in a scan, and the third one with variable 3, the last, and ends in an evaluation. -/
theorem runs_agree_three_runs :
    implication.variableCount ≤ 2 ^ 31 - 1 ∧ ∃ s₀ s t u answers answer m,
      create 3 = .ok s₀ ∧ (runs implication 1 s₀).result = .ok (answers, s) ∧
      (s.run implication).result = .ok (answer, t) ∧
      (t.run implication).result = .ok (some m, u) ∧
      (∀ a ∈ answers, a.isSome = answer.isSome) ∧ t.Resumes u ∧
      s.path = [(1, false)] ∧ t.path = [(1, false), (2, false)] ∧
      u.path = [(1, false), (2, false), (3, false)] ∧
      u.statistics = { decisions := 3, scans := 2, evaluations := 1 } := by
  let m := Assignment.complete 3 fun _ => false
  let fresh : Entry := {}
  let negative : Entry := { value := some false }
  let keys := #[0, 3, 2, 1]
  let s₀ : SearchState := ⟨⟨#[fresh, fresh, fresh, fresh],
    ⟨keys, #[1, 2, 3], #[none, some 0, some 1, some 2]⟩⟩, {}, [], {}⟩
  let s : SearchState := ⟨⟨#[fresh, negative, fresh, fresh],
    ⟨keys, #[2, 3], #[none, none, some 0, some 1]⟩⟩, {}, [(1, false)],
    { decisions := 1, scans := 1 }⟩
  let t : SearchState := ⟨⟨#[fresh, negative, negative, fresh],
    ⟨keys, #[3], #[none, none, none, some 0]⟩⟩, {}, [(2, false), (1, false)],
    { decisions := 2, scans := 2 }⟩
  let u : SearchState := ⟨⟨#[fresh, negative, negative, negative],
    ⟨keys, #[], #[none, none, none, none]⟩⟩, {}, [(3, false), (2, false), (1, false)],
    { decisions := 3, scans := 2, evaluations := 1 }⟩
  have hcreate : create implication.variableCount = .ok s₀ := by decide +kernel
  have hfirst : (runs implication 1 s₀).result = .ok ([some m], s) := by decide +kernel
  have hsecond : (s.run implication).result = .ok (some m, t) := by decide +kernel
  have hthird : (t.run implication).result = .ok (some m, u) := by decide +kernel
  obtain ⟨hagree, -, -, hresumes⟩ := runs_agree (by decide) hcreate hfirst hsecond
  obtain ⟨u', hu', hrun | ⟨-, hfault⟩⟩ := hresumes rfl
  · obtain rfl : u = u' := congrArg Prod.snd (Except.ok.inj (hthird.symm.trans hrun))
    exact ⟨by decide, s₀, s, t, u, _, _, m, hcreate, hfirst, hsecond, hthird, hagree, hu', rfl, rfl,
      rfl, rfl⟩
  · cases hthird.symm.trans hfault

end SearchState

end SatSearch
