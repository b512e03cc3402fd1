import SatSearch.Proofs.ClauseScan.Climbs
import SatSearch.Proofs.Formula.InRange
import SatSearch.Proofs.Search.Outcome
import SatSearch.Proofs.Search.Path

/-!
# A search that fails undoes itself

Whenever a search goes down and comes back without a model, trail, values and queued variables are
those it began with, and only the scores and the arrangement of the heap may differ. On its way it
lowers a unit score only where it selects the variable: what leads from one moment to the next is
either a selection or calls that lower none.
-/

namespace SatSearch

/-- The state in which the first of these moments comes, or the last state if there is none. -/
def Moment.upcoming (last : SearchState) : List Moment → SearchState
  | [] => last
  | m :: _ => m.state

/-- The search goes down at this moment and selects as chosen, which leaves this state of the
branching order. -/
def Moment.Selects (m : Moment) (choice : Choice) (selected : Branching) : Prop :=
  ∃ s, m = .descent s ∧ s.branching.select.result = .ok (some (choice, selected))

variable {n : ℕ} {f : Formula} {s t u : SearchState} {m : Moment}

/-- A step of the search lowers no unit score, or it selects a variable and lowers no other. -/
theorem Moment.Leads.climbs (h : m.Leads f u) :
    m.state.branching.Climbs u.branching ∨ ∃ choice, m.Selects choice u.branching := by
  cases h with
  | unselected => exact .inl .refl
  | selected hselect => exact .inr ⟨_, _, rfl, hselect⟩
  | decision hassign =>
    obtain ⟨branching, hbranching, rfl⟩ := SearchState.assign_ok hassign
    exact .inl (.of_assign hbranching)
  | scan hscan =>
    obtain ⟨propagator, branching, hbranching, rfl⟩ := SearchState.scan_ok hscan
    exact .inl (.of_scan hbranching)
  | evaluation hevaluate =>
    obtain ⟨holds, -, -, rfl⟩ := SearchState.evaluate_ok hevaluate
    exact .inl .refl
  | backtrack hbacktrack =>
    obtain ⟨branching, hbranching, rfl⟩ := SearchState.backtrack_ok hbacktrack
    exact .inl (.of_requeue hbranching)

/-- Up to the next moment values are taken away and no unit score is lowered. -/
theorem Path.climbs {ms : List Moment} (h : Path f s ms t) :
    s.branching.Climbs (Moment.upcoming t ms).branching := by
  induction h with
  | done => exact .refl
  | step begins => exact begins ▸ .refl
  | retract hretract _ ih =>
    obtain ⟨branching, hbranching, rfl⟩ := SearchState.retract_ok hretract
    exact (Branching.Climbs.of_unassign hbranching).trans ih

namespace SearchState

namespace Tracked

variable (hs : Tracked n none s) (ht : Tracked n none t) (htrail : t.trail = s.trail)

include hs ht htrail

/-- With the same trail the variables have the same values. -/
theorem valueAt_eq_of_trail_eq : t.branching.valueAt = s.branching.valueAt := by
  funext v
  refine Option.ext fun b => ?_
  rw [ht.valueAt_iff, hs.valueAt_iff, htrail]

/-- With the same trail every look-up gives the same. -/
theorem value_eq_of_trail_eq (v : ℕ) : t.branching.value v = s.branching.value v := by
  by_cases hv : v ≤ n
  · rw [ht.coherent.value_eq hv, hs.coherent.value_eq hv, valueAt_eq_of_trail_eq hs ht htrail]
  · rw [Branching.value, Branching.value, ht.coherent.entry_of_lt (by omega),
      hs.coherent.entry_of_lt (by omega)]

/-- With the same trail the same variables are queued. -/
theorem isQueued_eq_of_trail_eq (v : ℕ) : t.branching.isQueued v = s.branching.isQueued v := by
  by_cases hv : v ≤ n
  · have hmem : v ∈ t.branching.waiting ↔ v ∈ s.branching.waiting := by
      rw [ht.mem_waiting, hs.mem_waiting, valueAt_eq_of_trail_eq hs ht htrail]
    rw [ht.coherent.isQueued_eq hv, hs.coherent.isQueued_eq hv]
    simp only [hmem]
  · rw [ht.coherent.isQueued_of_lt (by omega), hs.coherent.isQueued_of_lt (by omega)]

end Tracked

/-- Whatever assignment has all values that are set agrees with the trail. -/
theorem Tracked.agrees_of_value (h : Tracked n none s) {value : ℕ → Bool}
    (hagree : ∀ v b, s.branching.value v = .ok (some b) → value v = b) :
    ∀ x ∈ s.trail, value x.1 = x.2 := by
  intro x hx
  refine hagree x.1 x.2 ?_
  rw [h.coherent.value_eq (h.in_range x hx).2, (h.valueAt_iff x.1 x.2).mpr hx]

/-- For at most `2 ^ 31 - 1` variables, wherever a search goes down in any of its runs, at whatever
depth, and comes back: if without a model, then trail, values and queued variables are those it went
down with, and no assignment that has all values set there satisfies the formula; if with one, its
path goes on from the path there and every value set there is still set. In between, each moment
leads to the next by calls that lower no unit score, unless it is a selection, which lowers none but
that of the selected variable. -/
theorem explore_undoes {f : Formula} (hn : f.variableCount ≤ 2 ^ 31 - 1) {k : ℕ}
    {s₀ s t : SearchState} {outcome : Outcome} (hcreate : create f.variableCount = .ok s₀)
    (hdescent : .descent s ∈ (watchRuns f k s₀).moments)
    (hok : (explore f s.branching.queued s).result = .ok (outcome, t)) :
    (outcome = .exhausted → t.trail = s.trail ∧
      (∀ v, t.branching.value v = s.branching.value v) ∧
      (∀ v, t.branching.isQueued v = s.branching.isQueued v) ∧
      ∀ value : ℕ → Bool, (∀ v b, s.branching.value v = .ok (some b) → value v = b) →
        f.holds value = false) ∧
    (outcome = .solved → s.path <+: t.path ∧
      ∀ v b, s.branching.value v = .ok (some b) → t.branching.value v = .ok (some b)) ∧
    (watchExplore f s.branching.queued s).run = explore f s.branching.queued s ∧
    (∃ rest, (watchExplore f s.branching.queued s).moments = .descent s :: rest) ∧
    ∀ before m after, (watchExplore f s.branching.queued s).moments = before ++ m :: after →
      ∃ u, m.Leads f u ∧ u.branching.Climbs (Moment.upcoming t after).branching ∧
        (m.state.branching.Climbs u.branching ∨ ∃ choice, m.Selects choice u.branching ∧
          ∀ w, w ≠ choice.var →
            (u.branching.entryAt w).unit = (m.state.branching.entryAt w).unit) := by
  obtain ⟨s₁, hs₁, htracked, -⟩ := create_eq_ok (n := f.variableCount) (by omega)
  obtain rfl := Except.ok.inj (hs₁.symm.trans hcreate)
  have hs : Tracked f.variableCount none s := (watchRuns_tracked htracked).moments _ hdescent
  have hwatched := hok
  rw [← run_watchExplore] at hwatched
  -- What the search below has settled gives the two ends, its path gives the moments between.
  have hsettled := (watchExplore_settled hs hs.length_add_queued).result _ hwatched
  refine ⟨?_, ?_, run_watchExplore _ s, ?_, fun before m after hsplit => ?_⟩
  · rintro rfl
    cases hsettled with
    | exhausted ht hunchanged hhopeless =>
      exact ⟨hunchanged, hs.value_eq_of_trail_eq ht hunchanged,
        hs.isQueued_eq_of_trail_eq ht hunchanged,
        fun value hagree => hhopeless value (hs.agrees_of_value hagree)⟩
  · rintro rfl
    cases hsettled with
    | solved ht hsuffix =>
      refine ⟨List.reverse_prefix.mpr hsuffix, fun v b hv => ?_⟩
      obtain ⟨hvn, hset⟩ := hs.coherent.value_ok hv
      have hmem := hsuffix.subset ((hs.valueAt_iff v b).mp hset)
      rw [ht.coherent.value_eq hvn, (ht.valueAt_iff v b).mpr hmem]
  · cases s.branching.queued <;> exact ⟨_, rfl⟩
  · have hpath := watchExplore_follows s.branching.queued s _ hwatched
    rw [hsplit] at hpath
    obtain ⟨u, hleads, hrest⟩ := hpath.exists_leads
    refine ⟨u, hleads, hrest.climbs, hleads.climbs.imp_right ?_⟩
    rintro ⟨choice, s', rfl, hselect⟩
    exact ⟨choice, ⟨s', rfl, hselect⟩, fun w hw => Branching.unit_eq_of_select_ok hselect hw⟩

/-- The search below the first value of variable 1 begins with variable 2 in front and a score for
it. Both values of variable 2 fail, and its score is gone. Variable 3 has one instead and is in
front, but all else is as before. -/
theorem explore_undoes_dead_end :
    deadEnd.variableCount ≤ 2 ^ 31 - 1 ∧ ∃ s₀ s t, create 3 = .ok s₀ ∧
      .descent s ∈ (watchRuns deadEnd 1 s₀).moments ∧
      (explore deadEnd s.branching.queued s).result = .ok (.exhausted, t) ∧
      s.path = [(1, false)] ∧ s.branching.queue.heap = #[2, 3] ∧
      s.branching.entry 2 = .ok { unit := 1, polarity := -1 } ∧ s.branching.entry 3 = .ok {} ∧
      t.trail = s.trail ∧ (∀ v, t.branching.value v = s.branching.value v) ∧
      (∀ v, t.branching.isQueued v = s.branching.isQueued v) ∧
      (∀ value : ℕ → Bool, (∀ v b, s.branching.value v = .ok (some b) → value v = b) →
        deadEnd.holds value = false) ∧
      t.branching.queue.heap = #[3, 2] ∧ t.branching.entry 2 = .ok {} ∧
      t.branching.entry 3 = .ok { unit := 1, polarity := 1 } := by
  let fresh : Entry := {}
  let negative : Entry := { value := some false }
  let s₀ : SearchState := ⟨⟨#[fresh, fresh, fresh, fresh],
    ⟨#[0, 3, 2, 1], #[1, 2, 3], #[none, some 0, some 1, some 2]⟩⟩, {}, [], {}⟩
  let s : SearchState := ⟨⟨#[fresh, negative, { unit := 1, polarity := -1 }, fresh],
    ⟨#[0, 3, 10, 1], #[2, 3], #[none, none, some 0, some 1]⟩⟩, ⟨[⟨2, by decide, by decide⟩]⟩,
    [(1, false)], { decisions := 1, scans := 1 }⟩
  let t : SearchState := ⟨⟨#[fresh, negative, fresh, { unit := 1, polarity := 1 }],
    ⟨#[0, 3, 2, 9], #[3, 2], #[none, none, some 1, some 0]⟩⟩, ⟨[⟨3, by decide, by decide⟩]⟩,
    [(1, false)], { decisions := 3, scans := 3, backtracks := 1 }⟩
  have hcreate : create deadEnd.variableCount = .ok s₀ := by decide +kernel
  have hdescent : .descent s ∈ (watchRuns deadEnd 1 s₀).moments := by decide +kernel
  have hok : (explore deadEnd s.branching.queued s).result = .ok (.exhausted, t) := by
    decide +kernel
  obtain ⟨htrail, hvalue, hqueued, hhopeless⟩ :=
    (explore_undoes (by decide) hcreate hdescent hok).1 rfl
  exact ⟨by decide, s₀, s, t, hcreate, hdescent, hok, rfl, rfl, rfl, rfl, htrail, hvalue, hqueued,
    hhopeless, rfl, rfl, rfl⟩

end SearchState

end SatSearch
