import SatSearch.Proofs.Search.Outcome

/-!
# The state at every moment of a search

Whenever a search goes one level down, begins to scan or to evaluate, trail, values, queue, scores
and keys fit together, however often the search has been run before. So an evaluation finds a value
for every variable, and a variable that is given up is queued again at the priority that it has
without a score.
-/

namespace SatSearch

/-- Trail, values, queue, scores and keys fit together. -/
structure SearchState.Consistent (n : ℕ) (s : SearchState) : Prop where
  distinct : (s.trail.map Prod.fst).Nodup
  in_range : ∀ x ∈ s.trail, 1 ≤ x.1 ∧ x.1 ≤ n
  value_iff : ∀ v b, s.branching.value v = .ok (some b) ↔ (v, b) ∈ s.trail
  queued_iff : ∀ v, s.branching.isQueued v = .ok true ↔
    1 ≤ v ∧ v ≤ n ∧ s.branching.value v = .ok none
  count : s.trail.length + s.branching.queued = n
  cleared : ∀ x ∈ s.trail, ∃ e, s.branching.entry x.1 = .ok e ∧ e.unit = 0 ∧ e.polarity = 0
  keyed : ∀ v, s.branching.isQueued v = .ok true →
    ∃ p, s.branching.priority v = .ok p ∧ s.branching.queue.key v = .ok p.key
  queue : s.branching.queue.WellFormed n

/-- What holds when a step of the search over `n` variables begins. -/
def Moment.Consistent (n : ℕ) : Moment → Prop
  | .descent s => s.Consistent n
  | .decision v _ s => s.branching.value v = .ok none ∧ s.branching.isQueued v = .ok false
  | .scan s => s.Consistent n
  | .evaluation s => s.Consistent n ∧
    (∀ v, 1 ≤ v → v ≤ n → ∃ b, s.branching.value v = .ok (some b)) ∧
    ∀ v, v ≠ 0 → s.branching.value v ≠ .ok none
  | .backtrack v s => (∃ e, s.branching.entry v = .ok e ∧ e.unit = 0) ∧
    ∃ branching p, s.branching.requeue v = .ok branching ∧ branching.isQueued v = .ok true ∧
      branching.priority v = .ok p ∧ branching.queue.key v = .ok p.key ∧
      (p.key : ℚ) / p.scale = 1 - v / (n + 1) ∧
      SearchState.Consistent n { s with branching }

namespace SearchState

variable {n v : ℕ} {f : Formula} {s : SearchState}

/-- In a tracked state without a held variable everything fits together. -/
theorem Tracked.consistent (h : Tracked n none s) : s.Consistent n where
  distinct := h.nodup
  in_range := h.in_range
  value_iff v b := by
    rw [← h.valueAt_iff]
    constructor
    · exact fun hok => (h.coherent.value_ok hok).2
    · intro hb
      obtain ⟨-, hvn⟩ := h.in_range _ ((h.valueAt_iff v b).mp hb)
      rw [h.coherent.value_eq hvn, hb]
  queued_iff v := by
    rw [h.coherent.isQueued_iff, h.mem_waiting]
    constructor
    · rintro ⟨hv, hvn, hopen, -⟩
      refine ⟨hv, hvn, ?_⟩
      rw [h.coherent.value_eq hvn, hopen]
    · rintro ⟨hv, hvn, hok⟩
      exact ⟨hv, hvn, (h.coherent.value_ok hok).2, (Option.some_ne_none v).symm⟩
  count := h.length_add_queued
  cleared x hx := by
    refine ⟨_, h.coherent.entry_eq (h.in_range x hx).2, (h.trackedAt x.1).cleared (.inl ?_)⟩
    rw [(h.valueAt_iff x.1 x.2).mpr hx]
    exact Option.some_ne_none x.2
  keyed v hv := by
    have hmem := h.coherent.isQueued_iff.mp hv
    have hvn := h.coherent.le_of_mem hmem
    refine ⟨_, h.coherent.priority_eq hvn, ?_⟩
    rw [h.coherent.queue.key_eq hvn, h.coherent.key_eq v hmem]
  queue := h.coherent.queue

/-- Queueing the held variable again succeeds, at the priority of a variable without a score. -/
theorem Tracked.requeue (h : Tracked n (some v) s) :
    ∃ branching p, s.branching.requeue v = .ok branching ∧ branching.isQueued v = .ok true ∧
      branching.priority v = .ok p ∧ branching.queue.key v = .ok p.key ∧
      (p.key : ℚ) / p.scale = 1 - v / (n + 1) ∧
      SearchState.Consistent n { s with branching } := by
  obtain ⟨hv, hvn, hopen⟩ := (h.trackedAt v).held_open rfl
  obtain ⟨branching, hbranching, hreads⟩ := h.coherent.requeue hvn hopen
  have hunit : (branching.entryAt v).unit = 0 := by
    rw [hreads.entryAt_eq]
    exact ((h.trackedAt v).cleared (.inr rfl)).1
  have hmem : v ∈ branching.waiting := by
    rw [hreads.waiting_eq]
    exact Finset.mem_insert_self v _
  refine ⟨branching, _, hbranching, hreads.coherent.isQueued_iff.mpr hmem,
    hreads.coherent.priority_eq hvn, ?_, ?_, (h.of_requeued hreads).consistent⟩
  · rw [hreads.coherent.queue.key_eq hvn, hreads.coherent.key_eq v hmem]
  · simp only [hunit]
    rw [← Priority.rational_eq_div hvn, Priority.rational, Nat.cast_zero, mul_zero, zero_add]

/-- The held variable has no value and is not queued. -/
theorem Tracked.held_value (h : Tracked n (some v) s) :
    s.branching.value v = .ok none ∧ s.branching.isQueued v = .ok false := by
  obtain ⟨-, hvn, hopen⟩ := (h.trackedAt v).held_open rfl
  have hnot : v ∉ s.branching.waiting := fun hmem => ((h.mem_waiting v).mp hmem).2.2.2 rfl
  constructor
  · rw [h.coherent.value_eq hvn, hopen]
  · rw [h.coherent.isQueued_eq hvn, decide_eq_false hnot]

/-- With every variable on the trail every look-up finds a value. -/
theorem Tracked.all_assigned (h : Tracked n none s) (hfull : s.trail.length = n) :
    (∀ v, 1 ≤ v → v ≤ n → ∃ b, s.branching.value v = .ok (some b)) ∧
      ∀ v, v ≠ 0 → s.branching.value v ≠ .ok none := by
  constructor
  · intro v hv hvn
    obtain ⟨b, hb⟩ := Option.ne_none_iff_exists'.mp (h.valueAt_of_length_eq hfull hv hvn)
    exact ⟨b, by rw [h.coherent.value_eq hvn, hb]⟩
  · intro v hv hok
    obtain ⟨hvn, hopen⟩ := h.coherent.value_ok hok
    exact h.valueAt_of_length_eq hfull (Nat.pos_of_ne_zero hv) hvn hopen

end SearchState

/-- What is tracked at a moment makes it consistent. -/
theorem Moment.Tracked.consistent {n : ℕ} {m : Moment} (h : m.Tracked n) : m.Consistent n := by
  cases m with
  | descent s => exact SearchState.Tracked.consistent h
  | decision v b s => exact SearchState.Tracked.held_value h
  | scan s => exact SearchState.Tracked.consistent h
  | evaluation s => exact ⟨h.1.consistent, h.1.all_assigned h.2⟩
  | backtrack v s =>
    obtain ⟨-, hvn, -⟩ := (SearchState.Tracked.trackedAt h v).held_open rfl
    refine ⟨⟨_, (SearchState.Tracked.coherent h).entry_eq hvn, ?_⟩, SearchState.Tracked.requeue h⟩
    exact ((SearchState.Tracked.trackedAt h v).cleared (.inr rfl)).1

namespace SearchState

/-- For at most `2 ^ 31 - 1` variables a search can be created. However often it is then run, the
watched runs are the runs themselves, their moments are what the counters count, and at each of the
moments the state is consistent. -/
theorem moments_consistent {f : Formula} (hn : f.variableCount ≤ 2 ^ 31 - 1) (k : ℕ) :
    ∃ s₀, create f.variableCount = .ok s₀ ∧ (watchRuns f k s₀).run = runs f k s₀ ∧
      (∀ answers s, (runs f k s₀).result = .ok (answers, s) →
        s.statistics = (watchRuns f k s₀).moments.foldl Statistics.counting {}) ∧
      ∀ m ∈ (watchRuns f k s₀).moments, m.Consistent f.variableCount := by
  obtain ⟨s₀, hs₀, htracked, -⟩ := create_eq_ok (n := f.variableCount) (by omega)
  have hstatistics : s₀.statistics = {} := by
    obtain ⟨branching, -, hs₀⟩ := bind_eq_ok.mp hs₀
    cases hs₀
    rfl
  refine ⟨s₀, hs₀, run_watchRuns k s₀, fun answers s hok => ?_, fun m hm => ?_⟩
  · rw [← run_watchRuns] at hok
    rw [← hstatistics]
    exact watchRuns_tallies k s₀ _ hok
  · exact ((watchRuns_tracked htracked).moments m hm).consistent

/-- The first run goes through a dead end below the first value of variable 1. Below the second one,
when variable 3 has been set as well, variable 2 waits with a unit score and under the key for it.
The second run finds all variables set and evaluates the formula once more. -/
theorem moments_consistent_two_runs :
    deadEnd.variableCount ≤ 2 ^ 31 - 1 ∧ ∃ s₀ s, create 3 = .ok s₀ ∧
      (watchRuns deadEnd 2 s₀).moments.length = 19 ∧
      .descent s ∈ (watchRuns deadEnd 2 s₀).moments ∧ s.path = [(1, true), (3, true)] ∧
      s.branching.entry 2 = .ok { unit := 1, polarity := -3 } ∧
      s.branching.queue.key 2 = .ok ((2 * 1 + 1) * (3 + 1) - 2) ∧
      ∀ m ∈ (watchRuns deadEnd 2 s₀).moments, m.Consistent 3 := by
  let s : SearchState :=
    { branching := ⟨#[{}, { value := some true }, { unit := 1, polarity := -3 },
        { value := some true }], ⟨#[0, 3, 10, 1], #[2], #[none, none, some 0, none]⟩⟩
      propagator := ⟨[⟨-2, by decide, by decide⟩]⟩
      trail := [(3, true), (1, true)]
      statistics := { decisions := 5, scans := 5, backtracks := 1 } }
  obtain ⟨s₀, hs₀, -, -, hmoments⟩ := moments_consistent (f := deadEnd) (by decide) 2
  have hcreate : create 3 = .ok s₀ := hs₀
  have hlisted : (create 3).map (fun s₀ => ((watchRuns deadEnd 2 s₀).moments.length,
      decide (.descent s ∈ (watchRuns deadEnd 2 s₀).moments))) = .ok (19, true) := by
    decide +kernel
  rw [hcreate] at hlisted
  obtain ⟨hlength, hdescent⟩ := Prod.mk.inj (Except.ok.inj hlisted)
  exact ⟨by decide, s₀, s, hcreate, hlength, of_decide_eq_true hdescent, rfl, rfl, rfl, hmoments⟩

end SearchState

end SatSearch
