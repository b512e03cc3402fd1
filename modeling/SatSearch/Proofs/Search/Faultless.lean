import SatSearch.Proofs.Branching.Scores
import SatSearch.Proofs.Search.Resumed

/-!
# When a search does not fault

Each scan moves the scores by no more than the number of literals in the formula, so after `k` scans
they are at most `k` times that number. As long as this and the counters are in range, no step of a
search on a formula in range faults: the state is tracked, so every look-up and every step of the
queue succeeds, and the scores have room for the next scan.
-/

namespace SatSearch

/-- With so many literals for each scan, scores stay below `2 ^ 31`, and all counters fit. -/
structure Statistics.Within (occurrences : ℕ) (t : Statistics) : Prop where
  scores : t.scans * occurrences < 2 ^ 31
  fits : t.Fits

/-- What is within the limits after further moments was so before them. -/
theorem Statistics.Within.of_foldl {occurrences : ℕ} {t : Statistics} {moments : List Moment}
    (h : (moments.foldl Statistics.counting t).Within occurrences) : t.Within occurrences := by
  induction moments generalizing t with
  | nil => exact h
  | cons m moments ih =>
    obtain ⟨hscores, hfits⟩ := ih h
    obtain ⟨hdecisions, hscans, hevaluations, hbacktracks⟩ := hfits
    cases m with
    | descent s => exact ⟨hscores, hdecisions, hscans, hevaluations, hbacktracks⟩
    | decision v b s =>
      exact ⟨hscores, Nat.lt_of_succ_lt hdecisions, hscans, hevaluations, hbacktracks⟩
    | scan s =>
      have hle : t.scans * occurrences ≤ (t.scans + 1) * occurrences :=
        Nat.mul_le_mul_right _ (Nat.le_succ _)
      exact ⟨Nat.lt_of_le_of_lt hle hscores, hdecisions, Nat.lt_of_succ_lt hscans, hevaluations,
        hbacktracks⟩
    | evaluation s =>
      exact ⟨hscores, hdecisions, hscans, Nat.lt_of_succ_lt hevaluations, hbacktracks⟩
    | backtrack v s =>
      exact ⟨hscores, hdecisions, hscans, hevaluations, Nat.lt_of_succ_lt hbacktracks⟩

namespace Watched

variable {α β : Type} {occurrences : ℕ} {t : Statistics} {P : Moment → Prop} {Q Q' : α → Prop}
  {S : β → Prop} {x : Watched α}

/-- If the counters, which begin as `t`, are within the limits with all moments counted, there is a
result, and it is as `Q` says. -/
def Completes (occurrences : ℕ) (t : Statistics) (Q : α → Prop) (x : Watched α) : Prop :=
  (x.moments.foldl Statistics.counting t).Within occurrences → ∃ a, x.run.result = .ok a ∧ Q a

namespace Completes

/-- A value completes. -/
theorem pure {a : α} (h : Q a) : Completes occurrences t Q (Pure.pure a : Watched α) :=
  fun _ => ⟨a, rfl, h⟩

/-- Steps that complete after each other complete. -/
theorem bind {after : α → Statistics} {f : α → Watched β} (hx : Completes occurrences t Q x)
    (htallies : Tallies t after x) (hf : ∀ a, Q a → Completes occurrences (after a) S (f a)) :
    Completes occurrences t S (x >>= f) := by
  intro hwithin
  simp only [Bind.bind, Watched.bind] at hwithin ⊢
  cases hresult : x.run.result with
  | error e =>
    rw [hresult] at hwithin
    obtain ⟨a, ha, -⟩ := hx hwithin
    rw [hresult] at ha
    cases ha
  | ok a =>
    rw [hresult, List.foldl_append, ← htallies a hresult] at hwithin
    have hfirst : (x.moments.foldl Statistics.counting t).Within occurrences := by
      rw [← htallies a hresult]
      exact hwithin.of_foldl
    obtain ⟨a', ha', hQ⟩ := hx hfirst
    obtain rfl := Except.ok.inj (hresult.symm.trans ha')
    obtain ⟨b, hb, hS⟩ := hf a hQ hwithin
    exact ⟨b, Logged.bind_eq_ok.mpr ⟨a, hresult, hb⟩, hS⟩

/-- A logged step completes if it succeeds within the limits. -/
theorem lift {y : Logged Fault α} (h : t.Within occurrences → ∃ a, y.result = .ok a ∧ Q a) :
    Completes occurrences t Q (liftM y : Watched α) := h

/-- A step completes if it succeeds within the limits. -/
theorem lift_except {y : Except Fault α} (h : t.Within occurrences → ∃ a, y = .ok a ∧ Q a) :
    Completes occurrences t Q (liftM y : Watched α) := h

/-- A moment may come before what completes once it is counted. -/
theorem meet {m : Moment} {f : Unit → Watched α}
    (hf : Completes occurrences (t.counting m) Q (f ())) :
    Completes occurrences t Q (Watched.meet m >>= f) := by
  have hmeet : Completes occurrences t (fun _ => True) (Watched.meet m) :=
    fun _ => ⟨(), rfl, trivial⟩
  have htallies : Tallies t (fun _ => t.counting m) (Watched.meet m) := fun _ _ => rfl
  exact hmeet.bind htallies fun _ _ => hf

/-- What is ensured of a result is true of the one that there is. -/
theorem and_ensures (hx : Completes occurrences t Q x) (h : Ensures P Q' x) :
    Completes occurrences t (fun a => Q a ∧ Q' a) x := by
  intro hwithin
  obtain ⟨a, ha, hQ⟩ := hx hwithin
  exact ⟨a, ha, hQ, h.result a ha⟩

end Completes

end Watched

namespace SearchState

variable {n v left : ℕ} {b : Bool} {f : Formula} {s t : SearchState}

/-- No score is further from zero than the scans so far can have moved it. -/
def InBounds (f : Formula) (s : SearchState) : Prop :=
  s.branching.ScoresWithin (s.statistics.scans * f.occurrences) (s.statistics.scans * f.occurrences)

namespace Tracked

/-- An evaluation succeeds within its limits. -/
theorem exists_evaluate (h : Tracked f.variableCount none s) (hrange : f.InRange)
    (hbounds : s.InBounds f) (hfits : s.statistics.evaluations + 1 < longSize) :
    ∃ r, s.evaluate f = .ok r ∧ r.2.InBounds f := by
  obtain ⟨holds, hcheck⟩ := h.exists_check hrange
  have hcount := below_eq_ok.mpr ⟨hfits, rfl⟩
  refine ⟨⟨if holds then .solved else .exhausted,
    { s with statistics := { s.statistics with evaluations := s.statistics.evaluations + 1 } }⟩,
    ?_, hbounds⟩
  simp only [SearchState.evaluate, hcount, hcheck, ok_bind]
  rfl

/-- A scan succeeds within its limits. -/
theorem exists_scan (h : Tracked f.variableCount none s) (hrange : f.InRange)
    (hneg : f.Negatable) (hbounds : s.InBounds f) (hfits : s.statistics.scans + 1 < longSize)
    (hlimit : (s.statistics.scans + 1) * f.occurrences < 2 ^ 31) :
    ∃ r, (s.scan f).result = .ok r ∧ r.2.InBounds f := by
  rw [Nat.succ_mul] at hlimit
  have hexists := h.coherent.exists_scan (p := s.propagator) hrange hneg hbounds hlimit
  obtain ⟨finding, propagator, branching, hscan, hscores⟩ := hexists
  rw [← Nat.succ_mul] at hscores
  have hcount := below_eq_ok.mpr ⟨hfits, rfl⟩
  refine ⟨⟨finding, { s with
    branching
    propagator
    statistics := { s.statistics with scans := s.statistics.scans + 1 } }⟩, ?_, hscores⟩
  simp only [SearchState.scan, Logged.result_bind, Logged.result_lift, hcount, hscan, ok_bind]
  rfl

/-- An assignment succeeds within its limits. -/
theorem exists_assign (h : Tracked n (some v) s) (hbounds : s.InBounds f)
    (hfits : s.statistics.decisions + 1 < longSize) :
    ∃ t, (s.assign v b).result = .ok t ∧ t.InBounds f := by
  obtain ⟨-, hvn, -⟩ := (h.trackedAt v).held_open rfl
  have hassign := h.coherent.assign_eq (b := b) hvn
  obtain ⟨-, hreads⟩ := h.coherent.assign_ok hassign
  have hcount := below_eq_ok.mpr ⟨hfits, rfl⟩
  refine ⟨_, by rw [assign_result, hcount, ok_bind, hassign, ok_bind]; rfl, ?_⟩
  exact Branching.ScoresWithin.of_reads hbounds hreads (hbounds v).1 (hbounds v).2

/-- Taking back the last assignment succeeds. -/
theorem exists_retract (h : Tracked n none s) (hbounds : s.InBounds f) {rest : List (ℕ × Bool)}
    (htrail : s.trail = (v, b) :: rest) : ∃ t, s.retract v = .ok t ∧ t.InBounds f := by
  have hvn : v ≤ n := (h.in_range (v, b) (by rw [htrail]; exact List.mem_cons_self)).2
  have hunassign := h.coherent.unassign_eq hvn
  obtain ⟨-, hreads⟩ := h.coherent.unassign_ok hunassign
  refine ⟨_, by rw [SearchState.retract, hunassign, ok_bind]; rfl, ?_⟩
  exact Branching.ScoresWithin.of_reads hbounds hreads (hbounds v).1 (hbounds v).2

/-- A backtrack succeeds within its limits. -/
theorem exists_backtrack (h : Tracked n (some v) s) (hbounds : s.InBounds f)
    (hfits : s.statistics.backtracks + 1 < longSize) :
    ∃ t, (s.backtrack v).result = .ok t ∧ t.InBounds f := by
  obtain ⟨-, hvn, hopen⟩ := (h.trackedAt v).held_open rfl
  obtain ⟨branching, hrequeue, hreads⟩ := h.coherent.requeue hvn hopen
  have hcount := below_eq_ok.mpr ⟨hfits, rfl⟩
  refine ⟨{ s with
    branching
    statistics := { s.statistics with backtracks := s.statistics.backtracks + 1 } }, ?_,
    fun w => ?_⟩
  · simp only [SearchState.backtrack, Logged.result_bind, Logged.result_lift, hcount, hrequeue,
      hreads.coherent.priority_eq hvn, ok_bind]
    rfl
  · rw [hreads.entryAt_eq]
    exact hbounds w

/-- A selection succeeds. -/
theorem exists_select (h : Tracked n none s) (hbounds : s.InBounds f) :
    ∃ r, s.branching.select.result = .ok r ∧ ∀ choice branching, r = some (choice, branching) →
      InBounds f { s with branching } := by
  rcases h.coherent.select with ⟨-, hselect⟩ | ⟨v, selected, -, hselect, hreads⟩
  · exact ⟨none, by rw [hselect], nofun⟩
  · refine ⟨_, by rw [hselect], ?_⟩
    rintro choice branching ⟨⟩
    exact Branching.ScoresWithin.of_reads hbounds hreads (Nat.zero_le _) (Nat.zero_le _)

end Tracked

variable (hrange : f.InRange) (hneg : f.Negatable)

include hrange

/-- An evaluation completes within the limits of the search. -/
theorem watchEvaluate_completes (h : Tracked f.variableCount none s) (hbounds : s.InBounds f) :
    (s.watchEvaluate f).Completes f.occurrences s.statistics fun r => r.2.InBounds f :=
  .meet (.lift_except fun hwithin => h.exists_evaluate hrange hbounds hwithin.fits.evaluations)

include hneg

/-- A scan completes within the limits of the search. -/
theorem watchScan_completes (h : Tracked f.variableCount none s) (hbounds : s.InBounds f) :
    (s.watchScan f).Completes f.occurrences s.statistics fun r => r.2.InBounds f :=
  .meet (.lift fun hwithin => h.exists_scan hrange hneg hbounds hwithin.fits.scans hwithin.scores)

/-- One value of the held variable is tried, where the search below completes. -/
theorem watchValue_completes
    (hdescend : ∀ s, Tracked f.variableCount none s → s.trail.length + left = f.variableCount →
      s.InBounds f → (watchExplore f left s).Completes f.occurrences s.statistics
        fun r => r.2.InBounds f)
    (h : Tracked f.variableCount (some v) s) (hleft : s.trail.length + (left + 1) = f.variableCount)
    (hbounds : s.InBounds f) :
    (watchValue f (watchExplore f left) v b s).Completes f.occurrences s.statistics
      fun r => r.2.InBounds f := by
  have hassign : (s.watchAssign v b).Completes f.occurrences s.statistics fun t => t.InBounds f :=
    .meet (.lift fun hwithin => h.exists_assign hbounds hwithin.fits.decisions)
  refine (hassign.and_ensures (watchAssign_tracked h)).bind (watchAssign_tallies v b s)
    fun s₁ ⟨hbounds₁, h₁, htrail₁⟩ => ?_
  split
  case isTrue =>
    refine ((watchScan_completes hrange hneg h₁ hbounds₁).and_ensures (watchScan_tracked h₁)).bind
      (watchScan_tallies s₁) fun r hr => ?_
    obtain ⟨finding, s₂⟩ := r
    obtain ⟨hbounds₂, h₂, htrail₂, -⟩ := hr
    cases finding with
    | satisfied => exact .pure hbounds₂
    | conflict why => exact .pure hbounds₂
    | undecided =>
      refine hdescend s₂ h₂ ?_ hbounds₂
      rw [htrail₂, htrail₁, List.length_cons]
      omega
  case isFalse => exact watchEvaluate_completes hrange h₁ hbounds₁

/-- The values `bs` of the held variable are tried one after the other. -/
theorem watchValues_completes
    (hdescend : ∀ s, Tracked f.variableCount none s → s.trail.length + left = f.variableCount →
      s.InBounds f → (watchExplore f left s).Completes f.occurrences s.statistics
        fun r => r.2.InBounds f)
    {bs : List Bool} (h : Tracked f.variableCount (some v) s)
    (hleft : s.trail.length + (left + 1) = f.variableCount) (hbounds : s.InBounds f) :
    (watchValues f (watchExplore f left) v bs s).Completes f.occurrences s.statistics
      fun r => r.2.InBounds f := by
  induction bs generalizing s with
  | nil =>
    have hbacktrack : (s.watchBacktrack v).Completes f.occurrences s.statistics
        fun t => t.InBounds f :=
      .meet (.lift fun hwithin => h.exists_backtrack hbounds hwithin.fits.backtracks)
    exact hbacktrack.bind (watchBacktrack_tallies v s) fun t ht => .pure ht
  | cons b bs ih =>
    have hsettled := watchValue_settled (f := f) (b := b)
      (fun s hs hleft => watchExplore_settled hs hleft) h hleft
    have hvalue := watchValue_completes (b := b) hrange hneg hdescend h hleft hbounds
    refine (hvalue.and_ensures hsettled).bind
      (watchValue_tallies (watchExplore_tallies left) v b s) fun r hr => ?_
    obtain ⟨hbounds₁, hr⟩ := hr
    cases hr with
    | solved => exact .pure hbounds₁
    | @exhausted s₁ h₁ htrail₁ _ =>
      have hretract : Watched.Completes f.occurrences s₁.statistics
          (fun t => t.InBounds f) (liftM (s₁.retract v) : Watched SearchState) :=
        .lift_except fun _ => h₁.exists_retract hbounds₁ htrail₁
      refine (hretract.and_ensures (retract_tracked h₁ htrail₁)).bind (retract_tallies v s₁)
        fun s₂ ⟨hbounds₂, h₂, htrail₂⟩ => ?_
      exact ih h₂ (by rw [htrail₂]; exact hleft) hbounds₂

/-- A search below a trail has a result as long as scores and counters are in range. -/
theorem watchExplore_completes (h : Tracked f.variableCount none s)
    (hleft : s.trail.length + left = f.variableCount) (hbounds : s.InBounds f) :
    (watchExplore f left s).Completes f.occurrences s.statistics fun r => r.2.InBounds f := by
  induction left generalizing s with
  | zero => exact .meet (watchEvaluate_completes hrange h hbounds)
  | succ left ih =>
    have hselect : Watched.Completes f.occurrences s.statistics
        (fun r => ∀ choice branching, r = some (choice, branching) →
          InBounds f { s with branching })
        (liftM s.branching.select : Watched (Option (Choice × Branching))) :=
      .lift fun _ => h.exists_select hbounds
    have hselected : Watched.Ensures (Moment.Tracked f.variableCount)
        (fun r => s.branching.select.result = .ok r)
        (liftM s.branching.select : Watched (Option (Choice × Branching))) := .lift fun r hr => hr
    have htallies : Watched.Tallies s.statistics (fun _ => s.statistics)
        (liftM s.branching.select : Watched (Option (Choice × Branching))) := .lift fun _ _ => rfl
    refine .meet ((hselect.and_ensures hselected).bind htallies fun r ⟨hbounds', hr⟩ => ?_)
    cases r with
    | none => exact watchEvaluate_completes hrange h hbounds
    | some r =>
      obtain ⟨choice, branching⟩ := r
      exact watchValues_completes hrange hneg (fun s hs hleft hbounds => ih hs hleft hbounds)
        (h.select hr) hleft (hbounds' choice branching rfl)

/-- A run completes within the limits of the search. -/
theorem watchRun_completes (h : Tracked f.variableCount none s) (hbounds : s.InBounds f) :
    (s.watchRun f).Completes f.occurrences s.statistics fun r => r.2.InBounds f := by
  refine (watchExplore_completes hrange hneg h h.length_add_queued hbounds).bind
    (watchExplore_tallies _ s) fun r hr => ?_
  obtain ⟨outcome, t⟩ := r
  cases outcome <;> exact .pure hr

/-- However often a search is run, the runs have results as long as scores and counters are in
range. -/
theorem watchRuns_completes {k : ℕ} (h : Tracked f.variableCount none s) (hbounds : s.InBounds f) :
    (watchRuns f k s).Completes f.occurrences s.statistics fun r => r.2.InBounds f := by
  induction k generalizing s with
  | zero => exact .pure hbounds
  | succ k ih =>
    refine ((watchRun_completes hrange hneg h hbounds).and_ensures (watchRun_tracked h)).bind
      (watchRun_tallies s) fun r ⟨hbounds', htracked⟩ => ?_
    exact (ih htracked hbounds').bind (watchRuns_tallies k r.2) fun r' hr' => .pure hr'

omit hrange hneg

/-- For at most `2 ^ 31 - 1` variables and literals of these variables only, a search can be
created. However often it is run, no step faults, of whatever kind the fault may be, as long as the
number of scans begun times the number of literals stays below `2 ^ 31` and all counters fit into 64
bits. The moments end with the step that faults if one does, so no fault comes before one of these
limits is passed. -/
theorem runs_faultless {f : Formula} (hn : f.variableCount ≤ 2 ^ 31 - 1) (hrange : f.InRange)
    (k : ℕ) :
    ∃ s₀, create f.variableCount = .ok s₀ ∧ (watchRuns f k s₀).run = runs f k s₀ ∧
      (((watchRuns f k s₀).moments.foldl Statistics.counting {}).scans * f.occurrences < 2 ^ 31 →
        ((watchRuns f k s₀).moments.foldl Statistics.counting {}).Fits →
        ∃ answers s, (runs f k s₀).result = .ok (answers, s)) := by
  obtain ⟨branching, hbranching, hreads⟩ :=
    Branching.create_eq_ok (n := f.variableCount) (by omega)
  obtain ⟨s₀, hs₀, htracked, -⟩ := create_eq_ok (n := f.variableCount) (by omega)
  have hcreate : create f.variableCount = .ok { branching } := by
    rw [create, hbranching]
    rfl
  obtain rfl := Except.ok.inj (hcreate.symm.trans hs₀)
  refine ⟨_, hcreate, run_watchRuns k _, fun hscores hfits => ?_⟩
  have hbounds : InBounds f { branching } := fun v => by
    rw [hreads.entryAt_eq]
    exact ⟨Nat.zero_le _, Nat.zero_le _⟩
  obtain ⟨⟨answers, s⟩, hresult, -⟩ :=
    watchRuns_completes hrange (hrange.negatable (by omega)) htracked hbounds ⟨hscores, hfits⟩
  rw [run_watchRuns] at hresult
  exact ⟨answers, s, hresult⟩

/-- All clauses over two variables that hold each of them once. -/
def allClausesOfTwo : Formula :=
  ⟨2, [.ofCodes [1, 2], .ofCodes [1, -2], .ofCodes [-1, 2], .ofCodes [-1, -2]]⟩

/-- In each of two runs both values of variable 1 meet a clause that forces variable 2 to be true
and one that forces it to be false, so every scan ends with a conflict after it has moved scores. -/
theorem runs_faultless_two_runs :
    allClausesOfTwo.variableCount ≤ 2 ^ 31 - 1 ∧ allClausesOfTwo.InRange ∧ ∃ s₀,
      create 2 = .ok s₀ ∧
      (watchRuns allClausesOfTwo 2 s₀).moments.foldl Statistics.counting {} =
        { decisions := 4, scans := 4, backtracks := 2 } ∧
      ∃ answers s, (runs allClausesOfTwo 2 s₀).result = .ok (answers, s) := by
  obtain ⟨s₀, hs₀, -, hresult⟩ := runs_faultless (f := allClausesOfTwo) (by decide) (by decide) 2
  have hcount : (create 2).map (fun s =>
      (watchRuns allClausesOfTwo 2 s).moments.foldl Statistics.counting {}) =
        .ok { decisions := 4, scans := 4, backtracks := 2 } := by
    decide +kernel
  have hs₀' : create 2 = .ok s₀ := hs₀
  rw [hs₀'] at hcount
  have hcounted : (watchRuns allClausesOfTwo 2 s₀).moments.foldl Statistics.counting {} =
      { decisions := 4, scans := 4, backtracks := 2 } := Except.ok.inj hcount
  rw [hcounted] at hresult
  exact ⟨by decide, by decide, s₀, hs₀, hcounted, hresult (by decide) (by decide)⟩

end SearchState

end SatSearch
