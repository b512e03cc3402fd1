import SatSearch.Proofs.Search.Spent
import SatSearch.Proofs.Search.Undone

/-!
# What a search costs

Every variable that is given up has cost two decisions, one for each value, and one backtrack. So
the decisions of a search that fails are twice its backtracks. A search that succeeds has in
addition paid for each variable that it leaves on the trail, once if its first value was kept and
twice if its second one was. At each level at most two searches begin on the level below, which
bounds all counters by powers of two.

As long as a search goes down only with variables in the queue, each level of it takes exactly one
from there, so it never looks for a variable in vain.
-/

namespace SatSearch

/-- Where the search goes down at this moment, a variable is selected. -/
def Moment.Finds (m : Moment) : Prop :=
  ∀ s, m = .descent s → ∃ choice selected, m.Selects choice selected

/-- What is spent on a search below a trail, with `left` variables in the queue, when `made`
decisions on the last variable of the trail belong to it. -/
structure Costs (left made : ℕ) (trail : List (ℕ × Bool)) (ms : List Moment)
    (r : Outcome × SearchState) : Prop where
  balanced : (spent ms).decisions = (spent ms).scans + (spent ms).evaluations
  decisions_le : (spent ms).decisions + 2 ≤ 2 ^ (left + 1) + made
  backtracks_lt : (spent ms).backtracks < 2 ^ left
  evaluations_le : (spent ms).evaluations ≤ 2 ^ left
  fresh : ∀ c ∈ choices ms, c.var ∉ trail.map Prod.fst
  exhausted : r.1 = .exhausted → (spent ms).decisions = 2 * (spent ms).backtracks + made
  solved : r.1 = .solved → ∃ added, r.2.trail = added ++ trail ∧ Chosen ms added ∧
    (spent ms).decisions = 2 * (spent ms).backtracks + made + added.length + seconds ms added

/-- What is spent on trying the values `bs` of variable `v` and on giving it up if they fail, with
`left` further variables in the queue. -/
structure CostsOfValues (left v : ℕ) (bs : List Bool) (trail : List (ℕ × Bool)) (ms : List Moment)
    (r : Outcome × SearchState) : Prop where
  balanced : (spent ms).decisions = (spent ms).scans + (spent ms).evaluations
  decisions_le : (spent ms).decisions + bs.length ≤ bs.length * 2 ^ (left + 1)
  backtracks_le : (spent ms).backtracks + bs.length ≤ bs.length * 2 ^ left + 1
  evaluations_le : (spent ms).evaluations ≤ bs.length * 2 ^ left
  fresh : ∀ c ∈ choices ms, c.var ≠ v ∧ c.var ∉ trail.map Prod.fst
  exhausted : r.1 = .exhausted → (spent ms).decisions + 2 = 2 * (spent ms).backtracks + bs.length
  solved : r.1 = .solved → ∃ failed b rest added, bs = failed ++ b :: rest ∧
    r.2.trail = added ++ (v, b) :: trail ∧ Chosen ms added ∧
    (spent ms).decisions = 2 * (spent ms).backtracks + failed.length + 1 + added.length +
      seconds ms added

variable {n v left : ℕ} {b : Bool} {trail : List (ℕ × Bool)} {ms ns : List Moment} {m : Moment}
  {r : Outcome × SearchState} {f : Formula} {s s' t : SearchState}

/-- One decision that a scan or an evaluation settles at once. -/
theorem Costs.of_leaf (hm : m = .scan s ∨ m = .evaluation s) (htrail : r.2.trail = trail) :
    Costs left 1 trail [.decision v b s', m] r := by
  have hpos := Nat.two_pow_pos left
  have hdecisions : 1 + 2 ≤ 2 ^ (left + 1) + 1 := by
    rw [Nat.pow_succ]
    omega
  have hsolved : ∃ added, r.2.trail = added ++ trail ∧ Chosen [.decision v b s', m] added ∧
      1 = 2 * 0 + 1 + added.length + seconds [.decision v b s', m] added :=
    ⟨[], htrail, nofun, rfl⟩
  rcases hm with rfl | rfl
  · exact ⟨rfl, hdecisions, hpos, Nat.zero_le _, nofun, fun _ => rfl, fun _ => hsolved⟩
  · exact ⟨rfl, hdecisions, hpos, hpos, nofun, fun _ => rfl, fun _ => hsolved⟩

/-- One decision, a scan that leaves the matter open, and a search below. -/
theorem Costs.below (h : Costs left 0 trail ms r) :
    Costs left 1 trail ([.decision v b s, .scan t] ++ ms) r := by
  obtain ⟨hbalanced, hdecisions, hbacktracks, hevaluations, hfresh, hexhausted, hsolved⟩ := h
  have hspent : spent ([.decision v b s, .scan t] ++ ms) =
      { decisions := 1, scans := 1 } + spent ms := spent_append
  have hdecisions' := congrArg Statistics.decisions hspent
  have hscans' := congrArg Statistics.scans hspent
  have hevaluations' := congrArg Statistics.evaluations hspent
  have hbacktracks' := congrArg Statistics.backtracks hspent
  simp only [Statistics.add_decisions, Statistics.add_scans, Statistics.add_evaluations,
    Statistics.add_backtracks] at hdecisions' hscans' hevaluations' hbacktracks'
  refine ⟨by omega, by omega, by omega, by omega, hfresh, fun hr => ?_, fun hr => ?_⟩
  · have hprice := hexhausted hr
    omega
  · obtain ⟨added, htrail, hchosen, hprice⟩ := hsolved hr
    refine ⟨added, htrail, hchosen.append_left _, ?_⟩
    rw [hchosen.seconds_append_left]
    omega

/-- A search below a value of a variable selects neither that variable nor one set before it. -/
theorem Costs.fresh_of_cons {made : ℕ} (h : Costs left made ((v, b) :: trail) ms r) :
    ∀ c ∈ choices ms, c.var ≠ v ∧ c.var ∉ trail.map Prod.fst := by
  intro c hc
  have hnot := h.fresh c hc
  rwa [List.map_cons, List.mem_cons, not_or] at hnot

/-- After all values have failed the variable is given up. -/
theorem CostsOfValues.of_backtrack :
    CostsOfValues left v [] trail [.backtrack v s] (.exhausted, t) where
  balanced := rfl
  decisions_le := Nat.zero_le _
  backtracks_le := by
    rw [List.length_nil, Nat.zero_mul]
    exact le_rfl
  evaluations_le := Nat.zero_le _
  fresh := nofun
  exhausted _ := rfl
  solved := nofun

/-- The first of the values succeeds, so the others need not be tried. -/
theorem CostsOfValues.of_solved {bs : List Bool}
    (h : Costs left 1 ((v, b) :: trail) ms (.solved, t)) :
    CostsOfValues left v (b :: bs) trail ms (.solved, t) := by
  have hfresh := h.fresh_of_cons
  obtain ⟨hbalanced, hdecisions, hbacktracks, hevaluations, -, -, hsolved⟩ := h
  obtain ⟨added, htrail, hchosen, hprice⟩ := hsolved rfl
  have hothers := Nat.le_mul_of_pos_right bs.length (Nat.two_pow_pos left)
  have hothers' := Nat.le_mul_of_pos_right bs.length (Nat.two_pow_pos (left + 1))
  refine ⟨hbalanced, ?_, ?_, ?_, hfresh, nofun, fun _ => ?_⟩
  · rw [List.length_cons, Nat.succ_mul]
    omega
  · rw [List.length_cons, Nat.succ_mul]
    omega
  · rw [List.length_cons, Nat.succ_mul]
    omega
  · exact ⟨[], b, bs, added, rfl, htrail, hchosen, by rw [List.length_nil]; omega⟩

/-- The first of the values fails and the others are tried. -/
theorem CostsOfValues.of_exhausted {bs : List Bool}
    (hfirst : Costs left 1 ((v, b) :: trail) ms (.exhausted, t))
    (h : CostsOfValues left v bs trail ns r) :
    CostsOfValues left v (b :: bs) trail (ms ++ ns) r := by
  have hfresh := hfirst.fresh_of_cons
  obtain ⟨hbalanced, hdecisions, hbacktracks, hevaluations, -, hexhausted, -⟩ := hfirst
  obtain ⟨hbalanced', hdecisions', hbacktracks', hevaluations', hfresh', hexhausted', hsolved'⟩ := h
  have hfailed : (spent ms).decisions = 2 * (spent ms).backtracks + 1 := hexhausted rfl
  refine ⟨?_, ?_, ?_, ?_, fun c hc => ?_, fun hr => ?_, fun hr => ?_⟩
  · simp only [spent_append, Statistics.add_decisions, Statistics.add_scans,
      Statistics.add_evaluations]
    omega
  · simp only [spent_append, Statistics.add_decisions, List.length_cons, Nat.succ_mul]
    omega
  · simp only [spent_append, Statistics.add_backtracks, List.length_cons, Nat.succ_mul]
    omega
  · simp only [spent_append, Statistics.add_evaluations, List.length_cons, Nat.succ_mul]
    omega
  · rw [choices_append, List.mem_append] at hc
    exact hc.elim (hfresh c) (hfresh' c)
  · have hprice := hexhausted' hr
    simp only [spent_append, Statistics.add_decisions, Statistics.add_backtracks, List.length_cons]
    omega
  · obtain ⟨failed, d, rest, added, rfl, htrail, hchosen, hprice⟩ := hsolved' hr
    refine ⟨b :: failed, d, rest, added, rfl, htrail, hchosen.append_left ms, ?_⟩
    simp only [spent_append, Statistics.add_decisions, Statistics.add_backtracks, List.length_cons,
      hchosen.seconds_append_left]
    omega

/-- One value is tried before the second one, and none before the first one. -/
theorem length_failed {choice : Choice} {failed rest : List Bool}
    (h : choice.values = failed ++ b :: rest) :
    failed.length = if choice.first = !b then 1 else 0 := by
  obtain ⟨v, first⟩ := choice
  match failed with
  | [] =>
    obtain ⟨rfl, -⟩ := List.cons.inj h
    cases first <;> rfl
  | [d] =>
    obtain ⟨rfl, hrest⟩ := List.cons.inj h
    obtain ⟨rfl, -⟩ := List.cons.inj hrest
    cases first <;> rfl
  | _ :: _ :: _ =>
    have hlength := congrArg List.length h
    simp [Choice.values] at hlength

/-- Selecting a variable and trying both of its values in the chosen order. -/
theorem Costs.of_values {choice : Choice} {selected : Branching}
    (hselect : s.branching.select.result = .ok (some (choice, selected)))
    (hopen : choice.var ∉ trail.map Prod.fst)
    (h : CostsOfValues left choice.var choice.values trail ms r) :
    Costs (left + 1) 0 trail ([.descent s] ++ ms) r := by
  obtain ⟨hbalanced, hdecisions, hbacktracks, hevaluations, hfresh, hexhausted, hsolved⟩ := h
  have hchoices : choices [.descent s] = [choice] := by
    simp only [choices, List.filterMap_cons, Moment.choice?, hselect, List.filterMap_nil]
  have hspent : spent ([.descent s] ++ ms) = spent ms := rfl
  have hvalues : choice.values.length = 2 := rfl
  rw [hvalues] at hdecisions hbacktracks hevaluations
  refine ⟨hbalanced, ?_, ?_, ?_, fun c hc => ?_, fun hr => ?_, fun hr => ?_⟩
  · rw [hspent, Nat.pow_succ 2 (left + 1)]
    omega
  · rw [hspent, Nat.pow_succ]
    omega
  · rw [hspent, Nat.pow_succ]
    omega
  · rw [choices_append, hchoices, List.singleton_append, List.mem_cons] at hc
    rcases hc with rfl | hc
    · exact hopen
    · exact (hfresh c hc).2
  · have hprice := hexhausted hr
    rw [hspent]
    omega
  · obtain ⟨failed, b, rest, added, hsplit, htrail, hchosen, hprice⟩ := hsolved hr
    -- The variable is not selected again while it has a value.
    have hlatest : latestChoice ([.descent s] ++ ms) choice.var = some choice := by
      rw [latestChoice_of_fresh fun c hc => (hfresh c hc).1, latestChoice, hchoices]
      simp
    have hseconds : seconds ([.descent s] ++ ms) [(choice.var, b)] = failed.length := by
      rw [length_failed hsplit, seconds, List.countP_singleton, hlatest]
      obtain ⟨v, first⟩ := choice
      simp
    refine ⟨added ++ [(choice.var, b)], ?_, fun x hx => ?_, ?_⟩
    · rw [htrail, List.append_assoc, List.singleton_append]
    · rcases List.mem_append.mp hx with hx | hx
      · exact hchosen.append_left _ x hx
      · obtain rfl := List.mem_singleton.mp hx
        exact ⟨choice.first, hlatest⟩
    · rw [hspent, List.length_append, List.length_singleton, seconds_append, hseconds,
        hchosen.seconds_append_left]
      omega

namespace SearchState

variable {descend : SearchState → Watched (Outcome × SearchState)}

/-- What one value of a variable costs, if the search below costs what it should. -/
theorem watchValue_costs
    (hdescend : ∀ s, Tracked n none s → s.trail.length + left = n → 0 < left →
      (descend s).Relates Moment.Finds (Costs left 0 s.trail))
    (h : Tracked n (some v) s) (hleft : s.trail.length + (left + 1) = n) :
    (watchValue f descend v b s).Relates Moment.Finds (Costs left 1 ((v, b) :: s.trail)) := by
  have hassign : (s.watchAssign v b).Relates Moment.Finds fun ms t =>
      ms = [.decision v b s] ∧ Tracked n none t ∧ t.trail = (v, b) :: s.trail :=
    .step nofun fun t ht => ⟨rfl, h.assign ht⟩
  refine hassign.bind fun ms s₁ ⟨hms, h₁, htrail₁⟩ => ?_
  subst hms
  rw [← htrail₁]
  have hleft₁ : s₁.trail.length + left = n := by
    rw [htrail₁, List.length_cons]
    omega
  split
  case isTrue hqueued =>
    have hscan : (s₁.watchScan f).Relates Moment.Finds fun ms r =>
        ms = [.scan s₁] ∧ Tracked n none r.2 ∧ r.2.trail = s₁.trail :=
      .step nofun fun r hr => ⟨rfl, (h₁.scan hr).1, (h₁.scan hr).2.1⟩
    refine hscan.bind fun ms r ⟨hms, h₂, htrail₂⟩ => ?_
    subst hms
    obtain ⟨finding, s₂⟩ := r
    cases finding with
    | satisfied => exact .pure (.of_leaf (.inl rfl) htrail₂)
    | conflict why => exact .pure (.of_leaf (.inl rfl) htrail₂)
    | undecided =>
      simp only at h₂ htrail₂
      have hpos : 0 < left := by
        have hcount := h₁.length_add_queued
        rw [h₁.coherent.anyQueued_iff, ne_eq, ← Finset.card_eq_zero, ← h₁.coherent.queued_eq]
          at hqueued
        omega
      rw [← htrail₂] at hleft₁ ⊢
      exact (hdescend s₂ h₂ hleft₁ hpos).mono fun ms r hr => hr.below
  case isFalse hqueued =>
    rw [h₁.coherent.anyQueued_iff, not_not] at hqueued
    refine .step nofun fun r hr => .of_leaf (.inr rfl) ?_
    exact (h₁.evaluate (h₁.length_eq hqueued) hr).2.1

/-- What the remaining values of a variable cost, if the search below costs what it should. -/
theorem watchValues_costs
    (hdescend : ∀ s, Tracked n none s → s.trail.length + left = n → 0 < left →
      (descend s).Relates Moment.Finds (Costs left 0 s.trail))
    (hsettled : ∀ s, Tracked n none s → s.trail.length + left = n →
      (descend s).Ensures (Moment.Tracked n) (Settled n f s.trail))
    {bs : List Bool} (h : Tracked n (some v) s) (hleft : s.trail.length + (left + 1) = n) :
    (watchValues f descend v bs s).Relates Moment.Finds (CostsOfValues left v bs s.trail) := by
  induction bs generalizing s with
  | nil =>
    have hbacktrack : (s.watchBacktrack v).Relates Moment.Finds fun ms _ => ms = [.backtrack v s] :=
      .step nofun fun _ _ => rfl
    refine hbacktrack.bind fun ms t hms => ?_
    subst hms
    exact .pure .of_backtrack
  | cons b bs ih =>
    have hvalue := (watchValue_costs (b := b) hdescend h hleft).and_ensures
      (watchValue_settled hsettled h hleft)
    refine hvalue.bind fun ms r ⟨hcosts, hsettled'⟩ => ?_
    cases hsettled' with
    | solved =>
      refine .pure ?_
      rw [List.append_nil]
      exact .of_solved hcosts
    | exhausted htracked hunchanged =>
      have hretract : Watched.Relates Moment.Finds
          (fun ms t => ms = [] ∧ Tracked n (some v) t ∧ t.trail = s.trail)
          (liftM (SearchState.retract _ v) : Watched SearchState) :=
        .lift_except fun t ht => ⟨rfl, htracked.retract hunchanged ht⟩
      refine hretract.bind fun ns t ⟨hns, ht, htrail⟩ => ?_
      subst hns
      rw [← htrail] at hleft hcosts ⊢
      exact (ih ht hleft).mono fun ms r hr => .of_exhausted hcosts hr

/-- As long as the trail does not list all variables, one is selected. -/
theorem Tracked.exists_choice (h : Tracked n none s) (hlt : s.trail.length < n) :
    ∃ choice selected, s.branching.select.result = .ok (some (choice, selected)) := by
  rcases h.coherent.select with ⟨hempty, -⟩ | ⟨v, selected, -, hselect, -⟩
  · have hfull := h.length_eq hempty
    omega
  · exact ⟨_, selected, by rw [hselect]⟩

/-- What a search with variables in the queue costs. Wherever it goes down, it selects one. -/
theorem watchExplore_costs (h : Tracked n none s) (hleft : s.trail.length + left = n)
    (hpos : 0 < left) :
    (watchExplore f left s).Relates Moment.Finds (Costs left 0 s.trail) := by
  induction left generalizing s with
  | zero => exact absurd hpos (Nat.lt_irrefl 0)
  | succ left ih =>
    obtain ⟨choice, selected, hselect⟩ := h.exists_choice (by omega)
    have hopen : choice.var ∉ s.trail.map Prod.fst := by
      have hnext := (h.coherent.select_ok hselect).1
      rw [← h.valueAt_ne_none, not_not]
      exact ((h.mem_waiting choice.var).mp hnext.1).2.2.1
    have hfinds : (Moment.descent s).Finds := by
      intro u hu
      obtain rfl := Moment.descent.inj hu
      exact ⟨choice, selected, s, rfl, hselect⟩
    have hvalues : (watchValues f (watchExplore f left) choice.var choice.values
        { s with branching := selected }).Relates Moment.Finds
          (CostsOfValues left choice.var choice.values s.trail) :=
      watchValues_costs (fun s hs hleft hpos => ih hs hleft hpos)
        (fun s hs hleft => watchExplore_settled hs hleft) (h.select hselect) hleft
    have hselected : Watched.Relates Moment.Finds (fun ms r => ms = [] ∧ r = some (choice, selected))
        (liftM s.branching.select : Watched (Option (Choice × Branching))) :=
      .lift fun r hr => ⟨rfl, Except.ok.inj (hr.symm.trans hselect)⟩
    refine .meet hfinds (hselected.bind fun ms r ⟨hms, hr⟩ => ?_)
    subst hms hr
    exact hvalues.mono fun ms r hr => .of_values hselect hopen hr

/-- What a run with an empty trail costs, by its answer. -/
theorem watchRun_costs (h : Tracked n none s) (hempty : s.trail = []) (hpos : 0 < n) :
    (s.watchRun f).Relates Moment.Finds fun ms r =>
      Costs n 0 [] ms (if r.1.isSome then .solved else .exhausted, r.2) := by
  have hleft := h.length_add_queued
  have hqueued : s.branching.queued = n := by
    rw [hempty, List.length_nil] at hleft
    omega
  have hexplore := watchExplore_costs (f := f) h hleft (by omega)
  rw [hempty, hqueued] at hexplore
  rw [watchRun_eq, hqueued]
  refine hexplore.bind fun ms r hr => ?_
  obtain ⟨outcome, t⟩ := r
  cases outcome with
  | solved => exact .pure (by rwa [List.append_nil])
  | exhausted => exact .pure (by rwa [List.append_nil])

/-- With nothing queued a run evaluates the formula once and does nothing else. -/
theorem watchRun_unqueued (hempty : s.branching.queued = 0) :
    (s.watchRun f).moments = [.descent s, .evaluation s] ∧
      ∀ answer t, (s.run f).result = .ok (answer, t) → t = { s with
        statistics := { s.statistics with evaluations := s.statistics.evaluations + 1 } } := by
  constructor
  · rw [watchRun_eq, hempty, Watched.moments_bind_of_silent]
    · rfl
    · rintro ⟨outcome, t⟩
      cases outcome <;> rfl
  · intro answer t hrun
    obtain ⟨⟨outcome, t'⟩, hexplore, hrun⟩ := Logged.bind_eq_ok.mp hrun
    rw [hempty] at hexplore
    obtain ⟨holds, -, -, rfl⟩ := evaluate_ok hexplore
    cases outcome <;> (cases hrun; rfl)

/-- A new state has counted nothing. -/
theorem statistics_of_create (hcreate : create n = .ok s) : s.statistics = {} := by
  obtain ⟨branching, -, hs⟩ := bind_eq_ok.mp hcreate
  cases hs
  rfl

/-- For `n` variables with `1 ≤ n ≤ 2 ^ 31 - 1`, the first run of a search selects a variable
wherever it goes down. If it ends without a fault, it has made as many decisions as scans and
evaluations together. If it finds no model, these are twice its backtracks. If it finds one, each
variable on the trail has been selected, and there is one more decision for each of them and yet one
more for each that holds the second value of the order in which its values were last to be tried.
There are at most `2 ^ (n + 1) - 2` decisions, `2 ^ n - 1` backtracks and `2 ^ n` evaluations.
Without variables every run makes one evaluation and changes nothing else. -/
theorem run_costs {f : Formula} (hn : f.variableCount ≤ 2 ^ 31 - 1) {s₀ : SearchState}
    (hcreate : create f.variableCount = .ok s₀) :
    (∀ s, (watchRun f s).run = run f s) ∧
    (1 ≤ f.variableCount →
      (∀ s, .descent s ∈ (s₀.watchRun f).moments →
        ∃ choice selected, s.branching.select.result = .ok (some (choice, selected))) ∧
      ∀ answer t, (s₀.run f).result = .ok (answer, t) →
        t.statistics.decisions = t.statistics.scans + t.statistics.evaluations ∧
        (answer = none → t.statistics.decisions = 2 * t.statistics.backtracks) ∧
        (answer.isSome = true →
          (∀ x ∈ t.trail, ∃ first,
            latestChoice (s₀.watchRun f).moments x.1 = some ⟨x.1, first⟩) ∧
          t.statistics.decisions = 2 * t.statistics.backtracks + t.trail.length +
            t.trail.countP fun x => latestChoice (s₀.watchRun f).moments x.1 = some ⟨x.1, !x.2⟩) ∧
        t.statistics.decisions ≤ 2 ^ (f.variableCount + 1) - 2 ∧
        t.statistics.backtracks ≤ 2 ^ f.variableCount - 1 ∧
        t.statistics.evaluations ≤ 2 ^ f.variableCount) ∧
    (f.variableCount = 0 → ∀ k answers s, (runs f k s₀).result = .ok (answers, s) →
      (s.watchRun f).moments = [.descent s, .evaluation s] ∧
      ∀ answer t, (s.run f).result = .ok (answer, t) → t = { s with
        statistics := { s.statistics with evaluations := s.statistics.evaluations + 1 } }) := by
  obtain ⟨s₁, hs₁, htracked, hempty⟩ := create_eq_ok (n := f.variableCount) (by omega)
  obtain rfl := Except.ok.inj (hs₁.symm.trans hcreate)
  refine ⟨run_watchRun, fun hpos => ?_, fun hzero k answers s hruns => ?_⟩
  · have hcosts := watchRun_costs (f := f) htracked hempty hpos
    refine ⟨fun s hs => ?_, fun answer t hrun => ?_⟩
    · obtain ⟨choice, selected, s', hs', hselect⟩ := hcosts.moments _ hs s rfl
      obtain rfl := Moment.descent.inj hs'
      exact ⟨choice, selected, hselect⟩
    · rw [← run_watchRun] at hrun
      obtain ⟨hbalanced, hdecisions, hbacktracks, hevaluations, -, hexhausted, hsolved⟩ :=
        hcosts.result _ hrun
      have hspent : t.statistics = spent (s₁.watchRun f).moments := by
        rw [spent, ← statistics_of_create hs₁]
        exact watchRun_tallies s₁ _ hrun
      rw [← hspent] at hbalanced hdecisions hbacktracks hevaluations hexhausted hsolved
      refine ⟨hbalanced, ?_, fun hsome => ?_, by omega, by omega, hevaluations⟩
      · rintro rfl
        exact hexhausted rfl
      · obtain ⟨added, htrail, hchosen, hprice⟩ := hsolved (if_pos hsome)
        simp only [List.append_nil] at htrail
        subst htrail
        exact ⟨hchosen, hprice⟩
  · rw [← run_watchRuns] at hruns
    have hs : Tracked f.variableCount none s := (watchRuns_tracked htracked).result _ hruns
    have hcount := hs.length_add_queued
    exact watchRun_unqueued (by omega)

/-- The first value of variable 1 is given up after both values of variable 2 have failed below it,
and the second one leads to a model. So of the six decisions two were for the backtrack, three are
on the trail, and one was for the value of variable 1 that was not kept. -/
theorem run_costs_second_value :
    deadEnd.variableCount ≤ 2 ^ 31 - 1 ∧ ∃ s₀ model t, create 3 = .ok s₀ ∧
      (s₀.run deadEnd).result = .ok (some model, t) ∧
      t.path = [(1, true), (3, true), (2, false)] ∧
      t.statistics = { decisions := 6, scans := 5, evaluations := 1, backtracks := 1 } ∧
      choices (s₀.watchRun deadEnd).moments = [⟨1, false⟩, ⟨2, false⟩, ⟨3, true⟩, ⟨2, false⟩] ∧
      (∀ x ∈ t.trail, ∃ first,
        latestChoice (s₀.watchRun deadEnd).moments x.1 = some ⟨x.1, first⟩) ∧
      t.statistics.decisions = 2 * t.statistics.backtracks + t.trail.length +
        t.trail.countP (fun x => latestChoice (s₀.watchRun deadEnd).moments x.1 =
          some ⟨x.1, !x.2⟩) := by
  let s₀ : SearchState := ⟨⟨#[{}, {}, {}, {}],
    ⟨#[0, 3, 2, 1], #[1, 2, 3], #[none, some 0, some 1, some 2]⟩⟩, {}, [], {}⟩
  let model := Assignment.complete 3 fun v => v != 2
  let t : SearchState := ⟨⟨#[{}, { value := some true }, { value := some false },
    { value := some true }], ⟨#[0, 3, 2, 1], #[], #[none, none, none, none]⟩⟩,
    ⟨[⟨-2, by decide, by decide⟩]⟩, [(2, false), (3, true), (1, true)],
    { decisions := 6, scans := 5, evaluations := 1, backtracks := 1 }⟩
  have hcreate : create deadEnd.variableCount = .ok s₀ := by decide +kernel
  have hrun : (s₀.run deadEnd).result = .ok (some model, t) := by decide +kernel
  have hchoices : choices (s₀.watchRun deadEnd).moments =
      [⟨1, false⟩, ⟨2, false⟩, ⟨3, true⟩, ⟨2, false⟩] := by
    decide +kernel
  obtain ⟨-, hfirst, -⟩ := run_costs (f := deadEnd) (by decide) hcreate
  obtain ⟨-, -, hsolved, -⟩ := (hfirst (by decide)).2 _ _ hrun
  obtain ⟨hchosen, hprice⟩ := hsolved rfl
  exact ⟨by decide, s₀, model, t, hcreate, hrun, rfl, rfl, hchoices, hchosen, hprice⟩

end SearchState

end SatSearch
