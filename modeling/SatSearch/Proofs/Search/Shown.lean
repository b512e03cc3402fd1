import SatSearch.Proofs.Search.Outcome

/-!
# What a found model leaves behind

A search that finds a model stops with every clause shown: going through its literals comes upon a
true one before a look-up can fault. Giving a value to a further variable keeps every clause shown,
and a scan that finds every clause shown changes nothing.
-/

namespace SatSearch

namespace Branching

variable {seen seen' : ℕ} {l : Literal} {ls : List Literal} {c : Clause} {cs : List Clause}
  {f : Formula} {p q : Propagator} {s t : Branching} {allSatisfied : Bool}

/-- Going through the literals of each clause comes upon a true one. -/
def Shows (s : Branching) (f : Formula) : Prop :=
  ∀ c ∈ f.clauses, s.openLiterals 0 c.literals = .ok none

/-- The first literal is true, or it is false or open and a later one is true. -/
theorem openLiterals_cons_eq_none :
    s.openLiterals seen (l :: ls) = .ok none ↔
      s.value l.var = .ok (some l.positive) ∨
      s.value l.var = .ok (some !l.positive) ∧ s.openLiterals seen ls = .ok none ∨
      s.value l.var = .ok none ∧ seen + 1 < openLimit ∧
        s.openLiterals (seen + 1) ls = .ok none := by
  rw [openLiterals]
  cases s.value l.var with
  | error e => simp [bind, Except.bind]
  | ok r =>
    cases r with
    | none =>
      constructor
      · intro hok
        obtain ⟨_, ⟨⟩, hok⟩ := bind_eq_ok.mp hok
        obtain ⟨k, hk, hok⟩ := bind_eq_ok.mp hok
        obtain ⟨hlt, rfl⟩ := below_eq_ok.mp hk
        obtain ⟨rest, hrest, hnone⟩ := bind_eq_ok.mp hok
        obtain rfl := Option.map_eq_none_iff.mp (pure_eq_ok.mp hnone)
        exact .inr (.inr ⟨rfl, hlt, hrest⟩)
      · rintro (h | ⟨h, -⟩ | ⟨-, hlt, hrest⟩)
        · cases h
        · cases h
        · have hcount : below openLimit (seen + 1) = .ok (seen + 1) :=
            below_eq_ok.mpr ⟨hlt, rfl⟩
          simp [hcount, hrest, bind, Except.bind, pure, Except.pure]
    | some b =>
      by_cases hb : b = l.positive
      · simp [hb, bind, Except.bind, pure, Except.pure]
      · have hneg : b = !l.positive := by simpa [Bool.eq_not] using hb
        simp [hneg, bind, Except.bind]

/-- Further values do not hide a true literal. -/
theorem openLiterals_mono (hseen : seen' ≤ seen)
    (hle : ∀ v r, s.value v = .ok r → ∃ r', t.value v = .ok r' ∧ ∀ b, r = some b → r' = some b)
    (hok : s.openLiterals seen ls = .ok none) : t.openLiterals seen' ls = .ok none := by
  induction ls generalizing seen seen' with
  | nil => cases hok
  | cons l ls ih =>
    rw [openLiterals_cons_eq_none] at hok ⊢
    rcases hok with hvalue | ⟨hvalue, hrest⟩ | ⟨hvalue, hlt, hrest⟩
    · obtain ⟨r', hr', hkeep⟩ := hle _ _ hvalue
      rw [hr', hkeep _ rfl]
      exact .inl rfl
    · obtain ⟨r', hr', hkeep⟩ := hle _ _ hvalue
      rw [hr', hkeep _ rfl]
      exact .inr (.inl ⟨rfl, ih hseen hrest⟩)
    · obtain ⟨r', hr', -⟩ := hle _ _ hvalue
      rw [hr']
      -- The open literal may have become true or false, or it is still open.
      cases r' with
      | none => exact .inr (.inr ⟨rfl, by omega, ih (by omega) hrest⟩)
      | some b =>
        by_cases hb : b = l.positive
        · exact .inl (by rw [hb])
        · have hneg : b = !l.positive := by simpa [Bool.eq_not] using hb
          exact .inr (.inl ⟨by rw [hneg], ih (by omega) hrest⟩)

/-- How an evaluation looks at one literal. -/
theorem check_literal {r : Option Bool} (hvalue : s.value l.var = .ok r) :
    (do return (← (do return (← s.value l.var).getD false : Except Fault Bool)) == l.positive :
      Except Fault Bool) = .ok (r.getD false == l.positive) := by
  rw [hvalue]
  rfl

/-- An evaluation takes open variables as false, which hides no true literal. -/
theorem check_of_openLiterals (hok : s.openLiterals seen c.literals = .ok none) :
    c.check (fun v => do return (← s.value v).getD false) = .ok true := by
  rw [Clause.check]
  generalize c.literals = ls at hok
  induction ls generalizing seen with
  | nil => cases hok
  | cons l ls ih =>
    rw [anyM_cons_eq_true]
    rcases openLiterals_cons_eq_none.mp hok with hvalue | ⟨hvalue, hrest⟩ | ⟨hvalue, -, hrest⟩
    · exact .inl (by rw [check_literal hvalue, Option.getD_some, beq_self_eq_true])
    · exact .inr ⟨by rw [check_literal hvalue]; simp, ih hrest⟩
    · rw [check_literal hvalue, Option.getD_none]
      cases l.positive with
      | false => exact .inl rfl
      | true => exact .inr ⟨rfl, ih hrest⟩

/-- Where no look-up finds an open variable, an evaluation goes through the same literals. -/
theorem openLiterals_of_check (hset : ∀ l ∈ c.literals, s.value l.var ≠ .ok none)
    (hok : c.check (fun v => do return (← s.value v).getD false) = .ok true) :
    s.openLiterals seen c.literals = .ok none := by
  rw [Clause.check] at hok
  generalize c.literals = ls at hset hok
  induction ls with
  | nil => cases hok
  | cons l ls ih =>
    have hl := hset l (by simp)
    have hls : ∀ m ∈ ls, s.value m.var ≠ .ok none := fun m hm => hset m (by simp [hm])
    rw [openLiterals_cons_eq_none]
    rw [anyM_cons_eq_true] at hok
    cases hvalue : s.value l.var with
    | error e =>
      rw [hvalue] at hok
      rcases hok with hok | ⟨hok, -⟩ <;> cases hok
    | ok r =>
      rw [check_literal hvalue] at hok
      cases r with
      | none => exact absurd hvalue hl
      | some b =>
        rcases hok with hok | ⟨hok, hrest⟩
        · have hb : b = l.positive := by simpa using hok
          exact .inl (by rw [hb])
        · have hb : b = !l.positive := by simpa [Bool.eq_not] using hok
          exact .inr (.inl ⟨by rw [hb], ih hls hrest⟩)

/-- A scan does not stop at clauses that are shown, and changes nothing. -/
theorem scanFrom_of_shows (hcs : ∀ c ∈ cs, s.openLiterals 0 c.literals = .ok none) :
    p.scanFrom s allSatisfied cs =
      .ok (if allSatisfied then .satisfied else .undecided, p, s) := by
  induction cs with
  | nil => rfl
  | cons c cs ih =>
    rw [Propagator.scanFrom, hcs c (by simp)]
    exact ih fun d hd => hcs d (by simp [hd])

/-- If scanning further clauses finds every clause satisfied, they are shown. -/
theorem scanFrom_satisfied (hok : p.scanFrom s allSatisfied cs = .ok (.satisfied, q, t)) :
    allSatisfied = true ∧ t = s ∧ ∀ c ∈ cs, s.openLiterals 0 c.literals = .ok none := by
  induction cs generalizing p s allSatisfied with
  | nil => cases allSatisfied <;> cases hok; simp
  | cons c cs ih =>
    obtain ⟨r, hr, hok⟩ := bind_eq_ok.mp hok
    match r with
    | none =>
      obtain ⟨hall, rfl, hcs⟩ := ih hok
      exact ⟨hall, rfl, List.forall_mem_cons.mpr ⟨hr, hcs⟩⟩
    | some [] => cases hok
    | some [l] =>
      obtain ⟨m, -, hok⟩ := bind_eq_ok.mp hok
      split at hok
      · cases hok
      · obtain ⟨s₁, -, hok⟩ := bind_eq_ok.mp hok
        obtain ⟨s₂, -, hok⟩ := bind_eq_ok.mp hok
        cases (ih hok).1
    | some (_ :: _ :: _) =>
      obtain ⟨s₁, -, hok⟩ := bind_eq_ok.mp hok
      cases (ih hok).1

/-- A scan of clauses that are shown ends with no forced literals. -/
theorem scan_of_shows (h : s.Shows f) : p.scan f s = ⟨[], .ok (.satisfied, p.clear, s)⟩ := by
  rw [Propagator.scan, Logged.lift_bind_of_ok (scanFrom_of_shows h)]
  rfl

/-- A scan that finds every clause satisfied has changed nothing. -/
theorem scan_satisfied (hok : (p.scan f s).result = .ok (.satisfied, q, t)) :
    t = s ∧ s.Shows f := by
  rw [scan_result] at hok
  exact (scanFrom_satisfied hok).2

/-- What is shown stays shown when further variables get values. -/
theorem Shows.mono {n : ℕ} (h : s.Shows f)
    (hs : s.Coherent n) (ht : t.Coherent n)
    (hle : ∀ v b, s.valueAt v = some b → t.valueAt v = some b) : t.Shows f := by
  intro c hc
  refine openLiterals_mono (Nat.le_refl 0) (fun v r hr => ?_) (h c hc)
  obtain ⟨hvn, rfl⟩ := hs.value_ok hr
  exact ⟨_, ht.value_eq hvn, hle v⟩

/-- What is shown is satisfied. -/
theorem Shows.satisfied (h : s.Shows f) : f.satisfied s.valueAt = true := by
  refine Formula.satisfied_eq_true.mpr fun c hc => ?_
  rcases openLiterals_ok (h c hc) with ⟨hsat, -⟩ | ⟨-, hsome⟩
  · exact hsat
  · cases hsome

end Branching

namespace SearchState

variable {n v left : ℕ} {b : Bool} {f : Formula} {s t : SearchState}

/-- A scan that finds every clause satisfied leaves them shown. -/
theorem shows_of_scan (hok : (s.scan f).result = .ok (.satisfied, t)) : t.branching.Shows f := by
  obtain ⟨propagator, branching, hscan, rfl⟩ := scan_ok hok
  obtain ⟨rfl, hshows⟩ := Branching.scan_satisfied hscan
  exact hshows

/-- So does an evaluation that finds the formula true when all variables have values. -/
theorem Tracked.shows_of_evaluate (h : Tracked n none s) (hfull : s.trail.length = n)
    (hok : s.evaluate f = .ok (.solved, t)) : t.branching.Shows f := by
  obtain ⟨holds, hcheck, hsolved, rfl⟩ := evaluate_ok hok
  cases holds with
  | false => cases hsolved
  | true =>
    intro c hc
    refine Branching.openLiterals_of_check (fun l hl hopen => ?_)
      (Formula.check_eq_true.mp hcheck c hc)
    obtain ⟨hvn, hnone⟩ := h.coherent.value_ok hopen
    exact h.valueAt_of_length_eq hfull (Literal.var_pos (c.nonzero l hl)) hvn hnone

/-- How a value of the held variable was settled. -/
theorem Tracked.tryValue_settled (h : Tracked n (some v) s)
    (hleft : s.trail.length + (left + 1) = n) {r : Outcome × SearchState}
    (hok : (tryValue f (explore f left) v b s).result = .ok r) :
    Settled n f ((v, b) :: s.trail) r := by
  rw [← run_watchValue (run_watchExplore left)] at hok
  exact (watchValue_settled (fun s hs hleft => watchExplore_settled hs hleft) h hleft).result r hok

/-- If a value succeeds, every clause is shown, given that this is so for the search below. -/
theorem Tracked.tryValue_shows
    (hdescend : ∀ s, Tracked n none s → s.trail.length + left = n →
      (explore f left s).result = .ok (.solved, t) → t.branching.Shows f)
    (h : Tracked n (some v) s) (hleft : s.trail.length + (left + 1) = n)
    (hok : (tryValue f (explore f left) v b s).result = .ok (.solved, t)) :
    t.branching.Shows f := by
  obtain ⟨s₁, hs₁, hok⟩ := Logged.bind_eq_ok.mp hok
  obtain ⟨h₁, htrail₁⟩ := h.assign hs₁
  split at hok
  case isTrue =>
    obtain ⟨⟨finding, s₂⟩, hs₂, hok⟩ := Logged.bind_eq_ok.mp hok
    cases finding with
    | satisfied =>
      cases hok
      exact shows_of_scan hs₂
    | conflict why => cases hok
    | undecided =>
      obtain ⟨h₂, htrail₂, -⟩ := h₁.scan hs₂
      refine hdescend s₂ h₂ ?_ hok
      rw [htrail₂, htrail₁, List.length_cons]
      omega
  case isFalse hqueued =>
    rw [h₁.coherent.anyQueued_iff, not_not] at hqueued
    exact h₁.shows_of_evaluate (h₁.length_eq hqueued) hok

/-- If one of the values succeeds, every clause is shown, given that this is so for the search
below. -/
theorem Tracked.tryValues_shows
    (hdescend : ∀ s, Tracked n none s → s.trail.length + left = n →
      (explore f left s).result = .ok (.solved, t) → t.branching.Shows f)
    {bs : List Bool} (h : Tracked n (some v) s) (hleft : s.trail.length + (left + 1) = n)
    (hok : (tryValues f (explore f left) v bs s).result = .ok (.solved, t)) :
    t.branching.Shows f := by
  induction bs generalizing s with
  | nil =>
    obtain ⟨s₁, -, hok⟩ := Logged.bind_eq_ok.mp hok
    cases hok
  | cons b bs ih =>
    obtain ⟨⟨outcome, s₁⟩, hs₁, hok⟩ := Logged.bind_eq_ok.mp hok
    cases outcome with
    | solved =>
      cases hok
      exact h.tryValue_shows hdescend hleft hs₁
    | exhausted =>
      cases h.tryValue_settled hleft hs₁ with
      | exhausted h₁ htrail₁ =>
        obtain ⟨s₂, hs₂, hok⟩ := Logged.bind_eq_ok.mp hok
        obtain ⟨h₂, htrail₂⟩ := h₁.retract htrail₁ hs₂
        exact ih h₂ (by rw [htrail₂]; exact hleft) hok

/-- A search that finds a model leaves every clause shown. -/
theorem Tracked.explore_shows (h : Tracked n none s) (hleft : s.trail.length + left = n)
    (hok : (explore f left s).result = .ok (.solved, t)) : t.branching.Shows f := by
  induction left generalizing s with
  | zero => exact h.shows_of_evaluate hleft hok
  | succ left ih =>
    rw [explore_succ] at hok
    obtain ⟨r, hr, hok⟩ := Logged.bind_eq_ok.mp hok
    cases r with
    | none =>
      exact h.shows_of_evaluate (h.length_eq (h.coherent.select_eq_none.mp hr)) hok
    | some r =>
      obtain ⟨choice, branching'⟩ := r
      exact (h.select hr).tryValues_shows (fun s hs hleft => ih hs hleft) hleft hok

end SearchState

end SatSearch
