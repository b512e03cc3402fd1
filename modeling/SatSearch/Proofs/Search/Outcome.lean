import SatSearch.Proofs.Search.Moments
import SatSearch.Proofs.Search.Tracked

/-!
# What an outcome of the search means

A search below some trail either extends the trail to one whose values satisfy the formula, or
leaves the trail as it was and no assignment that agrees with it satisfies the formula. The
induction is on the number of queued variables, and within one level on the values that are still to
be tried; the state is tracked at every moment in between.
-/

namespace SatSearch

/-- No assignment that agrees with the trail satisfies the formula. -/
def Formula.Hopeless (f : Formula) (trail : List (ℕ × Bool)) : Prop :=
  ∀ value : ℕ → Bool, (∀ x ∈ trail, value x.1 = x.2) → f.holds value = false

/-- In which state of the search each kind of step begins. -/
def Moment.Tracked (n : ℕ) : Moment → Prop
  | .descent s => s.Tracked n none
  | .decision v _ s => s.Tracked n (some v)
  | .scan s => s.Tracked n none
  | .evaluation s => s.Tracked n none ∧ s.trail.length = n
  | .backtrack v s => s.Tracked n (some v)

/-- What an outcome says of the trail below which was searched, and the state that is left. -/
inductive Settled (n : ℕ) (f : Formula) (trail : List (ℕ × Bool)) : Outcome × SearchState → Prop
  | solved {s : SearchState} (tracked : s.Tracked n none) (suffix : trail <:+ s.trail)
      (satisfied : f.satisfied s.branching.valueAt = true) : Settled n f trail (.solved, s)
  | exhausted {s : SearchState} (tracked : s.Tracked n none) (unchanged : s.trail = trail)
      (hopeless : f.Hopeless trail) : Settled n f trail (.exhausted, s)

/-- Either way the state that is left is tracked. -/
theorem Settled.tracked {n : ℕ} {f : Formula} {trail : List (ℕ × Bool)}
    {r : Outcome × SearchState} (h : Settled n f trail r) : r.2.Tracked n none := by
  cases h with
  | solved htracked => exact htracked
  | exhausted htracked => exact htracked

namespace SearchState

variable {n v left : ℕ} {b : Bool} {f : Formula} {s t : SearchState}
  {descend : SearchState → Watched (Outcome × SearchState)}

/-- Below refuted values there is no hope. -/
theorem Tracked.hopeless {held : Option ℕ} (h : Tracked n held s)
    (hrefuted : f.Refuted s.branching.valueAt) : f.Hopeless s.trail :=
  fun _ hagree => hrefuted.holds_eq_false (h.extends_iff.mpr hagree)

/-- A decision is made on the held variable, which goes on the trail. -/
theorem watchAssign_tracked (h : Tracked n (some v) s) :
    (s.watchAssign v b).Ensures (Moment.Tracked n) fun t =>
      Tracked n none t ∧ t.trail = (v, b) :: s.trail :=
  .meet h (.lift fun _ ht => h.assign ht)

/-- A scan begins in a tracked state, and its finding is right. -/
theorem watchScan_tracked (h : Tracked n none s) :
    (s.watchScan f).Ensures (Moment.Tracked n) fun r =>
      Tracked n none r.2 ∧ r.2.trail = s.trail ∧
        (r.1 = .satisfied → f.satisfied r.2.branching.valueAt = true) ∧
        ∀ why, r.1 = .conflict why → f.Refuted r.2.branching.valueAt :=
  .meet h (.lift fun _ hr => h.scan hr)

/-- Taking a decision back holds its variable again. -/
theorem retract_tracked (h : Tracked n none s) {rest : List (ℕ × Bool)}
    (htrail : s.trail = (v, b) :: rest) :
    Watched.Ensures (Moment.Tracked n) (fun t => Tracked n (some v) t ∧ t.trail = rest)
      (liftM (s.retract v) : Watched SearchState) :=
  .lift_except fun _ ht => h.retract htrail ht

/-- An evaluation with every variable on the trail settles it. -/
theorem watchEvaluate_settled (h : Tracked n none s) (hfull : s.trail.length = n) :
    (s.watchEvaluate f).Ensures (Moment.Tracked n) (Settled n f s.trail) := by
  refine .meet ⟨h, hfull⟩ (.lift_except fun r hr => ?_)
  obtain ⟨outcome, t⟩ := r
  obtain ⟨ht, htrail, hsolved, hexhausted⟩ := h.evaluate hfull hr
  cases outcome with
  | solved => exact .solved ht (by rw [htrail]) (hsolved rfl)
  | exhausted => exact .exhausted ht htrail (htrail ▸ ht.hopeless (hexhausted rfl))

/-- One value of the held variable is tried, with the search below as `descend`. -/
theorem watchValue_settled
    (hdescend : ∀ s, Tracked n none s → s.trail.length + left = n →
      (descend s).Ensures (Moment.Tracked n) (Settled n f s.trail))
    (h : Tracked n (some v) s) (hleft : s.trail.length + (left + 1) = n) :
    (watchValue f descend v b s).Ensures (Moment.Tracked n) (Settled n f ((v, b) :: s.trail)) := by
  refine (watchAssign_tracked h).bind fun s₁ ⟨h₁, htrail₁⟩ => ?_
  rw [← htrail₁]
  split
  case isTrue =>
    refine (watchScan_tracked h₁).bind fun r hr => ?_
    obtain ⟨finding, s₂⟩ := r
    obtain ⟨h₂, htrail₂, hsatisfied, hconflict⟩ := hr
    cases finding with
    | satisfied => exact .pure (.solved h₂ (by rw [htrail₂]) (hsatisfied rfl))
    | conflict why =>
      exact .pure (.exhausted h₂ htrail₂ (htrail₂ ▸ h₂.hopeless (hconflict why rfl)))
    | undecided =>
      rw [← htrail₂]
      refine hdescend s₂ h₂ ?_
      rw [htrail₂, htrail₁, List.length_cons]
      omega
  case isFalse hqueued =>
    refine watchEvaluate_settled h₁ (h₁.length_eq ?_)
    rwa [h₁.coherent.anyQueued_iff, not_not] at hqueued

/-- The values `bs` of the held variable are tried after the others have failed. -/
theorem watchValues_settled
    (hdescend : ∀ s, Tracked n none s → s.trail.length + left = n →
      (descend s).Ensures (Moment.Tracked n) (Settled n f s.trail))
    {bs : List Bool} (h : Tracked n (some v) s) (hleft : s.trail.length + (left + 1) = n)
    (hfailed : ∀ b, b ∉ bs → f.Hopeless ((v, b) :: s.trail)) :
    (watchValues f descend v bs s).Ensures (Moment.Tracked n) (Settled n f s.trail) := by
  -- Each value that fails leaves `bs`, so at the end no value is left that has not failed.
  induction bs generalizing s with
  | nil =>
    refine .bind (.meet h (.lift fun t ht => h.backtrack ht)) fun t ⟨ht, htrail⟩ => ?_
    refine .pure (.exhausted ht htrail fun value hagree => ?_)
    exact hfailed (value v) List.not_mem_nil value (List.forall_mem_cons.mpr ⟨rfl, hagree⟩)
  | cons b bs ih =>
    refine (watchValue_settled hdescend h hleft).bind fun r hr => ?_
    cases hr with
    | solved htracked hsuffix hsatisfied =>
      exact .pure (.solved htracked ((List.suffix_cons _ _).trans hsuffix) hsatisfied)
    | exhausted htracked hunchanged hhopeless =>
      refine (retract_tracked htracked hunchanged).bind fun t ⟨ht, htrail⟩ => ?_
      rw [← htrail] at hleft hfailed hhopeless ⊢
      refine ih ht hleft fun d hd => ?_
      by_cases hdb : d = b
      · exact hdb ▸ hhopeless
      · exact hfailed d (by simp [hdb, hd])

/-- Both values of a chosen variable are tried. -/
theorem mem_values (choice : Choice) (b : Bool) : b ∈ choice.values := by
  simp only [Choice.values, List.mem_cons]
  cases b <;> cases choice.first <;> simp

/-- A search below a trail settles it, and the state is tracked at every moment of it. -/
theorem watchExplore_settled (h : Tracked n none s) (hleft : s.trail.length + left = n) :
    (watchExplore f left s).Ensures (Moment.Tracked n) (Settled n f s.trail) := by
  -- On the variables without a value; a variable is selected and held for each level.
  induction left generalizing s with
  | zero => exact .meet h (watchEvaluate_settled h hleft)
  | succ left ih =>
    refine .meet h ?_
    refine .bind (.lift fun r hr => hr) fun r hr => ?_
    cases r with
    | none => exact watchEvaluate_settled h (h.length_eq (h.coherent.select_eq_none.mp hr))
    | some r =>
      obtain ⟨choice, branching'⟩ := r
      refine watchValues_settled (fun s hs hs' => ih hs hs') (h.select hr) hleft fun b hb => ?_
      exact absurd (mem_values choice b) hb

/-- The answer of a run says how the search below the trail at its start was settled. -/
theorem watchRun_settled (h : Tracked n none s) :
    (s.watchRun f).Ensures (Moment.Tracked n) fun r =>
      Settled n f s.trail (.solved, r.2) ∧ r.1 = some r.2.branching.model ∨
        Settled n f s.trail (.exhausted, r.2) ∧ r.1 = none := by
  refine (watchExplore_settled h h.length_add_queued).bind fun r hr => ?_
  obtain ⟨outcome, t⟩ := r
  cases outcome with
  | solved => exact .pure (.inl ⟨hr, rfl⟩)
  | exhausted => exact .pure (.inr ⟨hr, rfl⟩)

/-- A run is tracked at every moment and after it. -/
theorem watchRun_tracked (h : Tracked n none s) :
    (s.watchRun f).Ensures (Moment.Tracked n) fun r => Tracked n none r.2 where
  moments := (watchRun_settled h).moments
  result r hr := by
    rcases (watchRun_settled h).result r hr with ⟨hsettled, -⟩ | ⟨hsettled, -⟩
    · exact hsettled.tracked
    · exact hsettled.tracked

/-- Runs in succession are tracked at every moment and after them. -/
theorem watchRuns_tracked {k : ℕ} (h : Tracked n none s) :
    (watchRuns f k s).Ensures (Moment.Tracked n) fun r => Tracked n none r.2 := by
  induction k generalizing s with
  | zero => exact .pure h
  | succ k ih => exact (watchRun_tracked h).bind fun r hr => (ih hr).bind fun r' hr' => .pure hr'

/-- If variable 1 is false, variable 2 must be true, and then variable 3 would need both values. -/
def deadEnd : Formula := ⟨3, [.ofCodes [1, 2], .ofCodes [-2, 3], .ofCodes [-2, -3]]⟩

end SearchState

end SatSearch
