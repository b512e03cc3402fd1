import SatSearch.Proofs.Search.Moments

/-!
# How the moments of a search follow one another

At each moment a step begins, and what it leaves is the state in which the next moment comes, unless
a variable is first taken off the trail because a value of it has failed. So the moments of a search
that ends lead from the state at its start to the state at its end, and a property of single steps
carries over to everything that happens in between.
-/

namespace SatSearch

/-- The state in which the step of a moment begins. -/
def Moment.state : Moment → SearchState
  | .descent s => s
  | .decision _ _ s => s
  | .scan s => s
  | .evaluation s => s
  | .backtrack _ s => s

/-- The step that begins at a moment of a search leaves this state. A level down the step is the
selection of a variable, and if none is selected nothing happens. -/
inductive Moment.Leads (f : Formula) : Moment → SearchState → Prop
  | unselected {s : SearchState} : Leads f (.descent s) s
  | selected {s : SearchState} {choice : Choice} {branching : Branching}
      (select : s.branching.select.result = .ok (some (choice, branching))) :
      Leads f (.descent s) { s with branching }
  | decision {v : ℕ} {b : Bool} {s t : SearchState} (assign : (s.assign v b).result = .ok t) :
      Leads f (.decision v b s) t
  | scan {s t : SearchState} {finding : Finding} (scan : (s.scan f).result = .ok (finding, t)) :
      Leads f (.scan s) t
  | evaluation {s t : SearchState} {outcome : Outcome}
      (evaluate : s.evaluate f = .ok (outcome, t)) : Leads f (.evaluation s) t
  | backtrack {v : ℕ} {s t : SearchState} (backtrack : (s.backtrack v).result = .ok t) :
      Leads f (.backtrack v s) t

/-- These moments lead from one state to another, with variables taken off the trail in between. -/
inductive Path (f : Formula) : SearchState → List Moment → SearchState → Prop
  | done {s : SearchState} : Path f s [] s
  | step {s t u : SearchState} {m : Moment} {ms : List Moment} (begins : m.state = s)
      (leads : m.Leads f t) (rest : Path f t ms u) : Path f s (m :: ms) u
  | retract {s t u : SearchState} {v : ℕ} {ms : List Moment} (retract : s.retract v = .ok t)
      (rest : Path f t ms u) : Path f s ms u

namespace Path

variable {f : Formula} {s t u : SearchState} {ms ns : List Moment}

/-- One path after another. -/
theorem append (h : Path f s ms t) (h' : Path f t ns u) : Path f s (ms ++ ns) u := by
  induction h with
  | done => exact h'
  | step begins leads _ ih => exact .step begins leads (ih h')
  | retract hretract _ ih => exact .retract hretract (ih h')

/-- Each moment of a path leads to where the rest of the path begins. -/
theorem exists_leads {before after : List Moment} {m : Moment}
    (h : Path f s (before ++ m :: after) u) : ∃ t, m.Leads f t ∧ Path f t after u := by
  generalize hms : before ++ m :: after = ms at h
  induction h generalizing before with
  | done => simp at hms
  | @step s t u d ms begins leads rest ih =>
    cases before with
    | nil =>
      obtain ⟨rfl, rfl⟩ := List.cons.inj hms
      exact ⟨t, leads, rest⟩
    | cons _ before => exact ih (List.cons.inj hms).2
  | retract _ _ ih => exact ih hms

end Path

namespace Watched

variable {α β γ : Type} {f : Formula} {s : SearchState} {after : α → SearchState}
  {after' : β → SearchState} {x : Watched α} {m : Moment}

/-- Two watched computations are the same if they list the same and do the same. -/
theorem ext {y : Watched α} (hmoments : x.moments = y.moments) (hrun : x.run = y.run) : x = y := by
  cases x
  cases y
  simp_all

/-- A sequence of three computations, of which the first two belong together. -/
theorem assoc (x : Watched α) (g : α → Watched β) (k : β → Watched γ) :
    x >>= g >>= k = x >>= fun a => g a >>= k := by
  apply ext
  · simp only [Bind.bind, Watched.bind]
    cases hx : x.run.result with
    | error e => simp [Logged.bind, hx]
    | ok a => cases hg : (g a).run.result <;> simp [Logged.bind, hx, hg]
  · simp only [run_bind, bind_assoc]

/-- The computation begins in a state and goes through moments that lead from there to where its
result is. -/
def Follows (f : Formula) (s : SearchState) (after : α → SearchState) (x : Watched α) : Prop :=
  ∀ a, x.run.result = .ok a → Path f s x.moments (after a)

namespace Follows

/-- A result without moments stays where it is. -/
theorem pure {a : α} (h : after a = s) : Follows f s after (Pure.pure a : Watched α) := by
  intro b hb
  cases hb
  exact h ▸ .done

/-- A sequence follows if both its parts do. -/
theorem bind {g : α → Watched β} (hx : Follows f s after x)
    (hg : ∀ a, Follows f (after a) after' (g a)) : Follows f s after' (x >>= g) := by
  intro b hb
  obtain ⟨a, ha, hb⟩ := Logged.bind_eq_ok.mp hb
  rw [moments_bind_of_ok ha]
  exact (hx a ha).append (hg a b hb)

/-- Coming to a moment and doing its step. -/
theorem meet {y : Logged Fault α} (hy : ∀ a, y.result = .ok a → m.Leads f (after a)) :
    Follows f m.state after (do Watched.meet m; y) :=
  fun a ha => .step rfl (hy a ha) .done

/-- Coming to a moment at which nothing happens. -/
theorem meet_idle {g : Unit → Watched α} (hm : m.Leads f m.state)
    (hg : Follows f m.state after (g ())) : Follows f m.state after (Watched.meet m >>= g) := by
  have hmeet : Follows f m.state (fun _ => m.state) (Watched.meet m) :=
    fun _ _ => .step rfl hm .done
  exact hmeet.bind fun _ => hg

/-- Taking a decision back is no moment. -/
theorem retract {v : ℕ} :
    Follows f s (fun t => t) (liftM (s.retract v) : Watched SearchState) :=
  fun _ ht => .retract ht .done

end Follows

end Watched

namespace SearchState

variable {f : Formula}

/-- An evaluation leads to its end. -/
theorem watchEvaluate_follows (s : SearchState) :
    (s.watchEvaluate f).Follows f s fun r => r.2 :=
  .meet (m := .evaluation s) fun _ hr => .evaluation hr

/-- A scan leads to its end. -/
theorem watchScan_follows (s : SearchState) : (s.watchScan f).Follows f s fun r => r.2 :=
  .meet (m := .scan s) fun _ hr => .scan hr

/-- A decision leads to its end. -/
theorem watchAssign_follows (v : ℕ) (b : Bool) (s : SearchState) :
    (s.watchAssign v b).Follows f s fun t => t :=
  .meet (m := .decision v b s) fun _ ht => .decision ht

/-- Giving a variable up leads to its end. -/
theorem watchBacktrack_follows (v : ℕ) (s : SearchState) :
    (s.watchBacktrack v).Follows f s fun t => t :=
  .meet (m := .backtrack v s) fun _ ht => .backtrack ht

/-- Trying a value leads to its end if going on does. -/
theorem watchValue_follows {descend : SearchState → Watched (Outcome × SearchState)}
    (hdescend : ∀ s, (descend s).Follows f s fun r => r.2) (v : ℕ) (b : Bool) (s : SearchState) :
    (watchValue f descend v b s).Follows f s fun r => r.2 := by
  refine (watchAssign_follows v b s).bind fun s => ?_
  split
  · refine (watchScan_follows s).bind fun r => ?_
    obtain ⟨finding, s⟩ := r
    cases finding with
    | satisfied => exact .pure rfl
    | conflict why => exact .pure rfl
    | undecided => exact hdescend s
  · exact watchEvaluate_follows s

/-- Trying values leads to its end if going on does. -/
theorem watchValues_follows {descend : SearchState → Watched (Outcome × SearchState)}
    (hdescend : ∀ s, (descend s).Follows f s fun r => r.2) (v : ℕ) (bs : List Bool)
    (s : SearchState) : (watchValues f descend v bs s).Follows f s fun r => r.2 := by
  induction bs generalizing s with
  | nil => exact (watchBacktrack_follows v s).bind fun s => .pure rfl
  | cons b bs ih =>
    refine (watchValue_follows hdescend v b s).bind fun r => ?_
    obtain ⟨outcome, s⟩ := r
    cases outcome with
    | solved => exact .pure rfl
    | exhausted => exact Watched.Follows.retract.bind ih

/-- The state that a selection leaves, by its answer. -/
def afterSelection (s : SearchState) : Option (Choice × Branching) → SearchState
  | none => s
  | some (_, branching) => { s with branching }

/-- The moments of a search lead from the state at its start to the state at its end. -/
theorem watchExplore_follows (left : ℕ) (s : SearchState) :
    (watchExplore f left s).Follows f s fun r => r.2 := by
  induction left generalizing s with
  | zero => exact .meet_idle (m := .descent s) .unselected (watchEvaluate_follows s)
  | succ left ih =>
    -- A selection changes the state by itself, so it is split off from the trials after it.
    have hselect : (do
        Watched.meet (.descent s)
        s.branching.select : Watched (Option (Choice × Branching))).Follows f s
          s.afterSelection := by
      refine .meet (m := .descent s) fun r hr => ?_
      cases r with
      | none => exact .unselected
      | some r => exact .selected hr
    rw [watchExplore_succ, ← Watched.assoc]
    refine hselect.bind fun r => ?_
    cases r with
    | none => exact watchEvaluate_follows _
    | some r => exact watchValues_follows ih _ _ _

end SearchState

end SatSearch
