import SatSearch.Proofs.Search.Moments
import Mathlib.Data.List.Induction

/-!
# What the moments of a search add up to

The moments of a part of a search say what that part adds to the counters and which variables it
selects, each with the value to try first. `Relates` is for what holds of the moments of a
computation and its result together.
-/

namespace SatSearch

variable {v : ℕ} {c : Choice} {m : Moment} {ms ns : List Moment}

instance : Add Statistics where
  add t u :=
    { decisions := t.decisions + u.decisions
      scans := t.scans + u.scans
      evaluations := t.evaluations + u.evaluations
      backtracks := t.backtracks + u.backtracks }

namespace Statistics

variable (t u : Statistics)

/-- Decisions are added. -/
@[simp] theorem add_decisions : (t + u).decisions = t.decisions + u.decisions := rfl

/-- Scans are added. -/
@[simp] theorem add_scans : (t + u).scans = t.scans + u.scans := rfl

/-- Evaluations are added. -/
@[simp] theorem add_evaluations : (t + u).evaluations = t.evaluations + u.evaluations := rfl

/-- Backtracks are added. -/
@[simp] theorem add_backtracks : (t + u).backtracks = t.backtracks + u.backtracks := rfl

end Statistics

/-- What these moments count up to. -/
def spent (ms : List Moment) : Statistics := ms.foldl Statistics.counting {}

/-- Counting moments one by one adds what they spend. -/
theorem foldl_counting (t : Statistics) : ms.foldl Statistics.counting t = t + spent ms := by
  induction ms using List.reverseRecOn with
  | nil => rfl
  | append_singleton ms m ih =>
    rw [spent, List.foldl_append, List.foldl_append, ih, ← spent]
    cases m <;> rfl

/-- Two lists of moments spend what both spend. -/
theorem spent_append : spent (ms ++ ns) = spent ms + spent ns := by
  rw [spent, List.foldl_append, foldl_counting, ← spent]

/-- The variable selected at this moment with the value to try first, if one is. -/
def Moment.choice? : Moment → Option Choice
  | .descent s =>
    match s.branching.select.result with
    | .ok (some (choice, _)) => some choice
    | _ => none
  | _ => none

/-- What was selected at these moments. -/
def choices (ms : List Moment) : List Choice := ms.filterMap Moment.choice?

/-- The selections of two lists are those of the first and those of the second. -/
theorem choices_append : choices (ms ++ ns) = choices ms ++ choices ns := List.filterMap_append

/-- The choice with which this variable was last selected. -/
def latestChoice (ms : List Moment) (v : ℕ) : Option Choice :=
  (choices ms).reverse.find? fun c => c.var = v

/-- The latest selection of a variable is in the later moments if there is one. -/
theorem latestChoice_append :
    latestChoice (ms ++ ns) v = (latestChoice ns v).or (latestChoice ms v) := by
  rw [latestChoice, choices_append, List.reverse_append, List.find?_append]
  rfl

/-- Earlier moments do not change the latest selection. -/
theorem latestChoice_of_later (h : latestChoice ns v = some c) :
    latestChoice (ms ++ ns) v = some c := by
  rw [latestChoice_append, h, Option.some_or]

/-- Moments at which a variable is not selected do not count for it. -/
theorem latestChoice_of_fresh (h : ∀ c ∈ choices ns, c.var ≠ v) :
    latestChoice (ms ++ ns) v = latestChoice ms v := by
  have hnone : latestChoice ns v = none := by
    rw [latestChoice, List.find?_eq_none]
    intro c hc
    simpa using h c (List.mem_reverse.mp hc)
  rw [latestChoice_append, hnone, Option.none_or]

/-- How many of these variables hold the second value of the order in which they were last to be
tried. -/
def seconds (ms : List Moment) (trail : List (ℕ × Bool)) : ℕ :=
  trail.countP fun x => latestChoice ms x.1 = some ⟨x.1, !x.2⟩

/-- Each of these variables has been selected at one of the moments. -/
def Chosen (ms : List Moment) (trail : List (ℕ × Bool)) : Prop :=
  ∀ x ∈ trail, ∃ first, latestChoice ms x.1 = some ⟨x.1, first⟩

variable {trail : List (ℕ × Bool)}

/-- The second values of two parts of a trail are those of both. -/
theorem seconds_append {trail' : List (ℕ × Bool)} :
    seconds ms (trail ++ trail') = seconds ms trail + seconds ms trail' := List.countP_append

/-- Earlier moments do not matter once a variable has been selected. -/
theorem Chosen.append_left (h : Chosen ns trail) (ms : List Moment) : Chosen (ms ++ ns) trail := by
  intro x hx
  obtain ⟨first, hfirst⟩ := h x hx
  exact ⟨first, latestChoice_of_later hfirst⟩

/-- Earlier moments do not change which values are second ones. -/
theorem Chosen.seconds_append_left (h : Chosen ns trail) (ms : List Moment) :
    seconds (ms ++ ns) trail = seconds ns trail := by
  refine List.countP_congr fun x hx => ?_
  obtain ⟨first, hfirst⟩ := h x hx
  rw [latestChoice_of_later hfirst, hfirst]

namespace Watched

variable {α β : Type} {P : Moment → Prop} {Q : α → Prop} {R R' : List Moment → α → Prop}
  {S : List Moment → β → Prop} {x : Watched α}

/-- What follows without moments of its own adds none. -/
theorem moments_bind_of_silent {f : α → Watched β} (h : ∀ a, (f a).moments = []) :
    (x >>= f).moments = x.moments := by
  simp only [Bind.bind, Watched.bind]
  split
  · rw [h, List.append_nil]
  · rfl

/-- Every moment is as `P` says, and the result, if there is one, is as `R` says together with all
moments. -/
structure Relates (P : Moment → Prop) (R : List Moment → α → Prop) (x : Watched α) : Prop where
  moments : ∀ m ∈ x.moments, P m
  result : ∀ a, x.run.result = .ok a → R x.moments a

namespace Relates

/-- A value meets no moments. -/
theorem pure {a : α} (h : R [] a) : Relates P R (Pure.pure a : Watched α) where
  moments := by intro m hm; cases hm
  result b hb := by cases hb; exact h

/-- Two steps relate the moments of both to their result. -/
theorem bind {f : α → Watched β} (hx : Relates P R x)
    (hf : ∀ ms a, R ms a → Relates P (fun ns b => S (ms ++ ns) b) (f a)) :
    Relates P S (x >>= f) where
  moments m hm := by
    rcases mem_moments_bind hm with hm | ⟨a, ha, hm⟩
    · exact hx.moments m hm
    · exact (hf _ a (hx.result a ha)).moments m hm
  result b hb := by
    obtain ⟨a, ha, hb⟩ := Logged.bind_eq_ok.mp hb
    rw [moments_bind_of_ok ha]
    exact (hf _ a (hx.result a ha)).result b hb

/-- Coming to a moment and doing its step. -/
theorem step {y : Logged Fault α} (hm : P m) (h : ∀ a, y.result = .ok a → R [m] a) :
    Relates P R (do Watched.meet m; y) where
  moments d hd := by
    obtain rfl : d = m := List.mem_singleton.mp hd
    exact hm
  result := h

/-- A moment comes before those that follow. -/
theorem meet {f : Unit → Watched α} (hm : P m) (hf : Relates P (fun ms a => R (m :: ms) a) (f ())) :
    Relates P R (Watched.meet m >>= f) := by
  have hmeet : Relates P (fun ms _ => ms = [m]) (Watched.meet m) :=
    ⟨fun _ hd => List.mem_singleton.mp hd ▸ hm, fun _ _ => rfl⟩
  refine hmeet.bind fun ms _ hms => ?_
  subst hms
  exact hf

/-- A step at which no moment is listed. -/
theorem lift {y : Logged Fault α} (h : ∀ a, y.result = .ok a → R [] a) :
    Relates P R (liftM y : Watched α) where
  moments := by intro m hm; cases hm
  result := h

/-- A step meets no moments. -/
theorem lift_except {y : Except Fault α} (h : ∀ a, y = .ok a → R [] a) :
    Relates P R (liftM y : Watched α) where
  moments := by intro m hm; cases hm
  result := h

/-- What the moments are related to may be weakened. -/
theorem mono (hx : Relates P R x) (h : ∀ ms a, R ms a → R' ms a) : Relates P R' x where
  moments := hx.moments
  result a ha := h _ a (hx.result a ha)

/-- What is ensured of the result holds of it as well. -/
theorem and_ensures {P' : Moment → Prop} (hx : Relates P R x) (h : Ensures P' Q x) :
    Relates P (fun ms a => R ms a ∧ Q a) x where
  moments := hx.moments
  result a ha := ⟨hx.result a ha, h.result a ha⟩

end Relates

end Watched

end SatSearch
