import SatSearch.Search
import SatSearch.Proofs.Faults
import Mathlib.Data.Nat.Notation

/-!
# Watched computations

A watched computation lists the moments it goes through, each with the state of the search in it, up
to the fault that ends it if one does. `Ensures` is about all of them together with the result, and
`Tallies` says that counters kept by the computation itself count them.
-/

namespace SatSearch

/-- The counters after a moment. -/
def Statistics.counting (t : Statistics) : Moment → Statistics
  | .descent _ => t
  | .decision _ _ _ => { t with decisions := t.decisions + 1 }
  | .scan _ => { t with scans := t.scans + 1 }
  | .evaluation _ => { t with evaluations := t.evaluations + 1 }
  | .backtrack _ _ => { t with backtracks := t.backtracks + 1 }

/-- Every counter fits into 64 bits. -/
structure Statistics.Fits (t : Statistics) : Prop where
  decisions : t.decisions < longSize
  scans : t.scans < longSize
  evaluations : t.evaluations < longSize
  backtracks : t.backtracks < longSize

instance (t : Statistics) : Decidable t.Fits :=
  decidable_of_iff (t.decisions < longSize ∧ t.scans < longSize ∧ t.evaluations < longSize ∧
      t.backtracks < longSize)
    ⟨fun ⟨hdecisions, hscans, hevaluations, hbacktracks⟩ =>
      ⟨hdecisions, hscans, hevaluations, hbacktracks⟩,
    fun h => ⟨h.decisions, h.scans, h.evaluations, h.backtracks⟩⟩

/-- A computation together with the moments it goes through, up to its fault if it has one. -/
structure Watched (α : Type) where
  moments : List Moment
  run : Logged Fault α

namespace Watched

variable {α β : Type}

/-- A result without moments. -/
protected def pure (a : α) : Watched α := ⟨[], pure a⟩

/-- Runs a computation and, unless it faults, the next one on its result. -/
protected def bind (x : Watched α) (f : α → Watched β) : Watched β :=
  ⟨match x.run.result with
    | .ok a => x.moments ++ (f a).moments
    | .error _ => x.moments,
   x.run >>= fun a => (f a).run⟩

instance : Monad Watched where
  pure := Watched.pure
  bind := Watched.bind

instance : MonadLift (Logged Fault) Watched := ⟨fun x => ⟨[], x⟩⟩

/-- Lists a moment. -/
def meet (m : Moment) : Watched Unit := ⟨[m], pure ()⟩

/-- A watched sequence runs as the sequence. -/
@[simp] theorem run_bind (x : Watched α) (f : α → Watched β) :
    (x >>= f).run = x.run >>= fun a => (f a).run := rfl

/-- A lifted step runs as the step. -/
@[simp] theorem run_lift (x : Logged Fault α) : (liftM x : Watched α).run = x := rfl

/-- A moment is not seen by the run. -/
@[simp] theorem run_meet (m : Moment) : (meet m).run = pure () := rfl

/-- A sequence goes through the moments of both its parts unless the first one faults. -/
theorem moments_bind_of_ok {x : Watched α} {f : α → Watched β} {a : α}
    (ha : x.run.result = .ok a) : (x >>= f).moments = x.moments ++ (f a).moments := by
  simp only [Bind.bind, Watched.bind, ha]

/-- A moment of a sequence is one of its first step or of its second. -/
theorem mem_moments_bind {x : Watched α} {f : α → Watched β} {m : Moment}
    (hm : m ∈ (x >>= f).moments) :
    m ∈ x.moments ∨ ∃ a, x.run.result = .ok a ∧ m ∈ (f a).moments := by
  simp only [Bind.bind, Watched.bind] at hm
  split at hm
  case h_1 a ha => exact (List.mem_append.mp hm).imp_right fun hm => ⟨a, ha, hm⟩
  case h_2 => exact .inl hm

/-- Every moment is as `P` says, and so is the result, if there is one, for `Q`. -/
structure Ensures (P : Moment → Prop) (Q : α → Prop) (x : Watched α) : Prop where
  moments : ∀ m ∈ x.moments, P m
  result : ∀ a, x.run.result = .ok a → Q a

namespace Ensures

variable {P : Moment → Prop} {Q : α → Prop} {S : β → Prop} {x : Watched α}

/-- A value meets no moments. -/
theorem pure {a : α} (h : Q a) : Ensures P Q (Pure.pure a : Watched α) where
  moments := by intro m hm; cases hm
  result b hb := by cases hb; exact h

/-- What each step of a sequence ensures the sequence does. -/
theorem bind {f : α → Watched β} (hx : Ensures P Q x) (hf : ∀ a, Q a → Ensures P S (f a)) :
    Ensures P S (x >>= f) where
  moments m hm := by
    rcases mem_moments_bind hm with hm | ⟨a, ha, hm⟩
    · exact hx.moments m hm
    · exact (hf a (hx.result a ha)).moments m hm
  result b hb := by
    obtain ⟨a, ha, hb⟩ := Logged.bind_eq_ok.mp hb
    exact (hf a (hx.result a ha)).result b hb

/-- A logged step meets no moments. -/
theorem lift {y : Logged Fault α} (h : ∀ a, y.result = .ok a → Q a) :
    Ensures P Q (liftM y : Watched α) where
  moments := by intro m hm; cases hm
  result := h

/-- A step meets no moments. -/
theorem lift_except {y : Except Fault α} (h : ∀ a, y = .ok a → Q a) :
    Ensures P Q (liftM y : Watched α) where
  moments := by intro m hm; cases hm
  result := h

/-- A moment that is as wanted may come first. -/
theorem meet {m : Moment} (h : P m) {f : Unit → Watched α} (hf : Ensures P Q (f ())) :
    Ensures P Q (meet m >>= f) := by
  have hmeet : Ensures P (fun _ => True) (Watched.meet m) :=
    ⟨fun _ hm => List.mem_singleton.mp hm ▸ h, fun _ _ => trivial⟩
  exact hmeet.bind fun _ _ => hf

end Ensures

/-- The counters begin as `t` and end, if there is a result, with the moments counted. -/
def Tallies (t : Statistics) (after : α → Statistics) (x : Watched α) : Prop :=
  ∀ a, x.run.result = .ok a → after a = x.moments.foldl Statistics.counting t

namespace Tallies

variable {t : Statistics} {after : α → Statistics} {after' : β → Statistics} {x : Watched α}

/-- A value leaves the counters. -/
theorem pure {a : α} (h : after a = t) : Tallies t after (Pure.pure a : Watched α) := by
  intro b hb
  cases hb
  exact h

/-- The counters of a sequence are those that its steps leave. -/
theorem bind {f : α → Watched β} (hx : Tallies t after x)
    (hf : ∀ a, Tallies (after a) after' (f a)) : Tallies t after' (x >>= f) := by
  intro b hb
  obtain ⟨a, ha, hb⟩ := Logged.bind_eq_ok.mp hb
  rw [moments_bind_of_ok ha, List.foldl_append, ← hx a ha]
  exact hf a b hb

/-- A logged step leaves the counters alone. -/
theorem lift {y : Logged Fault α} (h : ∀ a, y.result = .ok a → after a = t) :
    Tallies t after (liftM y : Watched α) := h

/-- A step that reports nothing leaves the counters alone. -/
theorem lift_except {y : Except Fault α} (h : ∀ a, y = .ok a → after a = t) :
    Tallies t after (liftM y : Watched α) := h

/-- A moment is counted before what follows. -/
theorem meet {m : Moment} {f : Unit → Watched α} (hf : Tallies (t.counting m) after (f ())) :
    Tallies t after (Watched.meet m >>= f) := by
  have hmeet : Tallies t (fun _ => t.counting m) (Watched.meet m) := fun _ _ => rfl
  exact hmeet.bind fun _ => hf

end Tallies

end Watched

end SatSearch
