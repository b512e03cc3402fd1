import SatSearch.Proofs.Search.Shown
import SatSearch.Proofs.Search.Transcript
import SatSearch.Proofs.Search.Undone

/-!
# What a search reports of itself

A search reports a transcript that leads from the decisions at its start to those at its end, and
every trial and every backtrack is counted as it is reported. The induction is on the number of
queued variables. At one level the two values of a variable are tried one after the other, and that
the decisions are as before when a value has failed is known from how a search is settled.
-/

namespace SatSearch

namespace Logged

variable {α β : Type} {R R' : List Message → α → Prop} {S : List Message → β → Prop}
  {x : Logged Fault α}

/-- The result, if there is one, is as `R` says together with the messages. -/
def Reports (R : List Message → α → Prop) (x : Logged Fault α) : Prop :=
  ∀ a, x.result = .ok a → R x.messages a

namespace Reports

/-- A result without messages. -/
theorem pure {a : α} (h : R [] a) : Reports R (Pure.pure a : Logged Fault α) := by
  intro b hb
  cases hb
  exact h

/-- A sequence reports what its parts report, one after the other. -/
theorem bind {f : α → Logged Fault β} (hx : Reports R x)
    (hf : ∀ ms a, x.result = .ok a → R ms a → Reports (fun ns b => S (ms ++ ns) b) (f a)) :
    Reports S (x >>= f) := by
  intro b hb
  obtain ⟨a, ha, hb⟩ := Logged.bind_eq_ok.mp hb
  rw [bind_of_ok ha]
  exact hf _ a ha (hx a ha) b hb

/-- A step that reports nothing, and what follows. -/
theorem lift_bind {y : Except Fault α} {f : α → Logged Fault β}
    (hf : ∀ a, y = .ok a → Reports S (f a)) : Reports S (liftM y >>= f) := by
  have hy : Reports (fun ms _ => ms = []) (liftM y : Logged Fault α) := fun _ _ => rfl
  refine hy.bind fun ms a ha hms => ?_
  subst hms
  exact hf a ha

/-- A message, and what follows. -/
theorem log_bind {m : Message} {f : Unit → Logged Fault β}
    (hf : Reports (fun ms b => S (m :: ms) b) (f ())) : Reports S (Logged.log m >>= f) := by
  have hm : Reports (fun ms _ => ms = [m]) (Logged.log m : Logged Fault Unit) := fun _ _ => rfl
  refine hm.bind fun ms _ _ hms => ?_
  subst hms
  exact hf

/-- What is reported may be said less exactly. -/
theorem mono (hx : Reports R x) (h : ∀ ms a, R ms a → R' ms a) : Reports R' x :=
  fun a ha => h _ a (hx a ha)

end Reports

end Logged

/-- The counters have grown with the messages. -/
structure Counted (t : Statistics) (log : List Message) (u : Statistics) : Prop where
  decisions : u.decisions = t.decisions + log.countP Message.isTrial
  backtracks : u.backtracks = t.backtracks + log.countP Message.isBacktrack

/-- The transcript of trying these values of a variable in turn and of giving it up if all fail. -/
inductive ValuesTranscript (n v : ℕ) (path : List (ℕ × Bool)) :
    (values : List Bool) → (log : List Message) → (path' : List (ℕ × Bool)) → Prop
  | givenUp {p : Priority} :
      ValuesTranscript n v path [] [.backtracked v (path.length + 1) p] path
  | ended {b : Bool} {bs : List Bool} {log : List Message} {path' : List (ℕ × Bool)}
      (below : Transcript n (path ++ [(v, b)]) log path') :
      ValuesTranscript n v path (b :: bs) (.tried (path.length + 1) v b :: log) path'
  | failed {b : Bool} {bs : List Bool} {log log' : List Message} {path' : List (ℕ × Bool)}
      (below : Transcript n (path ++ [(v, b)]) log (path ++ [(v, b)]))
      (rest : ValuesTranscript n v path bs log' path') :
      ValuesTranscript n v path (b :: bs) (.tried (path.length + 1) v b :: log ++ log') path'

variable {n v q left : ℕ} {a b : Bool} {bs : List Bool} {f : Formula} {t u w : Statistics}
  {log log' : List Message} {path path' : List (ℕ × Bool)}

/-- Messages are counted one after the other. -/
theorem Counted.trans (h : Counted t log u) (h' : Counted u log' w) :
    Counted t (log ++ log') w where
  decisions := by rw [h'.decisions, h.decisions, List.countP_append, Nat.add_assoc]
  backtracks := by rw [h'.backtracks, h.backtracks, List.countP_append, Nat.add_assoc]

/-- What a scan reports is not counted. -/
theorem Counted.of_remarks (hlog : ∀ m ∈ log, m.origin = .scan) : Counted t log t := by
  have hnone : ∀ m ∈ log, m.isTrial = false ∧ m.isBacktrack = false := by
    intro m hm
    obtain ⟨c, rfl⟩ | ⟨w, rfl⟩ := Message.eq_of_origin_scan (hlog m hm)
    · exact ⟨rfl, rfl⟩
    · exact ⟨rfl, rfl⟩
  have htrial : log.countP Message.isTrial = 0 :=
    List.countP_eq_zero.mpr fun m hm => by rw [(hnone m hm).1]; exact Bool.false_ne_true
  have hbacktrack : log.countP Message.isBacktrack = 0 :=
    List.countP_eq_zero.mpr fun m hm => by rw [(hnone m hm).2]; exact Bool.false_ne_true
  exact ⟨by rw [htrial, Nat.add_zero], by rw [hbacktrack, Nat.add_zero]⟩

/-- The transcript of both values of a variable, after its selection. -/
theorem ValuesTranscript.transcript (h : ValuesTranscript n v path [a, !a] log path')
    (hfresh : v ∉ path.map Prod.fst) (hleft : path.length + 1 + q = n) :
    Transcript n path (.selected v a q :: log) path' := by
  cases h with
  | ended hbelow => exact .first hfresh hleft hbelow
  | failed hfailed hrest =>
    cases hrest with
    | ended hbelow => exact .second hfresh hleft hfailed hbelow
    | failed hfailed' hrest =>
      cases hrest with
      | givenUp =>
        rw [← List.append_assoc, ← List.cons_append]
        exact .neither hfresh hleft hfailed hfailed'

namespace SearchState

variable {s s' : SearchState} {r : Outcome × SearchState}

/-- The messages are a transcript that leads to the state of the result, and they are counted. -/
structure Recorded (n : ℕ) (s : SearchState) (log : List Message) (r : Outcome × SearchState) :
    Prop where
  transcript : Transcript n s.path log r.2.path
  counted : Counted s.statistics log r.2.statistics

/-- What a scan reports is not counted, and the search goes on from the same decisions. -/
theorem Recorded.of_scan {finding : Finding} (hok : (s.scan f).result = .ok (finding, s'))
    (hlog : ∀ m ∈ log, m.origin = .scan) (h : Recorded n s' log' r) :
    Recorded n s (log ++ log') r := by
  obtain ⟨propagator, branching, -, rfl⟩ := scan_ok hok
  have hcounted : Counted s.statistics log s.statistics := .of_remarks hlog
  exact ⟨h.transcript.of_remarks hlog, hcounted.trans ⟨h.counted.decisions, h.counted.backtracks⟩⟩

/-- Without messages nothing has changed. -/
theorem Recorded.refl (outcome : Outcome) : Recorded n s [] (outcome, s) := ⟨.quiet, rfl, rfl⟩

end SearchState

end SatSearch
