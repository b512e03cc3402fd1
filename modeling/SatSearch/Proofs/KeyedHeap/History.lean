import SatSearch.Proofs.KeyedHeap.PopMax
import Mathlib.Data.Finset.Filter
import Mathlib.Data.Finset.Range

/-!
# The history of a heap decides its contents

A heap is created empty and then only changed by calls of `insert`, `update` and `popMax`. The calls
with their answers are its history. No such call on variables of the table ever faults, and after
any number of them the heap holds what the history says: the key of a variable is the one that it
was given last, and it is queued if it was inserted since it was last taken out.
-/

namespace SatSearch.KeyedHeap

variable {c v k : ℕ} {q : KeyedHeap}

/-- A call that changes a heap. -/
inductive Call where
  | insert (v k : ℕ)
  | update (v k : ℕ)
  | popMax
deriving DecidableEq, Repr

/-- Whether a call is about a variable of the table `0..c`, or about none. -/
def Call.Within (c : ℕ) : Call → Prop
  | insert v _ => v ≤ c
  | update v _ => v ≤ c
  | popMax => True

instance (c : ℕ) : (call : Call) → Decidable (call.Within c)
  | .insert v _ => inferInstanceAs (Decidable (v ≤ c))
  | .update v _ => inferInstanceAs (Decidable (v ≤ c))
  | .popMax => inferInstanceAs (Decidable True)

/-- A call with its answer. Only `popMax` ever answers with a variable. -/
structure Event where
  call : Call
  answer : Option ℕ
deriving DecidableEq, Repr

/-- Makes one call. -/
def perform (q : KeyedHeap) : Call → Except Fault (Option ℕ × KeyedHeap)
  | .insert v k => do return (none, ← q.insert v k)
  | .update v k => do return (none, ← q.update v k)
  | .popMax => do
    match ← q.popMax with
    | none => return (none, q)
    | some (v, q) => return (some v, q)

/-- Makes these calls in order and writes their history. -/
def performAll (q : KeyedHeap) : List Call → Except Fault (List Event × KeyedHeap)
  | [] => .ok ([], q)
  | call :: calls => do
    let (answer, q) ← q.perform call
    let (events, q) ← q.performAll calls
    return (⟨call, answer⟩ :: events, q)

/-- The key that an event gives to a variable, if it gives it one. -/
def Event.key? (v : ℕ) (e : Event) : Option ℕ :=
  match e.call with
  | .insert w k | .update w k => if w = v then some k else none
  | .popMax => none

/-- Whether an event queues a variable or takes it out, if it does one of the two. -/
def Event.queues? (v : ℕ) (e : Event) : Option Bool :=
  match e.call with
  | .insert w _ => if w = v then some true else none
  | .update .. => none
  | .popMax => if e.answer = some v then some false else none

/-- The key that a variable was given last, 0 if it was given none. -/
def lastKey (events : List Event) (v : ℕ) : ℕ := (events.reverse.findSome? (Event.key? v)).getD 0

/-- Whether a variable was inserted since it was last taken out. -/
def isWaiting (events : List Event) (v : ℕ) : Bool :=
  (events.reverse.findSome? (Event.queues? v)).getD false

/-- The variables of the table that were inserted since they were last taken out. -/
def waiting (c : ℕ) (events : List Event) : Finset ℕ :=
  {v ∈ Finset.range (c + 1) | isWaiting events v = true}

/-- What the history of a heap says about its contents. -/
def recorded (c : ℕ) (events : List Event) : KeyedSet where
  key := lastKey events
  queued := waiting c events

/-- A variable waits if it is within the capacity and the history says so. -/
theorem mem_waiting {events : List Event} :
    v ∈ waiting c events ↔ v ≤ c ∧ isWaiting events v = true := by
  simp only [waiting, Finset.mem_filter, Finset.mem_range, Nat.lt_succ_iff]

/-- The last event decides the key of the variables it gives one. -/
theorem lastKey_concat (events : List Event) (e : Event) (v : ℕ) :
    lastKey (events ++ [e]) v = (e.key? v).getD (lastKey events v) := by
  simp only [lastKey, List.reverse_concat, List.findSome?_cons]
  cases e.key? v <;> rfl

/-- The last event decides what waits among the variables it is about. -/
theorem isWaiting_concat (events : List Event) (e : Event) (v : ℕ) :
    isWaiting (events ++ [e]) v = (e.queues? v).getD (isWaiting events v) := by
  simp only [isWaiting, List.reverse_concat, List.findSome?_cons]
  cases e.queues? v <;> rfl

/-- A call that gives a key changes that key alone. -/
theorem lastKey_given (events : List Event) (call : Call) (answer : Option ℕ)
    (hcall : call = .insert v k ∨ call = .update v k) :
    lastKey (events ++ [⟨call, answer⟩]) = Function.update (lastKey events) v k := by
  funext w
  rw [lastKey_concat, Function.update_apply]
  rcases hcall with rfl | rfl
  all_goals
    by_cases hwv : w = v
    · simp [Event.key?, hwv]
    · simp [Event.key?, hwv, Ne.symm hwv]

/-- An insertion is recorded as one. -/
theorem recorded_insert (events : List Event) (hv : v ≤ c) :
    recorded c (events ++ [⟨.insert v k, none⟩]) = (recorded c events).insert v k := by
  refine KeyedSet.ext (lastKey_given _ _ _ (.inl rfl)) (Finset.ext fun w => ?_)
  rw [KeyedSet.mem_queued_insert]
  simp only [recorded, mem_waiting, isWaiting_concat, Event.queues?]
  by_cases hwv : w = v
  · simp [hwv, hv]
  · simp [hwv, Ne.symm hwv]

/-- An update is recorded as a new key. -/
theorem recorded_update (events : List Event) :
    recorded c (events ++ [⟨.update v k, none⟩]) = (recorded c events).setKey v k := by
  refine KeyedSet.ext (lastKey_given _ _ _ (.inr rfl)) (Finset.ext fun w => ?_)
  simp only [recorded, KeyedSet.setKey, mem_waiting, isWaiting_concat, Event.queues?,
    Option.getD_none]

/-- A pop of nothing records nothing. -/
theorem recorded_popMax_none (events : List Event) :
    recorded c (events ++ [⟨.popMax, none⟩]) = recorded c events := by
  refine KeyedSet.ext (funext fun w => ?_) (Finset.ext fun w => ?_)
  · simp only [recorded, lastKey_concat, Event.key?, Option.getD_none]
  · simp [recorded, mem_waiting, isWaiting_concat, Event.queues?]

/-- A pop is recorded as an erasure. -/
theorem recorded_popMax_some (events : List Event) :
    recorded c (events ++ [⟨.popMax, some v⟩]) = (recorded c events).erase v := by
  refine KeyedSet.ext (funext fun w => ?_) (Finset.ext fun w => ?_)
  · simp only [recorded, KeyedSet.key_erase, lastKey_concat, Event.key?, Option.getD_none]
  · rw [KeyedSet.mem_queued_erase]
    simp only [recorded, mem_waiting, isWaiting_concat, Event.queues?, Option.some.injEq]
    by_cases hwv : w = v
    · simp [hwv]
    · simp [hwv, Ne.symm hwv]

/-- What an event must be like if the heap held these contents before it. -/
def Event.Fits (a : KeyedSet) (e : Event) : Prop :=
  match e.call, e.answer with
  | .popMax, none => a.queued = ∅
  | .popMax, some v => a.IsMax v
  | _, answer => answer = none

/-- One call on a heap that holds what its history says succeeds, and the history goes on. -/
theorem WellFormed.perform (h : WellFormed c q) {past : List Event}
    (hpast : q.contents = recorded c past) {call : Call} (hcall : call.Within c) :
    ∃ answer q', q.perform call = .ok (answer, q') ∧ WellFormed c q' ∧
      q'.contents = recorded c (past ++ [⟨call, answer⟩]) ∧
      Event.Fits (recorded c past) ⟨call, answer⟩ := by
  cases call with
  | insert v k =>
    obtain ⟨q', hq', hwf, hcontents⟩ := h.insert hcall k
    refine ⟨none, q', ?_, hwf, ?_, rfl⟩
    · simp only [KeyedHeap.perform, hq', bind, Except.bind, pure, Except.pure]
    · rw [hcontents, hpast, recorded_insert past hcall]
  | update v k =>
    obtain ⟨q', hq', hwf, hcontents⟩ := h.update hcall k
    refine ⟨none, q', ?_, hwf, ?_, rfl⟩
    · simp only [KeyedHeap.perform, hq', bind, Except.bind, pure, Except.pure]
    · rw [hcontents, hpast, recorded_update]
  | popMax =>
    rcases h.popMax with ⟨hempty, hpop⟩ | ⟨v, q', hpop, hmax, hwf, hcontents⟩
    · refine ⟨none, q, ?_, h, ?_, hpast ▸ hempty⟩
      · simp only [KeyedHeap.perform, hpop, bind, Except.bind, pure, Except.pure]
      · rw [hpast, recorded_popMax_none]
    · refine ⟨some v, q', ?_, hwf, ?_, hpast ▸ hmax⟩
      · simp only [KeyedHeap.perform, hpop, bind, Except.bind, pure, Except.pure]
      · rw [hcontents, hpast, recorded_popMax_some]

/-- Any calls on a heap that holds what its history says succeed, and each of them answers by what
the history said before it. -/
theorem WellFormed.performAll (h : WellFormed c q) {past : List Event}
    (hpast : q.contents = recorded c past) {calls : List Call}
    (hcalls : ∀ call ∈ calls, call.Within c) :
    ∃ events q', q.performAll calls = .ok (events, q') ∧ events.map Event.call = calls ∧
      WellFormed c q' ∧ q'.contents = recorded c (past ++ events) ∧
      ∀ before e after, events = before ++ e :: after → e.Fits (recorded c (past ++ before)) := by
  induction calls generalizing q past with
  | nil => exact ⟨[], q, rfl, rfl, h, by rw [List.append_nil, hpast], by simp⟩
  | cons call calls ih =>
    obtain ⟨answer, q₁, hq₁, hwf₁, hcontents₁, hfits⟩ := h.perform hpast (hcalls call (by simp))
    obtain ⟨events, q', hq', hmap, hwf, hcontents, hrest⟩ :=
      ih hwf₁ hcontents₁ fun x hx => hcalls x (by simp [hx])
    refine ⟨⟨call, answer⟩ :: events, q', ?_, by rw [List.map_cons, hmap], hwf, ?_, ?_⟩
    · simp only [KeyedHeap.performAll, hq₁, hq', bind, Except.bind, pure, Except.pure]
    · rw [hcontents, List.append_assoc, List.singleton_append]
    · intro before e after hsplit
      cases before with
      | nil =>
        obtain ⟨rfl, -⟩ := List.cons.inj hsplit
        rwa [List.append_nil]
      | cons first before =>
        obtain ⟨rfl, htail⟩ := List.cons.inj hsplit
        have hfits' := hrest before e after htail
        rwa [List.append_assoc, List.singleton_append] at hfits'

/-- A heap can be created if its tables can be addressed, and is then empty with all keys 0. -/
theorem create_eq_ok : create c = .ok q ↔ 16 * (c + 1) ≤ maxTableBytes ∧
    q = ⟨Array.replicate (c + 1) 0, #[], Array.replicate (c + 1) none⟩ := by
  simp only [create, checkTable]
  split
  · simp_all [bind, Except.bind, pure, Except.pure, eq_comm]
  · simp_all [bind, Except.bind]

/-- A new heap is well formed and records no event. -/
theorem WellFormed.create (h : create c = .ok q) :
    WellFormed c q ∧ q.contents = recorded c [] := by
  obtain ⟨-, rfl⟩ := create_eq_ok.mp h
  refine ⟨⟨⟨Array.size_replicate, Array.size_replicate, by simp⟩, ?_, ?_⟩, ?_⟩
  · intro v hv _
    simp [Nat.lt_succ_of_le hv]
  · intro j _ hj
    simp [size] at hj
  · refine KeyedSet.ext (funext fun v => ?_) (Finset.ext fun v => ?_)
    · by_cases hv : v < c + 1 <;> simp [contents, recorded, lastKey, hv]
    · simp [contents, recorded, mem_waiting, isWaiting]

/-- Any calls on variables of the table of a new heap succeed. At each `popMax` among them the
answer is `none` exactly if nothing is queued, and else one queued variable with the largest key,
which alone leaves the queue, while every key stays. Afterwards each variable has the key it was
given last and is queued if it was inserted since it was last taken out, and taking variables out
until none is left lists the queued ones once each by descending keys. -/
theorem performAll_follows_history {c : ℕ} {q₀ : KeyedHeap} (hcreate : create c = .ok q₀)
    {calls : List Call} (hcalls : ∀ call ∈ calls, call.Within c) :
    ∃ events q, q₀.performAll calls = .ok (events, q) ∧ events.map Event.call = calls ∧
      (∀ v ≤ c, q.key v = .ok (lastKey events v)) ∧
      (∀ v ≤ c, q.contains v = .ok (isWaiting events v)) ∧
      q.size = (waiting c events).card ∧
      (∀ before e after, events = before ++ e :: after → e.call = .popMax →
        (e.answer = none ↔ waiting c before = ∅) ∧
        ∀ v, e.answer = some v →
          v ∈ waiting c before ∧ (∀ w ∈ waiting c before, lastKey before w ≤ lastKey before v) ∧
          waiting c (before ++ [e]) = (waiting c before).erase v ∧
          lastKey (before ++ [e]) = lastKey before) ∧
      ∃ vs, q.drain = .ok vs ∧ vs.Nodup ∧ (∀ v, v ∈ vs ↔ v ∈ waiting c events) ∧
        vs.Pairwise fun v w => lastKey events w ≤ lastKey events v := by
  obtain ⟨hwf₀, hcontents₀⟩ := WellFormed.create hcreate
  obtain ⟨events, q, hq, hmap, hwf, hcontents, hfits⟩ := hwf₀.performAll hcontents₀ hcalls
  rw [List.nil_append] at hcontents
  obtain ⟨vs, hvs, hnodup, hmem, hsorted⟩ := hwf.firstOut (n := q.size) rfl
  rw [hcontents] at hmem hsorted
  refine ⟨events, q, hq, hmap, fun v hv => ?_, fun v hv => ?_, ?_, ?_, vs, hvs, hnodup, hmem,
    hsorted⟩
  · rw [hwf.key_eq hv, hcontents, recorded]
  · rw [hwf.contains_eq hv, hcontents, recorded]
    simp only [mem_waiting, hv, true_and, Bool.decide_eq_true]
  · rw [hwf.size_eq_card, hcontents, recorded]
  · rintro before ⟨call, answer⟩ after hsplit rfl
    have hfit := hfits before _ after hsplit
    rw [List.nil_append] at hfit
    cases answer with
    | none =>
      have hempty : waiting c before = ∅ := hfit
      simp [hempty]
    | some v =>
      have hmax : (recorded c before).IsMax v := hfit
      have hne : waiting c before ≠ ∅ := Finset.ne_empty_of_mem hmax.1
      have hafter : recorded c (before ++ [⟨.popMax, some v⟩]) = (recorded c before).erase v :=
        recorded_popMax_some before
      refine ⟨by simp [hne], fun w hw => ?_⟩
      obtain rfl : v = w := Option.some.inj hw
      exact ⟨hmax.1, hmax.2, congrArg KeyedSet.queued hafter, congrArg KeyedSet.key hafter⟩

/-- Of two variables with the same key the one at the root comes out, here twice. -/
theorem performAll_follows_history_equal_keys :
    let q₀ : KeyedHeap := ⟨#[0, 0, 0], #[], #[none, none, none]⟩
    let calls : List Call := [.insert 1 5, .insert 2 5, .popMax, .insert 1 7, .update 2 6, .popMax]
    create 2 = .ok q₀ ∧ (∀ call ∈ calls, call.Within 2) ∧
      ∃ events q, q₀.performAll calls = .ok (events, q) ∧
        events.map Event.answer = [none, none, some 1, none, none, some 1] ∧
        q.contains 1 = .ok false ∧ q.contains 2 = .ok true ∧ q.key 1 = .ok 7 ∧
        q.drain = .ok [2] := by
  intro q₀ calls
  have hcreate : create 2 = .ok q₀ := by decide
  have hcalls : ∀ call ∈ calls, call.Within 2 := by decide
  obtain ⟨events, q, hq, -, hkey, hcontains, -⟩ := performAll_follows_history hcreate hcalls
  have hrun : q₀.performAll calls =
      .ok ([⟨.insert 1 5, none⟩, ⟨.insert 2 5, none⟩, ⟨.popMax, some 1⟩, ⟨.insert 1 7, none⟩,
        ⟨.update 2 6, none⟩, ⟨.popMax, some 1⟩], ⟨#[0, 7, 6], #[2], #[none, none, some 0]⟩) := by
    decide +kernel
  obtain ⟨rfl, rfl⟩ := Prod.mk.inj (Except.ok.inj (hq.symm.trans hrun))
  exact ⟨hcreate, hcalls, _, _, hq, rfl, (hcontains 1 (by decide)).trans rfl,
    (hcontains 2 (by decide)).trans rfl, (hkey 1 (by decide)).trans rfl, by decide +kernel⟩

end SatSearch.KeyedHeap
