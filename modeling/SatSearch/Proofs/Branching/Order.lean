import SatSearch.Proofs.Branching.Steps

/-!
# The order of branching

The state of the branching order is changed by six calls. After any of them that did not fault it is
coherent, so selection goes by unit score and then by index. Two states that agree on the entries
and on the queued variables answer every further sequence of calls alike: no answer depends on how
the heap is arranged, and neither do the messages or the fault that ends the sequence.
-/

namespace SatSearch.Branching

variable {n v : ℕ} {b : Bool} {e : Entry} {s t : Branching}

/-- A call that changes the state. -/
inductive Call where
  | select
  | countUnit (v : ℕ)
  | countOccurrence (v : ℕ) (positive : Bool)
  | requeue (v : ℕ)
  | assign (v : ℕ) (b : Bool)
  | unassign (v : ℕ)
deriving DecidableEq, Repr

/-- Makes one call. Only a selection answers with a choice. -/
def perform (s : Branching) : Call → Logged Fault (Option Choice × Branching)
  | .select => do
    match ← s.select with
    | none => return (none, s)
    | some (choice, s) => return (some choice, s)
  | .countUnit v => do return (none, ← s.countUnit v)
  | .countOccurrence v positive => do return (none, ← s.countOccurrence v positive)
  | .requeue v => do return (none, ← s.requeue v)
  | .assign v b => do return (none, ← s.assign v b)
  | .unassign v => do return (none, ← s.unassign v)

/-- Makes these calls in order and lists their answers. -/
def performAll (s : Branching) : List Call → Logged Fault (List (Option Choice) × Branching)
  | [] => return ([], s)
  | call :: calls => do
    let (answer, s) ← s.perform call
    let (answers, s) ← s.performAll calls
    return (answer :: answers, s)

/-- A state that calls on a new one lead to without a fault. -/
def Reached (n : ℕ) (s : Branching) : Prop :=
  ∃ s₀ calls answers, create n = .ok s₀ ∧ (s₀.performAll calls).result = .ok (answers, s)

/-- A call that does not fault keeps the state coherent. -/
theorem Coherent.perform (h : Coherent n s) {call : Call} {answer : Option Choice}
    (hok : (s.perform call).result = .ok (answer, t)) : Coherent n t := by
  cases call with
  | select =>
    obtain ⟨r, hr, hok⟩ := Logged.bind_eq_ok.mp hok
    rcases h.select with ⟨-, hselect⟩ | ⟨v, s', -, hselect, hreads⟩
    · rw [hselect] at hr
      cases hr
      cases hok
      exact h
    · rw [hselect] at hr
      cases hr
      cases hok
      exact hreads.coherent
  | countUnit v =>
    obtain ⟨s', hs', hok⟩ := Logged.bind_eq_ok.mp hok
    cases hok
    exact (h.countUnit_ok hs').2.2.coherent
  | countOccurrence v positive =>
    obtain ⟨s', hs', hok⟩ := Logged.bind_eq_ok.mp hok
    cases hok
    exact (h.countOccurrence_ok hs').2.2.coherent
  | requeue v =>
    obtain ⟨s', hs', hok⟩ := Logged.bind_eq_ok.mp hok
    cases hok
    exact (h.requeue_ok hs').2.2.coherent
  | assign v b =>
    obtain ⟨s', hs', hok⟩ := Logged.bind_eq_ok.mp hok
    cases hok
    exact (h.assign_ok hs').2.coherent
  | unassign v =>
    obtain ⟨s', hs', hok⟩ := Logged.bind_eq_ok.mp hok
    cases hok
    exact (h.unassign_ok hs').2.coherent

/-- Calls in succession keep entries, keys and queue together. -/
theorem Coherent.performAll (h : Coherent n s) {calls : List Call} {answers : List (Option Choice)}
    (hok : (s.performAll calls).result = .ok (answers, t)) : Coherent n t := by
  induction calls generalizing s answers with
  | nil =>
    cases hok
    exact h
  | cons call calls ih =>
    obtain ⟨⟨answer, s₁⟩, hs₁, hok⟩ := Logged.bind_eq_ok.mp hok
    obtain ⟨⟨rest, s₂⟩, hs₂, hok⟩ := Logged.bind_eq_ok.mp hok
    cases hok
    exact ih (h.perform hs₁) hs₂

/-- What calls lead to from a new state fits together. -/
theorem Reached.coherent (h : Reached n s) (hn : n < 2 ^ 32) : Coherent n s := by
  obtain ⟨s₀, calls, answers, hs₀, hok⟩ := h
  obtain ⟨s₁, hs₁, hreads⟩ := create_eq_ok hn
  obtain rfl := Except.ok.inj (hs₁.symm.trans hs₀)
  exact hreads.coherent.performAll hok

/-- Two coherent states with the same entries and the same queued variables. -/
def Alike (n : ℕ) (s t : Branching) : Prop := ∃ f W, Reads n f W s ∧ Reads n f W t

namespace Alike

/-- Alike states have the same entries. -/
theorem entries_eq (h : Alike n s t) : t.entries = s.entries := by
  obtain ⟨f, W, hs, ht⟩ := h
  refine entries_ext ?_ (ht.entryAt_eq.trans hs.entryAt_eq.symm)
  rw [hs.coherent.entries_size, ht.coherent.entries_size]

/-- So look-ups of entries agree. -/
theorem entry_eq (h : Alike n s t) (v : ℕ) : t.entry v = s.entry v := by
  rw [entry, entry, h.entries_eq]

/-- So they agree on which variables are open. -/
theorem requireOpen_eq (h : Alike n s t) (v : ℕ) : t.requireOpen v = s.requireOpen v := by
  rw [requireOpen, requireOpen, value, value, h.entry_eq]

/-- So they agree on which variables are queued. -/
theorem isQueued_eq (h : Alike n s t) (v : ℕ) : t.isQueued v = s.isQueued v := by
  obtain ⟨f, W, hs, ht⟩ := h
  by_cases hv : v ≤ n
  · rw [hs.coherent.isQueued_eq hv, ht.coherent.isQueued_eq hv, hs.waiting_eq, ht.waiting_eq]
  · rw [hs.coherent.isQueued_of_lt (by omega), ht.coherent.isQueued_of_lt (by omega)]

/-- So their queues are equally long. -/
theorem queued_eq (h : Alike n s t) : t.queued = s.queued := by
  obtain ⟨f, W, hs, ht⟩ := h
  rw [hs.coherent.queued_eq, ht.coherent.queued_eq, hs.waiting_eq, ht.waiting_eq]

/-- What two states answer shows whether they are alike. -/
theorem of_answers (hs : Coherent n s) (ht : Coherent n t) (hentries : t.entries = s.entries)
    (hqueued : ∀ v, t.isQueued v = s.isQueued v) : Alike n s t := by
  refine ⟨s.entryAt, s.waiting, ⟨hs, rfl, rfl⟩, ht, ?_, ?_⟩
  · funext v
    rw [entryAt, entryAt, hentries]
  · ext v
    rw [← hs.isQueued_iff, ← ht.isQueued_iff, hqueued]

/-- Writing the same entry on both sides keeps them alike if the unit score is the old one. -/
theorem setEntry (h : Alike n s t) (hv : v ≤ n) (he : e.unit = (s.entryAt v).unit) :
    EndAlike (Alike n) (s.setEntry v e) (t.setEntry v e) := by
  obtain ⟨f, W, hs, ht⟩ := h
  have het : e.unit = (t.entryAt v).unit := by rw [he, hs.entryAt_eq, ht.entryAt_eq]
  rw [hs.coherent.setEntry_eq hv, ht.coherent.setEntry_eq hv]
  refine .ok ⟨Function.update f v e, W, ⟨hs.coherent.withEntry hv he, ?_, hs.waiting_eq⟩,
    ht.coherent.withEntry hv het, ?_, ht.waiting_eq⟩
  · rw [hs.coherent.entryAt_withEntry hv, hs.entryAt_eq]
  · rw [ht.coherent.entryAt_withEntry hv, ht.entryAt_eq]

/-- Writing the same entry on both sides and then its key keeps them alike. -/
theorem setEntry_rekey (h : Alike n s t) (hv : v ≤ n) :
    EndAlike (Alike n) (s.setEntry v e >>= fun s => s.rekey v)
      (t.setEntry v e >>= fun t => t.rekey v) := by
  obtain ⟨f, W, hs, ht⟩ := h
  rw [hs.coherent.setEntry_eq hv, ht.coherent.setEntry_eq hv]
  by_cases he : Priority.Fits n e.unit
  · obtain ⟨s', hs', hcs, hes, hws⟩ := hs.coherent.setEntry_rekey hv he
    obtain ⟨t', ht', hct, het, hwt⟩ := ht.coherent.setEntry_rekey hv he
    simp only [bind, Except.bind, hs', ht']
    exact .ok ⟨Function.update f v e, W, ⟨hcs, by rw [hes, hs.entryAt_eq], hws.trans hs.waiting_eq⟩,
      hct, by rw [het, ht.entryAt_eq], hwt.trans ht.waiting_eq⟩
  · simp only [ok_bind, hs.coherent.rekey_of_not_fits hv he, ht.coherent.rekey_of_not_fits hv he]
    exact .error _

/-- Counting a unit keeps states alike. -/
theorem countUnit (h : Alike n s t) (v : ℕ) :
    EndAlike (Alike n) (s.countUnit v) (t.countUnit v) := by
  have hs := h.choose_spec.choose_spec.1.coherent
  refine .bind_same (h.requireOpen_eq v) fun _ _ => .bind_same (h.entry_eq v) fun e he => ?_
  exact .bind_same rfl fun unit _ => h.setEntry_rekey (hs.entry_ok he).1

/-- Counting an occurrence keeps states alike. -/
theorem countOccurrence (h : Alike n s t) (v : ℕ) (b : Bool) :
    EndAlike (Alike n) (s.countOccurrence v b) (t.countOccurrence v b) := by
  have hs := h.choose_spec.choose_spec.1.coherent
  refine .bind_same (h.requireOpen_eq v) fun _ _ => .bind_same (h.entry_eq v) fun e he => ?_
  exact .bind_same rfl fun polarity _ => h.setEntry_rekey (hs.entry_ok he).1

/-- Queueing a variable keeps states alike. -/
theorem requeue (h : Alike n s t) (v : ℕ) :
    EndAlike (Alike n) (s.requeue v) (t.requeue v) := by
  refine .bind_same (h.requireOpen_eq v) fun _ hopen => ?_
  obtain ⟨f, W, hs, ht⟩ := h
  have hv := (hs.coherent.requireOpen_ok hopen).1
  obtain ⟨s', hs', hcs, hes, hws⟩ := hs.coherent.enqueue hv
  obtain ⟨t', ht', hct, het, hwt⟩ := ht.coherent.enqueue hv
  rw [hs', ht']
  exact .ok ⟨f, insert v W, ⟨hcs, hes.trans hs.entryAt_eq, by rw [hws, hs.waiting_eq]⟩,
    hct, het.trans ht.entryAt_eq, by rw [hwt, ht.waiting_eq]⟩

/-- A decision keeps states alike. -/
theorem assign (h : Alike n s t) (v : ℕ) (b : Bool) :
    EndAlike (Alike n) (s.assign v b) (t.assign v b) := by
  have hs := h.choose_spec.choose_spec.1.coherent
  refine .bind_same (h.entry_eq v) fun e he => ?_
  obtain ⟨hv, rfl⟩ := hs.entry_ok he
  exact h.setEntry hv rfl

/-- Taking a decision back keeps states alike. -/
theorem unassign (h : Alike n s t) (v : ℕ) :
    EndAlike (Alike n) (s.unassign v) (t.unassign v) := by
  have hs := h.choose_spec.choose_spec.1.coherent
  refine .bind_same (h.entry_eq v) fun e he => ?_
  obtain ⟨hv, rfl⟩ := hs.entry_ok he
  exact h.setEntry hv rfl

/-- Two alike states select the same variable with the same first value. -/
theorem select (h : Alike n s t) :
    Logged.RunAlike (fun x y => x = none ∧ y = none ∨
      ∃ choice s' t', x = some (choice, s') ∧ y = some (choice, t') ∧ Alike n s' t')
      s.select t.select := by
  obtain ⟨f, W, hs, ht⟩ := h
  have hentry : t.entryAt = s.entryAt := ht.entryAt_eq.trans hs.entryAt_eq.symm
  have hwaiting : t.waiting = s.waiting := ht.waiting_eq.trans hs.waiting_eq.symm
  rcases hs.coherent.select with ⟨hempty, hselect⟩ | ⟨v, s', hv, hselect, hreads⟩
  · rcases ht.coherent.select with ⟨-, hselect'⟩ | ⟨w, t', hw, -⟩
    · rw [hselect, hselect']
      exact ⟨rfl, .ok (.inl ⟨rfl, rfl⟩)⟩
    · have := hw.1
      rw [hwaiting, hempty] at this
      simp at this
  · rcases ht.coherent.select with ⟨hempty', -⟩ | ⟨w, t', hw, hselect', hreads'⟩
    · have := hv.1
      rw [← hwaiting, hempty'] at this
      simp at this
    · have hw' : s.IsNext w := by
        simpa only [IsNext, hwaiting, hentry] using hw
      obtain rfl := hv.unique hw'
      rw [hentry, hwaiting] at hselect' hreads'
      rw [hselect, hselect']
      exact ⟨rfl, .ok (.inr ⟨_, s', t', rfl, rfl, _, _, hreads, hreads'⟩)⟩

/-- Any call reports the same, answers the same and keeps states alike. -/
theorem perform (h : Alike n s t) (call : Call) :
    Logged.RunAlike (fun x y => y.1 = x.1 ∧ Alike n x.2 y.2) (s.perform call) (t.perform call) := by
  -- Every call but a selection is a checked step without an answer.
  have hstep : ∀ {x y : Except Fault Branching}, EndAlike (Alike n) x y →
      Logged.RunAlike (fun x y => y.1 = x.1 ∧ Alike n x.2 y.2)
        (do return (none, ← x) : Logged Fault (Option Choice × Branching))
        (do return (none, ← y) : Logged Fault (Option Choice × Branching)) :=
    fun hxy => (Logged.RunAlike.lift hxy).bind fun _ _ hab => .pure ⟨rfl, hab⟩
  cases call with
  | select =>
    refine h.select.bind fun x y hxy => ?_
    rcases hxy with ⟨rfl, rfl⟩ | ⟨choice, s', t', rfl, rfl, halike⟩
    · exact .pure ⟨rfl, h⟩
    · exact .pure ⟨rfl, halike⟩
  | countUnit v => exact hstep (h.countUnit v)
  | countOccurrence v positive => exact hstep (h.countOccurrence v positive)
  | requeue v => exact hstep (h.requeue v)
  | assign v b => exact hstep (h.assign v b)
  | unassign v => exact hstep (h.unassign v)

/-- So do any calls in succession. -/
theorem performAll (h : Alike n s t) (calls : List Call) :
    Logged.RunAlike (fun x y => y.1 = x.1 ∧ Alike n x.2 y.2)
      (s.performAll calls) (t.performAll calls) := by
  induction calls generalizing s t with
  | nil => exact .pure ⟨rfl, h⟩
  | cons call calls ih =>
    refine (h.perform call).bind fun x y hxy => ?_
    refine (ih hxy.2).bind fun x' y' hxy' => ?_
    exact .pure ⟨by rw [hxy.1, hxy'.1], hxy'.2⟩

end Alike

/-- In every state that calls lead to, selection answers `none` exactly if nothing is queued, and
otherwise takes out the queued variable with the largest unit score, the smallest one among several,
with the value true first exactly if its polarity is positive. It clears the scores of that variable
and leaves all others as they are. Another such state with the same entries and the same queued
variables gives the same answers, messages and faults to every further sequence of calls, after
which the two still agree. -/
theorem select_by_unit_score {n : ℕ} (hn : n ≤ 2 ^ 31 - 1) {s : Branching} (hs : Reached n s) :
    (∃ r, s.select.result = .ok r) ∧
    (s.select.result = .ok none ↔ ∀ v, s.isQueued v ≠ .ok true) ∧
    (∀ choice s', s.select.result = .ok (some (choice, s')) →
      ∃ e, s.entry choice.var = .ok e ∧ s.isQueued choice.var = .ok true ∧
        (∀ w d, w ≠ choice.var → s.isQueued w = .ok true → s.entry w = .ok d →
          d.unit < e.unit ∨ d.unit = e.unit ∧ choice.var < w) ∧
        choice.values = (if 0 < e.polarity then [true, false] else [false, true]) ∧
        s'.entry choice.var = .ok { e with unit := 0, polarity := 0 } ∧
        s'.isQueued choice.var = .ok false ∧
        ∀ w, w ≠ choice.var → s'.entry w = s.entry w ∧ s'.isQueued w = s.isQueued w) ∧
    ∀ t, Reached n t → t.entries = s.entries → (∀ v, t.isQueued v = s.isQueued v) →
      ∀ calls, Prod.fst <$> t.performAll calls = Prod.fst <$> s.performAll calls ∧
        ∀ answers s' t', (s.performAll calls).result = .ok (answers, s') →
          (t.performAll calls).result = .ok (answers, t') →
          t'.entries = s'.entries ∧ (∀ v, t'.isQueued v = s'.isQueued v) ∧
            t'.queued = s'.queued := by
  have h := hs.coherent (by omega)
  refine ⟨?_, ?_, fun choice s' hok => ?_, fun t ht hentries hqueued calls => ?_⟩
  · rcases h.select with ⟨-, hselect⟩ | ⟨v, s', -, hselect, -⟩
    · exact ⟨_, by rw [hselect]⟩
    · exact ⟨_, by rw [hselect]⟩
  · rw [h.select_eq_none, Finset.eq_empty_iff_forall_notMem]
    exact forall_congr' fun v => not_congr h.isQueued_iff.symm
  · obtain ⟨hnext, hfirst, hreads⟩ := h.select_ok hok
    have hv := h.le_of_mem hnext.1
    refine ⟨_, h.entry_eq hv, h.isQueued_iff.mpr hnext.1, fun w d hwv hw hd => ?_, ?_, ?_, ?_,
      fun w hwv => ⟨?_, ?_⟩⟩
    · obtain ⟨-, rfl⟩ := h.entry_ok hd
      exact hnext.2 w (h.isQueued_iff.mp hw) hwv
    · by_cases hpos : 0 < (s.entryAt choice.var).polarity <;>
        simp [Choice.values, hfirst, Entry.preferred, hpos]
    · rw [hreads.coherent.entry_eq hv, hreads.entryAt_eq, Function.update_self, Entry.cleared]
    · rw [hreads.coherent.isQueued_eq hv, hreads.waiting_eq]
      simp
    · by_cases hw : w ≤ n
      · rw [hreads.coherent.entry_eq hw, h.entry_eq hw, hreads.entryAt_eq,
          Function.update_of_ne hwv]
      · rw [hreads.coherent.entry_of_lt (by omega), h.entry_of_lt (by omega)]
    · by_cases hw : w ≤ n
      · rw [hreads.coherent.isQueued_eq hw, h.isQueued_eq hw, hreads.waiting_eq]
        simp [hwv]
      · rw [hreads.coherent.isQueued_of_lt (by omega), h.isQueued_of_lt (by omega)]
  · have halike := (Alike.of_answers h (ht.coherent (by omega)) hentries hqueued).performAll calls
    refine ⟨halike.map_eq fun _ _ hab => hab.1, fun answers s' t' hs' ht' => ?_⟩
    have hend := halike.result
    rw [hs', ht'] at hend
    obtain ⟨-, hafter⟩ := hend.of_ok
    exact ⟨hafter.entries_eq, hafter.isQueued_eq, hafter.queued_eq⟩

/-- Taking variable 1 out and queueing it again rearranges the heap and changes no later choice. -/
theorem select_by_unit_score_rearranged :
    let s : Branching :=
      ⟨#[{}, {}, {}, {}], ⟨#[0, 3, 2, 1], #[1, 2, 3], #[none, some 0, some 1, some 2]⟩⟩
    let t : Branching :=
      ⟨#[{}, {}, {}, {}], ⟨#[0, 3, 2, 1], #[1, 3, 2], #[none, some 0, some 2, some 1]⟩⟩
    let calls : List Call := [.select, .countUnit 3, .select]
    3 ≤ 2 ^ 31 - 1 ∧ Reached 3 s ∧ Reached 3 t ∧
      Prod.fst <$> t.performAll calls = Prod.fst <$> s.performAll calls := by
  intro s t calls
  have hcreate : create 3 = .ok s := by decide +kernel
  have hs : Reached 3 s := ⟨s, [], [], hcreate, rfl⟩
  have ht : Reached 3 t :=
    ⟨s, [.select, .requeue 1], [some ⟨1, false⟩, none], hcreate, by decide +kernel⟩
  have hqueued : ∀ v, t.isQueued v = s.isQueued v
    | 0 | 1 | 2 | 3 => rfl
    | v + 4 => by simp [s, t, isQueued, KeyedHeap.contains, KeyedHeap.place]
  exact ⟨by decide, hs, ht, ((select_by_unit_score (by decide) hs).2.2.2 t ht rfl hqueued calls).1⟩

end SatSearch.Branching
