import SatSearch.Proofs.Branching.Coherent
import Mathlib.Order.Interval.Finset.Nat

/-!
# What each step does to a coherent state

Every operation on a coherent state either faults or leaves a coherent state, and what it leaves is
a function of the entries and the queued variables before it. So the arrangement of the heap shows
in no result: of the queued variables the one with the largest unit score is selected, the smallest
one if several have that score.
-/

namespace SatSearch

/-- An entry after its variable has been selected. -/
def Entry.cleared (e : Entry) : Entry := { e with unit := 0, polarity := 0 }

namespace Branching

variable {n v w : ℕ} {b : Bool} {s s' : Branching} {f : ℕ → Entry} {W : Finset ℕ}

/-- The state is coherent and has these entries and these queued variables. -/
structure Reads (n : ℕ) (f : ℕ → Entry) (W : Finset ℕ) (s : Branching) : Prop where
  coherent : Coherent n s
  entryAt_eq : s.entryAt = f
  waiting_eq : s.waiting = W

/-- Another entry for a variable changes no other value. -/
theorem Reads.valueAt_eq {t : Branching} {e : Entry}
    (h : Reads n (Function.update s.entryAt v e) W t) :
    t.valueAt = Function.update s.valueAt v e.value := by
  funext w
  rw [valueAt, h.entryAt_eq, Function.update_apply, Function.update_apply]
  split <;> rfl

/-- The queued variable whose turn it is: none has a larger unit score, and no smaller one has the
same. -/
def IsNext (s : Branching) (v : ℕ) : Prop :=
  v ∈ s.waiting ∧ ∀ w ∈ s.waiting, w ≠ v →
    (s.entryAt w).unit < (s.entryAt v).unit ∨ (s.entryAt w).unit = (s.entryAt v).unit ∧ v < w

/-- Only one variable can be the next one. -/
theorem IsNext.unique (hv : s.IsNext v) (hw : s.IsNext w) : v = w := by
  by_contra hne
  have hvw := hv.2 w hw.1 (Ne.symm hne)
  have hwv := hw.2 v hv.1 hne
  omega

namespace Coherent

/-- Selection answers `none` if nothing is queued. Otherwise it takes the variable whose turn it is
from the queue and clears its scores. -/
theorem select (h : Coherent n s) :
    (s.waiting = ∅ ∧ s.select = ⟨[], .ok none⟩) ∨
      ∃ v s', s.IsNext v ∧
        s.select = ⟨[.selected v (s.entryAt v).preferred (s.waiting.erase v).card],
          .ok (some (⟨v, (s.entryAt v).preferred⟩, s'))⟩ ∧
        Reads n (Function.update s.entryAt v (s.entryAt v).cleared) (s.waiting.erase v) s' := by
  rcases h.queue.popMax with ⟨hempty, hpop⟩ | ⟨v, q, hpop, hmax, hwf, hcontents⟩
  · refine .inl ⟨hempty, ?_⟩
    rw [Branching.select, Logged.lift_bind_of_ok hpop]
    rfl
  right
  have hvn : v ≤ n := h.queue.le_of_mem hmax.1
  have hnext : s.IsNext v := by
    refine ⟨hmax.1, fun w hw hwv => ?_⟩
    have hle := hmax.2 w hw
    rw [h.key_eq w hw, h.key_eq v hmax.1] at hle
    have hnlt := mt (Priority.keyOf_lt_iff hvn (h.le_of_mem hw)).mpr (Nat.not_lt.mpr hle)
    omega
  -- The heap without its root, with the scores as they were.
  have hpopped : Coherent n { s with queue := q } :=
    ⟨⟨h.count_lt, h.entries_size, h.unit_fits, hwf⟩, fun w hw => by
      simp only [waiting, hcontents, KeyedSet.mem_queued_erase] at hw
      rw [hcontents, KeyedSet.key_erase]
      exact h.key_eq w hw.2⟩
  have hwaiting : ({ s with queue := q } : Branching).waiting = s.waiting.erase v :=
    congrArg KeyedSet.queued hcontents
  have hleft : q.size = (s.waiting.erase v).card := by rw [← hwaiting]; exact hpopped.queued_eq
  obtain ⟨s', hs', hcoherent, hentries, hwaiting'⟩ := hpopped.setEntry_rekey hvn
    (e := { s.entryAt v with unit := 0, polarity := 0 })
    (Priority.fits_of_lt h.count_lt (Nat.two_pow_pos 31))
  refine ⟨v, s', hnext, ?_, hcoherent, hentries, hwaiting'.trans hwaiting⟩
  have hentry : ({ s with queue := q } : Branching).entry v = .ok (s.entryAt v) :=
    hpopped.entry_eq hvn
  rw [Branching.select, Logged.lift_bind_of_ok hpop]
  simp only
  rw [Logged.lift_bind_of_ok hentry, Logged.lift_bind_of_ok (hpopped.setEntry_eq hvn)]
  rw [Logged.bind_of_ok (x := Logged.log _) rfl, Logged.lift_bind_of_ok hs']
  simp only [Logged.log, Logged.pure_eq, List.append_nil, ← hleft]
  rfl

/-- Nothing is selected exactly if no variable waits. -/
theorem select_eq_none (h : Coherent n s) : s.select.result = .ok none ↔ s.waiting = ∅ := by
  rcases h.select with ⟨hempty, hselect⟩ | ⟨v, s', hv, hselect, -⟩
  · simp [hselect, hempty]
  · simp [hselect, Finset.ne_empty_of_mem hv.1]

/-- The selected variable is the next one. It leaves the queue, and its scores are cleared. -/
theorem select_ok (h : Coherent n s) {choice : Choice}
    (hok : s.select.result = .ok (some (choice, s'))) :
    s.IsNext choice.var ∧ choice.first = (s.entryAt choice.var).preferred ∧
      Reads n (Function.update s.entryAt choice.var (s.entryAt choice.var).cleared)
        (s.waiting.erase choice.var) s' := by
  rcases h.select with ⟨-, hselect⟩ | ⟨v, s', hv, hselect, hreads⟩
  · rw [hselect] at hok
    cases hok
  · rw [hselect] at hok
    cases hok
    exact ⟨hv, rfl, hreads⟩

/-- A decision on a variable of the formula succeeds. -/
theorem assign_eq (h : Coherent n s) (hv : v ≤ n) :
    s.assign v b = .ok (s.withEntry v { s.entryAt v with value := some b }) := by
  simp only [assign, h.entry_eq hv, h.setEntry_eq hv, bind, Except.bind]

/-- So does taking it back. -/
theorem unassign_eq (h : Coherent n s) (hv : v ≤ n) :
    s.unassign v = .ok (s.withEntry v { s.entryAt v with value := none }) := by
  simp only [unassign, h.entry_eq hv, h.setEntry_eq hv, bind, Except.bind]

/-- A value can be given to any variable of the table, and to no other. -/
theorem assign_ok (h : Coherent n s) (hok : s.assign v b = .ok s') :
    v ≤ n ∧ Reads n (Function.update s.entryAt v { s.entryAt v with value := some b }) s.waiting s'
    := by
  obtain ⟨e, he, -⟩ := bind_eq_ok.mp hok
  have hv := (h.entry_ok he).1
  obtain rfl := Except.ok.inj ((h.assign_eq hv).symm.trans hok)
  exact ⟨hv, h.withEntry hv rfl, h.entryAt_withEntry hv, rfl⟩

/-- Taking a decision back takes the value of its variable away. -/
theorem unassign_ok (h : Coherent n s) (hok : s.unassign v = .ok s') :
    v ≤ n ∧ Reads n (Function.update s.entryAt v { s.entryAt v with value := none }) s.waiting s'
    := by
  obtain ⟨e, he, -⟩ := bind_eq_ok.mp hok
  have hv := (h.entry_ok he).1
  obtain rfl := Except.ok.inj ((h.unassign_eq hv).symm.trans hok)
  exact ⟨hv, h.withEntry hv rfl, h.entryAt_withEntry hv, rfl⟩

/-- What passes for open is a variable of the formula without a value. -/
theorem requireOpen_ok (h : Coherent n s) {u : Unit} (hok : s.requireOpen v = .ok u) :
    v ≤ n ∧ s.valueAt v = none := by
  obtain ⟨value, hvalue, hmatch⟩ := bind_eq_ok.mp hok
  obtain ⟨hv, rfl⟩ := h.value_ok hvalue
  refine ⟨hv, ?_⟩
  cases hopen : s.valueAt v with
  | none => rfl
  | some b =>
    rw [hopen] at hmatch
    cases hmatch

/-- A variable without a value passes for open. -/
theorem requireOpen_eq (h : Coherent n s) (hv : v ≤ n) (hopen : s.valueAt v = none) :
    s.requireOpen v = .ok () := by
  simp only [requireOpen, h.value_eq hv, hopen, bind, Except.bind, pure, Except.pure]

/-- A unit score is raised only while its variable has no value. -/
theorem countUnit_ok (h : Coherent n s) (hok : s.countUnit v = .ok s') :
    v ≤ n ∧ s.valueAt v = none ∧
      Reads n (Function.update s.entryAt v { s.entryAt v with unit := (s.entryAt v).unit + 1 })
        s.waiting s' := by
  obtain ⟨u, hopen, hok⟩ := bind_eq_ok.mp hok
  obtain ⟨hv, hvalue⟩ := h.requireOpen_ok hopen
  obtain ⟨e, he, hok⟩ := bind_eq_ok.mp hok
  obtain ⟨-, rfl⟩ := h.entry_ok he
  obtain ⟨unit, hunit, hok⟩ := bind_eq_ok.mp hok
  obtain ⟨-, rfl⟩ := below_eq_ok.mp hunit
  obtain ⟨s₁, hs₁, hok⟩ := bind_eq_ok.mp hok
  obtain rfl := Except.ok.inj ((h.setEntry_eq hv).symm.trans hs₁)
  obtain ⟨s₂, hs₂, hcoherent, hentries, hwaiting⟩ :=
    h.setEntry_rekey hv (h.unit_fits_of_rekey hv hok)
  obtain rfl := Except.ok.inj (hs₂.symm.trans hok)
  exact ⟨hv, hvalue, hcoherent, hentries, hwaiting⟩

/-- A polarity score changes only while its variable has no value. -/
theorem countOccurrence_ok (h : Coherent n s) (hok : s.countOccurrence v b = .ok s') :
    v ≤ n ∧ s.valueAt v = none ∧
      Reads n (Function.update s.entryAt v
          { s.entryAt v with polarity := (s.entryAt v).polarity + if b then 1 else -1 })
        s.waiting s' := by
  obtain ⟨u, hopen, hok⟩ := bind_eq_ok.mp hok
  obtain ⟨hv, hvalue⟩ := h.requireOpen_ok hopen
  obtain ⟨e, he, hok⟩ := bind_eq_ok.mp hok
  obtain ⟨-, rfl⟩ := h.entry_ok he
  obtain ⟨polarity, hpolarity, hok⟩ := bind_eq_ok.mp hok
  obtain ⟨-, rfl⟩ := inSignedWord_eq_ok.mp hpolarity
  obtain ⟨s₁, hs₁, hok⟩ := bind_eq_ok.mp hok
  obtain rfl := Except.ok.inj ((h.setEntry_eq hv).symm.trans hs₁)
  obtain ⟨s₂, hs₂, hcoherent, hentries, hwaiting⟩ := h.setEntry_rekey hv
    (e := { s.entryAt v with polarity := (s.entryAt v).polarity + if b then 1 else -1 })
    (h.unit_fits v)
  obtain rfl := Except.ok.inj (hs₂.symm.trans hok)
  exact ⟨hv, hvalue, hcoherent, hentries, hwaiting⟩

/-- A variable of the table without a value can be queued again. -/
theorem requeue (h : Coherent n s) (hv : v ≤ n) (hopen : s.valueAt v = none) :
    ∃ s', s.requeue v = .ok s' ∧ Reads n s.entryAt (insert v s.waiting) s' := by
  obtain ⟨s', hs', hcoherent, hentries, hwaiting⟩ := h.enqueue hv
  refine ⟨s', ?_, hcoherent, hentries, hwaiting⟩
  simp only [Branching.requeue, h.requireOpen_eq hv hopen, hs', bind, Except.bind]

/-- What is queued again is an open variable, and nothing else changes. -/
theorem requeue_ok (h : Coherent n s) (hok : s.requeue v = .ok s') :
    v ≤ n ∧ s.valueAt v = none ∧ Reads n s.entryAt (insert v s.waiting) s' := by
  obtain ⟨u, hopen, -⟩ := bind_eq_ok.mp hok
  obtain ⟨hv, hvalue⟩ := h.requireOpen_ok hopen
  obtain ⟨s₁, hs₁, hreads⟩ := h.requeue hv hvalue
  obtain rfl := Except.ok.inj (hs₁.symm.trans hok)
  exact ⟨hv, hvalue, hreads⟩

/-- Queueing these variables one after the other queues all of them. -/
theorem foldlM_enqueue (h : Coherent n s) {vs : List ℕ} (hvs : ∀ v ∈ vs, v ≤ n) :
    ∃ s', vs.foldlM Branching.enqueue s = .ok s' ∧
      Reads n s.entryAt (s.waiting ∪ vs.toFinset) s' := by
  induction vs generalizing s with
  | nil => exact ⟨s, rfl, h, rfl, by simp⟩
  | cons v vs ih =>
    obtain ⟨s₁, hs₁, hcoherent₁, hentries₁, hwaiting₁⟩ := h.enqueue (hvs v (by simp))
    obtain ⟨s', hs', hcoherent, hentries, hwaiting⟩ :=
      ih hcoherent₁ fun w hw => hvs w (by simp [hw])
    refine ⟨s', ?_, hcoherent, hentries.trans hentries₁, ?_⟩
    · simpa only [List.foldlM_cons, hs₁, bind, Except.bind] using hs'
    · rw [hwaiting, hwaiting₁, List.toFinset_cons, Finset.insert_union, Finset.union_insert]

end Coherent

/-- A new state with its tables in place and nothing queued. -/
theorem coherent_unqueued (hn : n < 2 ^ 32) {q : KeyedHeap} (hq : KeyedHeap.create n = .ok q) :
    Reads n (fun _ => {}) ∅ ⟨Array.replicate (n + 1) {}, q⟩ := by
  obtain ⟨hwf, hcontents⟩ := KeyedHeap.WellFormed.create hq
  have hentry : entryAt ⟨Array.replicate (n + 1) {}, q⟩ = fun _ => {} := by
    funext v
    by_cases hv : v < n + 1 <;> simp [entryAt, hv]
  have hwaiting : waiting ⟨Array.replicate (n + 1) {}, q⟩ = ∅ := by
    obtain ⟨-, rfl⟩ := KeyedHeap.create_eq_ok.mp hq
    rfl
  refine ⟨⟨⟨hn, Array.size_replicate, fun v => ?_, hwf⟩, fun v hv => ?_⟩, hentry, hwaiting⟩
  · rw [hentry]
    exact Priority.fits_of_lt hn (Nat.two_pow_pos 31)
  · rw [hwaiting] at hv
    simp at hv

/-- For fewer than `2 ^ 32` variables a state can be created, and then all variables are queued,
without values and scores. -/
theorem create_eq_ok (hn : n < 2 ^ 32) :
    ∃ s, create n = .ok s ∧ Reads n (fun _ => {}) (Finset.Icc 1 n) s := by
  have hq : KeyedHeap.create n = .ok _ :=
    KeyedHeap.create_eq_ok.mpr ⟨by simp only [maxTableBytes]; omega, rfl⟩
  have hreads := coherent_unqueued hn hq
  have hle : ∀ v ∈ List.range' 1 n, v ≤ n := by
    intro v hv
    rw [List.mem_range'_1] at hv
    omega
  obtain ⟨s, hs, hcoherent, hentries, hwaiting⟩ := hreads.coherent.foldlM_enqueue hle
  have htable : checkTable 12 n = .ok () := if_pos (by simp only [maxTableBytes]; omega)
  have hword : n % wordSize = n := Nat.mod_eq_of_lt hn
  refine ⟨s, ?_, hcoherent, hentries.trans hreads.entryAt_eq, ?_⟩
  · simpa only [create, htable, hq, hword, bind, Except.bind] using hs
  · rw [hwaiting, hreads.waiting_eq, Finset.empty_union]
    ext v
    rw [List.mem_toFinset, List.mem_range'_1, Finset.mem_Icc]
    omega

end Branching

end SatSearch
