import SatSearch.Proofs.Search.Steps
import SatSearch.Proofs.ClauseScan.Verdict
import Mathlib.Data.Finset.Card

/-!
# Trail, values and queue

Between the steps of a search the trail lists the variables with a value, and every other variable
is queued. The variable that is being branched on is the exception: from its selection to its first
value, between its values, and until it is queued again it is held, which means that it neither has
a value nor is queued. Each step of the search takes a tracked state to a tracked state and moves at
most the held variable.
-/

namespace SatSearch

namespace SearchState

variable {n v : ℕ} {b : Bool} {held : Option ℕ} {f : Formula} {s t : SearchState}

/-- What is kept of one variable. It has the value that the trail lists, and otherwise it is queued
unless it is held. While it is not queued it has no scores. -/
structure TrackedAt (n : ℕ) (held : Option ℕ) (s : SearchState) (v : ℕ) : Prop where
  valueAt_iff : ∀ b, s.branching.valueAt v = some b ↔ (v, b) ∈ s.trail
  mem_waiting : v ∈ s.branching.waiting ↔
    1 ≤ v ∧ v ≤ n ∧ s.branching.valueAt v = none ∧ held ≠ some v
  held_open : held = some v → 1 ≤ v ∧ v ≤ n ∧ s.branching.valueAt v = none
  cleared : s.branching.valueAt v ≠ none ∨ held = some v →
    (s.branching.entryAt v).unit = 0 ∧ (s.branching.entryAt v).polarity = 0

/-- The trail lists different variables of the table, and every variable is tracked. -/
structure Tracked (n : ℕ) (held : Option ℕ) (s : SearchState) : Prop where
  coherent : s.branching.Coherent n
  nodup : (s.trail.map Prod.fst).Nodup
  in_range : ∀ x ∈ s.trail, 1 ≤ x.1 ∧ x.1 ≤ n
  trackedAt : ∀ v, TrackedAt n held s v

/-- A step about other variables leaves a variable tracked. -/
theorem TrackedAt.frame {held' : Option ℕ} (h : TrackedAt n held s v)
    (hentry : t.branching.entryAt v = s.branching.entryAt v)
    (hwaiting : v ∈ t.branching.waiting ↔ v ∈ s.branching.waiting)
    (htrail : ∀ b, (v, b) ∈ t.trail ↔ (v, b) ∈ s.trail)
    (hheld : held' = some v ↔ held = some v) : TrackedAt n held' t v := by
  have hvalue : t.branching.valueAt v = s.branching.valueAt v := congrArg Entry.value hentry
  refine ⟨fun b => ?_, ?_, ?_, ?_⟩
  · rw [hvalue, htrail, h.valueAt_iff]
  · rw [hwaiting, hvalue, ne_eq, hheld, h.mem_waiting]
  · rw [hvalue, hheld]
    exact h.held_open
  · rw [hvalue, hentry, hheld]
    exact h.cleared

namespace Tracked

/-- The values are those on the trail. -/
theorem valueAt_iff (h : Tracked n held s) (v : ℕ) (b : Bool) :
    s.branching.valueAt v = some b ↔ (v, b) ∈ s.trail := (h.trackedAt v).valueAt_iff b

/-- The declared variables without a value wait, except the one that is held. -/
theorem mem_waiting (h : Tracked n held s) (v : ℕ) : v ∈ s.branching.waiting ↔
    1 ≤ v ∧ v ≤ n ∧ s.branching.valueAt v = none ∧ held ≠ some v := (h.trackedAt v).mem_waiting

/-- A variable has a value if it is on the trail. -/
theorem valueAt_ne_none (h : Tracked n held s) :
    s.branching.valueAt v ≠ none ↔ v ∈ s.trail.map Prod.fst := by
  rw [Option.ne_none_iff_exists', List.mem_map]
  constructor
  · rintro ⟨b, hb⟩
    exact ⟨(v, b), (h.valueAt_iff v b).mp hb, rfl⟩
  · rintro ⟨⟨w, b⟩, hx, rfl⟩
    exact ⟨b, (h.valueAt_iff w b).mpr hx⟩

/-- The values of the variables extend to the same assignments as the trail. -/
theorem extends_iff (h : Tracked n held s) {value : ℕ → Bool} :
    Extends s.branching.valueAt value ↔ ∀ x ∈ s.trail, value x.1 = x.2 :=
  ⟨fun hext x hx => hext x.1 x.2 ((h.valueAt_iff x.1 x.2).mpr hx),
    fun hagree v b hb => hagree (v, b) ((h.valueAt_iff v b).mp hb)⟩

/-- Every variable is on the trail or in the queue. -/
theorem length_add_card (h : Tracked n none s) :
    s.trail.length + s.branching.waiting.card = n := by
  have hunion : (s.trail.map Prod.fst).toFinset ∪ s.branching.waiting = Finset.Icc 1 n := by
    ext v
    rw [Finset.mem_union, List.mem_toFinset, h.mem_waiting, Finset.mem_Icc]
    constructor
    · rintro (hv | hv)
      · obtain ⟨x, hx, rfl⟩ := List.mem_map.mp hv
        exact h.in_range x hx
      · exact ⟨hv.1, hv.2.1⟩
    · intro hv
      by_cases hopen : s.branching.valueAt v = none
      · exact .inr ⟨hv.1, hv.2, hopen, (Option.some_ne_none v).symm⟩
      · exact .inl (h.valueAt_ne_none.mp hopen)
  have hdisjoint : Disjoint (s.trail.map Prod.fst).toFinset s.branching.waiting := by
    rw [Finset.disjoint_left]
    intro v htrail hwaiting
    rw [List.mem_toFinset, ← h.valueAt_ne_none] at htrail
    exact htrail ((h.mem_waiting v).mp hwaiting).2.2.1
  have hcard := Finset.card_union_of_disjoint hdisjoint
  rw [hunion, Nat.card_Icc, List.toFinset_card_of_nodup h.nodup, List.length_map] at hcard
  omega

/-- Every declared variable is on the trail or queued. -/
theorem length_add_queued (h : Tracked n none s) :
    s.trail.length + s.branching.queued = n := by
  rw [h.coherent.queued_eq, h.length_add_card]

/-- Without a queued variable all of them are on the trail. -/
theorem length_eq (h : Tracked n none s) (hempty : s.branching.waiting = ∅) :
    s.trail.length = n := by
  have hcount := h.length_add_card
  rwa [hempty, Finset.card_empty, Nat.add_zero] at hcount

/-- With a full trail every declared variable has a value. -/
theorem valueAt_of_length_eq (h : Tracked n none s) (hfull : s.trail.length = n) (hv : 1 ≤ v)
    (hvn : v ≤ n) : s.branching.valueAt v ≠ none := by
  intro hopen
  have hmem := (h.mem_waiting v).mpr ⟨hv, hvn, hopen, (Option.some_ne_none v).symm⟩
  have hpos := Finset.card_pos.mpr ⟨v, hmem⟩
  have hcount := h.length_add_card
  omega

/-- A selected variable is held. -/
theorem select (h : Tracked n none s) {choice : Choice} {branching : Branching}
    (hok : s.branching.select.result = .ok (some (choice, branching))) :
    Tracked n (some choice.var) { s with branching } := by
  obtain ⟨hnext, -, hreads⟩ := h.coherent.select_ok hok
  obtain ⟨hv, hvn, hopen, -⟩ := (h.mem_waiting choice.var).mp hnext.1
  refine ⟨hreads.coherent, h.nodup, h.in_range, fun w => ?_⟩
  by_cases hwv : w = choice.var
  · subst hwv
    have hentry : branching.entryAt choice.var = (s.branching.entryAt choice.var).cleared := by
      rw [hreads.entryAt_eq, Function.update_self]
    have hvalue : branching.valueAt choice.var = none := (congrArg Entry.value hentry).trans hopen
    refine ⟨fun b => ?_, ?_, fun _ => ⟨hv, hvn, hvalue⟩, fun _ => ?_⟩
    · rw [hvalue, ← h.valueAt_iff, hopen]
    · simp [hreads.waiting_eq]
    · rw [hentry]
      exact ⟨rfl, rfl⟩
  · refine (h.trackedAt w).frame ?_ ?_ (fun _ => Iff.rfl) ?_
    · rw [hreads.entryAt_eq, Function.update_of_ne hwv]
    · simp [hreads.waiting_eq, hwv]
    · simp [Ne.symm hwv]

/-- The held variable is put on the trail with its value. -/
theorem assign (h : Tracked n (some v) s) (hok : (s.assign v b).result = .ok t) :
    Tracked n none t ∧ t.trail = (v, b) :: s.trail := by
  obtain ⟨branching, hbranching, rfl⟩ := assign_ok hok
  obtain ⟨-, hreads⟩ := h.coherent.assign_ok hbranching
  obtain ⟨hv, hvn, hopen⟩ := (h.trackedAt v).held_open rfl
  have hfresh : v ∉ s.trail.map Prod.fst := fun hmem => h.valueAt_ne_none.mpr hmem hopen
  refine ⟨⟨hreads.coherent, List.nodup_cons.mpr ⟨hfresh, h.nodup⟩,
    List.forall_mem_cons.mpr ⟨⟨hv, hvn⟩, h.in_range⟩, fun w => ?_⟩, rfl⟩
  by_cases hwv : w = v
  · subst hwv
    have hentry : branching.entryAt w = { s.branching.entryAt w with value := some b } := by
      rw [hreads.entryAt_eq, Function.update_self]
    have hvalue : branching.valueAt w = some b := congrArg Entry.value hentry
    refine ⟨fun d => ?_, ?_, fun hw => absurd hw (Option.some_ne_none w).symm, fun _ => ?_⟩
    · have hnot : (w, d) ∉ s.trail := fun hmem => hfresh (List.mem_map_of_mem hmem)
      rw [hvalue, List.mem_cons, or_iff_left hnot, Option.some.injEq, Prod.mk.injEq,
        and_iff_right rfl, eq_comm]
    · simp [hreads.waiting_eq, h.mem_waiting, hvalue]
    · rw [hentry]
      exact (h.trackedAt w).cleared (.inr rfl)
  · refine (h.trackedAt w).frame ?_ (by rw [hreads.waiting_eq]) ?_ ?_
    · rw [hreads.entryAt_eq, Function.update_of_ne hwv]
    · simp [hwv]
    · simp [Ne.symm hwv]

/-- The innermost variable of the trail is held again. -/
theorem retract (h : Tracked n none s) {rest : List (ℕ × Bool)} (htrail : s.trail = (v, b) :: rest)
    (hok : s.retract v = .ok t) : Tracked n (some v) t ∧ t.trail = rest := by
  obtain ⟨branching, hbranching, rfl⟩ := retract_ok hok
  obtain ⟨-, hreads⟩ := h.coherent.unassign_ok hbranching
  have hmem : (v, b) ∈ s.trail := by rw [htrail]; exact List.mem_cons_self
  have hset : s.branching.valueAt v = some b := (h.valueAt_iff v b).mpr hmem
  obtain ⟨hv, hvn⟩ := h.in_range _ hmem
  have hnodup := h.nodup
  rw [htrail, List.map_cons, List.nodup_cons] at hnodup
  rw [htrail, List.tail_cons]
  refine ⟨⟨hreads.coherent, hnodup.2, fun x hx => ?_, fun w => ?_⟩, rfl⟩
  · exact h.in_range x (by rw [htrail]; exact List.mem_cons_of_mem _ hx)
  by_cases hwv : w = v
  · subst hwv
    have hentry : branching.entryAt w = { s.branching.entryAt w with value := none } := by
      rw [hreads.entryAt_eq, Function.update_self]
    have hvalue : branching.valueAt w = none := congrArg Entry.value hentry
    refine ⟨fun d => ?_, ?_, fun _ => ⟨hv, hvn, hvalue⟩, fun _ => ?_⟩
    · have hnot : (w, d) ∉ rest := fun hx => hnodup.1 (List.mem_map.mpr ⟨(w, d), hx, rfl⟩)
      rw [hvalue]
      exact ⟨fun hd => absurd hd (Option.some_ne_none d).symm, fun hx => absurd hx hnot⟩
    · simp [hreads.waiting_eq, h.mem_waiting, hset]
    · rw [hentry]
      exact (h.trackedAt w).cleared (.inl (by rw [hset]; exact Option.some_ne_none b))
  · refine (h.trackedAt w).frame ?_ (by rw [hreads.waiting_eq]) ?_ ?_
    · rw [hreads.entryAt_eq, Function.update_of_ne hwv]
    · simp [htrail, hwv]
    · simp [Ne.symm hwv]

/-- Queueing the held variable again. -/
theorem of_requeued (h : Tracked n (some v) s) {branching : Branching}
    (hreads : branching.Reads n s.branching.entryAt (insert v s.branching.waiting))
    {statistics : Statistics} : Tracked n none { s with branching, statistics } := by
  obtain ⟨hv, hvn, hopen⟩ := (h.trackedAt v).held_open rfl
  have hentry : branching.entryAt = s.branching.entryAt := hreads.entryAt_eq
  refine ⟨hreads.coherent, h.nodup, h.in_range, fun w => ?_⟩
  by_cases hwv : w = v
  · subst hwv
    have hvalue : branching.valueAt w = none := by
      rw [← hopen, Branching.valueAt, hentry, Branching.valueAt]
    refine ⟨fun d => ?_, ?_, fun hw => absurd hw (Option.some_ne_none w).symm, fun _ => ?_⟩
    · rw [hvalue, ← h.valueAt_iff, hopen]
    · simp [hreads.waiting_eq, hv, hvn, hvalue]
    · rw [hentry]
      exact (h.trackedAt w).cleared (.inr rfl)
  · refine (h.trackedAt w).frame (congrFun hentry w) ?_ (fun _ => Iff.rfl) ?_
    · simp [hreads.waiting_eq, hwv]
    · simp [Ne.symm hwv]

/-- A backtrack leaves the trail and holds no variable. -/
theorem backtrack (h : Tracked n (some v) s) (hok : (s.backtrack v).result = .ok t) :
    Tracked n none t ∧ t.trail = s.trail := by
  obtain ⟨branching, hbranching, rfl⟩ := backtrack_ok hok
  exact ⟨h.of_requeued (h.coherent.requeue_ok hbranching).2.2, rfl⟩

/-- A scan changes only scores of variables that are queued or held. -/
theorem scan (h : Tracked n none s) {finding : Finding}
    (hok : (s.scan f).result = .ok (finding, t)) :
    Tracked n none t ∧ t.trail = s.trail ∧
      (finding = .satisfied → f.satisfied t.branching.valueAt = true) ∧
      ∀ why, finding = .conflict why → f.Refuted t.branching.valueAt := by
  obtain ⟨propagator, branching, hscan, rfl⟩ := scan_ok hok
  have hscored := h.coherent.scan_scored hscan
  obtain ⟨-, hconflict, hsatisfied⟩ := Branching.scan_verdict hscan
  rw [← hscored.valueAt_eq] at hconflict hsatisfied
  refine ⟨⟨hscored.coherent, h.nodup, h.in_range, fun w => ?_⟩, rfl,
    fun hfinding => hsatisfied.mp (hfinding ▸ rfl),
    fun why hfinding => hconflict.mp (hfinding ▸ rfl)⟩
  refine ⟨fun d => ?_, ?_, fun hw => absurd hw (Option.some_ne_none w).symm, fun hw => ?_⟩
  · rw [hscored.valueAt_eq, h.valueAt_iff]
  · rw [hscored.waiting_eq, h.mem_waiting, hscored.valueAt_eq]
  · have hset := hw.resolve_right (Option.some_ne_none w).symm
    rw [hscored.valueAt_eq] at hset
    rw [hscored.entryAt_eq w hset]
    exact (h.trackedAt w).cleared (.inl hset)

/-- Every look-up that evaluating the formula makes succeeds. -/
theorem exists_check (h : Tracked f.variableCount none s) (hrange : f.InRange) :
    ∃ r, f.check (fun v => do return (← s.branching.value v).getD false) = .ok r := by
  refine Formula.exists_check fun c hc l hl => ?_
  rw [h.coherent.value_eq (hrange c hc l hl)]
  exact ⟨_, rfl⟩

/-- An evaluation with all variables on the trail decides the formula. -/
theorem evaluate (h : Tracked n none s) (hfull : s.trail.length = n) {outcome : Outcome}
    (hok : s.evaluate f = .ok (outcome, t)) :
    Tracked n none t ∧ t.trail = s.trail ∧
      (outcome = .solved → f.satisfied t.branching.valueAt = true) ∧
      (outcome = .exhausted → f.Refuted t.branching.valueAt) := by
  obtain ⟨holds, hcheck, rfl, rfl⟩ := evaluate_ok hok
  have hlookup : ∀ v b, v ≠ 0 → (do return (← s.branching.value v).getD false : Except Fault Bool) =
      .ok b → s.branching.valueAt v = some b := by
    intro v b hv hvb
    obtain ⟨r, hr, hvb⟩ := bind_eq_ok.mp hvb
    obtain ⟨hvn, rfl⟩ := h.coherent.value_ok hr
    have hset := h.valueAt_of_length_eq hfull (Nat.pos_of_ne_zero hv) hvn
    obtain ⟨d, hd⟩ := Option.ne_none_iff_exists'.mp hset
    rw [hd, Option.getD_some] at hvb
    rw [hd, pure_eq_ok.mp hvb]
  have ht : Tracked n none { s with
      statistics := { s.statistics with evaluations := s.statistics.evaluations + 1 } } :=
    ⟨h.coherent, h.nodup, h.in_range, fun v => (h.trackedAt v).frame rfl Iff.rfl
      (fun _ => Iff.rfl) Iff.rfl⟩
  refine ⟨ht, rfl, ?_⟩
  rcases f.check_ok_cases hlookup hcheck with ⟨rfl, hsat⟩ | ⟨rfl, hrefuted⟩
  · exact ⟨fun _ => hsat, nofun⟩
  · exact ⟨nofun, fun _ => hrefuted⟩

end Tracked

/-- For fewer than `2 ^ 32` variables a search can be created, and its state is tracked. -/
theorem create_eq_ok (hn : n < 2 ^ 32) :
    ∃ s, create n = .ok s ∧ Tracked n none s ∧ s.trail = [] := by
  obtain ⟨branching, hbranching, hreads⟩ := Branching.create_eq_ok hn
  have hopen : ∀ v, branching.valueAt v = none := fun v => by
    rw [Branching.valueAt, hreads.entryAt_eq]
  refine ⟨{ branching }, by rw [create, hbranching]; rfl, ?_, rfl⟩
  refine ⟨hreads.coherent, List.nodup_nil, List.forall_mem_nil _, fun v => ?_⟩
  refine ⟨fun b => ?_, ?_, fun hv => absurd hv (Option.some_ne_none v).symm, fun hv => ?_⟩
  · simp [hopen]
  · simp [hreads.waiting_eq, hopen]
  · exact absurd (hopen v) (hv.resolve_right (Option.some_ne_none v).symm)

end SearchState

end SatSearch
