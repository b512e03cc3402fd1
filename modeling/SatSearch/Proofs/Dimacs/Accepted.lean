import SatSearch.Proofs.Decision
import SatSearch.Proofs.Dimacs.Rendering
import SatSearch.Proofs.Search.Overflow

/-!
# Which accepted files can be solved

Reading checks every literal against the declared number of variables but takes this number as it
is. Below `2 ^ 32` it can be used: tables of this size can be addressed, and every variable has a
name of its own. If moreover no literal has the smallest code, every literal can be negated. Then
neither method meets a fault other than a counter or a key that leaves its range. Beyond these
limits no accepted file can be solved as it should.
-/

namespace SatSearch

namespace Formula

variable {f : Formula}

/-- Both methods can do what they have to with the formula. -/
structure Solvable (f : Formula) : Prop where
  /-- Every literal is on a declared variable and can be negated. -/
  literals : ∀ c ∈ f.clauses, ∀ l ∈ c.literals,
    1 ≤ l.var ∧ l.var ≤ f.variableCount ∧ ∃ m, l.negate = .ok m
  /-- A search can be created and queues exactly the declared variables. After any number of runs
  every literal can be looked up, and only an overflow can end the runs early. -/
  search : ∃ s₀, SearchState.create f.variableCount = .ok s₀ ∧
    (∀ v, s₀.branching.isQueued v = .ok true ↔ 1 ≤ v ∧ v ≤ f.variableCount) ∧
    ∀ k, (∀ answers s, (SearchState.runs f k s₀).result = .ok (answers, s) →
        ∀ c ∈ f.clauses, ∀ l ∈ c.literals, ∃ b, s.branching.value l.var = .ok b) ∧
      ∀ e, (SearchState.runs f k s₀).result = .error e → e = .overflow
  /-- An enumeration can begin. Every literal can be looked up in every assignment, and only an
  overflow can end the enumeration early. -/
  enumeration : checkTable 1 f.variableCount = .ok () ∧
    (∀ bs, bs.length = f.variableCount →
      ∀ c ∈ f.clauses, ∀ l ∈ c.literals, ∃ b, Counting.value bs l.var = .ok b) ∧
    ∀ e, f.firstModel.result = .error e → e = .overflow
  /-- Deciding the formula gives the right verdict unless an overflow ends it. -/
  verdict : ∀ config, (∀ e, (f.solve config).result = .error e → e = .overflow) ∧
    ∀ r, (f.solve config).result = .ok r →
      ∃ a, r = .ok a ∧ (a.satisfiable = true ↔ ∃ value, f.holds value = true)

/-- A table for fewer than 2 ^ 32 variables is never too large. -/
theorem checkTable_of_lt {entryBytes n : ℕ} (hbytes : entryBytes ≤ 16) (hn : n < 2 ^ 32) :
    checkTable entryBytes n = .ok () := by
  have hle : entryBytes * (n + 1) ≤ 16 * 2 ^ 32 := Nat.mul_le_mul hbytes hn
  exact if_pos (Nat.le_trans hle (by decide))

/-- A search comes to nothing worse than an overflow of its counters. -/
theorem search_upTo (hn : f.variableCount < 2 ^ 32) (hrange : f.InRange) (hneg : f.Negatable) :
    UpToOverflow (fun _ => True) f.search.result := by
  obtain ⟨s₀, hs₀, htracked, -⟩ := SearchState.create_eq_ok hn
  rw [search, Logged.lift_bind_of_ok hs₀]
  exact (SearchState.run_upTo hrange hneg htracked).logged_bind fun _ _ => .ok trivial

/-- Solving comes to nothing worse than an overflow of its counters. -/
theorem solve_upTo (hn : f.variableCount < 2 ^ 32) (hrange : f.InRange) (hneg : f.Negatable)
    (config : Config) : UpToOverflow (fun _ => True) (f.solve config).result := by
  have hlog : ∀ m, UpToOverflow (fun _ => True) (Logged.log m : Logged Fault Unit).result :=
    fun _ => .ok trivial
  have hanswer : UpToOverflow (fun _ => True) (f.answer config.method).result := by
    cases config.method with
    | dpll =>
      refine (search_upTo hn hrange hneg).logged_bind fun _ _ => ?_
      exact (hlog _).logged_bind fun _ _ => .ok trivial
    | exhaustive =>
      have hfirst := firstModel_upTo hrange (checkTable_of_lt (by decide) hn)
      exact hfirst.logged_bind fun _ _ => .ok trivial
  rw [solve_eq hn]
  exact (hlog _).logged_bind fun _ _ => hanswer.logged_bind fun _ _ => .ok trivial

/-- Where solving returns, it returns an answer that is right. -/
theorem solve_verdict (hn : f.variableCount < 2 ^ 32) {config : Config}
    {r : Except SolveError Answer} (hok : (f.solve config).result = .ok r) :
    ∃ a, r = .ok a ∧ f.Answered a.model := by
  obtain ⟨a, ha, rfl⟩ := (solve_eq_ok hn).mp hok
  exact ⟨a, rfl, answer_answered hn ha⟩

end Formula

namespace Branching

variable {n v : ℕ} {s t : Branching}

/-- Queueing variables one after the other queues no others, also where keys may not fit. -/
theorem mem_waiting_of_foldlM {vs : List ℕ} (hs : s.queue.WellFormed n) (hvs : ∀ v ∈ vs, v ≤ n)
    (hok : vs.foldlM enqueue s = .ok t) :
    t.queue.WellFormed n ∧ ∀ v ∈ t.waiting, v ∈ s.waiting ∨ v ∈ vs := by
  induction vs generalizing s with
  | nil =>
    cases hok
    exact ⟨hs, fun v hv => .inl hv⟩
  | cons w vs ih =>
    obtain ⟨hw, hvs⟩ := List.forall_mem_cons.mp hvs
    rw [List.foldlM_cons] at hok
    obtain ⟨s₁, hs₁, hok⟩ := bind_eq_ok.mp hok
    obtain ⟨p, -, hs₁⟩ := bind_eq_ok.mp hs₁
    obtain ⟨q, hq, hs₁⟩ := bind_eq_ok.mp hs₁
    obtain ⟨q', hq', hwf, hcontents⟩ := hs.insert hw p.key
    obtain rfl := Except.ok.inj (hq'.symm.trans hq)
    obtain rfl := pure_eq_ok.mp hs₁
    obtain ⟨ht, hmem⟩ := ih hwf hvs hok
    refine ⟨ht, fun v hv => ?_⟩
    rcases hmem v hv with hv | hv
    · simp only [waiting, hcontents, KeyedSet.mem_queued_insert] at hv
      rcases hv with rfl | hv
      · exact .inr List.mem_cons_self
      · exact .inl hv
    · exact .inr (List.mem_cons_of_mem w hv)

/-- A variable whose name does not fit into a word is not queued. -/
theorem lt_wordSize_of_isQueued (hcreate : create n = .ok s) (hqueued : s.isQueued v = .ok true) :
    v < wordSize := by
  obtain ⟨_, -, hcreate⟩ := bind_eq_ok.mp hcreate
  obtain ⟨q, hq, hfold⟩ := bind_eq_ok.mp hcreate
  obtain ⟨hwf, -⟩ := KeyedHeap.WellFormed.create hq
  have hempty : waiting ⟨Array.replicate (n + 1) {}, q⟩ = ∅ := by
    obtain ⟨-, rfl⟩ := KeyedHeap.create_eq_ok.mp hq
    rfl
  have hnames : ∀ v ∈ List.range' 1 (n % wordSize), v ≤ n ∧ v < wordSize := by
    intro v hv
    rw [List.mem_range'_1] at hv
    have hle := Nat.mod_le n wordSize
    have hlt := Nat.mod_lt n (show wordSize > 0 by decide)
    omega
  obtain ⟨hs, hwaiting⟩ :=
    mem_waiting_of_foldlM (t := s) hwf (fun v hv => (hnames v hv).1) hfold
  by_cases hv : v ≤ n
  · rw [isQueued, hs.contains_eq hv, Except.ok.injEq, decide_eq_true_eq] at hqueued
    rcases hwaiting v hqueued with hmem | hmem
    · rw [hempty] at hmem
      cases hmem
    · exact (hnames v hmem).2
  · rw [isQueued, hs.contains_of_lt (by omega)] at hqueued
    cases hqueued

end Branching

namespace SearchState

variable {f : Formula} {n : ℕ} {s : SearchState}

/-- Before the first selection all variables are queued. -/
theorem Tracked.isQueued_iff (h : Tracked n none s) (htrail : s.trail = []) (v : ℕ) :
    s.branching.isQueued v = .ok true ↔ 1 ≤ v ∧ v ≤ n := by
  have hopen : s.branching.valueAt v = none := by
    rw [Option.eq_none_iff_forall_ne_some]
    intro b hb
    rw [h.valueAt_iff, htrail] at hb
    cases hb
  rw [h.coherent.isQueued_iff, h.mem_waiting]
  simp [hopen]

/-- The tables for `n` variables with nothing queued. -/
def unqueued (n : ℕ) : Branching :=
  ⟨Array.replicate (n + 1) {}, ⟨Array.replicate (n + 1) 0, #[], Array.replicate (n + 1) none⟩⟩

/-- A multiple of `2 ^ 32` variables leaves no variable with a name to queue. -/
theorem create_of_unnamed (hn : n % wordSize = 0) (htable : 16 * (n + 1) ≤ maxTableBytes) :
    create n = .ok { branching := unqueued n } := by
  have hentries : checkTable 12 n = .ok () := if_pos (by omega)
  have hheap : KeyedHeap.create n = .ok _ := KeyedHeap.create_eq_ok.mpr ⟨htable, rfl⟩
  rw [create, Branching.create, hentries, ok_bind, hheap, ok_bind, hn]
  rfl

/-- Such a search evaluates the formula right away, with all variables taken as false. -/
theorem search_of_unnamed (hn : n % wordSize = 0) (hpos : 0 < n)
    (htable : 16 * (n + 1) ≤ maxTableBytes) :
    (Formula.search ⟨n, [.ofCodes [1]]⟩).result = .ok (none, { evaluations := 1 }) := by
  have hvalue : (unqueued n).value 1 = .ok none := by
    have hentry : (unqueued n).entries[1]? = some { value := none } := by simp [unqueued, hpos]
    simp only [Branching.value, Branching.entry, hentry, ok_bind]
    rfl
  have hevaluate : evaluate ⟨n, [.ofCodes [1]]⟩ { branching := unqueued n } =
      .ok (.exhausted, { branching := unqueued n, statistics := { evaluations := 1 } }) := by
    have hcount : below longSize (0 + 1) = .ok 1 := by decide
    have hcheck : Formula.check (fun v => do return (← (unqueued n).value v).getD false)
        ⟨n, [.ofCodes [1]]⟩ = .ok false := by
      have hclause : Clause.ofCodes [1] = ⟨[⟨1, by decide, by decide⟩], by simp⟩ := by decide
      simp [Formula.check, Clause.check, hclause, Literal.var, Literal.positive, hvalue]
    simp only [evaluate, hcount, hcheck, ok_bind]
    rfl
  have hexplore : (explore ⟨n, [.ofCodes [1]]⟩ (unqueued n).queued
      { branching := unqueued n }).result =
        .ok (.exhausted, { branching := unqueued n, statistics := { evaluations := 1 } }) :=
    hevaluate
  rw [Formula.search, Logged.lift_bind_of_ok (create_of_unnamed hn htable), Logged.result_bind,
    run_eq, Logged.result_bind, hexplore]
  rfl

end SearchState

namespace Formula

variable {f : Formula}

/-- What a search finds unsatisfiable is answered so. -/
theorem solve_of_search {statistics : Statistics}
    (h : f.search.result = .ok (none, statistics)) :
    (f.solve {}).result = .ok (.ok ⟨.dpll, none, some statistics⟩) := by
  simp only [solve, answer, Logged.result_bind, h]
  rfl

/-- A formula in range whose literals can be negated can be solved by both methods. -/
theorem solvable (hn : f.variableCount < 2 ^ 32) (hrange : f.InRange) (hneg : f.Negatable) :
    f.Solvable := by
  have htable : checkTable 1 f.variableCount = .ok () := checkTable_of_lt (by decide) hn
  obtain ⟨s₀, hs₀, htracked, hempty⟩ := SearchState.create_eq_ok hn
  refine ⟨fun c hc l hl => ?_, ⟨s₀, hs₀, htracked.isQueued_iff hempty, fun k => ⟨?_, ?_⟩⟩,
    ⟨htable, ?_, ?_⟩, fun config => ⟨?_, ?_⟩⟩
  · exact ⟨Literal.var_pos (c.nonzero l hl), hrange c hc l hl,
      Literal.exists_negate (hneg c hc l hl)⟩
  · intro answers s hruns c hc l hl
    rw [← SearchState.run_watchRuns] at hruns
    have hs := (SearchState.watchRuns_tracked htracked).result _ hruns
    exact ⟨_, hs.coherent.value_eq (hrange c hc l hl)⟩
  · exact fun e => (SearchState.runs_upTo hrange hneg htracked).eq_overflow
  · exact fun bs hbs c hc l hl => Counting.exists_value (hbs ▸ hrange c hc l hl)
  · exact fun e => (firstModel_upTo hrange htable).eq_overflow
  · exact fun e => (solve_upTo hn hrange hneg config).eq_overflow
  · intro r hok
    obtain ⟨a, rfl, hanswered⟩ := solve_verdict hn hok
    exact ⟨a, rfl, hanswered.isSome_iff⟩

/-- The literals of a formula that can be solved can be negated. -/
theorem Solvable.negatable (h : f.Solvable) : f.Negatable := by
  intro c hc l hl hcode
  obtain ⟨-, -, m, hm⟩ := h.literals c hc l hl
  rw [Literal.negate, dif_pos hcode] at hm
  cases hm

/-- The last variable has a name only if there are fewer than `2 ^ 32`. -/
theorem Solvable.variableCount_lt (h : f.Solvable) : f.variableCount < 2 ^ 32 := by
  obtain ⟨s₀, hcreate, hqueued, -⟩ := h.search
  obtain ⟨branching, hbranching, hs₀⟩ := bind_eq_ok.mp hcreate
  obtain rfl := pure_eq_ok.mp hs₀
  by_cases hpos : 1 ≤ f.variableCount
  · exact Branching.lt_wordSize_of_isQueued hbranching ((hqueued _).mpr ⟨hpos, Nat.le_refl _⟩)
  · omega

end Formula

namespace Dimacs

variable {bytes : List UInt8} {f : Formula}

/-- An accepted file can be solved exactly if it declares fewer than `2 ^ 32` variables and has no
literal with the smallest code. -/
theorem accepted_solvable_iff (hread : read bytes = .ok f) :
    f.Solvable ↔ f.variableCount < 2 ^ 32 ∧ f.Negatable :=
  ⟨fun h => ⟨h.variableCount_lt, h.negatable⟩,
    fun h => Formula.solvable h.1 (fitsFile_of_read hread).inRange h.2⟩

/-- The declared count and the literals go up to the last ones that can be used. -/
theorem accepted_solvable_iff_at_limit :
    let bytes := "p cnf 4294967295 2\n-2147483647 2 0\n 2147483647 0\n".toUTF8.toList
    ∃ f, read bytes = .ok f ∧ f.variableCount = 2 ^ 32 - 1 ∧ f.Solvable := by
  intro bytes
  have hread : read bytes =
      .ok ⟨2 ^ 32 - 1, [.ofCodes [-2147483647, 2], .ofCodes [2147483647]]⟩ := by
    decide +kernel
  exact ⟨_, hread, rfl, (accepted_solvable_iff hread).mpr ⟨by decide, by decide⟩⟩

/-- Of the first of these files no table can be made, a clause of the second has no negated literal,
and the third is found unsatisfiable although its one clause asks for variable 1. -/
theorem accepted_unsolvable :
    let huge := "p cnf 18446744073709551615 1\n0\n".toUTF8.toList
    let least := "p cnf 2147483648 1\n-2147483648 0\n".toUTF8.toList
    let wide := "p cnf 4294967296 1\n1 0\n".toUTF8.toList
    (∃ f, read huge = .ok f ∧ ¬f.Solvable ∧
      SearchState.create f.variableCount = .error (.tableTooLarge f.variableCount) ∧
      ∀ config, (f.solve config).result = .error (.tableTooLarge f.variableCount)) ∧
    (∃ f, read least = .ok f ∧ ¬f.Solvable ∧
      ∃ c ∈ f.clauses, ∃ l ∈ c.literals, l.negate = .error .noNegation) ∧
    ∃ f a, read wide = .ok f ∧ ¬f.Solvable ∧ f.holds (fun _ => true) = true ∧
      (f.solve {}).result = .ok (.ok a) ∧ a.satisfiable = false := by
  intro huge least wide
  have hhuge : read huge = .ok ⟨2 ^ 64 - 1, [.empty]⟩ := by decide +kernel
  have hleast : read least = .ok ⟨2 ^ 31, [.ofCodes [-2147483648]]⟩ := by decide +kernel
  have hwide : read wide = .ok ⟨2 ^ 32, [.ofCodes [1]]⟩ := by decide +kernel
  refine ⟨⟨_, hhuge, fun h => absurd h.variableCount_lt (by decide), rfl, ?_⟩,
    ⟨_, hleast, fun h => absurd h.negatable (by decide), ?_⟩,
    ⟨_, ⟨.dpll, none, some { evaluations := 1 }⟩, hwide,
      fun h => absurd h.variableCount_lt (by decide), rfl, ?_, rfl⟩⟩
  · rintro ⟨_ | _, verify⟩ <;> rfl
  · exact ⟨_, List.mem_singleton.mpr rfl, ⟨-2147483648, by decide, by decide⟩, by decide, rfl⟩
  · exact Formula.solve_of_search (SearchState.search_of_unnamed rfl (by decide) (by decide))

end Dimacs

end SatSearch
