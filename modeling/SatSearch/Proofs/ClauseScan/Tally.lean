import SatSearch.Proofs.Branching.Order
import SatSearch.Proofs.Branching.Raised
import SatSearch.Proofs.ClauseScan.Verdict

/-!
# What a scan adds to the scores

A scan counts the clauses before the first one that clashes with those before it, and all of them if
none does. Of these clauses it counts the ones without a true literal: in the unit score of a
variable those in which the variable is the only one open, in its polarity score every occurrence in
them by its sign. The values and the queue stay as they are, and a variable under the key of its
unit score gets the key of the new one.
-/

namespace SatSearch

variable {values : ℕ → Option Bool} {c d : Clause} {cs ds es done : List Clause} {l : Literal}
  {ls : List Literal} {v : ℕ}

/-- How many of these literals are positive on a variable less how many are negative. -/
def Literal.balance (ls : List Literal) (v : ℕ) : ℤ :=
  ls.countP (fun l => l.var = v ∧ l.positive = true) -
    ls.countP (fun l => l.var = v ∧ l.positive = false)

/-- A literal in front adds its sign to the balance of its variable. -/
theorem Literal.balance_cons :
    balance (l :: ls) v = (if v = l.var then if l.positive then 1 else -1 else 0) + balance ls v := by
  simp only [balance, List.countP_cons]
  by_cases hv : v = l.var
  · cases hl : l.positive <;> simp [hv] <;> omega
  · simp [hv, Ne.symm hv]

/-- The balance of two lists is the sum of their balances. -/
theorem Literal.balance_append (ms : List Literal) :
    balance (ls ++ ms) v = balance ls v + balance ms v := by
  simp only [balance, List.countP_append]
  omega

namespace Clause

instance : Decidable (c.Falsified values) :=
  inferInstanceAs (Decidable (c.satisfied values = false ∧ c.openLiterals values = []))

instance : Decidable (c.Forces values l) :=
  inferInstanceAs (Decidable (c.satisfied values = false ∧ c.openLiterals values = [l]))

/-- The literal that a clause forces is one of its literals. -/
theorem Forces.mem (h : c.Forces values l) : l ∈ c.literals := by
  have hl : l ∈ c.openLiterals values := by rw [h.2]; exact List.mem_singleton_self l
  exact (mem_openLiterals.mp hl).1

instance : Decidable (c.Clashes values done) :=
  decidable_of_iff (c.Falsified values ∨ ∃ l ∈ c.literals, c.Forces values l ∧
      ∃ d ∈ done, ∃ m ∈ d.literals, d.Forces values m ∧ m.code = -l.code) <| by
    refine or_congr_right ⟨?_, ?_⟩
    · rintro ⟨l, -, hl, d, hd, m, -, hm, hopposite⟩
      exact ⟨l, m, hl, ⟨d, hd, hm⟩, hopposite⟩
    · rintro ⟨l, m, hl, ⟨d, hd, hm⟩, hopposite⟩
      exact ⟨l, hl.mem, hl, d, hd, m, hm.mem, hm, hopposite⟩

/-- Those of the clauses `cs` that come before the first one to clash with the clauses before it,
to which the clauses `done` belong as well. -/
def beforeClash (values : ℕ → Option Bool) (done : List Clause) : List Clause → List Clause
  | [] => []
  | c :: cs => if c.Clashes values done then [] else c :: beforeClash values (done ++ [c]) cs

/-- A clause that clashes with the earlier ones ends the scan. -/
theorem beforeClash_of_clashes (h : c.Clashes values done) :
    beforeClash values done (c :: cs) = [] := by
  rw [beforeClash, if_pos h]

/-- A clause that does not clash is tallied, and the scan goes on behind it. -/
theorem beforeClash_of_not_clashes (h : ¬c.Clashes values done) :
    beforeClash values done (c :: cs) = c :: beforeClash values (done ++ [c]) cs := by
  rw [beforeClash, if_neg h]

/-- None of the clauses before the first clash clashes with those before it. -/
theorem not_clashes_of_beforeClash (h : beforeClash values done cs = ds ++ d :: es) :
    ¬d.Clashes values (done ++ ds) := by
  induction cs generalizing done ds with
  | nil => simp [beforeClash] at h
  | cons c cs ih =>
    by_cases hclash : c.Clashes values done
    · rw [beforeClash_of_clashes hclash] at h
      simp at h
    · rw [beforeClash_of_not_clashes hclash] at h
      cases ds with
      | nil =>
        obtain ⟨rfl, -⟩ := List.cons.inj h
        rwa [List.append_nil]
      | cons b ds =>
        obtain ⟨rfl, hrest⟩ := List.cons.inj h
        rw [List.append_cons]
        exact ih hrest

/-- The clauses without a true literal. -/
def unsatisfied (values : ℕ → Option Bool) (cs : List Clause) : List Clause :=
  cs.filter fun c => !c.satisfied values

/-- In how many clauses without a true literal the only open occurrence is on this variable. -/
def unitsOn (values : ℕ → Option Bool) (cs : List Clause) (v : ℕ) : ℕ :=
  (unsatisfied values cs).countP fun c => (c.openLiterals values).map Literal.var = [v]

/-- The positive occurrences of a variable in clauses without a true literal less the negative
ones. -/
def balanceOf (values : ℕ → Option Bool) (cs : List Clause) (v : ℕ) : ℤ :=
  Literal.balance ((unsatisfied values cs).flatMap literals) v

/-- The units of several clauses are those of the first and those of the rest. -/
theorem unitsOn_cons : unitsOn values (c :: cs) = unitsOn values [c] + unitsOn values cs := by
  funext v
  rw [Pi.add_apply, unitsOn, unitsOn, unitsOn, ← List.countP_append, unsatisfied, unsatisfied,
    unsatisfied, ← List.filter_append, List.singleton_append]

/-- The balance of several clauses is that of the first and that of the rest. -/
theorem balanceOf_cons :
    balanceOf values (c :: cs) = balanceOf values [c] + balanceOf values cs := by
  funext v
  rw [Pi.add_apply, balanceOf, balanceOf, balanceOf, ← Literal.balance_append, ← List.flatMap_append,
    unsatisfied, unsatisfied, unsatisfied, ← List.filter_append, List.singleton_append]

/-- An unsatisfied clause is tallied. -/
theorem unsatisfied_singleton (h : c.satisfied values = false) : unsatisfied values [c] = [c] := by
  simp [unsatisfied, h]

/-- A satisfied clause is not tallied. -/
theorem unsatisfied_singleton_of_satisfied (h : c.satisfied values = true) :
    unsatisfied values [c] = [] := by
  simp [unsatisfied, h]

end Clause

namespace Branching

variable {p q : Propagator} {s t : Branching}

/-- Going through literals counts all occurrences of the open variables among them. -/
theorem raised_of_countOccurrences_ok (hok : s.countOccurrences ls = .ok t) :
    Raised 0 (Literal.balance ls) s t := by
  induction ls generalizing s with
  | nil =>
    cases hok
    exact .refl _
  | cons l ls ih =>
    obtain ⟨value, hvalue, hok⟩ := bind_eq_ok.mp hok
    have hvar := valueAt_of_value_ok hvalue
    cases value with
    | some b =>
      refine (ih hok).congr fun v hopen => ⟨rfl, ?_⟩
      have hne : v ≠ l.var := by
        rintro rfl
        rw [hvar] at hopen
        cases hopen
      rw [Literal.balance_cons, if_neg hne, zero_add]
    | none =>
      obtain ⟨s₁, hs₁, hok⟩ := bind_eq_ok.mp hok
      refine ((raised_of_countOccurrence_ok hs₁).trans (ih hok)).congr fun v _ => ⟨rfl, ?_⟩
      rw [Literal.balance_cons, Pi.add_apply, Pi.single_apply]

/-- Counting a clause raises the scores by what the clause has of each variable. -/
theorem CountsClause.raised (h : s.CountsClause c t) :
    Raised (Clause.unitsOn s.valueAt [c]) (Clause.balanceOf s.valueAt [c]) s t := by
  have hclause := Clause.unsatisfied_singleton h.unsatisfied
  cases h with
  | @forcing l s₁ hforces hunit hoccurrences =>
    refine ((raised_of_countUnit_ok hunit).trans
      (raised_of_countOccurrences_ok hoccurrences)).congr fun v _ => ⟨?_, ?_⟩
    · rw [Clause.unitsOn, hclause, List.countP_singleton, hforces.2, Pi.add_apply, Pi.single_apply]
      simp [eq_comm]
    · rw [Clause.balanceOf, hclause, List.flatMap_singleton, zero_add]
  | several hunsatisfied htwo hoccurrences =>
    refine (raised_of_countOccurrences_ok hoccurrences).congr fun v _ => ⟨?_, ?_⟩
    · have hnot : (c.openLiterals s.valueAt).map Literal.var ≠ [v] := fun hsingle => by
        have hlength := congrArg List.length hsingle
        rw [List.length_map, List.length_singleton] at hlength
        omega
      rw [Clause.unitsOn, hclause, List.countP_singleton]
      simp [hnot]
    · rw [Clause.balanceOf, hclause, List.flatMap_singleton]

/-- A satisfied clause raises nothing. -/
theorem raised_of_satisfied (h : c.satisfied s.valueAt = true) :
    Raised (Clause.unitsOn s.valueAt [c]) (Clause.balanceOf s.valueAt [c]) s s := by
  have hclause := Clause.unsatisfied_singleton_of_satisfied h
  refine (Raised.refl s).congr fun v _ => ⟨?_, ?_⟩
  · rw [Clause.unitsOn, hclause, List.countP_nil, Pi.zero_apply]
  · rw [Clause.balanceOf, hclause]
    rfl

/-- At a clause that clashes with those before it the scan ends. Any other it counts, where a clause
with a true literal adds nothing, and goes on. -/
theorem scanFrom_cons_raised {allSatisfied : Bool} {finding : Finding}
    (hforced : Forced s.valueAt done p.forced)
    (hok : p.scanFrom s allSatisfied (c :: cs) = .ok (finding, q, t)) :
    (c.Clashes s.valueAt done ∧ finding.verdict = .conflict ∧ t = s) ∨
    (¬c.Clashes s.valueAt done ∧ ∃ (p' : Propagator) (s' : Branching) (allSatisfied' : Bool),
      Raised (Clause.unitsOn s.valueAt [c]) (Clause.balanceOf s.valueAt [c]) s s' ∧
      Forced s.valueAt (done ++ [c]) p'.forced ∧
      p'.scanFrom s' allSatisfied' cs = .ok (finding, q, t)) := by
  rcases scanFrom_cons_ok hforced hok with ⟨hsat, hforced', hok⟩ | hended |
    ⟨hclash, p', s', hcounts, hforced', hok⟩
  · have hclash : ¬c.Clashes s.valueAt done := fun hclash => by
      rw [hclash.unsatisfied] at hsat
      cases hsat
    exact .inr ⟨hclash, p, s, allSatisfied, raised_of_satisfied hsat, hforced', hok⟩
  · exact .inl hended
  · exact .inr ⟨hclash, p', s', false, hcounts.raised, hforced', hok⟩

/-- Scanning further clauses counts those before the first clash, and there is a clash exactly if
the scan ends with a conflict. -/
theorem scanFrom_raised {allSatisfied : Bool} {finding : Finding}
    (hforced : Forced s.valueAt done p.forced)
    (hok : p.scanFrom s allSatisfied cs = .ok (finding, q, t)) :
    Raised (Clause.unitsOn s.valueAt (Clause.beforeClash s.valueAt done cs))
        (Clause.balanceOf s.valueAt (Clause.beforeClash s.valueAt done cs)) s t ∧
      (finding.verdict ≠ .conflict ∧ Clause.beforeClash s.valueAt done cs = cs ∨
        finding.verdict = .conflict ∧ ∃ c rest,
          cs = Clause.beforeClash s.valueAt done cs ++ c :: rest ∧
          c.Clashes s.valueAt (done ++ Clause.beforeClash s.valueAt done cs)) := by
  induction cs generalizing p s allSatisfied done with
  | nil =>
    cases hok
    refine ⟨.refl _, .inl ⟨?_, rfl⟩⟩
    cases allSatisfied <;> simp [Finding.verdict]
  | cons c cs ih =>
    rcases scanFrom_cons_raised hforced hok with ⟨hclash, hverdict, rfl⟩ |
      ⟨hclash, p', s', allSatisfied', hraised, hforced', hok⟩
    · rw [Clause.beforeClash_of_clashes hclash, List.append_nil]
      exact ⟨.refl _, .inr ⟨hverdict, c, cs, rfl, hclash⟩⟩
    · rw [← hraised.valueAt_eq] at hforced'
      obtain ⟨hrest, hends⟩ := ih hforced' hok
      rw [hraised.valueAt_eq] at hrest hends
      rw [Clause.beforeClash_of_not_clashes hclash, Clause.unitsOn_cons, Clause.balanceOf_cons]
      refine ⟨hraised.trans hrest, ?_⟩
      rcases hends with ⟨hverdict, hall⟩ | ⟨hverdict, d, rest, hsplit, hclash'⟩
      · exact .inl ⟨hverdict, by rw [hall]⟩
      · refine .inr ⟨hverdict, d, rest, by rw [List.cons_append, ← hsplit], ?_⟩
        rwa [List.append_assoc] at hclash'

/-- Whatever the scores, the keys, the queue and the propagator are, a scan that does not fault has
counted the clauses before the first one that clashes with those before it, and all of them if it
has found no conflict. The unit score of a variable without a value has grown by the number of
counted clauses without a true literal in which its occurrence is the only open one, and its
polarity by its positive occurrences in those without a true literal less the negative ones. What is
known about the other variables is as before, and so are all values. In a well-formed heap the
queued variables are as before too, and whichever of them had the key of its unit score has the key
of its new one. -/
theorem scan_raises_scores {p q : Propagator} {s t : Branching} {f : Formula} {finding : Finding}
    (hok : (p.scan f s).result = .ok (finding, q, t)) :
    let counted := Clause.beforeClash s.valueAt [] f.clauses
    (finding.verdict ≠ .conflict → counted = f.clauses) ∧
    (finding.verdict = .conflict → ∃ c rest, f.clauses = counted ++ c :: rest ∧
      c.Clashes s.valueAt counted ∧
      ∀ before d after, counted = before ++ d :: after → ¬d.Clashes s.valueAt before) ∧
    (∀ v e, s.entry v = .ok e → e.value = none → t.entry v = .ok
      { e with
        unit := e.unit + Clause.unitsOn s.valueAt counted v
        polarity := e.polarity + Clause.balanceOf s.valueAt counted v }) ∧
    (∀ v e, s.entry v = .ok e → e.value ≠ none → t.entry v = .ok e) ∧
    (∀ v, t.value v = s.value v) ∧
    ∀ n, s.queue.WellFormed n → t.queue.WellFormed n ∧
      (∀ v, t.isQueued v = s.isQueued v) ∧ t.queued = s.queued ∧
      ∀ v, s.isQueued v = .ok true → s.Keyed v → t.Keyed v := by
  intro counted
  rw [scan_result] at hok
  have hforced : Forced s.valueAt [] p.clear.forced := by simp [Forced, Propagator.clear]
  obtain ⟨hraised, hends⟩ := scanFrom_raised hforced hok
  refine ⟨fun hverdict => ?_, fun hverdict => ?_, fun v e he hopen => ?_, fun v e he hset => ?_,
    hraised.value_eq, fun n hwf => ?_⟩
  · rcases hends with ⟨-, hall⟩ | ⟨hconflict, -⟩
    · exact hall
    · exact absurd hconflict hverdict
  · rcases hends with ⟨hnot, -⟩ | ⟨-, c, rest, hsplit, hclash⟩
    · exact absurd hverdict hnot
    · exact ⟨c, rest, hsplit, hclash, fun before d after hbefore =>
        Clause.not_clashes_of_beforeClash hbefore⟩
  · rw [hraised.entry_eq, he]
    exact congrArg Except.ok (if_pos hopen)
  · rw [hraised.entry_eq, he]
    exact congrArg Except.ok (if_neg hset)
  · have hkeeps := hraised.keepsQueue hwf
    exact ⟨hkeeps.wellFormed, hkeeps.isQueued_eq hwf, hkeeps.queued_eq hwf,
      fun v _ hkeyed => hkeeps.keyed v hkeyed⟩

/-- Variable 1 is true and variable 3 has scores of earlier scans. Of the first three clauses the
second has variable 3 twice and the third forces variable 2 to be false. The last one clashes with
the third, so nothing of it is counted. The literal 2 that an earlier scan has left in the
propagator changes nothing. -/
theorem scan_raises_scores_up_to_conflict :
    let p : Propagator := ⟨[⟨2, by decide, by decide⟩]⟩
    let s : Branching := ⟨#[{}, { value := some true }, {}, { unit := 2, polarity := -1 }],
      ⟨#[0, 3, 2, 17], #[3, 2], #[none, none, some 1, some 0]⟩⟩
    s.queue.WellFormed 3 ∧ s.Keyed 2 ∧ s.Keyed 3 ∧
      ∃ q t, (p.scan forcesBothValues s).result = .ok (.conflict (.forcedBothWays 2), q, t) ∧
        Clause.beforeClash s.valueAt [] forcesBothValues.clauses =
          forcesBothValues.clauses.take 3 ∧
        t.entry 1 = .ok { value := some true } ∧
        t.entry 2 = .ok { unit := 1, polarity := -1 } ∧
        t.entry 3 = .ok { unit := 2, polarity := 1 } ∧
        (∀ v, t.isQueued v = s.isQueued v) ∧ t.queued = 2 ∧ t.Keyed 2 ∧ t.Keyed 3 := by
  intro p s
  have hreached : Reached 3 s := by
    refine ⟨⟨#[{}, {}, {}, {}], ⟨#[0, 3, 2, 1], #[1, 2, 3], #[none, some 0, some 1, some 2]⟩⟩,
      [.select, .assign 1 true, .countUnit 3, .countUnit 3, .countOccurrence 3 false],
      [some ⟨1, false⟩, none, none, none, none], ?_, ?_⟩ <;> decide +kernel
  have hwf : s.queue.WellFormed 3 := (hreached.coherent (by decide)).queue
  have hkeyed₂ : s.Keyed 2 := ⟨⟨2, 4⟩, by decide +kernel, rfl⟩
  have hkeyed₃ : s.Keyed 3 := ⟨⟨17, 4⟩, by decide +kernel, rfl⟩
  have hscan : (p.scan forcesBothValues s).result.map (fun r => r.1) =
      .ok (.conflict (.forcedBothWays 2)) := by
    decide +kernel
  cases hresult : (p.scan forcesBothValues s).result with
  | error e =>
    rw [hresult] at hscan
    cases hscan
  | ok r =>
    obtain ⟨finding, q, t⟩ := r
    rw [hresult] at hscan
    obtain rfl : finding = .conflict (.forcedBothWays 2) := Except.ok.inj hscan
    obtain ⟨-, -, hopen, hset, -, hqueue⟩ := scan_raises_scores hresult
    obtain ⟨-, hqueued, hcount, hkeys⟩ := hqueue 3 hwf
    have hcounted : Clause.beforeClash s.valueAt [] forcesBothValues.clauses =
        forcesBothValues.clauses.take 3 := by
      decide +kernel
    have h₂ := hopen 2 {} rfl rfl
    have h₃ := hopen 3 { unit := 2, polarity := -1 } rfl rfl
    rw [hcounted] at h₂ h₃
    exact ⟨hwf, hkeyed₂, hkeyed₃, q, t, rfl, hcounted, hset 1 _ rfl (by decide), h₂, h₃, hqueued,
      hcount, hkeys 2 rfl hkeyed₂, hkeys 3 rfl hkeyed₃⟩

end Branching

end SatSearch
