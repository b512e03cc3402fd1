import SatSearch.Proofs.ClauseScan
import SatSearch.Proofs.Formula.InRange
import Mathlib.Data.Multiset.MapFold

/-!
# The verdict of a scan

What a scan finds is determined by the values that the variables have. It is a conflict exactly if
some clause is falsified or two clauses force opposite literals, wherever in the formula they stand.
The argument follows the scan: it stops at the first clause that clashes with those before it, and
as long as no clause does, the literals forced so far are those that the clauses before it force.
-/

namespace SatSearch

variable {values : ℕ → Option Bool} {c d : Clause} {cs done : List Clause} {f g : Formula}
  {l m : Literal} {n : ℕ}

/-- What can be said of a formula under partial values. -/
inductive Verdict where
  /-- Every clause has a true literal. -/
  | satisfied
  /-- The values cannot be extended to a model. -/
  | conflict
  /-- Neither of the two was found. -/
  | undecided
deriving DecidableEq, Repr

/-- What a finding says of the formula, without the reason. -/
def Finding.verdict : Finding → Verdict
  | satisfied => .satisfied
  | conflict _ => .conflict
  | undecided => .undecided

namespace Clause

/-- A clause that cannot be satisfied together with these others: no literal is left to it, or only
one, the opposite of which one of them forces. -/
def Clashes (values : ℕ → Option Bool) (others : List Clause) (c : Clause) : Prop :=
  c.Falsified values ∨
    ∃ l m, c.Forces values l ∧ (∃ d ∈ others, d.Forces values m) ∧ m.code = -l.code

/-- A clause forces one literal at most. -/
theorem Forces.unique (hl : c.Forces values l) (hm : c.Forces values m) : l = m :=
  List.singleton_inj.mp (hl.2.symm.trans hm.2)

/-- A clause that forces a literal is not falsified. -/
theorem Forces.not_falsified (hl : c.Forces values l) : ¬c.Falsified values := by
  intro hfalse
  have hopen := hl.2
  rw [hfalse.2] at hopen
  cases hopen

/-- A clause that clashes is not satisfied. -/
theorem Clashes.unsatisfied (h : c.Clashes values done) : c.satisfied values = false := by
  rcases h with hfalse | ⟨l, -, hl, -⟩
  · exact hfalse.1
  · exact hl.1

/-- The order of the literals does not matter to whether one is true. -/
theorem satisfied_eq_of_perm (h : c.literals.Perm d.literals) :
    d.satisfied values = c.satisfied values := by
  rw [Bool.eq_iff_iff, satisfied_eq_true, satisfied_eq_true]
  simp only [h.mem_iff]

/-- Clauses with the same literals in any order have the same open ones. -/
theorem openLiterals_perm (h : c.literals.Perm d.literals) :
    (c.openLiterals values).Perm (d.openLiterals values) :=
  h.filter _

/-- Whether a clause is falsified does not depend on the order of its literals. -/
theorem Falsified.of_perm (hc : c.Falsified values) (h : c.literals.Perm d.literals) :
    d.Falsified values := by
  have hopen : (c.openLiterals values).Perm (d.openLiterals values) := openLiterals_perm h
  rw [hc.2, List.nil_perm] at hopen
  exact ⟨(satisfied_eq_of_perm h).trans hc.1, hopen⟩

/-- What a clause forces does not depend on the order of its literals. -/
theorem Forces.of_perm (hc : c.Forces values l) (h : c.literals.Perm d.literals) :
    d.Forces values l := by
  have hopen : (c.openLiterals values).Perm (d.openLiterals values) := openLiterals_perm h
  rw [hc.2, List.singleton_perm] at hopen
  exact ⟨(satisfied_eq_of_perm h).trans hc.1, hopen.symm⟩

end Clause

namespace Formula

/-- The literals of the clauses, with repetitions but without an order of either. -/
def content (f : Formula) : Multiset (Multiset Literal) :=
  (f.clauses : Multiset Clause).map fun c => (c.literals : Multiset Literal)

/-- Of two formulas with the same content each has the clauses of the other, with the literals in
some order. -/
theorem exists_perm_of_content_eq (h : g.content = f.content) (hc : c ∈ f.clauses) :
    ∃ d ∈ g.clauses, c.literals.Perm d.literals := by
  have hmem : (c.literals : Multiset Literal) ∈ f.content :=
    Multiset.mem_map_of_mem _ (Multiset.mem_coe.mpr hc)
  rw [← h] at hmem
  obtain ⟨d, hd, hliterals⟩ := Multiset.mem_map.mp hmem
  exact ⟨d, Multiset.mem_coe.mp hd, Multiset.coe_eq_coe.mp hliterals.symm⟩

/-- Whether a formula is refuted depends on its content only. -/
theorem Refuted.of_content_eq (hf : f.Refuted values) (h : g.content = f.content) :
    g.Refuted values := by
  rcases hf with ⟨c, hc, hfalse⟩ | ⟨c, hc, d, hd, l, m, hl, hm, hopposite⟩
  · obtain ⟨c', hc', hperm⟩ := exists_perm_of_content_eq h hc
    exact .inl ⟨c', hc', hfalse.of_perm hperm⟩
  · obtain ⟨c', hc', hpermc⟩ := exists_perm_of_content_eq h hc
    obtain ⟨d', hd', hpermd⟩ := exists_perm_of_content_eq h hd
    exact .inr ⟨c', hc', d', hd', l, m, hl.of_perm hpermc, hm.of_perm hpermd, hopposite⟩

/-- Whether a formula is satisfied depends on its content only. -/
theorem satisfied_of_content_eq (hf : f.satisfied values = true) (h : g.content = f.content) :
    g.satisfied values = true := by
  rw [satisfied_eq_true] at hf ⊢
  intro d hd
  obtain ⟨c, hc, hperm⟩ := exists_perm_of_content_eq h.symm hd
  rw [← Clause.satisfied_eq_of_perm hperm]
  exact hf c hc

/-- A formula with an unsatisfied clause is not satisfied. -/
theorem satisfied_eq_false (hc : c ∈ f.clauses) (h : c.satisfied values = false) :
    f.satisfied values = false := by
  rw [← Bool.not_eq_true, satisfied_eq_true]
  intro hall
  rw [hall c hc] at h
  cases h

/-- A further clause refutes clauses that were not refuted exactly if it clashes with them. -/
theorem refuted_concat_iff (hdone : ¬Refuted values ⟨n, done⟩) :
    Refuted values ⟨n, done ++ [c]⟩ ↔ c.Clashes values done := by
  have hmem : ∀ {d}, d ∈ done ++ [c] ↔ d ∈ done ∨ d = c := by simp
  constructor
  · rintro (⟨d, hd, hfalse⟩ | ⟨d, hd, e, he, l, m, hl, hm, hopposite⟩)
    · rcases hmem.mp hd with hd | rfl
      · exact absurd (.inl ⟨d, hd, hfalse⟩) hdone
      · exact .inl hfalse
    · rcases hmem.mp hd with hd | hdc <;> rcases hmem.mp he with he | hec
      · exact absurd (.inr ⟨d, hd, e, he, l, m, hl, hm, hopposite⟩) hdone
      · exact .inr ⟨m, l, hec ▸ hm, ⟨d, hd, hl⟩, by omega⟩
      · exact .inr ⟨l, m, hdc ▸ hl, ⟨e, he, hm⟩, hopposite⟩
      · -- A literal is not its own opposite.
        rw [hdc] at hl
        rw [hec] at hm
        have hnonzero := hl.code_ne_zero
        rw [hl.unique hm] at hopposite hnonzero
        omega
  · rintro (hfalse | ⟨l, m, hl, ⟨d, hd, hm⟩, hopposite⟩)
    · exact .inl ⟨c, hmem.mpr (.inr rfl), hfalse⟩
    · exact .inr ⟨c, hmem.mpr (.inr rfl), d, hmem.mpr (.inl hd), l, m, hl, hm, hopposite⟩

end Formula

namespace Branching

variable {p q : Propagator} {s t : Branching} {forced : List Literal} {allSatisfied : Bool}
  {finding : Finding}

/-- Counting literals leaves the values as they are. -/
theorem valueAt_of_countOccurrences_ok {ls : List Literal} (hok : s.countOccurrences ls = .ok t) :
    t.valueAt = s.valueAt := by
  induction ls generalizing s with
  | nil =>
    cases hok
    rfl
  | cons l ls ih =>
    obtain ⟨value, -, hok⟩ := bind_eq_ok.mp hok
    cases value with
    | some b => exact ih hok
    | none =>
      obtain ⟨s₁, hs₁, hok⟩ := bind_eq_ok.mp hok
      exact (ih hok).trans (valueAt_of_countOccurrence_ok hs₁)

/-- A clause without a true literal has been counted: as forcing its only open literal if there is
just one, and with all its open occurrences. -/
inductive CountsClause (s : Branching) (c : Clause) (t : Branching) : Prop
  | forcing {l : Literal} {s₁ : Branching} (forces : c.Forces s.valueAt l)
      (unit : s.countUnit l.var = .ok s₁) (occurrences : s₁.countOccurrences c.literals = .ok t)
  | several (unsatisfied : c.satisfied s.valueAt = false)
      (two_le : 2 ≤ (c.openLiterals s.valueAt).length)
      (occurrences : s.countOccurrences c.literals = .ok t)

namespace CountsClause

/-- Only unsatisfied clauses are counted. -/
theorem unsatisfied (h : s.CountsClause c t) : c.satisfied s.valueAt = false := by
  cases h with
  | forcing hforces => exact hforces.1
  | several hunsatisfied => exact hunsatisfied

/-- Counting a clause leaves the values as they are. -/
theorem valueAt_eq (h : s.CountsClause c t) : t.valueAt = s.valueAt := by
  cases h with
  | forcing _ hunit hoccurrences =>
    exact (valueAt_of_countOccurrences_ok hoccurrences).trans (valueAt_of_countUnit_ok hunit)
  | several _ _ hoccurrences => exact valueAt_of_countOccurrences_ok hoccurrences

end CountsClause

/-- These are the literals that the clauses force. -/
def Forced (values : ℕ → Option Bool) (cs : List Clause) (forced : List Literal) : Prop :=
  ∀ l, l ∈ forced ↔ ∃ c ∈ cs, c.Forces values l

/-- A clause that forces a literal adds it to what the earlier clauses force. -/
theorem Forced.concat_of_forces (h : Forced values done forced) (hc : c.Forces values l) :
    Forced values (done ++ [c]) (forced.insert l) := by
  intro m
  rw [List.mem_insert_iff, h m]
  constructor
  · rintro (rfl | ⟨d, hd, hm⟩)
    · exact ⟨c, by simp, hc⟩
    · exact ⟨d, by simp [hd], hm⟩
  · rintro ⟨d, hd, hm⟩
    rcases List.mem_append.mp hd with hd | hd
    · exact .inr ⟨d, hd, hm⟩
    · rw [List.mem_singleton.mp hd] at hm
      exact .inl (hm.unique hc)

/-- A clause that forces nothing leaves what is forced as it is. -/
theorem Forced.concat (h : Forced values done forced) (hc : ∀ l, ¬c.Forces values l) :
    Forced values (done ++ [c]) forced := by
  intro m
  rw [h m]
  constructor
  · rintro ⟨d, hd, hm⟩
    exact ⟨d, by simp [hd], hm⟩
  · rintro ⟨d, hd, hm⟩
    rcases List.mem_append.mp hd with hd | hd
    · exact ⟨d, hd, hm⟩
    · rw [List.mem_singleton.mp hd] at hm
      exact absurd hm (hc m)

/-- What a scan does at one clause: it passes over a satisfied clause, ends at one that clashes with
the clauses before it, and counts any other. -/
theorem scanFrom_cons_ok (hforced : Forced s.valueAt done p.forced)
    (hok : p.scanFrom s allSatisfied (c :: cs) = .ok (finding, q, t)) :
    (c.satisfied s.valueAt = true ∧ Forced s.valueAt (done ++ [c]) p.forced ∧
      p.scanFrom s allSatisfied cs = .ok (finding, q, t)) ∨
    (c.Clashes s.valueAt done ∧ finding.verdict = .conflict ∧ t = s) ∨
    (¬c.Clashes s.valueAt done ∧ ∃ (p' : Propagator) (s' : Branching),
      s.CountsClause c s' ∧ Forced s.valueAt (done ++ [c]) p'.forced ∧
      p'.scanFrom s' false cs = .ok (finding, q, t)) := by
  obtain ⟨r, hr, hok⟩ := bind_eq_ok.mp hok
  rcases openLiterals_ok hr with ⟨hsat, rfl⟩ | ⟨hsat, rfl⟩
  · have hnone : ∀ l, ¬c.Forces s.valueAt l := fun l hl => by
      rw [hl.1] at hsat
      cases hsat
    exact .inl ⟨hsat, hforced.concat hnone, hok⟩
  right
  match hopen : c.openLiterals s.valueAt with
  | [] =>
    rw [hopen] at hok
    cases hok
    exact .inl ⟨.inl ⟨hsat, hopen⟩, rfl, rfl⟩
  | [l] =>
    -- The negation is in the set exactly if an earlier clause forces it.
    have hforces : c.Forces s.valueAt l := ⟨hsat, hopen⟩
    rw [hopen] at hok
    obtain ⟨m, hm, hok⟩ := bind_eq_ok.mp hok
    have hopposite := Literal.code_of_negate_ok hm
    split at hok
    case isTrue hmem =>
      cases hok
      have hclash := (hforced m).mp (by simpa using hmem)
      exact .inl ⟨.inr ⟨l, m, hforces, hclash, hopposite⟩, rfl, rfl⟩
    case isFalse hmem =>
      obtain ⟨s₁, hs₁, hok⟩ := bind_eq_ok.mp hok
      obtain ⟨s₂, hs₂, hok⟩ := bind_eq_ok.mp hok
      refine .inr ⟨?_, _, s₂, .forcing hforces hs₁ hs₂, hforced.concat_of_forces hforces, hok⟩
      rintro (hfalse | ⟨l', m', hl', hm', hopposite'⟩)
      · exact hforces.not_falsified hfalse
      · obtain rfl := hl'.unique hforces
        obtain rfl : m' = m := Literal.ext (hopposite'.trans hopposite.symm)
        exact hmem (by simpa using (hforced m').mpr hm')
  | l :: m :: ls =>
    rw [hopen] at hok
    obtain ⟨s₁, hs₁, hok⟩ := bind_eq_ok.mp hok
    have hnone : ∀ l, ¬c.Forces s.valueAt l := fun l hl => by
      rw [hl.2] at hopen
      cases hopen
    refine .inr ⟨?_, _, s₁, .several hsat (by rw [hopen]; simp) hs₁, hforced.concat hnone, hok⟩
    rintro (hfalse | ⟨l', -, hl', -⟩)
    · rw [hfalse.2] at hopen
      cases hopen
    · exact hnone l' hl'

/-- Scanning further clauses after some that are not refuted gives the verdict on all of them. -/
theorem scanFrom_verdict (hforced : Forced s.valueAt done p.forced)
    (hsatisfied : Formula.satisfied s.valueAt ⟨n, done⟩ = allSatisfied)
    (hdone : ¬Formula.Refuted s.valueAt ⟨n, done⟩)
    (hok : p.scanFrom s allSatisfied cs = .ok (finding, q, t)) :
    t.valueAt = s.valueAt ∧
      (finding.verdict = .conflict ↔ Formula.Refuted s.valueAt ⟨n, done ++ cs⟩) ∧
      (finding.verdict = .satisfied ↔ Formula.satisfied s.valueAt ⟨n, done ++ cs⟩ = true) := by
  -- The scan goes on only while the clauses behind it are not refuted, which the steps keep.
  induction cs generalizing p s allSatisfied done with
  | nil =>
    cases hok
    rw [List.append_nil, hsatisfied]
    cases allSatisfied <;> simp [Finding.verdict, hdone]
  | cons c cs ih =>
    have hsplit : done ++ c :: cs = done ++ [c] ++ cs := by simp
    rcases scanFrom_cons_ok hforced hok with ⟨hsat, hforced', hok⟩ | ⟨hclash, hverdict, ht⟩ |
      ⟨hclash, p', s', hcounts, hforced', hok⟩
    · rw [hsplit]
      refine ih hforced' ?_ ?_ hok
      · rw [← hsatisfied]
        simp [Formula.satisfied, hsat]
      · rw [Formula.refuted_concat_iff hdone]
        intro hclash
        rw [hclash.unsatisfied] at hsat
        cases hsat
    · have hrefuted : Formula.Refuted s.valueAt ⟨n, done ++ [c]⟩ :=
        (Formula.refuted_concat_iff hdone).mpr hclash
      have hall : Formula.Refuted s.valueAt ⟨n, done ++ c :: cs⟩ :=
        hrefuted.mono fun d hd => by rw [hsplit]; exact List.mem_append_left _ hd
      have hunsatisfied : Formula.satisfied s.valueAt ⟨n, done ++ c :: cs⟩ = false :=
        Formula.satisfied_eq_false (List.mem_append_right _ List.mem_cons_self) hclash.unsatisfied
      simp [ht, hverdict, hall, hunsatisfied]
    · rw [hsplit, ← hcounts.valueAt_eq]
      rw [← hcounts.valueAt_eq] at hforced'
      refine ih hforced' ?_ ?_ hok
      · rw [hcounts.valueAt_eq]
        exact Formula.satisfied_eq_false (by simp) hcounts.unsatisfied
      · rw [hcounts.valueAt_eq, Formula.refuted_concat_iff hdone]
        exact hclash

/-- A scan that does not fault leaves all values as they are and gives the verdict on them. -/
theorem scan_verdict (hok : (p.scan f s).result = .ok (finding, q, t)) :
    t.valueAt = s.valueAt ∧ (finding.verdict = .conflict ↔ f.Refuted s.valueAt) ∧
      (finding.verdict = .satisfied ↔ f.satisfied s.valueAt = true) := by
  rw [scan_result] at hok
  have hforced : Forced s.valueAt [] p.clear.forced := by simp [Forced, Propagator.clear]
  have hdone : ¬Formula.Refuted s.valueAt ⟨f.variableCount, []⟩ := by simp [Formula.Refuted]
  exact scanFrom_verdict hforced rfl hdone hok

/-- Counting a clause changes scores of open variables alone. -/
theorem CountsClause.scored (hcoherent : Coherent n s) (h : s.CountsClause c t) :
    Scored n s t := by
  cases h with
  | forcing _ hunit hoccurrences =>
    have hfirst := hcoherent.countUnit_scored hunit
    exact hfirst.trans (hfirst.coherent.countOccurrences_scored hoccurrences)
  | several _ _ hoccurrences => exact hcoherent.countOccurrences_scored hoccurrences

/-- The rest of a scan changes scores of open variables alone. -/
theorem Coherent.scanFrom_scored (h : Coherent n s) (hforced : Forced s.valueAt done p.forced)
    (hok : p.scanFrom s allSatisfied cs = .ok (finding, q, t)) : Scored n s t := by
  induction cs generalizing p s allSatisfied done with
  | nil =>
    cases hok
    exact .refl h
  | cons c cs ih =>
    rcases scanFrom_cons_ok hforced hok with ⟨-, hforced', hok⟩ | ⟨-, -, rfl⟩ |
      ⟨-, p', s', hcounts, hforced', hok⟩
    · exact ih h hforced' hok
    · exact .refl h
    · have hfirst := hcounts.scored h
      rw [← hcounts.valueAt_eq] at hforced'
      exact hfirst.trans (ih hfirst.coherent hforced' hok)

/-- A scan changes scores of open variables and their keys only. -/
theorem Coherent.scan_scored (h : Coherent n s) (hok : (p.scan f s).result = .ok (finding, q, t)) :
    Scored n s t := by
  rw [scan_result] at hok
  have hforced : Forced s.valueAt [] p.clear.forced := by simp [Forced, Propagator.clear]
  exact h.scanFrom_scored hforced hok

/-- What a propagator holds when a scan begins has no part in the scan. -/
theorem scan_eq_of_clear (p q : Propagator) (f : Formula) (s : Branching) :
    q.scan f s = p.scan f s := rfl

/-- So a scan with a propagator that is kept is the scan with a new one. -/
theorem scan_eq (p : Propagator) (f : Formula) (s : Branching) : s.scan f = (do
    let (finding, _, s) ← p.scan f s
    return (finding, s)) := rfl

/-- The propagator and the state after scans of these formulas, one after the other. -/
def rescanned (p : Propagator) (s : Branching) (fs : List Formula) :
    Except Fault (Propagator × Branching) :=
  fs.foldlM (fun r f => Prod.snd <$> (r.1.scan f r.2).result) (p, s)

/-- Scans leave all values as they are. -/
theorem valueAt_of_rescanned_ok {fs : List Formula} (hok : rescanned p s fs = .ok (q, t)) :
    t.valueAt = s.valueAt := by
  induction fs generalizing p s with
  | nil =>
    cases hok
    rfl
  | cons f fs ih =>
    obtain ⟨⟨p₁, s₁⟩, hs₁, hok⟩ := bind_eq_ok.mp ((List.foldlM_cons ..).symm.trans hok)
    cases hscan : (p.scan f s).result with
    | error e =>
      rw [hscan] at hs₁
      cases hs₁
    | ok r =>
      obtain ⟨finding, p', s'⟩ := r
      rw [hscan] at hs₁
      cases hs₁
      exact (ih hok).trans (scan_verdict hscan).1

/-- Whatever the scores, the keys and the queue are, and whatever earlier scans have left in the
propagator, a scan that does not fault finds a conflict exactly if some clause without a true
literal has no open one, or if two such clauses have one open occurrence each, of opposite literals.
It finds the formula satisfied exactly if every clause has a true literal, and otherwise the matter
is undecided. A conflict rules out every assignment that extends the values, and a satisfied formula
is satisfied by every one. With anything else in the propagator the same scan reports the same,
finds the same and leaves the same. Earlier scans of any formulas leave the values as they are, and
wherever the values are the same the verdict is, with any propagator and even if the clauses and the
literals in them are rearranged. -/
theorem verdict_by_values {p q : Propagator} {s t : Branching} {f : Formula} {finding : Finding}
    (hok : (p.scan f s).result = .ok (finding, q, t)) :
    (finding.verdict = .conflict ↔
      (∃ c ∈ f.clauses, c.satisfied s.valueAt = false ∧ c.openLiterals s.valueAt = []) ∨
      ∃ c ∈ f.clauses, ∃ d ∈ f.clauses, ∃ l m,
        (c.satisfied s.valueAt = false ∧ c.openLiterals s.valueAt = [l]) ∧
        (d.satisfied s.valueAt = false ∧ d.openLiterals s.valueAt = [m]) ∧ m.code = -l.code) ∧
    (finding.verdict = .satisfied ↔ ∀ c ∈ f.clauses, c.satisfied s.valueAt = true) ∧
    (finding.verdict = .conflict → ∀ value, Extends s.valueAt value → f.holds value = false) ∧
    (finding.verdict = .satisfied → ∀ value, Extends s.valueAt value → f.holds value = true) ∧
    (∀ p' : Propagator, p'.scan f s = p.scan f s) ∧
    (∀ p' earlier q' s', rescanned p' s earlier = .ok (q', s') → s'.valueAt = s.valueAt) ∧
    ∀ (p' : Propagator) (s' : Branching) (g : Formula) finding' q' t',
      s'.valueAt = s.valueAt → g.content = f.content →
      (p'.scan g s').result = .ok (finding', q', t') → finding'.verdict = finding.verdict := by
  obtain ⟨-, hconflict, hsatisfied⟩ := scan_verdict hok
  refine ⟨hconflict, hsatisfied.trans Formula.satisfied_eq_true, fun hverdict value hext => ?_,
    fun hverdict value hext => ?_, fun p' => scan_eq_of_clear p p' f s,
    fun _ _ _ _ => valueAt_of_rescanned_ok,
    fun p' s' g finding' q' t' hvalues hcontent hscan => ?_⟩
  · exact (hconflict.mp hverdict).holds_eq_false hext
  · exact f.holds_of_satisfied hext (hsatisfied.mp hverdict)
  · obtain ⟨-, hconflict', hsatisfied'⟩ := scan_verdict hscan
    rw [hvalues] at hconflict' hsatisfied'
    have hsameConflict : finding'.verdict = .conflict ↔ finding.verdict = .conflict := by
      rw [hconflict, hconflict']
      exact ⟨fun h => h.of_content_eq hcontent.symm, fun h => h.of_content_eq hcontent⟩
    have hsameSatisfied : finding'.verdict = .satisfied ↔ finding.verdict = .satisfied := by
      rw [hsatisfied, hsatisfied']
      exact ⟨fun h => Formula.satisfied_of_content_eq h hcontent.symm,
        fun h => Formula.satisfied_of_content_eq h hcontent⟩
    cases h : finding.verdict <;> cases h' : finding'.verdict <;> simp_all

/-- Where variable 1 is true, the last two clauses force both values of variable 2. The clause with
variable 3 twice forces nothing. -/
def forcesBothValues : Formula :=
  ⟨3, [.ofCodes [1, 2], .ofCodes [-1, 3, 3], .ofCodes [-1, -2], .ofCodes [2, -1]]⟩

/-- The conflict rules out every assignment with variable 1 true. It is found in whatever order the
clauses and their literals stand, also with scores left by earlier scans. An earlier scan has left
the literal 2 in the propagator, which would end the scan one clause too early. -/
theorem verdict_by_values_forced_both_ways :
    let p : Propagator := ⟨[⟨2, by decide, by decide⟩]⟩
    let s : Branching := ⟨#[{}, { value := some true }, {}, {}],
      ⟨#[0, 3, 2, 1], #[2, 3], #[none, none, some 0, some 1]⟩⟩
    let g : Formula :=
      ⟨3, [.ofCodes [3, -1, 3], .ofCodes [-1, 2], .ofCodes [2, 1], .ofCodes [-2, -1]]⟩
    (p.scan forcesBothValues s).result.map (fun r => r.1) = .ok (.conflict (.forcedBothWays 2)) ∧
      (∀ value, Extends s.valueAt value → forcesBothValues.holds value = false) ∧
      (∀ p' : Propagator, p'.scan forcesBothValues s = p.scan forcesBothValues s) ∧
      (∀ p' earlier q' s', rescanned p' s earlier = .ok (q', s') → s'.valueAt = s.valueAt) ∧
      ∀ (p' : Propagator) (s' : Branching) finding' q' t', s'.valueAt = s.valueAt →
        (p'.scan g s').result = .ok (finding', q', t') → finding'.verdict = .conflict := by
  intro p s g
  have hscan : (p.scan forcesBothValues s).result.map (fun r => r.1) =
      .ok (.conflict (.forcedBothWays 2)) := by
    decide +kernel
  cases hresult : (p.scan forcesBothValues s).result with
  | error e =>
    rw [hresult] at hscan
    cases hscan
  | ok r =>
    obtain ⟨finding, q, t⟩ := r
    rw [hresult] at hscan
    obtain rfl : finding = .conflict (.forcedBothWays 2) := Except.ok.inj hscan
    obtain ⟨-, -, hruledOut, -, hclear, hearlier, hsame⟩ := verdict_by_values hresult
    have hcontent : g.content = forcesBothValues.content := by decide +kernel
    exact ⟨rfl, hruledOut rfl, hclear, hearlier, fun p' s' finding' q' t' hvalues =>
      hsame p' s' g finding' q' t' hvalues hcontent⟩

end Branching

end SatSearch
