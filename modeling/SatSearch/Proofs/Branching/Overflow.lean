import SatSearch.Proofs.ClauseScan
import SatSearch.Proofs.Formula.InRange

/-!
# Nothing but overflow cuts a scan short

However large the scores are, for a formula in range whose literals have negations no look-up and no
step of the queue fails in a scan. So if a scan faults, then because a count or a key has left its
range.
-/

namespace SatSearch

namespace Branching.Coherent

variable {n v : ℕ} {b : Bool} {e : Entry} {p : Propagator} {s : Branching} {f : Formula}

/-- A new entry for a variable comes with its key unless the key does not fit. -/
theorem setEntry_rekey_upTo (h : Coherent n s) (hv : v ≤ n) :
    UpToOverflow (fun _ => True) (s.setEntry v e >>= fun s => s.rekey v) := by
  rw [h.setEntry_eq hv, ok_bind]
  by_cases he : Priority.Fits n e.unit
  · obtain ⟨t, ht, -⟩ := h.setEntry_rekey hv he
    rw [ht]
    exact .ok trivial
  · rw [h.rekey_of_not_fits hv he]
    exact .overflow

/-- Counting a unit for an open variable can only overflow. -/
theorem countUnit_upTo (h : Coherent n s) (hv : v ≤ n) (hopen : s.valueAt v = none) :
    UpToOverflow (Scored n s) (s.countUnit v) := by
  have hcounts : UpToOverflow (fun _ => True) (s.countUnit v) := by
    rw [countUnit, h.requireOpen_eq hv hopen, ok_bind, h.entry_eq hv, ok_bind]
    exact (UpToOverflow.below _ _).bind fun unit _ => h.setEntry_rekey_upTo hv
  exact hcounts.of_ok fun t => h.countUnit_scored

/-- Counting an occurrence of an open variable can only overflow. -/
theorem countOccurrence_upTo (h : Coherent n s) (hv : v ≤ n) (hopen : s.valueAt v = none) :
    UpToOverflow (Scored n s) (s.countOccurrence v b) := by
  have hcounts : UpToOverflow (fun _ => True) (s.countOccurrence v b) := by
    rw [countOccurrence, h.requireOpen_eq hv hopen, ok_bind, h.entry_eq hv, ok_bind]
    exact (UpToOverflow.inSignedWord _).bind fun polarity _ => h.setEntry_rekey_upTo hv
  exact hcounts.of_ok fun t => h.countOccurrence_scored

/-- Counting the occurrences of a clause can only overflow. -/
theorem countOccurrences_upTo {ls : List Literal} (h : Coherent n s) (hls : ∀ l ∈ ls, l.var ≤ n) :
    UpToOverflow (Scored n s) (s.countOccurrences ls) := by
  induction ls generalizing s with
  | nil => exact .ok (.refl h)
  | cons l ls ih =>
    obtain ⟨hv, hls⟩ := List.forall_mem_cons.mp hls
    rw [countOccurrences, h.value_eq hv, ok_bind]
    cases hopen : s.valueAt l.var with
    | some b => exact ih h hls
    | none =>
      refine (h.countOccurrence_upTo hv hopen).bind fun t ht => ?_
      exact (ih ht.coherent hls).of_ok fun u hu => ht.trans (ht.coherent.countOccurrences_scored hu)

/-- Looking for the open literals can only overflow their number. -/
theorem openLiterals_upTo {ls : List Literal} {seen : ℕ} (h : Coherent n s)
    (hls : ∀ l ∈ ls, l.var ≤ n) : UpToOverflow (fun _ => True) (s.openLiterals seen ls) := by
  induction ls generalizing seen with
  | nil => exact .ok trivial
  | cons l ls ih =>
    obtain ⟨hv, hls⟩ := List.forall_mem_cons.mp hls
    rw [openLiterals, h.value_eq hv, ok_bind]
    cases s.valueAt l.var with
    | some b =>
      simp only
      split
      · exact .ok trivial
      · exact ih hls
    | none =>
      exact (UpToOverflow.below _ _).bind fun _ _ => (ih hls).bind fun _ _ => .ok trivial

/-- Scanning clauses with literals that can be looked up and negated. -/
theorem scanFrom_upTo {cs : List Clause} {allSatisfied : Bool}
    (h : Coherent n s) (hcs : ∀ c ∈ cs, ∀ l ∈ c.literals, l.var ≤ n)
    (hneg : ∀ c ∈ cs, ∀ l ∈ c.literals, l.code ≠ -0x80000000) :
    UpToOverflow (fun _ => True) (p.scanFrom s allSatisfied cs) := by
  induction cs generalizing p s allSatisfied with
  | nil => exact .ok trivial
  | cons c cs ih =>
    obtain ⟨hc, hcs⟩ := List.forall_mem_cons.mp hcs
    obtain ⟨hcneg, hneg⟩ := List.forall_mem_cons.mp hneg
    rw [Propagator.scanFrom]
    refine ((h.openLiterals_upTo hc).of_ok fun r hr => hr).bind fun r hr => ?_
    match r with
    | none => exact ih h hcs hneg
    | some [] => exact .ok trivial
    | some [l] =>
      obtain ⟨hmem, hopen⟩ := mem_of_openLiterals_singleton hr
      obtain ⟨m, hm⟩ := Literal.exists_negate (hcneg l hmem)
      simp only [hm, ok_bind]
      split
      · exact .ok trivial
      · refine (h.countUnit_upTo (hc l hmem) hopen).bind fun t ht => ?_
        refine (ht.coherent.countOccurrences_upTo hc).bind fun u hu => ?_
        exact ih hu.coherent hcs hneg
    | some (_ :: _ :: _) =>
      exact (h.countOccurrences_upTo hc).bind fun t ht => ih ht.coherent hcs hneg

/-- A scan of a formula in range can only overflow. -/
theorem scan_upTo (h : Coherent f.variableCount s) (hrange : f.InRange) (hneg : f.Negatable) :
    UpToOverflow (fun _ => True) (p.scan f s).result := by
  rw [scan_result]
  exact h.scanFrom_upTo hrange hneg

end Branching.Coherent

end SatSearch
