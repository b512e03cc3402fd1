import SatSearch.Proofs.ClauseScan
import SatSearch.Proofs.Formula.InRange

/-!
# How far a scan moves the scores

In one scan no score moves by more than the number of literals that the formula has. So a scan of a
formula in range ends without a fault as long as the scores before it leave that much room.
-/

namespace SatSearch

namespace Branching

variable {n v u p : ℕ} {b : Bool} {s t : Branching} {W : Finset ℕ}

/-- Unit scores are at most `u`, and polarity scores at most `p` on either side of zero. -/
def ScoresWithin (u p : ℕ) (s : Branching) : Prop :=
  ∀ v, (s.entryAt v).unit ≤ u ∧ (s.entryAt v).polarity.natAbs ≤ p

/-- Wider bounds hold as well. -/
theorem ScoresWithin.mono {u' p' : ℕ} (h : s.ScoresWithin u p) (hu : u ≤ u') (hp : p ≤ p') :
    s.ScoresWithin u' p' :=
  fun v => ⟨(h v).1.trans hu, (h v).2.trans hp⟩

/-- Another entry for one variable. -/
theorem ScoresWithin.of_reads {e : Entry} (h : s.ScoresWithin u p)
    (hreads : Reads n (Function.update s.entryAt v e) W t) (hunit : e.unit ≤ u)
    (hpolarity : e.polarity.natAbs ≤ p) : t.ScoresWithin u p := by
  intro w
  rw [hreads.entryAt_eq, Function.update_apply]
  split
  · exact ⟨hunit, hpolarity⟩
  · exact h w

namespace Coherent

/-- A unit can be counted as long as the unit scores have room for one more. -/
theorem exists_countUnit (h : Coherent n s) (hscores : s.ScoresWithin u p) (hv : v ≤ n)
    (hopen : s.valueAt v = none) (hlimit : u + 1 < 2 ^ 31) :
    ∃ t, s.countUnit v = .ok t ∧ t.ScoresWithin (u + 1) p := by
  obtain ⟨hunit, hpolarity⟩ := hscores v
  have hlt : (s.entryAt v).unit + 1 < wordSize := by simp only [wordSize]; omega
  obtain ⟨t, ht, -⟩ := h.setEntry_rekey hv
    (e := { s.entryAt v with unit := (s.entryAt v).unit + 1 })
    (Priority.fits_of_lt h.count_lt (Nat.lt_of_le_of_lt (Nat.succ_le_succ hunit) hlimit))
  have hok : s.countUnit v = .ok t := by
    simp only [countUnit, h.requireOpen_eq hv hopen, h.entry_eq hv, below_eq_ok.mpr ⟨hlt, rfl⟩,
      h.setEntry_eq hv, ok_bind]
    exact ht
  refine ⟨t, hok, ?_⟩
  obtain ⟨-, -, hreads⟩ := h.countUnit_ok hok
  have hraised : s.ScoresWithin (u + 1) p := hscores.mono (Nat.le_succ u) (Nat.le_refl p)
  exact hraised.of_reads hreads (Nat.succ_le_succ hunit) hpolarity

/-- An occurrence can be counted as long as the polarities have room for one more. -/
theorem exists_countOccurrence (h : Coherent n s) (hscores : s.ScoresWithin u p) (hv : v ≤ n)
    (hopen : s.valueAt v = none) (hlimit : p + 1 < 2 ^ 31) :
    ∃ t, s.countOccurrence v b = .ok t ∧ t.ScoresWithin u (p + 1) := by
  obtain ⟨hunit, hpolarity⟩ := hscores v
  have hnext : ((s.entryAt v).polarity + if b then 1 else -1).natAbs ≤ p + 1 := by
    split <;> omega
  have hword : inSignedWord ((s.entryAt v).polarity + if b then 1 else -1) = .ok _ :=
    inSignedWord_eq_ok.mpr ⟨by omega, rfl⟩
  obtain ⟨t, ht, -⟩ := h.setEntry_rekey hv
    (e := { s.entryAt v with polarity := (s.entryAt v).polarity + if b then 1 else -1 })
    (h.unit_fits v)
  have hok : s.countOccurrence v b = .ok t := by
    simp only [countOccurrence, h.requireOpen_eq hv hopen, h.entry_eq hv, hword,
      h.setEntry_eq hv, ok_bind]
    exact ht
  refine ⟨t, hok, ?_⟩
  obtain ⟨-, -, hreads⟩ := h.countOccurrence_ok hok
  exact (hscores.mono (Nat.le_refl u) (Nat.le_succ p)).of_reads hreads hunit hnext

/-- Counting the open ones among literals in range, each of them moves one polarity score by one. -/
theorem exists_countOccurrences {ls : List Literal} (h : Coherent n s)
    (hscores : s.ScoresWithin u p) (hls : ∀ l ∈ ls, l.var ≤ n) (hlimit : p + ls.length < 2 ^ 31) :
    ∃ t, s.countOccurrences ls = .ok t ∧ t.ScoresWithin u (p + ls.length) := by
  induction ls generalizing s p with
  | nil => exact ⟨s, rfl, hscores⟩
  | cons l ls ih =>
    rw [List.length_cons] at hlimit ⊢
    have hv := hls l (by simp)
    have hrest : ∀ m ∈ ls, m.var ≤ n := fun m hm => hls m (by simp [hm])
    rw [countOccurrences, h.value_eq hv, ok_bind]
    cases hopen : s.valueAt l.var with
    | some b =>
      obtain ⟨t, ht, hwithin⟩ := ih h hscores hrest (by omega)
      exact ⟨t, ht, hwithin.mono (Nat.le_refl u) (by omega)⟩
    | none =>
      obtain ⟨s₁, hs₁, hscores₁⟩ :=
        h.exists_countOccurrence (b := l.positive) hscores hv hopen (by omega)
      have h₁ := (h.countOccurrence_scored hs₁).coherent
      obtain ⟨t, ht, hwithin⟩ := ih h₁ hscores₁ hrest (by omega)
      refine ⟨t, ?_, hwithin.mono (Nat.le_refl u) (by omega)⟩
      simpa only [ok_bind, hs₁] using ht

/-- The open literals can be looked for as long as their number is not too large. -/
theorem exists_openLiterals {ls : List Literal} {seen : ℕ} (h : Coherent n s)
    (hls : ∀ l ∈ ls, l.var ≤ n) (hlimit : seen + ls.length < openLimit) :
    ∃ r, s.openLiterals seen ls = .ok r := by
  induction ls generalizing seen with
  | nil => exact ⟨_, rfl⟩
  | cons l ls ih =>
    rw [List.length_cons] at hlimit
    have hrest : ∀ m ∈ ls, m.var ≤ n := fun m hm => hls m (by simp [hm])
    rw [openLiterals, h.value_eq (hls l (by simp)), ok_bind]
    cases s.valueAt l.var with
    | some b =>
      simp only
      split
      · exact ⟨_, rfl⟩
      · exact ih hrest (by omega)
    | none =>
      have hcount : below openLimit (seen + 1) = .ok (seen + 1) :=
        below_eq_ok.mpr ⟨by omega, rfl⟩
      have hopens : ∃ r, s.openLiterals (seen + 1) ls = .ok r := ih hrest (by omega)
      obtain ⟨r, hr⟩ := hopens
      refine ⟨r.map (l :: ·), ?_⟩
      simp only [hcount, hr, ok_bind, pure_eq_ok]

/-- A scan of clauses in range does not fault as long as the scores leave room for all of their
literals. -/
theorem exists_scanFrom {p : Propagator} {cs : List Clause} {allSatisfied : Bool} {k : ℕ}
    (h : Coherent n s) (hscores : s.ScoresWithin k k)
    (hcs : ∀ c ∈ cs, ∀ l ∈ c.literals, l.var ≤ n)
    (hneg : ∀ c ∈ cs, ∀ l ∈ c.literals, l.code ≠ -0x80000000)
    (hlimit : k + (cs.flatMap Clause.literals).length < 2 ^ 31) :
    ∃ finding q t, p.scanFrom s allSatisfied cs = .ok (finding, q, t) ∧
      t.ScoresWithin (k + (cs.flatMap Clause.literals).length)
        (k + (cs.flatMap Clause.literals).length) := by
  induction cs generalizing p s allSatisfied k with
  | nil => exact ⟨_, p, s, rfl, hscores⟩
  | cons c cs ih =>
    rw [List.flatMap_cons, List.length_append] at hlimit ⊢
    have hc := hcs c (by simp)
    have hrest : ∀ d ∈ cs, ∀ l ∈ d.literals, l.var ≤ n := fun d hd => hcs d (by simp [hd])
    have hrestneg : ∀ d ∈ cs, ∀ l ∈ d.literals, l.code ≠ -0x80000000 :=
      fun d hd => hneg d (by simp [hd])
    have hopens : ∃ r, s.openLiterals 0 c.literals = .ok r :=
      h.exists_openLiterals hc (by simp only [openLimit]; omega)
    obtain ⟨r, hr⟩ := hopens
    rw [Propagator.scanFrom, hr, ok_bind]
    -- What is left to scan has room for its literals above those of this clause.
    have hcontinue : ∀ {p' : Propagator} {s₁ all}, Coherent n s₁ →
        s₁.ScoresWithin (k + c.literals.length) (k + c.literals.length) →
        ∃ finding q t, p'.scanFrom s₁ all cs = .ok (finding, q, t) ∧
          t.ScoresWithin (k + (c.literals.length + (cs.flatMap Clause.literals).length))
            (k + (c.literals.length + (cs.flatMap Clause.literals).length)) := by
      intro p' s₁ all h₁ hscores₁
      rw [← Nat.add_assoc] at hlimit ⊢
      exact ih h₁ hscores₁ hrest hrestneg hlimit
    match r with
    | none => exact hcontinue h (hscores.mono (by omega) (by omega))
    | some [] => exact ⟨_, p, s, rfl, hscores.mono (by omega) (by omega)⟩
    | some [l] =>
      obtain ⟨hmem, hopen⟩ := mem_of_openLiterals_singleton hr
      have hpos : 0 < c.literals.length := List.length_pos_of_mem hmem
      obtain ⟨m, hm⟩ := Literal.exists_negate (hneg c (by simp) l hmem)
      simp only [hm, ok_bind]
      split
      · exact ⟨_, p, s, rfl, hscores.mono (by omega) (by omega)⟩
      · obtain ⟨s₁, hs₁, hscores₁⟩ :=
          h.exists_countUnit hscores (hc l hmem) hopen (by omega)
        have h₁ := (h.countUnit_scored hs₁).coherent
        obtain ⟨s₂, hs₂, hscores₂⟩ := h₁.exists_countOccurrences hscores₁ hc (by omega)
        simp only [hs₁, hs₂, ok_bind]
        exact hcontinue (h₁.countOccurrences_scored hs₂).coherent
          (hscores₂.mono (by omega) (Nat.le_refl _))
    | some (_ :: _ :: _) =>
      obtain ⟨s₁, hs₁, hscores₁⟩ := h.exists_countOccurrences hscores hc (by omega)
      simp only [hs₁, ok_bind]
      exact hcontinue (h.countOccurrences_scored hs₁).coherent
        (hscores₁.mono (by omega) (Nat.le_refl _))

/-- A scan moves no score by more than the number of literals in the formula. -/
theorem exists_scan {p : Propagator} {f : Formula} {k : ℕ} (h : Coherent f.variableCount s)
    (hrange : f.InRange) (hneg : f.Negatable) (hscores : s.ScoresWithin k k)
    (hlimit : k + f.occurrences < 2 ^ 31) :
    ∃ finding q t, (p.scan f s).result = .ok (finding, q, t) ∧
      t.ScoresWithin (k + f.occurrences) (k + f.occurrences) := by
  rw [scan_result]
  exact h.exists_scanFrom hscores hrange hneg hlimit

end Coherent

end Branching

end SatSearch
