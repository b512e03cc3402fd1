import SatSearch.Enumeration
import SatSearch.Proofs.Formula.Answered
import SatSearch.Proofs.Formula.InRange

/-!
# The first model in counting order

From some digits on, the enumeration evaluates one assignment after the other until one satisfies
the formula or no next number is left. Each assignment of the variables has digits, so an
enumeration from zero on that finds no model has refuted all of them.
-/

namespace SatSearch

namespace Counting

variable {f : Formula} {n v tried : ℕ} {b : Bool} {bs cs : List Bool}

/-- The values that the digits give to the variables. -/
def valueAt (bs : List Bool) (v : ℕ) : Option Bool :=
  if 1 ≤ v ∧ v ≤ bs.length then bs[bs.length - v]? else none

/-- What a look-up finds is the digit of the variable. -/
theorem valueAt_of_value_ok (hv : v ≠ 0) (hok : value bs v = .ok b) : valueAt bs v = some b := by
  unfold value at hok
  split at hok
  case isTrue hrange =>
    have hlt : bs.length - v < bs.length := by omega
    rw [valueAt, if_pos (by omega), List.getElem?_eq_getElem hlt]
    exact congrArg some (Except.ok.inj hok)
  case isFalse => cases hok

/-- The assignment has the values of the digits. -/
theorem value?_assignment (h : bs.length < wordSize) : (assignment bs).value? = valueAt bs := by
  funext v
  rw [assignment, Assignment.value?_complete h, valueAt]
  split
  case isTrue hv =>
    have hlt : bs.length - v < bs.length := by omega
    have hindex : bs.length - 1 - (v - 1) = bs.length - v := by omega
    rw [Array.getD_eq_getD_getElem?, List.getElem?_toArray, List.getElem?_reverse (by omega),
      hindex, List.getElem?_eq_getElem hlt, Option.getD_some]
  case isFalse => rfl

/-- The assignment has a value for every variable. -/
theorem keys_assignment (h : bs.length < wordSize) :
    (assignment bs).bindings.map Prod.fst = List.range' 1 bs.length := by
  rw [assignment, Assignment.bindings_complete h, List.map_map]
  exact List.map_id _

/-- Numbers with equally many digits are told apart by their digits. -/
theorem eq_of_number_eq (hlength : cs.length = bs.length) (hnumber : number cs = number bs) :
    cs = bs := by
  induction bs generalizing cs with
  | nil => exact List.eq_nil_of_length_eq_zero hlength
  | cons b bs ih =>
    obtain ⟨c, cs, rfl⟩ := List.exists_cons_of_length_eq_add_one hlength
    rw [List.length_cons, List.length_cons, Nat.add_right_cancel_iff] at hlength
    simp only [number] at hnumber
    have hdigit : c = b := by
      cases c <;> cases b <;> simp at hnumber ⊢ <;> omega
    rw [hdigit, ih hlength (by rw [hdigit] at hnumber; omega)]

/-- Zeros stand for zero. -/
theorem number_replicate_false (n : ℕ) : number (List.replicate n false) = 0 := by
  induction n with
  | zero => rfl
  | succ n ih => rw [List.replicate_succ, number, ih]; rfl

/-- The digits of an assignment of the variables `1..n`. -/
def digits (n : ℕ) (value : ℕ → Bool) : List Bool := ((List.range' 1 n).map value).reverse

/-- There is a digit for each variable. -/
@[simp] theorem length_digits (n : ℕ) (value : ℕ → Bool) : (digits n value).length = n := by
  simp [digits]

/-- The digits of an assignment stand for its values. -/
theorem extends_digits (n : ℕ) (value : ℕ → Bool) : Extends (valueAt (digits n value)) value := by
  intro v b hv
  unfold valueAt at hv
  split at hv
  case isFalse => cases hv
  case isTrue hrange =>
    rw [length_digits] at hrange hv
    rw [digits, List.getElem?_reverse (by simp; omega)] at hv
    simp only [List.length_map, List.length_range', List.getElem?_map] at hv
    have hindex : n - 1 - (n - v) = v - 1 := by omega
    rw [hindex, List.getElem?_range' (by omega), Option.map_some, Option.some.injEq] at hv
    rw [← hv]
    congr 1
    omega

/-- What an enumeration from the digits `bs` on ends with, after `tried` earlier evaluations: with
how many evaluations, and with the first digits of a model if there are any. -/
inductive Sought (f : Formula) (tried : ℕ) (bs : List Bool) : ℕ × Option (List Bool) → Prop
  | found {cs : List Bool} (length_eq : cs.length = bs.length) (le : number bs ≤ number cs)
      (holds : f.check (value cs) = .ok true)
      (fails : ∀ ds, ds.length = bs.length → number bs ≤ number ds → number ds < number cs →
        f.check (value ds) = .ok false) :
      Sought f tried bs (tried + (number cs - number bs) + 1, some cs)
  | exhausted (fails : ∀ ds, ds.length = bs.length → number bs ≤ number ds →
        f.check (value ds) = .ok false) :
      Sought f tried bs (tried + remaining bs, none)

/-- After digits that fail the enumeration goes on with the next ones. -/
theorem Sought.step {r : ℕ × Option (List Bool)} (hnext : next? bs = some cs)
    (hfails : f.check (value bs) = .ok false) (h : Sought f (tried + 1) cs r) :
    Sought f tried bs r := by
  obtain ⟨hlength, hnumber⟩ := next?_eq_some hnext
  -- The numbers from `bs` on are `bs` itself and those from the next one on.
  have hall : ∀ {P : List Bool → Prop}, P bs →
      (∀ ds, ds.length = cs.length → number cs ≤ number ds → P ds) →
      ∀ ds, ds.length = bs.length → number bs ≤ number ds → P ds := by
    intro P hbs hcs ds hds hle
    by_cases heq : number ds = number bs
    · rw [eq_of_number_eq hds heq]
      exact hbs
    · exact hcs ds (hds.trans hlength.symm) (by omega)
  cases h with
  | @found es hlength' hle hholds hfails' =>
    have hcount : tried + 1 + (number es - number cs) = tried + (number es - number bs) := by omega
    rw [hcount]
    refine .found (hlength'.trans hlength) (by omega) hholds ?_
    exact hall (fun _ => hfails) hfails'
  | exhausted hfails' =>
    have hcount : tried + 1 + remaining cs = tried + remaining bs := by
      have hlt := number_lt cs
      rw [remaining, remaining, hlength] at *
      omega
    rw [hcount]
    exact .exhausted (hall hfails hfails')

/-- Unless the assignment with these digits is a model or the last one, the enumeration goes on with
the next one. -/
theorem seekIn_eq {m : Type → Type} [Monad m] [MonadLiftT (Except Fault) m]
    (meet : List Bool → m Unit) : seekIn meet f tried bs = (do
      meet bs
      let tried ← below longSize (tried + 1)
      if ← f.check (value bs) then
        return (tried, some bs)
      else
        match next? bs with
        | some cs => seekIn meet f tried cs
        | none => return (tried, none)) := by
  rw [seekIn]
  refine bind_congr fun _ => bind_congr fun tried => bind_congr fun holds => ?_
  split
  · rfl
  · split <;> simp only [*]

/-- The enumeration as a computation that may fault goes on in the same way. -/
theorem seek_eq : seek f tried bs = (do
    let tried ← below longSize (tried + 1)
    if ← f.check (value bs) then
      return (tried, some bs)
    else
      match next? bs with
      | some cs => seek f tried cs
      | none => return (tried, none)) := seekIn_eq _

/-- An enumeration that does not fault evaluates every assignment up to the first model. -/
theorem seek_ok {r : ℕ × Option (List Bool)} (hok : seek f tried bs = .ok r) :
    Sought f tried bs r := by
  induction hremaining : remaining bs using Nat.strongRecOn generalizing tried bs with
  | ind k ih =>
    rw [seek_eq] at hok
    obtain ⟨tried', htried, hok⟩ := bind_eq_ok.mp hok
    obtain ⟨-, rfl⟩ := below_eq_ok.mp htried
    obtain ⟨holds, hcheck, hok⟩ := bind_eq_ok.mp hok
    cases holds with
    | true =>
      cases hok
      have hfound : Sought f tried bs (tried + (number bs - number bs) + 1, some bs) :=
        .found rfl (Nat.le_refl _) hcheck fun ds _ hle hlt => absurd hlt (Nat.not_lt.mpr hle)
      rwa [Nat.sub_self] at hfound
    | false =>
      simp only [Bool.false_eq_true, if_false] at hok
      split at hok
      case h_1 cs hnext =>
        exact .step hnext hcheck (ih _ (hremaining ▸ remaining_next? hnext) hok rfl)
      case h_2 hnext =>
        cases hok
        have hlast := next?_eq_none.mp hnext
        have hone : remaining bs = 1 := by rw [remaining]; omega
        have hexhausted : Sought f tried bs (tried + remaining bs, none) := by
          refine .exhausted fun ds hds hle => ?_
          have hlt := number_lt ds
          rw [hds] at hlt
          rw [eq_of_number_eq hds (by omega)]
          exact hcheck
        rwa [hone] at hexhausted

/-- An evaluation that does not fault is right. -/
theorem check_cases {r : Bool} (hcheck : f.check (value bs) = .ok r) :
    r = true ∧ f.satisfied (valueAt bs) = true ∨ r = false ∧ f.Refuted (valueAt bs) :=
  f.check_ok_cases (fun _ _ hv hok => valueAt_of_value_ok hv hok) hcheck

/-- Variables with a digit can be looked up. -/
theorem exists_value (hv : v ≤ bs.length) : ∃ b, value bs v = .ok b := by
  unfold value
  split
  case isTrue => exact ⟨_, rfl⟩
  case isFalse hrange => exact ⟨false, if_pos (by omega)⟩

/-- An enumeration over the variables of a formula in range looks up only these. -/
theorem seek_upTo (hrange : f.InRange) (hlength : bs.length = f.variableCount) :
    UpToOverflow (fun _ => True) (seek f tried bs) := by
  induction hremaining : remaining bs using Nat.strongRecOn generalizing tried bs with
  | ind k ih =>
    have hchecks : ∃ r, f.check (value bs) = .ok r :=
      Formula.exists_check fun c hc l hl => exists_value (hlength ▸ hrange c hc l hl)
    obtain ⟨holds, hcheck⟩ := hchecks
    rw [seek_eq]
    refine (UpToOverflow.below _ _).bind fun tried _ => ?_
    rw [hcheck, ok_bind]
    split
    · exact .ok trivial
    · split
      case h_1 cs hnext =>
        have hcs : cs.length = f.variableCount := (next?_eq_some hnext).1.trans hlength
        exact ih _ (hremaining ▸ remaining_next? hnext) hcs rfl
      case h_2 => exact .ok trivial

end Counting

/-- Only an overflow of the count of assignments can end an enumeration early. -/
theorem Formula.firstModel_upTo {f : Formula} (hrange : f.InRange)
    (htable : checkTable 1 f.variableCount = .ok ()) :
    UpToOverflow (fun _ => True) f.firstModel.result := by
  rw [firstModel, Logged.lift_bind_of_ok htable]
  have hseek : UpToOverflow (fun _ => True)
      (Counting.seek f 0 (List.replicate f.variableCount false)) :=
    Counting.seek_upTo hrange List.length_replicate
  refine hseek.logged_bind fun r _ => ?_
  obtain ⟨tried, digits⟩ := r
  cases digits <;> exact .ok trivial

/-- An enumeration that does not fault gives a right answer. -/
theorem Formula.firstModel_answered {f : Formula} (hn : f.variableCount < wordSize)
    {answer : Option Assignment} (hok : f.firstModel.result = .ok answer) : f.Answered answer := by
  obtain ⟨_, -, hok⟩ := Logged.bind_eq_ok.mp hok
  obtain ⟨r, hr, hok⟩ := Logged.bind_eq_ok.mp hok
  have hsought := Counting.seek_ok hr
  cases hsought with
  | @found cs hlength _ hholds _ =>
    obtain ⟨_, -, hok⟩ := Logged.bind_eq_ok.mp hok
    cases hok
    rw [List.length_replicate] at hlength
    rcases Counting.check_cases hholds with ⟨-, hsat⟩ | ⟨hfalse, -⟩
    · rw [← hlength] at hn
      have hverifies : (Counting.assignment cs).verifies f = true := by
        rw [Assignment.verifies_eq, Counting.value?_assignment hn]
        exact hsat
      refine .model ⟨?_, hverifies, Assignment.satisfies_of_verifies hverifies⟩
      rw [Counting.keys_assignment hn, hlength]
    · cases hfalse
  | exhausted hfails =>
    obtain ⟨_, -, hok⟩ := Logged.bind_eq_ok.mp hok
    cases hok
    refine .none fun value => ?_
    have hzero := Counting.number_replicate_false f.variableCount
    have hcheck := hfails (Counting.digits f.variableCount value) (by simp) (by omega)
    rcases Counting.check_cases hcheck with ⟨htrue, -⟩ | ⟨-, hrefuted⟩
    · cases htrue
    · exact hrefuted.holds_eq_false (Counting.extends_digits _ value)

end SatSearch
