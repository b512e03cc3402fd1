import SatSearch.Proofs.Enumeration
import Mathlib.Algebra.BigOperators.Intervals
import Mathlib.Algebra.BigOperators.Ring.Finset

/-!
# The least model

Read as binary numbers, the assignments that an enumeration evaluates are 0, 1, 2 and so on up to
the first model, or all numbers with the digits at hand. None is left out and none comes twice, so
the first model is the least one and its number says how many assignments were evaluated before it.
-/

namespace SatSearch

open Finset in
/-- The number as which an assignment of the variables `1..n` is read. Variable 1 is the most
significant digit and true stands for 1. -/
def binaryNumber (n : ℕ) (value : ℕ → Bool) : ℕ :=
  ∑ v ∈ Icc 1 n, (value v).toNat * 2 ^ (n - v)

/-- The number of an assignment, a variable without a value taken as false. -/
def Assignment.binaryNumber (n : ℕ) (m : Assignment) : ℕ :=
  SatSearch.binaryNumber n fun v => (m.value? v).getD false

namespace Counting

variable {f : Formula} {n tried : ℕ} {bs cs : List Bool} {es : List (List Bool)}

/-- One more variable is one more digit at the less significant end. -/
theorem digits_succ (n : ℕ) (value : ℕ → Bool) :
    digits (n + 1) value = value (n + 1) :: digits n value := by
  rw [digits, List.range'_1_concat, List.map_append, List.reverse_append, Nat.add_comm 1 n]
  rfl

/-- The digits of an assignment stand for its number. -/
theorem number_digits (n : ℕ) (value : ℕ → Bool) :
    number (digits n value) = binaryNumber n value := by
  induction n with
  | zero => rfl
  | succ n ih =>
    have hdouble : ∑ v ∈ Finset.Icc 1 n, (value v).toNat * 2 ^ (n + 1 - v) =
        2 * binaryNumber n value := by
      rw [binaryNumber, Finset.mul_sum]
      refine Finset.sum_congr rfl fun v hv => ?_
      rw [Nat.succ_sub (Finset.mem_Icc.mp hv).2, Nat.pow_succ]
      rw [← Nat.mul_assoc, Nat.mul_comm]
    have hlast : binaryNumber (n + 1) value =
        2 * binaryNumber n value + (value (n + 1)).toNat * 2 ^ (n + 1 - (n + 1)) := by
      rw [← hdouble]
      exact Finset.sum_Icc_succ_top (by omega) _
    rw [digits_succ, number, ih, hlast, Nat.sub_self, Nat.pow_zero, Nat.mul_one, Nat.add_comm]

/-- The digits of the values that digits stand for. -/
theorem digits_valueAt (bs : List Bool) :
    digits bs.length (fun v => (valueAt bs v).getD false) = bs := by
  refine List.ext_getElem (length_digits _ _) fun i hi hi' => ?_
  simp only [digits, List.getElem_reverse, List.getElem_map, List.getElem_range', List.length_map,
    List.length_range', Nat.one_mul]
  have hindex : bs.length - (1 + (bs.length - 1 - i)) = i := by omega
  rw [valueAt, if_pos (by omega), hindex, List.getElem?_eq_getElem hi', Option.getD_some]

/-- The assignment with some digits has the number that they stand for. -/
theorem binaryNumber_assignment (h : bs.length < wordSize) :
    (assignment bs).binaryNumber bs.length = number bs := by
  rw [Assignment.binaryNumber, value?_assignment h, ← number_digits, digits_valueAt]

/-- The enumeration carried out so that it lists the digits it meets, in their order. -/
def watchSeek (f : Formula) (tried : ℕ) (bs : List Bool) :
    StateT (List (List Bool)) (Except Fault) (ℕ × Option (List Bool)) :=
  seekIn (fun bs => modify (· ++ [bs])) f tried bs

/-- Each step of the enumeration lists the digits that it evaluates. -/
theorem run_watchSeek (es : List (List Bool)) : (watchSeek f tried bs).run es = (do
    let tried ← below longSize (tried + 1)
    if ← f.check (value bs) then
      return ((tried, some bs), es ++ [bs])
    else
      match next? bs with
      | some cs => (watchSeek f tried cs).run (es ++ [bs])
      | none => return ((tried, none), es ++ [bs])) := by
  rw [watchSeek, seekIn_eq]
  simp only [StateT.run_bind, StateT.run_modify, StateT.run_monadLift, monadLift_self, bind_assoc,
    pure_bind]
  refine bind_congr fun tried => bind_congr fun holds => ?_
  cases holds with
  | true => rfl
  | false => cases next? bs <;> rfl

/-- Leaving the list out gives back the enumeration. -/
theorem map_run_watchSeek (es : List (List Bool)) :
    Prod.fst <$> (watchSeek f tried bs).run es = seek f tried bs := by
  induction hremaining : remaining bs using Nat.strongRecOn generalizing tried bs es with
  | ind k ih =>
    rw [run_watchSeek, seek_eq, map_bind]
    refine bind_congr fun tried => ?_
    rw [map_bind]
    refine bind_congr fun holds => ?_
    cases holds with
    | true => rfl
    | false =>
      cases hnext : next? bs with
      | some cs => exact ih _ (hremaining ▸ remaining_next? hnext) _ rfl
      | none => rfl

/-- An enumeration evaluates one number after the other and counts them. -/
theorem watchSeek_ok {es es' : List (List Bool)} {count : ℕ} {first : Option (List Bool)}
    (hok : (watchSeek f tried bs).run es = .ok ((count, first), es')) :
    ∃ evaluated, es' = es ++ evaluated ∧ count = tried + evaluated.length ∧
      evaluated.map number = List.range' (number bs) evaluated.length ∧
      ∀ ds ∈ evaluated, ds.length = bs.length := by
  induction hremaining : remaining bs using Nat.strongRecOn generalizing tried bs es with
  | ind k ih =>
    rw [run_watchSeek] at hok
    obtain ⟨tried', htried, hok⟩ := bind_eq_ok.mp hok
    obtain ⟨-, rfl⟩ := below_eq_ok.mp htried
    obtain ⟨holds, -, hok⟩ := bind_eq_ok.mp hok
    have hself : ∀ ds ∈ [bs], ds.length = bs.length :=
      fun ds hds => congrArg List.length (List.mem_singleton.mp hds)
    cases holds with
    | true =>
      cases hok
      exact ⟨[bs], rfl, rfl, rfl, hself⟩
    | false =>
      simp only [Bool.false_eq_true, if_false] at hok
      split at hok
      case h_2 =>
        cases hok
        exact ⟨[bs], rfl, rfl, rfl, hself⟩
      case h_1 cs hnext =>
        obtain ⟨hlength, hnumber⟩ := next?_eq_some hnext
        obtain ⟨evaluated, rfl, rfl, hnumbers, hlengths⟩ :=
          ih _ (hremaining ▸ remaining_next? hnext) hok rfl
        refine ⟨bs :: evaluated, ?_, ?_, ?_, ?_⟩
        · rw [List.append_assoc, List.singleton_append]
        · rw [List.length_cons]
          omega
        · rw [List.map_cons, hnumbers, hnumber, List.length_cons, List.range'_succ]
        · exact List.forall_mem_cons.mpr ⟨rfl, fun ds hds => (hlengths ds hds).trans hlength⟩

/-- With the variables of a formula in range and room in the count, an enumeration ends. -/
theorem exists_seek (hrange : f.InRange) (hlength : bs.length = f.variableCount)
    (hroom : tried + remaining bs < longSize) : ∃ r, seek f tried bs = .ok r := by
  induction hremaining : remaining bs using Nat.strongRecOn generalizing tried bs with
  | ind k ih =>
    have hpos : 0 < remaining bs := by
      have hlt := number_lt bs
      rw [remaining]
      omega
    obtain ⟨holds, hcheck⟩ : ∃ r, f.check (value bs) = .ok r :=
      Formula.exists_check fun c hc l hl => exists_value (hlength ▸ hrange c hc l hl)
    have hfits : tried + 1 < longSize := by omega
    cases holds with
    | true =>
      rw [seek_eq, below_eq_ok.mpr ⟨hfits, rfl⟩, ok_bind, hcheck]
      exact ⟨_, rfl⟩
    | false =>
      rw [seek_eq, below_eq_ok.mpr ⟨hfits, rfl⟩, ok_bind, hcheck, ok_bind,
        if_neg Bool.false_ne_true]
      split
      case h_1 cs hnext =>
        have hdecreases := remaining_next? hnext
        exact ih _ (hremaining ▸ hdecreases) ((next?_eq_some hnext).1.trans hlength) (by omega) rfl
      case h_2 => exact ⟨_, rfl⟩

/-- An enumeration from zero on that stops at some digits has counted up to their number, and no
assignment with a smaller number satisfies the formula. -/
theorem Sought.least {count : ℕ}
    (h : Sought f 0 (List.replicate f.variableCount false) (count, some cs)) :
    cs.length = f.variableCount ∧ count = 1 + number cs ∧
      ∀ value, f.holds value = true → number cs ≤ binaryNumber f.variableCount value := by
  cases h with
  | found hlength _ _ hfails =>
    rw [List.length_replicate] at hlength hfails
    rw [number_replicate_false] at hfails ⊢
    refine ⟨hlength, by omega, fun value hvalue => ?_⟩
    rw [← number_digits]
    by_contra hlt
    have hcheck := hfails (digits f.variableCount value) (length_digits _ _) (Nat.zero_le _)
      (by omega)
    rcases check_cases hcheck with ⟨htrue, -⟩ | ⟨-, hrefuted⟩
    · cases htrue
    · rw [hrefuted.holds_eq_false (extends_digits _ value)] at hvalue
      cases hvalue

/-- An enumeration from zero on that finds no model has counted all numbers. -/
theorem Sought.count_of_none {count n : ℕ} (h : Sought f 0 (List.replicate n false) (count, none)) :
    count = 2 ^ n := by
  cases h with
  | exhausted =>
    rw [remaining, number_replicate_false, List.length_replicate, Nat.one_shiftLeft, Nat.zero_add,
      Nat.sub_zero]

end Counting

/-- The first model in counting order, with the assignments that are evaluated for it. -/
def Formula.watchFirstModel (f : Formula) :
    Logged Fault (List Assignment × Option Assignment) := do
  checkTable 1 f.variableCount
  let (r, evaluated) ← (Counting.watchSeek f 0 (List.replicate f.variableCount false)).run []
  return (evaluated.map Counting.assignment, ← Counting.conclude r)

/-- Leaving the list out gives back the enumeration with what it reports. -/
theorem Formula.map_watchFirstModel (f : Formula) :
    Prod.snd <$> f.watchFirstModel = f.firstModel := by
  rw [firstModel, watchFirstModel, ← Counting.map_run_watchSeek [], map_bind]
  refine bind_congr fun _ => ?_
  cases (Counting.watchSeek f 0 (List.replicate f.variableCount false)).run [] with
  | error e => rfl
  | ok r =>
    obtain ⟨⟨tried, digits⟩, evaluated⟩ := r
    cases digits <;> rfl

/-- The assignments that an enumeration lists are complete, and their numbers are those from zero
on. -/
theorem Formula.watchFirstModel_ok {f : Formula} (hn : f.variableCount < wordSize)
    {evaluated : List Assignment} {answer : Option Assignment}
    (hok : f.watchFirstModel.result = .ok (evaluated, answer)) :
    ∃ digits, Counting.seek f 0 (List.replicate f.variableCount false) =
        .ok (evaluated.length, digits) ∧ answer = digits.map Counting.assignment ∧
      (∀ a ∈ evaluated, a.bindings.map Prod.fst = List.range' 1 f.variableCount) ∧
      evaluated.map (Assignment.binaryNumber f.variableCount) = List.range evaluated.length := by
  obtain ⟨_, -, hok⟩ := Logged.bind_eq_ok.mp hok
  obtain ⟨⟨⟨count, digits⟩, es⟩, hes, hok⟩ := Logged.bind_eq_ok.mp hok
  obtain ⟨rfl, rfl⟩ : es.map Counting.assignment = evaluated ∧
      digits.map Counting.assignment = answer := by
    cases digits <;> (cases hok; exact ⟨rfl, rfl⟩)
  have hwatched : (Counting.watchSeek f 0 (List.replicate f.variableCount false)).run [] =
      .ok ((count, digits), es) := hes
  have hseek : Prod.fst <$> (Counting.watchSeek f 0 (List.replicate f.variableCount false)).run [] =
      Counting.seek f 0 (List.replicate f.variableCount false) := Counting.map_run_watchSeek []
  rw [hwatched] at hseek
  obtain ⟨evaluated, rfl, rfl, hnumbers, hlengths⟩ := Counting.watchSeek_ok hwatched
  simp only [List.length_replicate] at hlengths
  refine ⟨digits, ?_, rfl, fun a ha => ?_, ?_⟩
  · rw [← hseek, List.length_map, Nat.zero_add]
    rfl
  · obtain ⟨bs, hbs, rfl⟩ := List.mem_map.mp ha
    rw [Counting.keys_assignment (by rwa [hlengths bs hbs]), hlengths bs hbs]
  · rw [Counting.number_replicate_false] at hnumbers
    rw [List.map_map, List.length_map, List.range_eq_range', ← hnumbers]
    refine List.map_congr_left fun bs hbs => ?_
    rw [Function.comp_apply, ← hlengths bs hbs]
    exact Counting.binaryNumber_assignment (by rwa [hlengths bs hbs])

/-- With the literals in range and at most 63 variables an enumeration does not fault. -/
theorem Formula.exists_firstModel {f : Formula} (hrange : f.InRange)
    (hsmall : f.variableCount ≤ 63) : ∃ answer, f.firstModel.result = .ok answer := by
  have htable : checkTable 1 f.variableCount = .ok () :=
    if_pos (by simp only [maxTableBytes]; omega)
  have hpow : 2 ^ f.variableCount ≤ 2 ^ 63 := Nat.pow_le_pow_right (by omega) hsmall
  obtain ⟨⟨tried, digits⟩, hseek⟩ : ∃ r, Counting.seek f 0
      (List.replicate f.variableCount false) = .ok r := by
    refine Counting.exists_seek hrange List.length_replicate ?_
    rw [Counting.remaining, Counting.number_replicate_false, List.length_replicate,
      Nat.one_shiftLeft]
    simp only [longSize]
    omega
  rw [firstModel, Logged.lift_bind_of_ok htable, Logged.lift_bind_of_ok hseek]
  cases digits <;> exact ⟨_, rfl⟩

/-- For fewer than `2 ^ 32` variables, an enumeration that does not fault finds a model exactly if
the formula is satisfiable. The model has a value for each variable, and its number is the least of
all assignments that satisfy the formula. The assignments evaluated are complete and have the
numbers from zero up to that of the model, one after the other, and all numbers below `2 ^ n` if
there is no model. With the literals in range and at most 63 variables no fault occurs. -/
theorem Formula.firstModel_least {f : Formula} (hn : f.variableCount < 2 ^ 32) :
    Prod.snd <$> f.watchFirstModel = f.firstModel ∧
    (∀ answer, f.firstModel.result = .ok answer →
      (answer.isSome = true ↔ ∃ value, f.holds value = true) ∧
      ∃ evaluated, f.watchFirstModel.result = .ok (evaluated, answer) ∧
        (∀ a ∈ evaluated, a.bindings.map Prod.fst = List.range' 1 f.variableCount) ∧
        (∀ m, answer = some m →
          m.bindings.map Prod.fst = List.range' 1 f.variableCount ∧ m.satisfies f = true ∧
          (∀ value, f.holds value = true →
            m.binaryNumber f.variableCount ≤ binaryNumber f.variableCount value) ∧
          evaluated.map (Assignment.binaryNumber f.variableCount) =
            List.range (1 + m.binaryNumber f.variableCount)) ∧
        (answer = none → evaluated.map (Assignment.binaryNumber f.variableCount) =
          List.range (2 ^ f.variableCount))) ∧
    (f.InRange → f.variableCount ≤ 63 → ∃ answer, f.firstModel.result = .ok answer) := by
  refine ⟨f.map_watchFirstModel, fun answer hok => ?_, Formula.exists_firstModel⟩
  have hanswered := Formula.firstModel_answered hn hok
  rw [← map_watchFirstModel, map_eq_pure_bind] at hok
  obtain ⟨⟨evaluated, _⟩, hwatched, hsnd⟩ := Logged.bind_eq_ok.mp hok
  cases hsnd
  obtain ⟨digits, hseek, rfl, hkeys, hnumbers⟩ := watchFirstModel_ok hn hwatched
  have hsought := Counting.seek_ok hseek
  refine ⟨hanswered.isSome_iff, evaluated, hwatched, hkeys, fun m hm => ?_, fun hnone => ?_⟩
  · obtain ⟨cs, rfl, rfl⟩ := Option.map_eq_some_iff.mp hm
    have hcomplete := hanswered.completeModel
    obtain ⟨hlength, hcount, hleast⟩ := hsought.least
    have hbinary : (Counting.assignment cs).binaryNumber f.variableCount = Counting.number cs := by
      rw [← hlength]
      exact Counting.binaryNumber_assignment (by rwa [hlength])
    exact ⟨hcomplete.keys, hcomplete.satisfies, hbinary ▸ hleast, by rw [hnumbers, hcount, hbinary]⟩
  · obtain rfl := Option.map_eq_none_iff.mp hnone
    rw [hnumbers, hsought.count_of_none]

/-- One of variables 1 and 2 is true, and variable 3 is if variable 2 is. -/
def oneAndItsConsequence : Formula := ⟨3, [.ofCodes [1, 2], .ofCodes [-2, 3]]⟩

/-- The numbers 0, 1 and 2 fail. The first model is 011, which is 3. -/
theorem Formula.firstModel_least_three :
    let f := oneAndItsConsequence
    let m := Assignment.ofBindings [(1, false), (2, true), (3, true)]
    f.variableCount < 2 ^ 32 ∧ f.firstModel.result = .ok (some m) ∧ m.binaryNumber 3 = 3 ∧
      (∃ value, f.holds value = true) ∧ m.satisfies f = true ∧
      (∀ value, f.holds value = true → 3 ≤ binaryNumber 3 value) ∧
      ∃ evaluated, f.watchFirstModel.result = .ok (evaluated, some m) ∧
        (∀ a ∈ evaluated, a.bindings.map Prod.fst = [1, 2, 3]) ∧
        evaluated.map (Assignment.binaryNumber 3) = [0, 1, 2, 3] := by
  intro f m
  have hok : f.firstModel.result = .ok (some m) := by decide +kernel
  have hnumber : m.binaryNumber 3 = 3 := by decide
  obtain ⟨-, hanswer, -⟩ := Formula.firstModel_least (f := f) (by decide)
  obtain ⟨hiff, evaluated, hevaluated, hkeys, hmodel, -⟩ := hanswer _ hok
  obtain ⟨-, hsatisfies, hleast, hnumbers⟩ := hmodel m rfl
  exact ⟨by decide, hok, hnumber, hiff.mp rfl, hsatisfies, hleast, evaluated, hevaluated, hkeys,
    hnumbers⟩

end SatSearch
