import SatSearch.Assignment
import SatSearch.Log.Logged

/-!
# Enumeration in counting order

An assignment of the variables `1..n` is read as a binary number with variable 1 as its most
significant bit. The enumeration starts at 0, goes up by one, and stops at the first model or after
the number with ones only. The digits are listed from the least significant one on, so that adding
one touches the front of the list.

The loop can be carried out in any monad that runs its steps, and `meet` is called with the digits
of each assignment before it is evaluated. The enumeration itself ignores these calls.
-/

namespace SatSearch

namespace Counting

/-- The number with these binary digits, the least significant one first. -/
def number : List Bool → Nat
  | [] => 0
  | b :: bs => b.toNat + 2 * number bs

/-- The digits of the next number, unless it needs more digits. -/
def next? : List Bool → Option (List Bool)
  | [] => none
  | false :: bs => some (true :: bs)
  | true :: bs => (next? bs).map (false :: ·)

/-- So many digits stand for a number below this power of two. -/
theorem number_lt (bs : List Bool) : number bs < 1 <<< bs.length := by
  induction bs with
  | nil => simp [number]
  | cons b bs ih =>
    have hb : b.toNat ≤ 1 := by cases b <;> decide
    simp only [number, List.length_cons, Nat.shiftLeft_succ]
    omega

/-- The next digits are as many and stand for the next number. -/
theorem next?_eq_some {bs cs : List Bool} (h : next? bs = some cs) :
    cs.length = bs.length ∧ number cs = number bs + 1 := by
  induction bs generalizing cs with
  | nil => simp [next?] at h
  | cons b bs ih =>
    cases b with
    | false =>
      cases h
      simp [number]
      omega
    | true =>
      obtain ⟨ds, hds, rfl⟩ := Option.map_eq_some_iff.mp h
      obtain ⟨hlen, hnum⟩ := ih hds
      simp [number, hlen, hnum]
      omega

/-- There is no next number exactly after the last one. -/
theorem next?_eq_none {bs : List Bool} : next? bs = none ↔ number bs + 1 = 1 <<< bs.length := by
  induction bs with
  | nil => simp [next?, number]
  | cons b bs ih =>
    have := number_lt bs
    cases b with
    | false =>
      simp [next?, number, Nat.shiftLeft_succ]
      omega
    | true =>
      simp [next?, number, Nat.shiftLeft_succ, ih]
      omega

/-- How many numbers with as many digits come after this one, and one more. -/
def remaining (bs : List Bool) : Nat := 1 <<< bs.length - number bs

/-- Going on to the next number leaves fewer of them. -/
theorem remaining_next? {bs cs : List Bool} (h : next? bs = some cs) :
    remaining cs < remaining bs := by
  obtain ⟨hlen, hnum⟩ := next?_eq_some h
  have := number_lt bs
  rw [remaining, remaining, hlen, hnum]
  omega

/-- The value of a variable in the assignment with these digits. Variable 0 is always false. -/
def value (bs : List Bool) (v : Nat) : Except Fault Bool :=
  if h : 0 < v ∧ v ≤ bs.length then .ok (bs[bs.length - v])
  else if v = 0 then .ok false
  else .error (.unknownVariable v)

/-- Goes on with the assignment with these digits after so many have failed. The result is the
number of assignments evaluated and the digits of the first model, if there is one. -/
@[specialize] def seekIn {m : Type → Type} [Monad m] [MonadLiftT (Except Fault) m]
    (meet : List Bool → m Unit) (f : Formula) (tried : Nat) (bs : List Bool) :
    m (Nat × Option (List Bool)) := do
  meet bs
  let tried ← below longSize (tried + 1)
  if ← f.check (value bs) then
    return (tried, some bs)
  else
    match h : next? bs with
    | some cs =>
      have := remaining_next? h
      seekIn meet f tried cs
    | none => return (tried, none)
termination_by remaining bs

/-- The enumeration as a computation that may fault. -/
def seek (f : Formula) (tried : Nat) (bs : List Bool) : Except Fault (Nat × Option (List Bool)) :=
  seekIn (fun _ => pure ()) f tried bs

/-- The assignment with these digits. -/
def assignment (bs : List Bool) : Assignment :=
  let values := bs.reverse.toArray
  Assignment.complete bs.length fun v => values.getD (v - 1) false

/-- Reports how an enumeration ended and turns the digits of a model into the model. -/
def conclude : Nat × Option (List Bool) → Logged Fault (Option Assignment)
  | (tried, some bs) => do
    Logged.log (.modelFound tried)
    return some (assignment bs)
  | (tried, none) => do
    Logged.log (.noModel tried)
    return none

end Counting

/-- The first model in counting order, if there is one. A digit takes one byte. -/
def Formula.firstModel (f : Formula) : Logged Fault (Option Assignment) := do
  checkTable 1 f.variableCount
  Counting.conclude (← Counting.seek f 0 (List.replicate f.variableCount false))

end SatSearch
