import SatSearch.Decision
import SatSearch.Proofs.Search.Steps
import Mathlib.Data.Nat.Notation

/-!
# What the library reports

Deciding a formula reports messages of the library only, none of the program that uses it, however
the computation ends. The messages of a sequence are those of its parts, so this is proved one
function at a time; the search goes by induction on the number of queued variables.
-/

namespace SatSearch

namespace Logged

variable {ε γ α β : Type} {P Q : Message → Prop} {x : Logged ε α}

/-- All messages are as `P` says, also those of a computation that fails. -/
def Only (P : Message → Prop) (x : Logged ε α) : Prop := ∀ m ∈ x.messages, P m

namespace Only

/-- A result comes without messages. -/
theorem pure (a : α) : Only P (Pure.pure a : Logged ε α) := nofun

/-- So does a failure. -/
theorem fail (e : ε) : Only P (Logged.fail e : Logged ε α) := nofun

/-- A step without a log has no messages. -/
theorem lift (y : Except ε α) : Only P (liftM y : Logged ε α) := nofun

/-- A message by itself. -/
theorem log {m : Message} (hm : P m) : Only P (Logged.log m : Logged ε Unit) :=
  List.forall_mem_singleton.mpr hm

/-- The messages of a sequence are those of its parts. -/
theorem bind {f : α → Logged ε β} (hx : Only P x) (hf : ∀ a, Only P (f a)) :
    Only P (x >>= f) := by
  cases h : x.result with
  | error e =>
    rw [bind_of_error h]
    exact hx
  | ok a =>
    rw [bind_of_ok h]
    intro m hm
    rcases List.mem_append.mp hm with hm | hm
    · exact hx m hm
    · exact hf a m hm

/-- A step that reports nothing, and what follows. -/
theorem lift_bind {y : Except ε α} {f : α → Logged ε β} (hf : ∀ a, Only P (f a)) :
    Only P (liftM y >>= f) := (lift y).bind hf

/-- A message, and what follows. -/
theorem log_bind {m : Message} {f : Unit → Logged ε β} (hm : P m) (hf : Only P (f ())) :
    Only P (Logged.log m >>= f) := (log hm).bind fun _ => hf

/-- Another error changes no message. -/
theorem mapError (hx : Only P x) (g : ε → γ) : Only P (x.mapError g) := hx

/-- What all messages are like may be said less exactly. -/
theorem mono (hx : Only P x) (h : ∀ m, P m → Q m) : Only Q x := fun m hm => h m (hx m hm)

end Only

/-- What is reported first is also reported by the whole sequence. -/
theorem mem_messages_bind {f : α → Logged ε β} {m : Message} (hm : m ∈ x.messages) :
    m ∈ (x >>= f).messages := by
  cases h : x.result with
  | error e => rwa [bind_of_error h]
  | ok a =>
    rw [bind_of_ok h]
    exact List.mem_append_left _ hm

end Logged

/-- A message of the library, not of the program that uses it. -/
def Message.OfLibrary (m : Message) : Prop := m.origin ≠ .program

open Logged (Only)

variable {v left : ℕ} {b : Bool} {bs : List Bool} {f : Formula}

/-- A selection reports itself at most. -/
theorem Branching.select_only (s : Branching) : s.select.Only Message.OfLibrary := by
  refine .lift_bind fun r => ?_
  cases r with
  | none => exact .pure none
  | some r =>
    refine .lift_bind fun e => .lift_bind fun s => .log_bind nofun ?_
    exact .lift_bind fun s => .pure _

/-- A scan reports a conflict at most. -/
theorem Propagator.scan_only (p : Propagator) (f : Formula) (s : Branching) :
    (p.scan f s).Only Message.OfLibrary := by
  refine .lift_bind fun r => ?_
  obtain ⟨finding, q, s'⟩ := r
  cases finding with
  | conflict why =>
    refine .log_bind ?_ (.pure _)
    cases why <;> nofun
  | satisfied | undecided => exact .pure _

namespace SearchState

variable {s : SearchState} {descend : SearchState → Logged Fault (Outcome × SearchState)}

/-- Scans, as part of the search. -/
theorem scan_only (s : SearchState) (f : Formula) : (s.scan f).Only Message.OfLibrary := by
  refine .lift_bind fun scans => ?_
  exact (s.propagator.scan_only f s.branching).bind fun r => .pure _

/-- Decisions. -/
theorem assign_only (s : SearchState) (v : ℕ) (b : Bool) :
    (s.assign v b).Only Message.OfLibrary := by
  refine .lift_bind fun decisions => ?_
  exact .lift_bind fun branching => .log_bind nofun (.pure _)

/-- Backtracks. -/
theorem backtrack_only (s : SearchState) (v : ℕ) : (s.backtrack v).Only Message.OfLibrary := by
  refine .lift_bind fun backtracks => ?_
  exact .lift_bind fun branching => .lift_bind fun p => .log_bind nofun (.pure _)

/-- One value of a variable is tried. -/
theorem tryValue_only (hdescend : ∀ s, (descend s).Only Message.OfLibrary) (s : SearchState) :
    (tryValue f descend v b s).Only Message.OfLibrary := by
  refine (s.assign_only v b).bind fun s => ?_
  split
  case isTrue =>
    refine (s.scan_only f).bind fun r => ?_
    obtain ⟨finding, s'⟩ := r
    cases finding with
    | satisfied | conflict => exact .pure _
    | undecided => exact hdescend s'
  case isFalse => exact .lift _

/-- The values of a variable are tried in turn. -/
theorem tryValues_only (hdescend : ∀ s, (descend s).Only Message.OfLibrary) (s : SearchState) :
    (tryValues f descend v bs s).Only Message.OfLibrary := by
  induction bs generalizing s with
  | nil => exact (s.backtrack_only v).bind fun s => .pure _
  | cons b bs ih =>
    refine (tryValue_only hdescend s).bind fun r => ?_
    obtain ⟨outcome, s'⟩ := r
    cases outcome with
    | solved => exact .pure _
    | exhausted => exact .lift_bind ih

/-- The search below the present values. -/
theorem explore_only (f : Formula) (left : ℕ) (s : SearchState) :
    (explore f left s).Only Message.OfLibrary := by
  induction left generalizing s with
  | zero => exact .lift _
  | succ left ih =>
    refine s.branching.select_only.bind fun r => ?_
    cases r with
    | none => exact .lift _
    | some => exact tryValues_only ih _

/-- A run of the search. -/
theorem run_only (f : Formula) (s : SearchState) : (s.run f).Only Message.OfLibrary := by
  refine (explore_only f _ s).bind fun r => ?_
  obtain ⟨outcome, s'⟩ := r
  cases outcome <;> exact .pure _

end SearchState

namespace Formula

/-- The search from a new state. -/
theorem search_only (f : Formula) : f.search.Only Message.OfLibrary :=
  .lift_bind fun s => (s.run_only f).bind fun _ => .pure _

/-- Going through all assignments. -/
theorem firstModel_only (f : Formula) : f.firstModel.Only Message.OfLibrary := by
  refine .lift_bind fun _ => .lift_bind fun r => ?_
  obtain ⟨tried, digits⟩ := r
  cases digits with
  | none | some => exact .log_bind nofun (.pure _)

/-- Either method. -/
theorem answer_only (f : Formula) (method : Method) : (f.answer method).Only Message.OfLibrary := by
  cases method with
  | dpll => exact f.search_only.bind fun r => .log_bind nofun (.pure _)
  | exhaustive => exact f.firstModel_only.bind fun model => .pure _

/-- However a formula is decided, only the library reports. -/
theorem solve_only (f : Formula) (config : Config) : (f.solve config).Only Message.OfLibrary := by
  refine .log_bind nofun ((f.answer_only config.method).bind fun a => ?_)
  split
  · exact .pure _
  · split
    · exact .log_bind nofun (.pure _)
    · exact .pure _

/-- The only error is that of a model that was rejected. -/
theorem solve_error {config : Config} {e : SolveError}
    (h : (f.solve config).result = .ok (.error e)) : e = .invalidModel config.method := by
  obtain ⟨_, -, h⟩ := Logged.bind_eq_ok.mp h
  obtain ⟨a, -, h⟩ := Logged.bind_eq_ok.mp h
  split at h
  · cases h
  · split at h
    · cases h
      rfl
    · cases h

end Formula

end SatSearch
