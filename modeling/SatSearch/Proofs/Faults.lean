import SatSearch.Log.Logged
import Mathlib.Data.Int.Notation
import Mathlib.Data.Nat.Notation

/-!
# Reasoning about computations that may fault

A sequence of checked steps succeeds if each of them does; the lemmas here take such a sequence
apart. `EndAlike` compares two computations that may run on different states: both succeed with
related results, or both end with the same fault. `UpToOverflow` is about one computation that may
end with a fault of one kind only.
-/

namespace SatSearch

variable {ε ε' α β γ δ : Type}

/-- A sequence succeeds exactly if both parts do. -/
theorem bind_eq_ok {x : Except ε α} {f : α → Except ε β} {b : β} :
    x >>= f = .ok b ↔ ∃ a, x = .ok a ∧ f a = .ok b := by
  cases x <;> simp [bind, Except.bind]

/-- A pure result is the value given. -/
@[simp] theorem pure_eq_ok {a b : α} : (pure a : Except ε α) = .ok b ↔ a = b := by
  simp [pure, Except.pure]

/-- After a result the computation goes on with its value. -/
@[simp] theorem ok_bind (a : α) (f : α → Except ε β) : (Except.ok a : Except ε α) >>= f = f a := rfl

/-- A change of errors leaves results alone. -/
theorem mapError_eq_ok {g : ε → ε'} {x : Except ε α} {a : α} :
    x.mapError g = .ok a ↔ x = .ok a := by
  cases x with
  | ok b =>
    show Except.ok b = Except.ok a ↔ _
    simp only [Except.ok.injEq]
  | error => exact iff_of_false nofun nofun

/-- An error after the change was one before it. -/
theorem mapError_eq_error {g : ε → ε'} {x : Except ε α} {e' : ε'} :
    x.mapError g = .error e' ↔ ∃ e, x = .error e ∧ g e = e' := by
  cases x with
  | ok => exact iff_of_false nofun nofun
  | error e =>
    show Except.error (g e) = Except.error e' ↔ _
    simp only [Except.error.injEq, exists_eq_left']

/-- Of two steps in sequence at most one ends with an error. -/
theorem mapError_bind (g : ε → ε') (x : Except ε α) (f : α → Except ε β) :
    (x >>= f).mapError g = x.mapError g >>= fun a => (f a).mapError g := by
  cases x <;> rfl

/-- Some element passes if the first does, or if it fails and a later one passes. -/
theorem anyM_cons_eq_true {p : α → Except ε Bool} {a : α} {as : List α} :
    (a :: as).anyM p = .ok true ↔
      p a = .ok true ∨ p a = .ok false ∧ as.anyM p = .ok true := by
  rw [List.anyM_cons]
  cases p a with
  | error e => simp [bind, Except.bind]
  | ok b => cases b <;> simp [bind, Except.bind, pure, Except.pure]

/-- A search for an element does not fail if no test on the list does. -/
theorem exists_anyM {p : α → Except ε Bool} {as : List α}
    (h : ∀ a ∈ as, ∃ b, p a = .ok b) : ∃ r, as.anyM p = .ok r := by
  induction as with
  | nil => exact ⟨_, rfl⟩
  | cons a as ih =>
    obtain ⟨b, hb⟩ := h a (by simp)
    obtain ⟨r, hr⟩ := ih fun x hx => h x (by simp [hx])
    rw [List.anyM_cons, hb]
    cases b with
    | true => exact ⟨_, rfl⟩
    | false => exact ⟨r, hr⟩

/-- A test of all elements does not fail if no test on the list does. -/
theorem exists_allM {p : α → Except ε Bool} {as : List α}
    (h : ∀ a ∈ as, ∃ b, p a = .ok b) : ∃ r, as.allM p = .ok r := by
  induction as with
  | nil => exact ⟨_, rfl⟩
  | cons a as ih =>
    obtain ⟨b, hb⟩ := h a (by simp)
    obtain ⟨r, hr⟩ := ih fun x hx => h x (by simp [hx])
    rw [List.allM_cons, hb]
    cases b with
    | true => exact ⟨r, hr⟩
    | false => exact ⟨_, rfl⟩

namespace Logged

/-- A lifted step has the result of the step. -/
@[simp] theorem result_lift (x : Except ε α) : (liftM x : Logged ε α).result = x := rfl

/-- The result of two steps is that of the second on the result of the first. -/
theorem result_bind (x : Logged ε α) (f : α → Logged ε β) :
    (x >>= f).result = x.result >>= fun a => (f a).result := by
  cases h : x.result with
  | error e => rw [bind_of_error h]; rfl
  | ok a => rw [bind_of_ok h]; rfl

/-- A sequence ends with an error exactly if one of its parts does. -/
theorem bind_eq_error {x : Logged ε α} {f : α → Logged ε β} {e : ε} :
    (x >>= f).result = .error e ↔
      x.result = .error e ∨ ∃ a, x.result = .ok a ∧ (f a).result = .error e := by
  cases h : x.result with
  | error e' => simp [bind_of_error h]
  | ok a => simp [bind_of_ok h]

/-- A computation after a checked step that succeeds. -/
theorem lift_bind_of_ok {x : Except ε α} {a : α} (h : x = .ok a) (f : α → Logged ε β) :
    (liftM x : Logged ε α) >>= f = f a := by
  rw [bind_of_ok (x := liftM x) h]
  rfl

end Logged

/-- Both computations succeed with related results, or both end with the same error. -/
inductive EndAlike (R : α → β → Prop) : Except ε α → Except ε β → Prop
  | ok {a : α} {b : β} (h : R a b) : EndAlike R (.ok a) (.ok b)
  | error (e : ε) : EndAlike R (.error e) (.error e)

namespace EndAlike

/-- Two results that are alike are related. -/
theorem of_ok {R : α → β → Prop} {a : α} {b : β}
    (h : EndAlike R (.ok a : Except ε α) (.ok b)) : R a b := by
  cases h with
  | ok h => exact h

/-- The same step on both sides, followed by what depends on its result. -/
theorem bind_same {S : γ → δ → Prop} {x y : Except ε α} {f : α → Except ε γ} {g : α → Except ε δ}
    (hxy : y = x) (hfg : ∀ a, x = .ok a → EndAlike S (f a) (g a)) :
    EndAlike S (x >>= f) (y >>= g) := by
  subst hxy
  cases y with
  | ok a => exact hfg a rfl
  | error e => exact .error e

end EndAlike

namespace Logged

/-- Both computations report the same and end alike. -/
structure RunAlike (R : α → β → Prop) (x : Logged ε α) (y : Logged ε β) : Prop where
  messages_eq : y.messages = x.messages
  result : EndAlike R x.result y.result

namespace RunAlike

/-- Steps that end alike run alike. -/
theorem lift {R : α → β → Prop} {x : Except ε α} {y : Except ε β} (h : EndAlike R x y) :
    RunAlike R (liftM x : Logged ε α) (liftM y : Logged ε β) := ⟨rfl, h⟩

/-- Related values run alike. -/
theorem pure {R : α → β → Prop} {a : α} {b : β} (h : R a b) :
    RunAlike R (Pure.pure a : Logged ε α) (Pure.pure b : Logged ε β) := ⟨rfl, .ok h⟩

/-- Runs that are alike go on alike. -/
theorem bind {R : α → β → Prop} {S : γ → δ → Prop} {x : Logged ε α} {y : Logged ε β}
    {f : α → Logged ε γ} {g : β → Logged ε δ} (hxy : RunAlike R x y)
    (hfg : ∀ a b, R a b → RunAlike S (f a) (g b)) : RunAlike S (x >>= f) (y >>= g) := by
  obtain ⟨xs, x⟩ := x
  obtain ⟨ys, y⟩ := y
  obtain ⟨rfl, hend⟩ := hxy
  cases hend with
  | ok h =>
    have hrest := hfg _ _ h
    exact ⟨congrArg (_ ++ ·) hrest.messages_eq, hrest.result⟩
  | error e => exact ⟨rfl, .error e⟩

/-- Computations that run alike report the same and answer the same where the answers are related
by equality. -/
theorem map_eq {R : α → β → Prop} {x : Logged ε α} {y : Logged ε β} (h : RunAlike R x y)
    {f : α → γ} {g : β → γ} (hfg : ∀ a b, R a b → g b = f a) : g <$> y = f <$> x := by
  obtain ⟨xs, x⟩ := x
  obtain ⟨ys, y⟩ := y
  obtain ⟨rfl, hend⟩ := h
  cases hend with
  | ok h =>
    rename_i a b
    have hab := hfg _ _ h
    exact Logged.ext rfl (congrArg Except.ok hab)
  | error e => rfl

end RunAlike

end Logged

/-- There is a result as `Q` says, or a counter or a key has left its range. -/
inductive UpToOverflow (Q : α → Prop) : Except Fault α → Prop
  | ok {a : α} (h : Q a) : UpToOverflow Q (.ok a)
  | overflow : UpToOverflow Q (.error .overflow)

namespace UpToOverflow

variable {P Q : α → Prop} {R : β → Prop} {x : Except Fault α}

/-- A step that at worst overflows may be followed by such steps. -/
theorem bind {f : α → Except Fault β} (hx : UpToOverflow Q x)
    (hf : ∀ a, Q a → UpToOverflow R (f a)) : UpToOverflow R (x >>= f) := by
  cases hx with
  | ok h => exact hf _ h
  | overflow => exact .overflow

/-- A logged step that at worst overflows may be followed by such steps. -/
theorem logged_bind {y : Logged Fault α} {f : α → Logged Fault β} (hy : UpToOverflow Q y.result)
    (hf : ∀ a, Q a → UpToOverflow R (f a).result) : UpToOverflow R (y >>= f).result := by
  rw [Logged.result_bind]
  exact hy.bind hf

/-- What is true of every result is true of the one that there may be. -/
theorem of_ok (hx : UpToOverflow P x) (hQ : ∀ a, x = .ok a → Q a) : UpToOverflow Q x := by
  cases hx with
  | ok => exact .ok (hQ _ rfl)
  | overflow => exact .overflow

/-- The only fault is an overflow. -/
theorem eq_overflow (hx : UpToOverflow Q x) {e : Fault} (he : x = .error e) : e = .overflow := by
  cases hx with
  | ok => cases he
  | overflow => exact (Except.error.inj he).symm

/-- A bound is at worst overflowed. -/
theorem below (limit n : ℕ) : UpToOverflow (fun _ => True) (below limit n) := by
  unfold SatSearch.below
  split
  · exact .ok trivial
  · exact .overflow

/-- A signed word is at worst overflowed. -/
theorem inSignedWord (i : ℤ) : UpToOverflow (fun _ => True) (inSignedWord i) := by
  unfold SatSearch.inSignedWord
  split
  · exact .ok trivial
  · exact .overflow

end UpToOverflow

end SatSearch
