import SatSearch.Log.Message

/-!
# Computations that report

A logged computation yields the messages it reported, in order, and a result or an error. The
messages up to an error are kept. Running one computation after another appends their messages, so
what a part reports can be read off that part alone.
-/

namespace SatSearch

/-- Messages in the order in which they were reported, and how the computation ended. -/
structure Logged (ε α : Type) where
  messages : List Message
  result : Except ε α

namespace Logged

variable {ε α β γ : Type}

/-- A result without messages. -/
protected def pure (a : α) : Logged ε α := ⟨[], .ok a⟩

/-- Runs a computation and, unless it fails, the next one on its result. -/
protected def bind (x : Logged ε α) (f : α → Logged ε β) : Logged ε β :=
  match x.result with
  | .error e => ⟨x.messages, .error e⟩
  | .ok a =>
    let y := f a
    ⟨x.messages ++ y.messages, y.result⟩

instance : Monad (Logged ε) where
  pure := Logged.pure
  bind := Logged.bind

/-- A computation that reports nothing. -/
def ofExcept (x : Except ε α) : Logged ε α := ⟨[], x⟩

instance : MonadLift (Except ε) (Logged ε) := ⟨ofExcept⟩

/-- Reports a message. -/
def log (m : Message) : Logged ε Unit := ⟨[m], .ok ()⟩

/-- Ends with an error. -/
def fail (e : ε) : Logged ε α := ⟨[], .error e⟩

/-- The same messages, with the error seen through a function. -/
def mapError (f : ε → γ) (x : Logged ε α) : Logged γ α := ⟨x.messages, x.result.mapError f⟩

/-- Computations that report the same and end the same are the same. -/
@[ext] theorem ext {x y : Logged ε α} (hm : x.messages = y.messages) (hr : x.result = y.result) :
    x = y := by
  cases x; cases y; simp_all

/-- A result comes without messages. -/
@[simp] theorem pure_eq (a : α) : (pure a : Logged ε α) = ⟨[], .ok a⟩ := rfl

/-- What a failing computation reports is all that is reported. -/
theorem bind_of_error {x : Logged ε α} {e : ε} (h : x.result = .error e) (f : α → Logged ε β) :
    x >>= f = ⟨x.messages, .error e⟩ := by
  simp only [bind, Logged.bind, h]

/-- The messages of two computations in sequence are appended. -/
theorem bind_of_ok {x : Logged ε α} {a : α} (h : x.result = .ok a) (f : α → Logged ε β) :
    x >>= f = ⟨x.messages ++ (f a).messages, (f a).result⟩ := by
  simp only [bind, Logged.bind, h]

instance : LawfulMonad (Logged ε) := LawfulMonad.mk' (Logged ε)
  (by
    intro α x
    apply ext
    · show (Logged.bind x _).messages = _
      unfold Logged.bind
      split <;> simp [Logged.pure]
    · show (Logged.bind x _).result = _
      unfold Logged.bind
      split <;> simp_all [Logged.pure])
  (by intros; apply ext <;> simp [bind, Logged.bind])
  (by
    intro α β γ x f g
    cases hx : x.result with
    | error e =>
      rw [bind_of_error (x := x) hx, bind_of_error (x := x) hx]
      rfl
    | ok a =>
      rw [bind_of_ok (x := x) hx, bind_of_ok (x := x) hx]
      cases hf : (f a).result with
      | error e => rw [bind_of_error (x := f a) hf, bind_of_error (e := e) (by rfl)]
      | ok b => rw [bind_of_ok (x := f a) hf, bind_of_ok (a := b) (by rfl), List.append_assoc])

/-- A sequence ends well exactly if both parts do, and then its messages are theirs. -/
theorem bind_eq_ok {x : Logged ε α} {f : α → Logged ε β} {b : β} :
    (x >>= f).result = .ok b ↔ ∃ a, x.result = .ok a ∧ (f a).result = .ok b := by
  cases h : x.result with
  | error e => simp [bind_of_error h]
  | ok a => simp [bind_of_ok h]

end Logged

end SatSearch
