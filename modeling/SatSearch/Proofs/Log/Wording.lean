import SatSearch.Log.Message
import SatSearch.Proofs.Text.OneLine

/-!
# The wording of messages

What the library reports is worded with numbers, truth values and names of its own, so each of its
messages fits on a line. Only the program itself puts texts from outside into its messages.
-/

namespace SatSearch

open Text

/-- A number is written on one line. -/
theorem Binary64.oneLine_text (x : Binary64) (places : ℕ) : OneLine (x.text places) := by
  have hzeros : ∀ n, OneLine ("".pushn '0' n) := oneLine_pushn (by decide) (by decide)
  simp only [text, oneLine_append_iff, oneLine_toString_nat, hzeros, and_true, true_and]
  decide

/-- The name of a method fits on a line. -/
theorem Method.oneLine_name (method : Method) : OneLine method.name := by
  cases method <;> decide

namespace Message

/-- A list of items fits on a line if each of them does. -/
theorem oneLine_bracketed {items : List String} (h : ∀ item ∈ items, OneLine item) :
    OneLine (bracketed items) := by
  have hitems : OneLine (", ".intercalate items) := oneLine_intercalate (by decide) h
  simp only [bracketed, oneLine_append_iff, hitems, and_true]
  decide

/-- A list of literals fits on a line. -/
theorem oneLine_literals (ls : List Literal) :
    OneLine (bracketed (ls.map fun l => toString l.code)) :=
  oneLine_bracketed (List.forall_mem_map.mpr fun l _ => oneLine_toString_int l.code)

/-- The order of two values fits on a line. -/
theorem oneLine_order (b : Bool) : OneLine (bracketed [toString b, toString !b]) := by
  refine oneLine_bracketed (List.forall_mem_cons.mpr ⟨oneLine_toString_bool b, ?_⟩)
  exact List.forall_mem_singleton.mpr (oneLine_toString_bool !b)

/-- A message fits on a line unless it is one of the program itself. -/
theorem oneLine_text {m : Message} (hm : m.origin ≠ .program) : OneLine m.text := by
  cases m with
  | banner | reading | elapsed | failed => exact absurd rfl hm
  | modelRejected => decide
  | _ =>
    dsimp only [text]
    simp only [oneLine_append_iff, oneLine_toString, oneLine_toString_nat, oneLine_toString_bool,
      oneLine_literals, oneLine_order, Priority.text, Binary64.oneLine_text, Method.oneLine_name,
      and_true, true_and]
    decide

end Message

end SatSearch
