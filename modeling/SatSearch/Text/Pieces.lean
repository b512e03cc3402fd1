/-!
# Cutting a list at marked elements

`pieces` cuts at separators: between, before and after them there is always a piece, maybe an empty
one. `lines` cuts after terminators: what follows the last terminator is a piece only if it is not
empty. Both work on characters as well as on bytes.
-/

namespace SatSearch.Text

variable {α : Type}

/-- Puts an element in front of the pieces that follow it; a marked one opens a new piece. -/
def addFront (mark : α → Bool) (x : α) (ps : List (List α)) : List (List α) :=
  if mark x then [] :: ps
  else match ps with
    | [] => [[x]]
    | p :: rest => (x :: p) :: rest

/-- The pieces between separators, at least one. -/
def pieces (mark : α → Bool) (xs : List α) : List (List α) :=
  xs.foldr (addFront mark) [[]]

/-- The pieces that end with a terminator, and the rest if there is one. -/
def lines (mark : α → Bool) (xs : List α) : List (List α) :=
  xs.foldr (addFront mark) []

/-- A text without elements is one piece. -/
@[simp] theorem pieces_nil (mark : α → Bool) : pieces mark [] = [[]] := rfl

/-- A text without elements has no lines. -/
@[simp] theorem lines_nil (mark : α → Bool) : lines mark [] = [] := rfl

/-- The pieces are found from the back, one element after the other. -/
theorem pieces_cons (mark : α → Bool) (x : α) (xs : List α) :
    pieces mark (x :: xs) = addFront mark x (pieces mark xs) := rfl

/-- So are the lines. -/
theorem lines_cons (mark : α → Bool) (x : α) (xs : List α) :
    lines mark (x :: xs) = addFront mark x (lines mark xs) := rfl

/-- With an element in front there is at least one piece. -/
theorem addFront_ne_nil (mark : α → Bool) (x : α) (ps : List (List α)) :
    addFront mark x ps ≠ [] := by
  unfold addFront
  split
  · simp
  · split <;> simp

/-- There is always a piece. -/
theorem pieces_ne_nil (mark : α → Bool) (xs : List α) : pieces mark xs ≠ [] := by
  cases xs with
  | nil => simp
  | cons x xs => exact addFront_ne_nil mark x _

/-- No piece holds a marked element. -/
theorem mark_of_mem_addFront {mark : α → Bool} {x : α} {ps : List (List α)}
    (h : ∀ p ∈ ps, ∀ y ∈ p, mark y = false) :
    ∀ p ∈ addFront mark x ps, ∀ y ∈ p, mark y = false := by
  unfold addFront
  split
  · simpa using h
  case isFalse hx =>
    cases ps with
    | nil => simpa using hx
    | cons q rest =>
      intro p hp y hy
      rcases List.mem_cons.mp hp with rfl | hp
      · rcases List.mem_cons.mp hy with rfl | hy
        · simpa using hx
        · exact h q (by simp) y hy
      · exact h p (by simp [hp]) y hy

/-- No piece holds a separator. -/
theorem mark_of_mem_pieces {mark : α → Bool} {xs : List α} :
    ∀ p ∈ pieces mark xs, ∀ y ∈ p, mark y = false := by
  induction xs with
  | nil => simp
  | cons x xs ih => exact mark_of_mem_addFront ih

/-- No line holds a terminator. -/
theorem mark_of_mem_lines {mark : α → Bool} {xs : List α} :
    ∀ p ∈ lines mark xs, ∀ y ∈ p, mark y = false := by
  induction xs with
  | nil => simp
  | cons x xs ih => exact mark_of_mem_addFront ih

end SatSearch.Text
