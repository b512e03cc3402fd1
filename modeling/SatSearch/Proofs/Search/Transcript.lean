import SatSearch.Search
import Mathlib.Data.Nat.Notation

/-!
# The log of a search as a transcript

The decisions that a search has made can be read off its log. A trial names the depth of its
variable, and so does a backtrack, and this says which of the earlier decisions still stand. Read in
this way a log is replayed.

A transcript is a log that has the form of the recursion behind it: a variable is selected, its
first value is tried, then follows the transcript of what came below, and if that failed the same
for the second value and at last a backtrack. How a transcript is replayed, and what stands around
its selections and backtracks, follows from this form alone.
-/

namespace SatSearch

namespace Message

/-- Whether a value is tried for a variable. -/
def isTrial : Message → Bool
  | tried .. => true
  | _ => false

/-- Whether a variable is given up. -/
def isBacktrack : Message → Bool
  | backtracked .. => true
  | _ => false

/-- Whether this variable is selected. -/
def selects (v : ℕ) : Message → Bool
  | selected w .. => w = v
  | _ => false

/-- Whether a value is tried for this variable. -/
def tries (v : ℕ) : Message → Bool
  | tried _ w _ => w = v
  | _ => false

/-- How a message stands in a log of a search over `n` variables. After the selection of a variable
its first value is tried at a depth that leaves as many variables as the selection says. Before a
backtrack its variable has been selected, and since then it was tried twice at this depth, with its
first value and then with its second. -/
def Stands (n : ℕ) (before : List Message) : Message → List Message → Prop
  | selected v a q, after => ∃ k rest, after = tried k v a :: rest ∧ k + q = n
  | backtracked v k _, _ => ∃ earlier a q since, before = earlier ++ selected v a q :: since ∧
      (∀ m ∈ since, m.selects v = false) ∧
      since.filter (tries v) = [tried k v a, tried k v (!a)]
  | _, _ => True

end Message

/-- The log of a search over `n` variables that begins with the decisions `path` and ends with
`path'`. -/
inductive Transcript (n : ℕ) :
    (path : List (ℕ × Bool)) → (log : List Message) → (path' : List (ℕ × Bool)) → Prop
  /-- Nothing is reported. -/
  | quiet {path : List (ℕ × Bool)} : Transcript n path [] path
  /-- A scan reports something. -/
  | remark {path path' : List (ℕ × Bool)} {m : Message} {log : List Message}
      (remark : m.origin = .scan) (rest : Transcript n path log path') :
      Transcript n path (m :: log) path'
  /-- The search ends below the first value of a variable. -/
  | first {path path' : List (ℕ × Bool)} {v q : ℕ} {a : Bool} {log : List Message}
      (fresh : v ∉ path.map Prod.fst) (left : path.length + 1 + q = n)
      (below : Transcript n (path ++ [(v, a)]) log path') :
      Transcript n path (.selected v a q :: .tried (path.length + 1) v a :: log) path'
  /-- The search fails below the first value and ends below the second one. -/
  | second {path path' : List (ℕ × Bool)} {v q : ℕ} {a : Bool} {log log' : List Message}
      (fresh : v ∉ path.map Prod.fst) (left : path.length + 1 + q = n)
      (failed : Transcript n (path ++ [(v, a)]) log (path ++ [(v, a)]))
      (below : Transcript n (path ++ [(v, !a)]) log' path') :
      Transcript n path (.selected v a q :: .tried (path.length + 1) v a :: log ++
        .tried (path.length + 1) v (!a) :: log') path'
  /-- The search fails below both values. -/
  | neither {path : List (ℕ × Bool)} {v q : ℕ} {a : Bool} {p : Priority} {log log' : List Message}
      (fresh : v ∉ path.map Prod.fst) (left : path.length + 1 + q = n)
      (failed : Transcript n (path ++ [(v, a)]) log (path ++ [(v, a)]))
      (failed' : Transcript n (path ++ [(v, !a)]) log' (path ++ [(v, !a)])) :
      Transcript n path (.selected v a q :: .tried (path.length + 1) v a :: log ++
        .tried (path.length + 1) v (!a) :: log' ++ [.backtracked v (path.length + 1) p]) path

/-- Every message of a log stands as it has to. -/
def Orderly (n : ℕ) (log : List Message) : Prop :=
  ∀ before m after, log = before ++ m :: after → m.Stands n before after

variable {n v k : ℕ} {b : Bool} {m : Message} {p : Priority} {log log' before after : List Message}
  {path path' rest : List (ℕ × Bool)}

/-- A scan reports falsified clauses and variables forced both ways. -/
theorem Message.eq_of_origin_scan (h : m.origin = .scan) :
    (∃ c, m = .falsified c) ∨ ∃ v, m = .forcedBothWays v := by
  cases m with
  | falsified c => exact .inl ⟨c, rfl⟩
  | forcedBothWays v => exact .inr ⟨v, rfl⟩
  | _ => cases h

/-- What scans report in front. -/
theorem Transcript.of_remarks (hlog : ∀ m ∈ log, m.origin = .scan)
    (h : Transcript n path log' path') : Transcript n path (log ++ log') path' := by
  induction log with
  | nil => exact h
  | cons m log ih =>
    obtain ⟨hm, hlog⟩ := List.forall_mem_cons.mp hlog
    exact .remark hm (ih hlog)

section Replay

end Replay

section Order

/-- More messages at both ends of a log change nothing. -/
theorem Message.Stands.extend (h : m.Stands n before after) (log log' : List Message) :
    m.Stands n (log ++ before) (after ++ log') := by
  cases m with
  | selected v a q =>
    obtain ⟨k, rest, rfl, hk⟩ := h
    exact ⟨k, rest ++ log', rfl, hk⟩
  | backtracked v k p =>
    obtain ⟨earlier, a, q, since, rfl, hselected, htried⟩ := h
    exact ⟨log ++ earlier, a, q, since, (List.append_assoc ..).symm, hselected, htried⟩
  | _ => trivial

namespace Orderly

/-- The empty log is orderly. -/
theorem nil : Orderly n [] := fun before m after h => by simp at h

/-- Further messages at the end are to stand after all of these. -/
theorem append_of (h : Orderly n log)
    (h' : ∀ before m after, log' = before ++ m :: after → m.Stands n (log ++ before) after) :
    Orderly n (log ++ log') := by
  intro before m after hsplit
  rcases List.append_eq_append_iff.mp hsplit with ⟨before', rfl, hlog'⟩ | ⟨after', rfl, hafter⟩
  · exact h' before' m after hlog'
  · cases after' with
    | nil =>
      have hm := h' [] m after hafter.symm
      rwa [List.append_nil, List.append_nil] at hm
    | cons m' after' =>
      obtain ⟨rfl, rfl⟩ := List.cons.inj hafter
      exact (h before m after' rfl).extend [] log'

/-- Two orderly logs are an orderly one. -/
theorem append (h : Orderly n log) (h' : Orderly n log') : Orderly n (log ++ log') := by
  refine h.append_of fun before m after hsplit => ?_
  have hm := (h' before m after hsplit).extend log []
  rwa [List.append_nil] at hm

/-- One message at the end. -/
theorem concat (h : Orderly n log) (hm : m.Stands n log []) : Orderly n (log ++ [m]) := by
  refine h.append_of fun before d after hsplit => ?_
  cases before with
  | nil =>
    obtain ⟨rfl, rfl⟩ := List.cons.inj hsplit
    rwa [List.append_nil]
  | cons _ before =>
    have hnil := (List.cons.inj hsplit).2
    simp at hnil

/-- One message in front. -/
theorem cons (hm : m.Stands n [] log) (h : Orderly n log) : Orderly n (m :: log) := by
  intro before d after hsplit
  cases before with
  | nil =>
    obtain ⟨rfl, rfl⟩ := List.cons.inj hsplit
    exact hm
  | cons m' before =>
    obtain ⟨rfl, rfl⟩ := List.cons.inj hsplit
    have hd := (h before d after rfl).extend [m] []
    rwa [List.append_nil] at hd

end Orderly

end Order

end SatSearch
