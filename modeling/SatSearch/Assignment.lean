import SatSearch.Formula

/-!
# Assignments

A partial assignment gives some variables a value. Its bindings are kept in ascending order of the
variable, each variable once, so two assignments with the same values are equal.

There are two ways to ask whether an assignment makes a formula true, and they differ on variables
without a value: `satisfies` takes such a variable as false, while for `verifies` it makes no
literal true.
-/

namespace SatSearch

/-- A finite map from variables to values. -/
structure Assignment where
  bindings : List (Nat × Bool)
  ascending : bindings.Pairwise fun x y => x.1 < y.1
deriving DecidableEq, Repr

namespace Assignment

/-- No variable has a value. -/
def empty : Assignment := ⟨[], .nil⟩

/-- Puts a binding at its place in an ascending list. A variable that is there keeps its value. -/
def place (v : Nat) (b : Bool) : List (Nat × Bool) → List (Nat × Bool)
  | [] => [(v, b)]
  | (w, c) :: rest =>
    if v < w then (v, b) :: (w, c) :: rest
    else if v = w then (w, c) :: rest
    else (w, c) :: place v b rest

/-- Placing a binding adds at most this one. -/
theorem mem_place {v : Nat} {b : Bool} {bs : List (Nat × Bool)} {x : Nat × Bool}
    (h : x ∈ place v b bs) : x = (v, b) ∨ x ∈ bs := by
  induction bs with
  | nil => exact .inl (by simpa [place] using h)
  | cons y rest ih =>
    simp only [place] at h
    split at h
    · simpa using h
    · split at h
      · exact .inr h
      · rcases List.mem_cons.mp h with rfl | h
        · exact .inr (by simp)
        · exact (ih h).imp_right (List.mem_cons_of_mem _)

/-- A binding is placed so that the variables stay in ascending order. -/
theorem ascending_place (v : Nat) (b : Bool) {bs : List (Nat × Bool)}
    (h : bs.Pairwise fun x y => x.1 < y.1) : (place v b bs).Pairwise fun x y => x.1 < y.1 := by
  induction bs with
  | nil => simp [place]
  | cons y rest ih =>
    obtain ⟨hy, hrest⟩ := List.pairwise_cons.mp h
    simp only [place]
    split
    case isTrue hv =>
      refine List.pairwise_cons.mpr ⟨fun x hx => ?_, h⟩
      rcases List.mem_cons.mp hx with rfl | hx
      · exact hv
      · exact Nat.lt_trans hv (hy x hx)
    case isFalse hv =>
      split
      · exact h
      · refine List.pairwise_cons.mpr ⟨fun x hx => ?_, ih hrest⟩
        rcases mem_place hx with rfl | hx
        · show y.1 < v
          omega
        · exact hy x hx

/-- Before the first variable nothing is found. -/
theorem lookup_eq_none_of_lt {v : Nat} {bs : List (Nat × Bool)} (h : ∀ x ∈ bs, v < x.1) :
    bs.lookup v = none := by
  induction bs with
  | nil => rfl
  | cons y rest ih =>
    have hy : v ≠ y.1 := Nat.ne_of_lt (h y (by simp))
    rw [List.lookup_cons, beq_false_of_ne hy]
    exact ih fun x hx => h x (by simp [hx])

/-- An earlier binding of the same variable is kept. -/
theorem lookup_place (v : Nat) (b : Bool) {bs : List (Nat × Bool)}
    (h : bs.Pairwise fun x y => x.1 < y.1) (w : Nat) :
    (place v b bs).lookup w = (bs.lookup w).or (if w = v then some b else none) := by
  induction bs with
  | nil =>
    rw [place, List.lookup_cons]
    by_cases hw : w = v
    · simp [hw]
    · simp [hw, beq_false_of_ne hw]
  | cons y rest ih =>
    obtain ⟨hy, hrest⟩ := List.pairwise_cons.mp h
    simp only [place]
    split
    case isTrue hv =>
      by_cases hw : w = v
      · have hnone : (y :: rest).lookup v = none := by
          refine lookup_eq_none_of_lt fun x hx => ?_
          rcases List.mem_cons.mp hx with rfl | hx
          · exact hv
          · exact Nat.lt_trans hv (hy x hx)
        rw [hw, hnone]
        simp
      · rw [List.lookup_cons, beq_false_of_ne hw]
        simp [hw]
    case isFalse hv =>
      split
      case isTrue heq =>
        by_cases hw : w = v
        · have hsome : (y :: rest).lookup v = some y.2 := by
            rw [List.lookup_cons, heq, beq_self_eq_true]
          rw [hw, hsome]
          rfl
        · simp [hw]
      case isFalse hne =>
        rw [List.lookup_cons, List.lookup_cons]
        split
        · simp
        · exact ih hrest

/-- Gives a variable a value unless it has one. -/
def bindNew (a : Assignment) (v : Nat) (b : Bool) : Assignment :=
  ⟨place v b a.bindings, ascending_place v b a.ascending⟩

/-- The assignment with these bindings; of two for one variable the later one counts. -/
def ofBindings (bs : List (Nat × Bool)) : Assignment :=
  bs.foldr (fun x a => a.bindNew x.1 x.2) empty

/-- The assignment that makes these literals true; of two on one variable the later one counts. -/
def ofLiterals (ls : List Literal) : Assignment :=
  ofBindings (ls.map fun l => (l.var, l.positive))

/-- The variables `1..n`, each with the value that a function gives it. Variables are named by
32-bit words, so numbers that do not fit into one share their name with a smaller one. -/
def complete (n : Nat) (value : Nat → Bool) : Assignment :=
  ofBindings ((List.range' 1 n).map fun v => (v % wordSize, value v))

/-- The value of a variable, if it has one. -/
def value? (a : Assignment) (v : Nat) : Option Bool := a.bindings.lookup v

/-- The empty assignment has no values. -/
@[simp] theorem value?_empty (v : Nat) : empty.value? v = none := rfl

/-- A new binding is found unless its variable had a value before. -/
theorem value?_bindNew (a : Assignment) (v : Nat) (b : Bool) (w : Nat) :
    (a.bindNew v b).value? w = (a.value? w).or (if w = v then some b else none) :=
  lookup_place v b a.ascending w

/-- A list of bindings whose variables ascend is kept as it is. -/
theorem bindings_ofBindings {bs : List (Nat × Bool)} (h : bs.Pairwise fun x y => x.1 < y.1) :
    (ofBindings bs).bindings = bs := by
  induction bs with
  | nil => rfl
  | cons x rest ih =>
    obtain ⟨hx, hrest⟩ := List.pairwise_cons.mp h
    have hbind : (ofBindings (x :: rest)).bindings = place x.1 x.2 (ofBindings rest).bindings := rfl
    rw [hbind, ih hrest]
    cases rest with
    | nil => rfl
    | cons y rest => simp [place, hx y (by simp)]

/-- If the variables can be named apart, a complete assignment lists each of them once. -/
theorem bindings_complete {n : Nat} (h : n < wordSize) (value : Nat → Bool) :
    (complete n value).bindings = (List.range' 1 n).map fun v => (v, value v) := by
  have hmap : ((List.range' 1 n).map fun v => (v % wordSize, value v)) =
      (List.range' 1 n).map fun v => (v, value v) := by
    refine List.map_congr_left fun v hv => ?_
    rw [List.mem_range'_1] at hv
    rw [Nat.mod_eq_of_lt (by omega)]
  rw [complete, hmap]
  refine bindings_ofBindings (List.pairwise_map.mpr ?_)
  exact List.pairwise_lt_range'

/-- A complete assignment has exactly the values of the variables that it is for. -/
theorem value?_complete {n : Nat} (h : n < wordSize) (value : Nat → Bool) (v : Nat) :
    (complete n value).value? v = if 1 ≤ v ∧ v ≤ n then some (value v) else none := by
  have hlookup : ∀ s k : Nat, ((List.range' s k).map fun v => (v, value v)).lookup v =
      if s ≤ v ∧ v < s + k then some (value v) else none := by
    intro s k
    induction k generalizing s with
    | zero => simp
    | succ k ih =>
      rw [List.range'_succ, List.map_cons, List.lookup_cons, ih]
      by_cases hv : v = s
      · simp [hv]
      · rw [beq_false_of_ne hv]
        simp only [show (s + 1 ≤ v ∧ v < s + 1 + k) ↔ (s ≤ v ∧ v < s + (k + 1)) by omega]
  rw [value?, bindings_complete h, hlookup]
  simp only [show (1 ≤ v ∧ v < 1 + n) ↔ (1 ≤ v ∧ v ≤ n) by omega]

/-- The bindings as signed variables, in ascending order of the variable. -/
def signed (a : Assignment) : List Int :=
  a.bindings.map fun x => if x.2 then (x.1 : Int) else -x.1

/-- Whether the formula is true when the variables without a value are taken as false. -/
def satisfies (a : Assignment) (f : Formula) : Bool :=
  f.holds fun v => (a.value? v).getD false

/-- Whether every clause has a literal whose variable has its sign as value. -/
def verifies (a : Assignment) (f : Formula) : Bool :=
  f.clauses.all fun c => c.literals.any fun l => a.value? l.var == some l.positive

end Assignment

end SatSearch
