import SatSearch.Fault

/-!
# A heap of variables with changeable keys

Every variable `0..capacity` has a key, and some of the variables are queued. The queued ones form
a binary heap with the largest key at its root; the place of each of them in the heap is kept, so
that a key can be changed at any time. Keys outlive the queue: a variable that is not queued keeps
its key and may get a new one.

An entry that moves leaves a hole, others move into the hole until it is where the entry belongs,
and only then the entry is put down again. Until then the heap still shows at the hole what was
there before, and the place kept for the moving entry is the one that it left. The order of equal
keys is fixed by the history of the heap. Each look-up is checked and faults where a table has no
entry.
-/

namespace SatSearch

/-- The key of each variable, the heap of the queued ones, and the place of each queued one. -/
structure KeyedHeap where
  keys : Array Nat
  heap : Array Nat
  places : Array (Option Nat)
deriving DecidableEq, Repr

namespace KeyedHeap

/-- The place above a place other than the root. -/
def parent (i : Nat) : Nat := (i - 1) / 2

/-- A heap without entries for the variables `0..capacity`, all with key 0. The widest of its tables
takes 16 bytes for a variable. -/
def create (capacity : Nat) : Except Fault KeyedHeap := do
  checkTable 16 capacity
  return ⟨Array.replicate (capacity + 1) 0, #[], Array.replicate (capacity + 1) none⟩

/-- The number of queued variables. -/
def size (q : KeyedHeap) : Nat := q.heap.size

/-- Whether no variable is queued. -/
def isEmpty (q : KeyedHeap) : Bool := q.heap.isEmpty

/-- The key of a variable, queued or not. -/
def key (q : KeyedHeap) (v : Nat) : Except Fault Nat :=
  match q.keys[v]? with
  | some k => .ok k
  | none => .error (.unknownVariable v)

/-- The place of a variable in the heap, if it is queued. -/
def place (q : KeyedHeap) (v : Nat) : Except Fault (Option Nat) :=
  match q.places[v]? with
  | some p => .ok p
  | none => .error (.unknownVariable v)

/-- Whether a variable is queued. -/
def contains (q : KeyedHeap) (v : Nat) : Except Fault Bool := do
  return (← q.place v).isSome

/-- The variable at a place of the heap. -/
def entry (q : KeyedHeap) (i : Nat) : Except Fault Nat :=
  match q.heap[i]? with
  | some v => .ok v
  | none => .error (.unknownPlace i)

/-- Whether the key of one variable is smaller than the key of another. -/
def less (q : KeyedHeap) (v w : Nat) : Except Fault Bool := do
  let a ← q.key v
  let b ← q.key w
  return decide (a < b)

/-- Replaces the key of a variable and moves nothing. -/
def setKey (q : KeyedHeap) (v k : Nat) : Except Fault KeyedHeap :=
  if h : v < q.keys.size then .ok { q with keys := q.keys.set v k h }
  else .error (.unknownVariable v)

/-- Replaces the place that is kept for a variable. -/
def setPlace (q : KeyedHeap) (v : Nat) (p : Option Nat) : Except Fault KeyedHeap :=
  if h : v < q.places.size then .ok { q with places := q.places.set v p h }
  else .error (.unknownVariable v)

/-- Puts a variable at a place that the heap has. -/
def setEntry (q : KeyedHeap) (i v : Nat) : Except Fault KeyedHeap :=
  if h : i < q.heap.size then .ok { q with heap := q.heap.set i v h }
  else .error (.unknownPlace i)

/-- Puts a variable into the hole at a place. -/
def fill (q : KeyedHeap) (i v : Nat) : Except Fault KeyedHeap := do
  let q ← q.setEntry i v
  q.setPlace v (some i)

/-- Moves the hole at a place towards the root while the parent there has a smaller key than the
variable `v`, and then puts `v` into it. A parent that is passed goes down into the hole. -/
def raiseHole (q : KeyedHeap) (v i : Nat) : Except Fault KeyedHeap :=
  if 0 < i then do
    let w ← q.entry (parent i)
    if ← q.less w v then
      raiseHole (← q.fill i w) v (parent i)
    else
      q.fill i v
  else q.fill i v
termination_by i
decreasing_by simp only [parent]; omega

/-- Moves the variable at a place towards the root while its parent has a smaller key. -/
def siftUp (q : KeyedHeap) (i : Nat) : Except Fault KeyedHeap := do
  q.raiseHole (← q.entry i) i

/-- Whether the right child of a place exists and has a larger key than the left one. -/
def rightLarger (q : KeyedHeap) (size i : Nat) : Except Fault Bool :=
  if 2 * i + 2 < size then do
    q.less (← q.entry (2 * i + 1)) (← q.entry (2 * i + 2))
  else .ok false

/-- Moves the hole at a place away from the root while a child there has a larger key than the
variable `v`, and then puts `v` into it. The child with the larger key goes up into the hole, the
left one if the keys are equal. -/
def lowerHole (q : KeyedHeap) (size v i : Nat) : Except Fault KeyedHeap :=
  if 2 * i + 1 < size then do
    let right ← q.rightLarger size i
    let child := if right then 2 * i + 2 else 2 * i + 1
    let w ← q.entry child
    if ← q.less v w then
      lowerHole (← q.fill i w) size v child
    else
      q.fill i v
  else q.fill i v
termination_by size - i
decreasing_by split <;> omega

/-- Moves the variable at a place away from the root while a child has a larger key. -/
def siftDown (q : KeyedHeap) (size i : Nat) : Except Fault KeyedHeap := do
  q.lowerHole size (← q.entry i) i

/-- Gives a variable a new key and, if it is queued, moves it to where that key belongs. -/
def update (q : KeyedHeap) (v k : Nat) : Except Fault KeyedHeap := do
  let old ← q.key v
  let q ← q.setKey v k
  match ← q.place v with
  | none => return q
  | some i =>
    if old < k then q.siftUp i
    else if k < old then q.siftDown q.size i
    else return q

/-- Queues a variable with a key. A variable that is queued already just gets the key. -/
def insert (q : KeyedHeap) (v k : Nat) : Except Fault KeyedHeap := do
  match ← q.place v with
  | some _ => q.update v k
  | none =>
    let q ← q.setKey v k
    let q ← q.setPlace v (some q.size)
    siftUp { q with heap := q.heap.push v } q.size

/-- Takes out the variable at the root. The last variable of the heap takes the root's place and
moves down from there. -/
def popMax (q : KeyedHeap) : Except Fault (Option (Nat × KeyedHeap)) :=
  match q.heap[0]?, q.heap.back? with
  | some v, some last => do
    let q := { q with heap := (q.heap.setIfInBounds 0 last).pop }
    let q ← if q.isEmpty then pure q
      else do
        let q ← q.setPlace last (some 0)
        q.siftDown q.size 0
    return some (v, ← q.setPlace v none)
  | _, _ => .ok none

/-- The first `n` variables in the order in which `popMax` takes them out. -/
def firstOut : Nat → KeyedHeap → Except Fault (List Nat)
  | 0, _ => .ok []
  | n + 1, q => do
    match ← q.popMax with
    | none => return []
    | some (v, q) => return v :: (← firstOut n q)

/-- The queued variables in the order in which `popMax` takes them out. -/
def drain (q : KeyedHeap) : Except Fault (List Nat) := firstOut q.size q

end KeyedHeap

end SatSearch
