import Nonblocking.Error
import Nonblocking.Event

/-! # Single-producer, single-consumer queues

A queue of at most `n` items in a ring of `n + 1` slots. The consumer owns `head`, the producer owns
`tail`; the items lie from `head` up to, not including, `tail`. One slot is always held back, so
that a full ring and an empty one have different cursors. -/
namespace Nonblocking

structure Queue (α : Type u) (n : Nat) where
  slots : Vector (Option α) (n + 1)
  head : Nat
  tail : Nat
  deriving Repr

namespace Queue

open Text (Tree)

variable {α : Type u} {n : Nat} {ε : Type v} {ρ : Type w}

def empty : Queue α n := ⟨Vector.replicate (n + 1) none, 0, 0⟩

def advance (n i : Nat) : Nat := if i + 1 = n + 1 then 0 else i + 1

def slot (q : Queue α n) (i : Nat) : Option α := (q.slots[i]?).join

def length (q : Queue α n) : Nat :=
  if q.head ≤ q.tail then q.tail - q.head else n + 1 - q.head + q.tail

def isEmpty (q : Queue α n) : Bool := q.tail == q.head

def isFull (q : Queue α n) : Bool := advance n q.tail == q.head

def freeSlots (q : Queue α n) : Nat := n - q.length

def publish (q : Queue α n) (tail : Nat) (item : α) : Queue α n :=
  { q with slots := q.slots.setIfInBounds tail (some item), tail := advance n tail }

def push (q : Queue α n) (item : α) : Bool × Queue α n :=
  if q.isFull then (false, q) else (true, q.publish q.tail item)

/-- The item is constructed only when there is room. To construct it may work on the queue as its
consumer, may hand back something besides the item, and may fail, and then nothing is appended. The
slot and the cursor are those from before. -/
def pushWith (q : Queue α n) (make : Queue α n → Except ε (α × ρ) × Queue α n) :
    Except ε (Option ρ) × Queue α n :=
  if q.isFull then (.ok none, q)
  else
    match make q with
    | (.ok (item, extra), q') => (.ok (some extra), q'.publish q.tail item)
    | (.error e, q') => (.error e, q')

def peek (q : Queue α n) : Option α := if q.isEmpty then none else q.slot q.head

def pop (q : Queue α n) : Option α × Queue α n :=
  if q.isEmpty then (none, q) else (q.slot q.head, { q with head := advance n q.head })

def popUpTo : Nat → Queue α n → List α × Queue α n
  | 0, q => ([], q)
  | k + 1, q =>
    match q.pop with
    | (none, q) => ([], q)
    | (some item, q) =>
      let (items, q) := q.popUpTo k
      (item :: items, q)

def popAll (q : Queue α n) : List α × Queue α n := q.popUpTo q.length

/-- The ring starts over at its first slot. -/
def clear (q : Queue α n) : Traced (Queue α n) :=
  ⟨{ q with head := 0, tail := 0 }, [.queueCleared q.length]⟩

def tree (q : Queue α n) : Tree :=
  .record "SpscQueue" [("capacity", .ofNat n), ("len", .ofNat q.length)]

theorem advance_eq_mod {i : Nat} (h : i < n + 1) : advance n i = (i + 1) % (n + 1) := by
  unfold advance
  split
  · simp_all
  · rw [Nat.mod_eq_of_lt (by omega)]

theorem advance_lt {i : Nat} (h : i < n + 1) : advance n i < n + 1 := by
  unfold advance; split <;> omega

/-- To append an item is to append one that is constructed without doing anything else. -/
theorem push_eq_pushWith (q : Queue α n) (item : α) (extra : ρ) :
    q.pushWith (fun q => ((.ok (item, extra) : Except ε (α × ρ)), q)) =
      (.ok (if (q.push item).1 then some extra else none), (q.push item).2) := by
  unfold push pushWith
  split <;> simp

theorem peek_eq_pop_fst (q : Queue α n) : q.peek = q.pop.1 := by
  unfold peek pop
  split <;> rfl

end Queue

end Nonblocking
