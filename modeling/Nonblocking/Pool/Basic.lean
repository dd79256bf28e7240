import Nonblocking.Error
import Nonblocking.Event

/-! # Block pools

A pool of `n` equal blocks. Free blocks form a chain: `head` is the first, and `next` holds the
successor of each. The chain lies beside the cells, so what a block holds is never read as a link,
and the links of blocks in use are leftovers without meaning. -/
namespace Nonblocking

structure Pool (α : Type u) (n : Nat) where
  head : Option Nat
  next : Vector (Option Nat) n
  cells : Vector (Option α) n
  allocated : Nat
  deriving Repr

namespace Pool

open Text (Tree)

variable {α : Type u} {n : Nat}

def slotAfter (n i : Nat) : Option Nat := if i + 1 < n then some (i + 1) else none

def empty : Pool α n :=
  { head := if 0 < n then some 0 else none
    next := Vector.ofFn fun i => slotAfter n i
    cells := Vector.replicate n none
    allocated := 0 }

def link (p : Pool α n) (i : Nat) : Option Nat := (p.next[i]?).join

def read (p : Pool α n) (i : Nat) : Option α := (p.cells[i]?).join

def write (p : Pool α n) (i : Nat) (item : α) : Pool α n :=
  { p with cells := p.cells.setIfInBounds i (some item) }

def alloc (p : Pool α n) : Option (Nat × Pool α n) :=
  p.head.map fun i => (i, { p with head := p.link i, allocated := p.allocated + 1 })

/-- Takes a block and stores `item` in it, or gives the item back. -/
def allocWith (p : Pool α n) (item : α) : Except α (Nat × Pool α n) :=
  match p.alloc with
  | some (i, p) => .ok (i, p.write i item)
  | none => .error item

def free (p : Pool α n) (i : Nat) : Pool α n :=
  { p with next := p.next.setIfInBounds i p.head, head := some i, allocated := p.allocated - 1 }

/-- Checks that an index that comes back from outside can be a block. -/
def reclaim (_ : Pool α n) (i : Nat) : Except Fault Nat :=
  if i < n then .ok i else .error .indexOutOfRange

/-- The items stay where they are. -/
def reset (p : Pool α n) : Traced (Pool α n) :=
  ⟨{ (empty : Pool α n) with cells := p.cells }, [.poolReset n p.allocated]⟩

def allocationCount (p : Pool α n) : Nat := p.allocated

def freeCount (p : Pool α n) : Nat := n - p.allocated

def tree (p : Pool α n) : Tree :=
  .record "BlockAllocator" [("capacity", .ofNat n), ("allocated", .ofNat p.allocated)]

theorem read_of_cells_eq {p q : Pool α n} (h : q.cells = p.cells) (i : Nat) :
    q.read i = p.read i := by
  rw [read, read, h]

@[simp] theorem read_write_self (p : Pool α n) (i : Nat) (h : i < n) (item : α) :
    (p.write i item).read i = some item := by
  simp [read, write, h]

theorem read_write_of_ne (p : Pool α n) {i j : Nat} (h : i ≠ j) (item : α) :
    (p.write i item).read j = p.read j := by
  simp [read, write, Vector.getElem?_setIfInBounds_ne h]

@[simp] theorem link_free_self (p : Pool α n) (i : Nat) (h : i < n) :
    (p.free i).link i = p.head := by
  simp [link, free, h]

theorem link_free_of_ne (p : Pool α n) {i j : Nat} (h : i ≠ j) :
    (p.free i).link j = p.link j := by
  simp [link, free, Vector.getElem?_setIfInBounds_ne h]

@[simp] theorem read_free (p : Pool α n) (i j : Nat) : (p.free i).read j = p.read j := rfl

theorem alloc_eq_none_iff (p : Pool α n) : p.alloc = none ↔ p.head = none := by
  simp [alloc]

theorem cells_of_alloc {p q : Pool α n} {i : Nat} (h : p.alloc = some (i, q)) :
    q.cells = p.cells := by
  obtain ⟨_, _, he⟩ := Option.map_eq_some_iff.mp h
  cases he
  rfl

theorem link_empty (i : Nat) : (empty : Pool α n).link i = slotAfter n i := by
  by_cases h : i < n
  · simp [link, empty, h]
  · simp [link, empty, h, slotAfter]
    omega

end Pool

end Nonblocking
