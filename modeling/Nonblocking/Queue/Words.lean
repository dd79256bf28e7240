import Nonblocking.Queue.Basic

/-! # Cursors in machine words

The capacity of a queue and its cursors are words of 64 bits, and so is whatever is computed from
them. Each step is checked: a sum or a difference that no word can hold, or a slot that the ring
does not have, has no result. -/
namespace Nonblocking

namespace Word

def add? (a b : UInt64) : Option UInt64 :=
  if a.toNat + b.toNat < UInt64.size then some (a + b) else none

def sub? (a b : UInt64) : Option UInt64 := if b ≤ a then some (a - b) else none

variable {a b : Nat}

theorem add?_ofNat (h : a + b < UInt64.size) :
    add? (.ofNat a) (.ofNat b) = some (.ofNat (a + b)) := by
  have ha : (UInt64.ofNat a).toNat = a := UInt64.toNat_ofNat_of_lt' (by omega)
  have hb : (UInt64.ofNat b).toNat = b := UInt64.toNat_ofNat_of_lt' (by omega)
  rw [add?, ha, hb, if_pos h, UInt64.ofNat_add]

theorem sub?_ofNat (ha : a < UInt64.size) (h : b ≤ a) :
    sub? (.ofNat a) (.ofNat b) = some (.ofNat (a - b)) := by
  have hle := (UInt64.ofNat_le_iff_le (Nat.lt_of_le_of_lt h ha) ha).mpr h
  rw [sub?, if_pos hle, UInt64.ofNat_sub h]

theorem ofNat_inj (ha : a < UInt64.size) (hb : b < UInt64.size) :
    UInt64.ofNat a = UInt64.ofNat b ↔ a = b := by
  rw [← UInt64.toNat_inj, UInt64.toNat_ofNat_of_lt' ha, UInt64.toNat_ofNat_of_lt' hb]

end Word

structure Cursors where
  capacity : UInt64
  head : UInt64
  tail : UInt64
  deriving DecidableEq, Repr

namespace Cursors

/-- How many slots there are, the one that is held back among them. -/
def slots? (c : Cursors) : Option UInt64 := Word.add? c.capacity 1

def slot? (c : Cursors) (i : UInt64) : Option UInt64 := do
  let slots ← c.slots?
  if i < slots then some i else none

def advance? (c : Cursors) (i : UInt64) : Option UInt64 := do
  let next ← Word.add? i 1
  let slots ← c.slots?
  return if next = slots then 0 else next

def length? (c : Cursors) : Option UInt64 :=
  if c.head ≤ c.tail then Word.sub? c.tail c.head
  else do
    let slots ← c.slots?
    let upToEnd ← Word.sub? slots c.head
    Word.add? upToEnd c.tail

def freeSlots? (c : Cursors) : Option UInt64 := do
  let length ← c.length?
  Word.sub? c.capacity length

end Cursors

def Queue.cursors {α : Type u} {n : Nat} (q : Queue α n) : Cursors :=
  ⟨.ofNat n, .ofNat q.head, .ofNat q.tail⟩

end Nonblocking
