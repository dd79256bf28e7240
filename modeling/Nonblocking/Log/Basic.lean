import Nonblocking.Error
import Nonblocking.Event

/-! # Broadcast logs

A log keeps the newest `n` of all entries ever pushed: entry `p` lies in slot `p % n` until entry `p
+ n` takes its place. `published` counts the entries that can be read; `reserved` counts those whose
slot is claimed, and runs one ahead only while an entry is being written. -/
namespace Nonblocking

structure Log (α : Type u) (n : Nat) where
  slots : Vector (Option α) n
  reserved : Nat
  published : Nat
  deriving Repr

namespace Log

open Text (Tree)

variable {α : Type u} {n : Nat}

def empty : Log α n := ⟨Vector.replicate n none, 0, 0⟩

def slot (log : Log α n) (p : Nat) : Option α := (log.slots[p % n]?).join

def reserve (log : Log α n) : Log α n := { log with reserved := log.published + 1 }

def fill (log : Log α n) (item : α) : Log α n :=
  { log with slots := log.slots.setIfInBounds (log.published % n) (some item) }

def publish (log : Log α n) : Log α n := { log with published := log.published + 1 }

def push (log : Log α n) (item : α) : Log α n := ((log.reserve).fill item).publish

/-- The slots keep what they held. -/
def clear (log : Log α n) : Traced (Log α n) :=
  ⟨{ log with reserved := 0, published := 0 }, [.logCleared log.published]⟩

def total (log : Log α n) : Nat := log.published

def tree (log : Log α n) : Tree :=
  .record "SpmcLog" [("capacity", .ofNat n), ("reserved", .ofNat log.reserved),
    ("published", .ofNat log.published)]

def pushSeq (ofNumber : UInt64 → α) : Nat → UInt64 → Log α n → Log α n
  | 0, _, log => log
  | count + 1, start, log => pushSeq ofNumber count (start + 1) (log.push (ofNumber start))

@[simp] theorem published_push (log : Log α n) (item : α) :
    (log.push item).published = log.published + 1 := rfl

@[simp] theorem reserved_push (log : Log α n) (item : α) :
    (log.push item).reserved = log.published + 1 := rfl

theorem slot_fill_self (log : Log α n) (h : 0 < n) (item : α) :
    (log.fill item).slot log.published = some item := by
  simp [slot, fill, Nat.mod_lt _ h]

theorem slot_fill_of_ne (log : Log α n) {p : Nat} (h : log.published % n ≠ p % n) (item : α) :
    (log.fill item).slot p = log.slot p := by
  simp [slot, fill, Vector.getElem?_setIfInBounds_ne h]

theorem slot_push_self (log : Log α n) (h : 0 < n) (item : α) :
    (log.push item).slot log.published = some item :=
  slot_fill_self log.reserve h item

theorem slot_push_of_ne (log : Log α n) {p : Nat} (h : log.published % n ≠ p % n) (item : α) :
    (log.push item).slot p = log.slot p :=
  slot_fill_of_ne log.reserve h item

end Log

end Nonblocking
