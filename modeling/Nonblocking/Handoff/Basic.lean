import Nonblocking.Log.Basic
import Nonblocking.Pool.Basic
import Nonblocking.Queue.Basic

/-! # Handing blocks over

A sender stores its message in a block, lets the block's index go and puts it into a mailbox; a
receiver takes the index out and makes a block of it again. What was consumed is published in a log.
Nothing but the discipline of these operations keeps an index from being used twice. -/
namespace Nonblocking

structure Handoff (α : Type u) (n m : Nat) where
  pool : Pool α n
  mail : Queue Nat m
  log : Log α n

structure Message (α : Type u) where
  index : Nat
  value : α
  deriving DecidableEq, Repr

inductive Sending
  | sent (index : Nat)
  | exhausted
  | mailboxFull
  deriving DecidableEq, Repr

namespace Handoff

variable {α : Type u} {n m : Nat}

def empty : Handoff α n m := ⟨.empty, .empty, .empty⟩

/-- If the mailbox has no room for the index, the block is taken back and freed. -/
def send (h : Handoff α n m) (item : α) : Sending × Handoff α n m :=
  match h.pool.allocWith item with
  | .error _ => (.exhausted, h)
  | .ok (i, pool) =>
    match h.mail.push i with
    | (true, mail) => (.sent i, { h with pool, mail })
    | (false, mail) => (.mailboxFull, { h with pool := pool.free i, mail })

/-- The block stays in use. -/
def hold (h : Handoff α n m) : Option (Message α) × Handoff α n m :=
  match h.mail.pop with
  | (none, mail) => (none, { h with mail })
  | (some i, mail) => ((h.pool.read i).map fun value => ⟨i, value⟩, { h with mail })

def receive (h : Handoff α n m) : Option (Message α) × Handoff α n m :=
  match h.hold with
  | (none, h) => (none, h)
  | (some message, h) =>
    (some message,
      { h with log := h.log.push message.value, pool := h.pool.free message.index })

def release (h : Handoff α n m) (i : Nat) : Option α × Handoff α n m :=
  (h.pool.read i, { h with pool := h.pool.free i })

theorem send_of_exhausted {h : Handoff α n m} (hp : h.pool.alloc = none) (item : α) :
    h.send item = (.exhausted, h) := by
  simp [send, Pool.allocWith, hp]

theorem send_of_room {h : Handoff α n m} {i : Nat} {p : Pool α n} (hp : h.pool.alloc = some (i, p))
    (hr : h.mail.isFull = false) (item : α) :
    h.send item =
      (.sent i, { h with pool := p.write i item, mail := h.mail.publish h.mail.tail i }) := by
  simp [send, Pool.allocWith, Queue.push, hp, hr]

theorem send_of_full {h : Handoff α n m} {i : Nat} {p : Pool α n} (hp : h.pool.alloc = some (i, p))
    (hf : h.mail.isFull = true) (item : α) :
    h.send item = (.mailboxFull, { h with pool := (p.write i item).free i }) := by
  simp [send, Pool.allocWith, Queue.push, hp, hf]

theorem hold_of_empty {h : Handoff α n m} (he : h.mail.isEmpty = true) :
    h.hold = (none, h) := by
  simp [hold, Queue.pop, he]

theorem hold_of_read {h : Handoff α n m} {i : Nat} {value : α} (hp : h.mail.pop.1 = some i)
    (hv : h.pool.read i = some value) :
    h.hold = (some ⟨i, value⟩, { h with mail := h.mail.pop.2 }) := by
  rw [hold, show h.mail.pop = (some i, h.mail.pop.2) from Prod.ext hp rfl]
  simp [hv]

end Handoff

end Nonblocking
