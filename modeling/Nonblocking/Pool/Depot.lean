import Nonblocking.Pool.Basic

/-! # Two pools and their handles

A handle names the pool that a block comes from and the slot. A block that was never written has a
handle of another type. Two pools of one type are enough to hand a block back to the wrong one. -/
namespace Nonblocking

inductive Side
  | first | second
  deriving DecidableEq, Repr

structure Unwritten where
  home : Side
  index : Nat
  deriving DecidableEq, Repr

structure Block where
  home : Side
  index : Nat
  deriving DecidableEq, Repr

structure Depot (α : Type u) (n : Nat) where
  first : Pool α n
  second : Pool α n

namespace Depot

variable {α : Type u} {n : Nat}

def empty : Depot α n := ⟨Pool.empty, Pool.empty⟩

def pool (d : Depot α n) : Side → Pool α n
  | .first => d.first
  | .second => d.second

def setPool (d : Depot α n) (side : Side) (p : Pool α n) : Depot α n :=
  match side with
  | .first => { d with first := p }
  | .second => { d with second := p }

def alloc (d : Depot α n) (side : Side) : Option (Unwritten × Depot α n) :=
  (d.pool side).alloc.map fun (i, p) => (⟨side, i⟩, d.setPool side p)

def allocWith (d : Depot α n) (side : Side) (item : α) : Except α (Block × Depot α n) :=
  match (d.pool side).allocWith item with
  | .ok (i, p) => .ok (⟨side, i⟩, d.setPool side p)
  | .error item => .error item

def write (d : Depot α n) (u : Unwritten) (item : α) : Block × Depot α n :=
  (⟨u.home, u.index⟩, d.setPool u.home ((d.pool u.home).write u.index item))

/-- The block still counts as unwritten. -/
def writeRaw (d : Depot α n) (u : Unwritten) (item : α) : Depot α n :=
  d.setPool u.home ((d.pool u.home).write u.index item)

def readRaw (d : Depot α n) (u : Unwritten) : Option α := (d.pool u.home).read u.index

def read (d : Depot α n) (b : Block) : Option α := (d.pool b.home).read b.index

def store (d : Depot α n) (b : Block) (item : α) : Depot α n :=
  d.setPool b.home ((d.pool b.home).write b.index item)

def discard (d : Depot α n) (u : Unwritten) : Depot α n :=
  d.setPool u.home ((d.pool u.home).free u.index)

def drop (d : Depot α n) (b : Block) : Depot α n :=
  d.setPool b.home ((d.pool b.home).free b.index)

/-- To hand a block to the wrong pool is a fault, and the block goes home all the same. -/
def dealloc (d : Depot α n) (b : Block) (side : Side) : Except Fault Unit × Depot α n :=
  (if b.home = side then .ok () else .error .foreignBlock, d.drop b)

def reclaim (d : Depot α n) (side : Side) (i : Nat) : Except Fault Block :=
  ((d.pool side).reclaim i).map fun i => ⟨side, i⟩

def reset (d : Depot α n) (side : Side) : Traced (Depot α n) :=
  let p := (d.pool side).reset
  ⟨d.setPool side p.value, p.events⟩

end Depot

end Nonblocking
