import Nonblocking.Pool.Custody
import Nonblocking.Pool.Depot

/-! # Two pools and the mistakes of their callers

A block is handed to the pool that it does not come from, an index comes back that is no block of
the pool, or an item is to be stored when all blocks are taken. Beside a run with such mistakes
stands the one in which a block is dropped instead, and a call that would fail is not made. -/
namespace Nonblocking

def Pool.Custody.Exhausted {α : Type u} {n : Nat} (s : Pool.Custody α n) : Prop :=
  ∀ i < n, i ∈ s.owned

instance {α : Type u} {n : Nat} (s : Pool.Custody α n) : Decidable s.Exhausted :=
  inferInstanceAs (Decidable (∀ i < n, i ∈ s.owned))

structure Custodies (α : Type u) (n : Nat) where
  first : Pool.Custody α n
  second : Pool.Custody α n

namespace Custodies

open Pool (Action Custody Reply)

inductive Call (α : Type u)
  | act (side : Side) (action : Action α)
  | hand (block : Block) (side : Side)
  /-- An index, whatever it is, is to be a block of the pool on `side`. -/
  | offer (side : Side) (i : Nat)
  deriving DecidableEq, Repr

variable {α : Type u} {n : Nat}

def initial : Custodies α n := ⟨.initial, .initial⟩

def depot (s : Custodies α n) : Depot α n := ⟨s.first.pool, s.second.pool⟩

def on (s : Custodies α n) : Side → Custody α n
  | .first => s.first
  | .second => s.second

def set (s : Custodies α n) (side : Side) (c : Custody α n) : Custodies α n :=
  match side with
  | .first => { s with first := c }
  | .second => { s with second := c }

def consumed (s : Custodies α n) (block : Block) (d : Depot α n) : Custodies α n :=
  let s : Custodies α n := ⟨{ s.first with pool := d.first }, { s.second with pool := d.second }⟩
  let keeper := s.on block.home
  s.set block.home { keeper with written := keeper.written.erase block.index }

def act (s : Custodies α n) (side : Side) (a : Action α) : Reply α × Custodies α n :=
  let (reply, c) := (s.on side).perform a
  (reply, s.set side c)

/-- An index that does not come from the pool must be one that no pool of this size gives out. -/
def Permits (s : Custodies α n) : Call α → Prop
  | .act side a => (s.on side).Permits a
  | .hand block _ => block.index ∈ (s.on block.home).written
  | .offer side i => i ∈ (s.on side).released ∨ n ≤ i

instance (s : Custodies α n) (c : Call α) : Decidable (s.Permits c) := by
  cases c <;> simp only [Permits] <;> infer_instance

def perform (s : Custodies α n) : Call α → Except Fault (Reply α) × Custodies α n
  | .act side a =>
    let (reply, s) := s.act side a
    (.ok reply, s)
  | .hand block side =>
    let (answer, d) := s.depot.dealloc block side
    (answer.map fun _ => .nothing, s.consumed block d)
  | .offer side i =>
    match s.depot.reclaim side i with
    | .error fault => (.error fault, s)
    | .ok block =>
      let (reply, s) := s.act block.home (.fromIndex block.index)
      (.ok reply, s)

def run (s : Custodies α n) : List (Call α) → List (Except Fault (Reply α)) × Custodies α n
  | [] => ([], s)
  | c :: rest =>
    let (reply, s) := s.perform c
    let (replies, s) := s.run rest
    (reply :: replies, s)

def Legal (s : Custodies α n) : List (Call α) → Prop
  | [] => True
  | c :: rest => s.Permits c ∧ (s.perform c).2.Legal rest

instance decidableLegal (s : Custodies α n) : (calls : List (Call α)) → Decidable (s.Legal calls)
  | [] => isTrue trivial
  | c :: rest =>
    have := decidableLegal (s.perform c).2 rest
    inferInstanceAs (Decidable (_ ∧ _))

def mend (s : Custodies α n) : Call α → Option (Call α)
  | .act side (.allocWith item) =>
    if (s.on side).Exhausted then none else some (.act side (.allocWith item))
  | .act side a => some (.act side a)
  | .hand block side =>
    if block.home = side then some (.hand block side)
    else some (.act block.home (.drop block.index))
  | .offer side i => if i < n then some (.offer side i) else none

def mended (s : Custodies α n) : List (Call α) → List (Call α)
  | [] => []
  | c :: rest => (s.mend c).toList ++ (s.perform c).2.mended rest

def settled : Except Fault (Reply α) → Option (Reply α)
  | .ok (.returned _) => none
  | .ok reply => some reply
  | .error .foreignBlock => some .nothing
  | .error _ => none

@[simp] theorem on_set_self (s : Custodies α n) (side : Side) (c : Custody α n) :
    (s.set side c).on side = c := by
  cases side <;> rfl

theorem on_set_of_ne (s : Custodies α n) {side other : Side} (h : side ≠ other)
    (c : Custody α n) : (s.set side c).on other = s.on other := by
  cases side <;> cases other <;> first | rfl | contradiction

@[simp] theorem set_on (s : Custodies α n) (side : Side) : s.set side (s.on side) = s := by
  cases side <;> rfl

end Custodies

end Nonblocking
