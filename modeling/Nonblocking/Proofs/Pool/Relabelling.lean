import Nonblocking.Pool.Custody

/-! # Items do not matter

To put another item in the place of each one that a pool holds, and then to act, is the same as to
act and then to put the other items there. So nothing that a pool decides can depend on the items.
-/
namespace Nonblocking.Pool

variable {α : Type u} {β : Type v} {n : Nat}

def map (f : α → β) (p : Pool α n) : Pool β n :=
  { head := p.head
    next := p.next
    cells := p.cells.map (Option.map f)
    allocated := p.allocated }

@[simp] theorem map_empty (f : α → β) : (empty : Pool α n).map f = empty := by
  simp [map, empty]

@[simp] theorem read_map (f : α → β) (p : Pool α n) (i : Nat) :
    (p.map f).read i = (p.read i).map f := by
  simp only [read, map, Vector.getElem?_map]
  cases p.cells[i]? <;> rfl

@[simp] theorem write_map (f : α → β) (p : Pool α n) (i : Nat) (item : α) :
    (p.map f).write i (f item) = (p.write i item).map f := by
  simp [write, map, Vector.map_setIfInBounds]

@[simp] theorem alloc_map (f : α → β) (p : Pool α n) :
    (p.map f).alloc = p.alloc.map fun taken => (taken.1, taken.2.map f) := by
  simp only [alloc, map, Option.map_map]
  rfl

theorem allocWith_map (f : α → β) (p : Pool α n) (item : α) :
    (p.map f).allocWith (f item) =
      match p.allocWith item with
      | .ok (i, q) => .ok (i, q.map f)
      | .error item => .error (f item) := by
  simp only [allocWith, alloc_map]
  cases p.alloc with
  | none => rfl
  | some taken => simp

def Action.map (f : α → β) : Action α → Action β
  | .alloc => .alloc
  | .allocWith item => .allocWith (f item)
  | .write i item => .write i (f item)
  | .writeRaw i item => .writeRaw i (f item)
  | .get i => .get i
  | .store i item => .store i (f item)
  | .swap i j => .swap i j
  | .discard i => .discard i
  | .forget i => .forget i
  | .drop i => .drop i
  | .dealloc i => .dealloc i
  | .intoIndex i => .intoIndex i
  | .fromIndex i => .fromIndex i
  | .reset => .reset

def Reply.map (f : α → β) : Reply α → Reply β
  | .nothing => .nothing
  | .slot i => .slot i
  | .returned value => .returned (f value)
  | .item value => .item (value.map f)
  | .emitted events => .emitted events

namespace Custody

def map (f : α → β) (s : Custody α n) : Custody β n :=
  { s with pool := s.pool.map f }

theorem map_initial (f : α → β) : (initial : Custody α n).map f = initial := by
  simp [map, initial]

theorem exchange_map (f : α → β) (p : Pool α n) (i j : Nat) :
    exchange (p.map f) i j = (exchange p i j).map f := by
  simp only [exchange, read_map]
  cases p.read i with
  | none => rfl
  | some x =>
    cases p.read j with
    | none => rfl
    | some y => simp

theorem permits_map (f : α → β) (s : Custody α n) (a : Action α) :
    (s.map f).Permits (a.map f) ↔ s.Permits a := by
  cases a <;> exact Iff.rfl

theorem perform_map (f : α → β) (s : Custody α n) (a : Action α) :
    (s.map f).perform (a.map f) = ((s.perform a).1.map f, (s.perform a).2.map f) := by
  cases a with
  | alloc =>
    simp only [perform, map, Action.map, alloc_map]
    cases s.pool.alloc <;> rfl
  | allocWith item =>
    simp only [perform, map, Action.map, allocWith_map]
    cases s.pool.allocWith item <;> rfl
  | write i item => simp [perform, map, Action.map, Reply.map]
  | writeRaw i item => simp [perform, map, Action.map, Reply.map]
  | get i => simp [perform, map, Action.map, Reply.map]
  | store i item => simp [perform, map, Action.map, Reply.map]
  | swap i j => simp [perform, map, Action.map, Reply.map, exchange_map]
  | fromIndex i => simp [perform, map, Action.map, Reply.map]
  | _ => rfl

theorem run_map (f : α → β) (s : Custody α n) (actions : List (Action α)) :
    (s.map f).run (actions.map (Action.map f)) =
      ((s.run actions).1.map (Reply.map f), (s.run actions).2.map f) := by
  induction actions generalizing s with
  | nil => rfl
  | cons a rest ih => simp only [List.map_cons, run, perform_map, ih]

theorem legal_map (f : α → β) (s : Custody α n) (actions : List (Action α)) :
    (s.map f).Legal (actions.map (Action.map f)) ↔ s.Legal actions := by
  induction actions generalizing s with
  | nil => exact Iff.rfl
  | cons a rest ih =>
    simp only [List.map_cons, Legal, perform_map]
    exact and_congr (permits_map f s a) (ih _)

end Custody

end Nonblocking.Pool
