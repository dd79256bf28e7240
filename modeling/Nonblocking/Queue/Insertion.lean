import Nonblocking.Queue.Traffic

/-! # Pushes in small steps

A push looks for room and notes the slot at the tail and the tail that will be; then the item is
constructed and written into the slot, and at last the tail is moved, both as noted. The consumer
may act between any two of these steps, and a constructor that fails ends the push. -/
namespace Nonblocking.Insertion

variable {α : Type u} {ε : Type v} {n : Nat}

inductive Phase
  | idle
  | constructing (slot next : Nat)
  /-- The tail is not moved yet. -/
  | written (slot next : Nat)
  deriving DecidableEq, Repr

def Phase.noted : Phase → Option (Nat × Nat)
  | .idle => none
  | .constructing slot next | .written slot next => some (slot, next)

structure State (α : Type u) (n : Nat) where
  queue : Queue α n
  phase : Phase

def initial : State α n := ⟨.empty, .idle⟩

inductive Event (α : Type u)
  | consume (action : ConsumerAction)
  | look
  | write (item : α)
  | abandon
  | publish
  | clear
  deriving DecidableEq, Repr

def Enabled (s : State α n) : Event α → Prop
  | .consume _ => True
  | .look | .clear => s.phase = .idle
  | .write _ | .abandon => ∃ slot next, s.phase = .constructing slot next
  | .publish => ∃ slot next, s.phase = .written slot next

def fill (q : Queue α n) (slot : Nat) (item : α) : Queue α n :=
  { q with slots := q.slots.setIfInBounds slot (some item) }

def next (s : State α n) : Event α → State α n
  | .consume action => { s with queue := (s.queue.consume action).2 }
  | .look =>
    if s.queue.isFull then s
    else { s with phase := .constructing s.queue.tail (Queue.advance n s.queue.tail) }
  | .write item =>
    match s.phase with
    | .constructing slot next => ⟨fill s.queue slot item, .written slot next⟩
    | _ => s
  | .abandon => { s with phase := .idle }
  | .publish =>
    match s.phase with
    | .written _ next => ⟨{ s.queue with tail := next }, .idle⟩
    | _ => s
  | .clear => ⟨s.queue.clear.value, .idle⟩

def Step (s : State α n) (e : Event α) (u : State α n) : Prop :=
  Enabled s e ∧ u = next s e

inductive Reachable : State α n → Prop
  | initial : Reachable initial
  | step {s u e} : Reachable s → Step s e u → Reachable u

def run (s : State α n) (events : List (Event α)) : State α n := events.foldl next s

def Legal (s : State α n) : List (Event α) → Prop
  | [] => True
  | e :: rest => Enabled s e ∧ Legal (next s e) rest

theorem reachable_run {s : State α n} (h : Reachable s) {events : List (Event α)}
    (hl : Legal s events) : Reachable (run s events) := by
  induction events generalizing s with
  | nil => exact h
  | cons e rest ih => exact ih (.step h ⟨hl.1, rfl⟩) hl.2

def ending : Except ε α → List (Event α)
  | .ok item => [.write item, .publish]
  | .error _ => [.abandon]

def pushSteps (q : Queue α n) (inner : List ConsumerAction) (outcome : Except ε α) :
    List (Event α) :=
  if q.isFull then [.look] else .look :: (inner.map .consume ++ ending outcome)

def steps (q : Queue α n) : QueueAction α ε → List (Event α)
  | .consume action => [.consume action]
  | .push item => pushSteps q [] (.ok item : Except ε α)
  | .pushWith inner outcome => pushSteps q inner outcome
  | .isFull | .freeSlots => []
  | .clear => [.clear]

/-- To write and then to publish is what a push does in one go. -/
theorem publish_fill (q : Queue α n) (slot : Nat) (item : α) :
    { fill q slot item with tail := Queue.advance n slot } = q.publish slot item := rfl

theorem slot_fill_of_ne (q : Queue α n) {slot i : Nat} (h : slot ≠ i) (item : α) :
    (fill q slot item).slot i = q.slot i := by
  rw [Queue.slot, fill, Vector.getElem?_setIfInBounds_ne h]
  rfl

end Nonblocking.Insertion
