import Nonblocking.Queue.Basic

/-! # Traffic on a queue

Runs of a queue, with pushes whose constructor lets the consumer act in the middle. Beside it stands
the same traffic on a bounded list, which has no ring, no cursors and no slot that could be stale.
-/
namespace Nonblocking

inductive ConsumerAction
  | pop | peek | length | isEmpty
  deriving DecidableEq, Repr

inductive ConsumerReply (α : Type u)
  | item (value : Option α)
  | number (k : Nat)
  | flag (holds : Bool)
  deriving DecidableEq, Repr

inductive QueueAction (α : Type u) (ε : Type v)
  | consume (action : ConsumerAction)
  | push (item : α)
  /-- The constructor lets the consumer act, and then returns an item or fails. -/
  | pushWith (inner : List ConsumerAction) (outcome : Except ε α)
  | isFull
  | freeSlots
  | clear

inductive QueueReply (α : Type u) (ε : Type v)
  | consumed (reply : ConsumerReply α)
  | accepted (room : Bool)
  /-- None if the constructor did not run. -/
  | constructed (outcome : Except ε (Option (List (ConsumerReply α))))
  | flag (holds : Bool)
  | number (k : Nat)
  | emitted (events : List Event)

namespace Queue

variable {α : Type u} {ε : Type v} {n : Nat}

def consume (q : Queue α n) : ConsumerAction → ConsumerReply α × Queue α n
  | .pop => (.item q.pop.1, q.pop.2)
  | .peek => (.item q.peek, q)
  | .length => (.number q.length, q)
  | .isEmpty => (.flag q.isEmpty, q)

def consumeAll (q : Queue α n) : List ConsumerAction → List (ConsumerReply α) × Queue α n
  | [] => ([], q)
  | a :: rest =>
    let (reply, q) := q.consume a
    let (replies, q) := q.consumeAll rest
    (reply :: replies, q)

def constructing (inner : List ConsumerAction) (outcome : Except ε α) (q : Queue α n) :
    Except ε (α × List (ConsumerReply α)) × Queue α n :=
  let (replies, q) := q.consumeAll inner
  (outcome.map fun item => (item, replies), q)

def act (q : Queue α n) : QueueAction α ε → QueueReply α ε × Queue α n
  | .consume action =>
    let (reply, q) := q.consume action
    (.consumed reply, q)
  | .push item =>
    let (room, q) := q.push item
    (.accepted room, q)
  | .pushWith inner outcome =>
    let (result, q) := q.pushWith (constructing inner outcome)
    (.constructed result, q)
  | .isFull => (.flag q.isFull, q)
  | .freeSlots => (.number q.freeSlots, q)
  | .clear => (.emitted q.clear.events, q.clear.value)

def traffic (q : Queue α n) : List (QueueAction α ε) → List (QueueReply α ε) × Queue α n
  | [] => ([], q)
  | a :: rest =>
    let (reply, q) := q.act a
    let (replies, q) := q.traffic rest
    (reply :: replies, q)

end Queue

structure Fifo (α : Type u) (n : Nat) where
  items : List α
  length_le : items.length ≤ n

namespace Fifo

variable {α : Type u} {ε : Type v} {n : Nat}

def empty : Fifo α n := ⟨[], Nat.zero_le n⟩

def isFull (f : Fifo α n) : Bool := f.items.length == n

def push (f : Fifo α n) (item : α) : Bool × Fifo α n :=
  if h : f.items.length < n then
    (true, ⟨f.items ++ [item], by rw [List.length_append, List.length_singleton]; omega⟩)
  else (false, f)

def consume (f : Fifo α n) : ConsumerAction → ConsumerReply α × Fifo α n
  | .pop => (.item f.items.head?, ⟨f.items.tail, by
      have := f.length_le
      rw [List.length_tail]; omega⟩)
  | .peek => (.item f.items.head?, f)
  | .length => (.number f.items.length, f)
  | .isEmpty => (.flag f.items.isEmpty, f)

def consumeAll (f : Fifo α n) : List ConsumerAction → List (ConsumerReply α) × Fifo α n
  | [] => ([], f)
  | a :: rest =>
    let (reply, f) := f.consume a
    let (replies, f) := f.consumeAll rest
    (reply :: replies, f)

/-- A constructed push asks for room first, then lets the consumer act, then appends. -/
def pushWith (f : Fifo α n) (inner : List ConsumerAction) (outcome : Except ε α) :
    Except ε (Option (List (ConsumerReply α))) × Fifo α n :=
  if f.isFull then (.ok none, f)
  else
    let (replies, f) := f.consumeAll inner
    match outcome with
    | .ok item => (.ok (some replies), (f.push item).2)
    | .error e => (.error e, f)

def act (f : Fifo α n) : QueueAction α ε → QueueReply α ε × Fifo α n
  | .consume action =>
    let (reply, f) := f.consume action
    (.consumed reply, f)
  | .push item =>
    let (room, f) := f.push item
    (.accepted room, f)
  | .pushWith inner outcome =>
    let (result, f) := f.pushWith inner outcome
    (.constructed result, f)
  | .isFull => (.flag f.isFull, f)
  | .freeSlots => (.number (n - f.items.length), f)
  | .clear => (.emitted [.queueCleared f.items.length], empty)

def traffic (f : Fifo α n) : List (QueueAction α ε) → List (QueueReply α ε) × Fifo α n
  | [] => ([], f)
  | a :: rest =>
    let (reply, f) := f.act a
    let (replies, f) := f.traffic rest
    (reply :: replies, f)

end Fifo

end Nonblocking
