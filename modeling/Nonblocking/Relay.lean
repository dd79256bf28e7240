import Nonblocking.Handoff.Basic
import Nonblocking.Log.Reader

/-! # Relays

Runs in which two or more parties pass a long series of numbers through a container and check what
arrives. The parties take turns in one fixed order. -/
namespace Nonblocking

namespace Relay

structure Tally where
  received : Nat
  sum : Nat
  ordered : Bool
  deriving DecidableEq, Repr

namespace Tally

def start : Tally := ⟨0, 0, true⟩

def note (t : Tally) (value : Nat) : Tally :=
  ⟨t.received + 1, t.sum + value, t.ordered && value == t.received⟩

end Tally

structure QueueReport where
  tally : Tally
  left : Nat
  deriving Repr

/-- The producer pushes until there is no room; then the consumer takes everything. -/
def queueTurn (state : Tally × Queue Nat 8) (value : Nat) : Tally × Queue Nat 8 :=
  match state.2.push value with
  | (true, q) => (state.1, q)
  | (false, q) =>
    let (items, q) := q.popAll
    (items.foldl Tally.note state.1, (q.push value).2)

def throughQueue (count : Nat) : QueueReport :=
  let (tally, q) := (List.range count).foldl queueTurn (.start, .empty)
  let (items, q) := q.popAll
  ⟨items.foldl Tally.note tally, q.length⟩

structure HandoffReport where
  tally : Tally
  allocated : Nat
  free : Nat
  deriving Repr

def receiveUpTo : Nat → Tally × Handoff Nat 4 4 → Tally × Handoff Nat 4 4
  | 0, state => state
  | k + 1, (tally, h) =>
    match h.receive with
    | (none, h) => (tally, h)
    | (some message, h) => receiveUpTo k (tally.note message.value, h)

/-- The sender sends until no block is left; then the receiver takes everything. -/
def handoffTurn (state : Tally × Handoff Nat 4 4) (value : Nat) : Tally × Handoff Nat 4 4 :=
  match state.2.send value with
  | (.sent _, h) => (state.1, h)
  | (_, h) =>
    let (tally, h) := receiveUpTo h.mail.length (state.1, h)
    (tally, (h.send value).2)

def throughHandoff (count : Nat) : HandoffReport :=
  let (tally, h) := (List.range count).foldl handoffTurn (.start, .empty)
  let (tally, h) := receiveUpTo h.mail.length (tally, h)
  ⟨tally, h.pool.allocationCount, h.pool.freeCount⟩

structure PoolReport where
  /-- In every round all blocks handed out were different ones. -/
  distinct : Bool
  allocated : Nat
  free : Nat
  deriving Repr

def allocUpTo : Nat → Pool Nat 64 → List Nat × Pool Nat 64
  | 0, p => ([], p)
  | k + 1, p =>
    match p.alloc with
    | none => ([], p)
    | some (i, p) =>
      let (indices, p) := allocUpTo k p
      (i :: indices, p)

def fillRound (state : Bool × Pool Nat 64) : Bool × Pool Nat 64 :=
  let (indices, p) := allocUpTo 64 state.2
  (state.1 && decide (indices.length = 64 ∧ indices.Nodup), indices.foldl Pool.free p)

def fillRounds : Nat → Bool × Pool Nat 64 → Bool × Pool Nat 64
  | 0, state => state
  | count + 1, state => fillRounds count (fillRound state)

def throughPool (count : Nat) : PoolReport :=
  let (distinct, p) := fillRounds count (true, .empty)
  ⟨distinct, p.allocationCount, p.freeCount⟩

structure LogReport where
  ends : List Nat
  /-- Entries that were delivered at a position that is not theirs. -/
  wrong : Nat
  total : Nat
  deriving Repr

/-- Reads on to the live end, moving on where entries were lost. -/
def catchUp (log : Log Nat 4) (wrong : Nat) (r : Reader) : Nat × Reader :=
  let r := (r.resync log).value.2
  match r.drain log with
  | (.ok entries, r') =>
    let expected := List.range' r.position entries.length
    (wrong + ((entries.zip expected).filter fun pair => pair.1 != pair.2).length, r')
  | (.error _, r') => (wrong, r')

structure Broadcast where
  log : Log Nat 4
  eager : Reader
  late : Reader
  wrong : Nat

/-- One reader keeps up with the writer; the other one waits for the end. -/
def broadcastTurn (b : Broadcast) (value : Nat) : Broadcast :=
  let log := b.log.push value
  let (wrong, eager) := catchUp log b.wrong b.eager
  { b with log, eager, wrong }

def throughLog (count : Nat) : LogReport :=
  let start : Broadcast :=
    ⟨.empty, .attach .checked (.empty : Log Nat 4) false,
      .attach .checked (.empty : Log Nat 4) false, 0⟩
  let b := (List.range count).foldl broadcastTurn start
  let (wrong, late) := catchUp b.log b.wrong b.late
  ⟨[b.eager.position, late.position], wrong, b.log.total⟩

inductive Kind
  | queue | handoff | pool | log
  deriving DecidableEq, Repr

def Kind.ofName? : String → Option Kind
  | "spsc" => some .queue
  | "handoff" => some .handoff
  | "dealloc" => some .pool
  | "spmc" => some .log
  | _ => none

end Relay

end Nonblocking
