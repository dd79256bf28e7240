/-! # Log events

The containers report a reset, a clear, a skip or a timeout as an event. An operation that can
report returns a `Traced` value: its result together with its events, oldest first. -/
namespace Nonblocking

inductive Level
  | debug | warn
  deriving DecidableEq, Repr

inductive Event
  | poolReset (capacity leaked : Nat)
  | queueCleared (discarded : Nat)
  | logCleared (total : Nat)
  | readerResynced (skipped position : Nat)
  | readerSkippedToLive (skipped position : Nat)
  | pollTimedOut (waited timeout : UInt64)
  deriving DecidableEq, Repr

namespace Event

/-- Only a reader that had to skip entries it never saw is a warning. -/
def level : Event → Level
  | readerResynced .. => .warn
  | _ => .debug

def target : Event → String
  | poolReset .. => "alice_lockfree::block_alloc"
  | queueCleared .. => "alice_lockfree::spsc"
  | logCleared .. | readerResynced .. | readerSkippedToLive .. => "alice_lockfree::spmc"
  | pollTimedOut .. => "alice_lockfree::clock"

def message : Event → String
  | poolReset .. => "block allocator reset"
  | queueCleared .. => "spsc queue cleared"
  | logCleared .. => "spmc log cleared"
  | readerResynced .. => "broadcast reader resynced"
  | readerSkippedToLive .. => "broadcast reader skipped to live tail"
  | pollTimedOut .. => "poll timed out"

def fields : Event → List (String × Nat)
  | poolReset capacity leaked => [("capacity", capacity), ("leaked", leaked)]
  | queueCleared discarded => [("discarded", discarded)]
  | logCleared total => [("total", total)]
  | readerResynced skipped position | readerSkippedToLive skipped position =>
    [("skipped", skipped), ("position", position)]
  | pollTimedOut waited timeout => [("waited", waited.toNat), ("timeout", timeout.toNat)]

end Event

structure Traced (α : Type u) where
  value : α
  events : List Event
  deriving DecidableEq, Repr

end Nonblocking
