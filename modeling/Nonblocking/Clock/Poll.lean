import Nonblocking.Clock.Basic
import Nonblocking.Error
import Nonblocking.Event

/-! # Bounded waiting

An operation is tried until it yields a value or the deadline passes, and at least once. The clock
is read only after an attempt that yielded nothing, so a value wins over a deadline that passed
meanwhile. `poll` takes a budget of attempts, for nothing bounds them while the clock stands still.
-/
namespace Nonblocking

/-- An attempt yields a value, or nothing yet, or ends in a fault. -/
structure Waiting (σ : Type u) (ε : Type v) (β : Type w) where
  now : σ → Ticks × σ
  attempt : σ → Except ε (Option β) × σ

inductive Ending (ε : Type v) (β : Type w)
  | ready (value : β)
  | timedOut (error : TimedOut)
  | faulted (fault : ε)
  | exhausted
  deriving Repr

namespace Waiting

variable {σ : Type u} {ε : Type v} {β : Type w}

def pollUntil (w : Waiting σ ε β) (deadline : Deadline) (timeout : Ticks) :
    Nat → σ → Traced (Ending ε β) × σ
  | 0, s => (⟨.exhausted, []⟩, s)
  | budget + 1, s =>
    match w.attempt s with
    | (.error fault, s) => (⟨.faulted fault, []⟩, s)
    | (.ok (some value), s) => (⟨.ready value, []⟩, s)
    | (.ok none, s) =>
      let (now, s) := w.now s
      if deadline.isExpired now then
        let waited := deadline.elapsed now
        (⟨.timedOut ⟨waited⟩, [.pollTimedOut waited timeout]⟩, s)
      else w.pollUntil deadline timeout budget s

def poll (w : Waiting σ ε β) (timeout : Ticks) (budget : Nat) (s : σ) :
    Traced (Ending ε β) × σ :=
  let (start, s) := w.now s
  w.pollUntil (.after start timeout) timeout budget s

end Waiting

end Nonblocking
