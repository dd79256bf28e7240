import Nonblocking.Clock.Poll

/-! # Rounds of a wait

What a wait would go through if nothing ever ended it. Every wait is a beginning of this, so the
attempt that ends it can be named without playing it. -/
namespace Nonblocking.Waiting

variable {σ : Type u} {ε : Type v} {β : Type w}

def stateAt (w : Waiting σ ε β) (s : σ) : Nat → σ
  | 0 => (w.now s).2
  | k + 1 => (w.now (w.attempt (w.stateAt s k)).2).2

/-- Reading `0` is the start of the wait; reading `k + 1` follows attempt `k`. -/
def reading (w : Waiting σ ε β) (s : σ) : Nat → Ticks
  | 0 => (w.now s).1
  | k + 1 => (w.now (w.attempt (w.stateAt s k)).2).1

def result (w : Waiting σ ε β) (s : σ) (k : Nat) : Except ε (Option β) :=
  (w.attempt (w.stateAt s k)).1

def elapsed (w : Waiting σ ε β) (s : σ) (k : Nat) : Ticks := w.reading s k - w.reading s 0

def Ends (w : Waiting σ ε β) (s : σ) (timeout : Ticks) (k : Nat) : Prop :=
  w.result s k ≠ .ok none ∨ timeout ≠ maxTicks ∧ timeout < w.elapsed s (k + 1)

/-- The clock is read once more only if there is no value. -/
def ending (w : Waiting σ ε β) (s : σ) (timeout : Ticks) (k : Nat) : Traced (Ending ε β) × σ :=
  match w.result s k with
  | .error fault => (⟨.faulted fault, []⟩, (w.attempt (w.stateAt s k)).2)
  | .ok (some value) => (⟨.ready value, []⟩, (w.attempt (w.stateAt s k)).2)
  | .ok none =>
    (⟨.timedOut ⟨w.elapsed s (k + 1)⟩, [.pollTimedOut (w.elapsed s (k + 1)) timeout]⟩,
      w.stateAt s (k + 1))

end Nonblocking.Waiting
