import Nonblocking.Text.Tree

/-! # Clocks and deadlines

Time is counted in ticks of 64 bits and wraps, so a deadline compares no two points in time: it
compares the ticks elapsed since its start, a difference that is exact across the wrap. -/
namespace Nonblocking

abbrev Ticks := UInt64

/-- The largest tick count, which as a timeout means "never". -/
def maxTicks : Ticks := 18446744073709551615

structure SoftwareClock where
  now : Ticks
  deriving DecidableEq, Repr

namespace SoftwareClock

open Text (Tree)

def start : SoftwareClock := ⟨0⟩

def advance (c : SoftwareClock) (ticks : Ticks) : SoftwareClock := ⟨c.now + ticks⟩

def reset (_ : SoftwareClock) : SoftwareClock := start

def tree (c : SoftwareClock) : Tree := .record "SoftwareClock" [("ticks", .ofNat c.now.toNat)]

end SoftwareClock

/-- Without a timeout it is never reached. -/
structure Deadline where
  start : Ticks
  timeout : Option Ticks
  deriving DecidableEq, Repr

namespace Deadline

open Text (Tree)

def after (start timeout : Ticks) : Deadline :=
  ⟨start, if timeout = maxTicks then none else some timeout⟩

def elapsed (d : Deadline) (now : Ticks) : Ticks := now - d.start

/-- Has the deadline passed? At the last allowed tick it has not. -/
def isExpired (d : Deadline) (now : Ticks) : Bool :=
  match d.timeout with
  | some timeout => decide (timeout < d.elapsed now)
  | none => false

def remaining (d : Deadline) (now : Ticks) : Ticks :=
  match d.timeout with
  | some timeout => if d.elapsed now ≤ timeout then timeout - d.elapsed now else 0
  | none => maxTicks

def tree (d : Deadline) : Tree :=
  .record "Deadline" [("start", .ofNat d.start.toNat),
    ("timeout", .ofOption (d.timeout.map fun t => .ofNat t.toNat))]

structure Probe where
  expired : Bool
  remaining : Ticks
  elapsed : Ticks
  deriving DecidableEq, Repr

def probe (d : Deadline) (now : Ticks) : Probe := ⟨d.isExpired now, d.remaining now, d.elapsed now⟩

end Deadline

end Nonblocking
