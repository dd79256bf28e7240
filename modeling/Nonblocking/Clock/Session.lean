import Nonblocking.Clock.Basic
import Nonblocking.NameTable
import Nonblocking.Session

/-! # Sessions on a clock

Steps move a software clock and ask named deadlines what they say. -/
namespace Nonblocking

namespace SoftwareClock

open Text (Tree)

inductive Step
  | advance (ticks : Option Ticks)
  | reset
  | debugClock (style : Tree.Style)
  /-- A new deadline, from `start` if that is given and from the present otherwise. -/
  | deadline (name : Option String) (timeout : Option Ticks) (start : Option (Option Ticks))
  | probe (name : Option String) (moment : Option (Option Ticks))
  | eq (name other : Option String)
  | debug (name : Option String) (style : Tree.Style)
  | unknown
  deriving Repr

inductive Result
  | nothing
  | text (text : String)
  | probe (probe : Deadline.Probe)
  | equal (same : Bool)
  deriving Repr

structure Session where
  clock : SoftwareClock
  deadlines : NameTable Deadline

namespace Session

def view (s : Session) : Ticks := s.clock.now

def named (s : Session) (name : Option String) : Except Refusal Deadline := do
  let name ← need .missingName name
  need .noSuchDeadline (s.deadlines.find? name)

def numberOr (otherwise : Ticks) : Option (Option Ticks) → Except Refusal Ticks
  | none => .ok otherwise
  | some given => need .missingNumber given

def perform (s : Session) : Step → Except Refusal (Effect Result Session)
  | .advance ticks => do
    let ticks ← need .missingNumber ticks
    return .quiet .nothing { s with clock := s.clock.advance ticks }
  | .reset => .ok (.quiet .nothing { s with clock := s.clock.reset })
  | .debugClock style => .ok (.quiet (.text (s.clock.tree.render style)) s)
  | .deadline name timeout start => do
    let name ← need .missingName name
    let timeout ← need .missingNumber timeout
    let start ← numberOr s.clock.now start
    return .quiet .nothing { s with deadlines := s.deadlines.insert name (.after start timeout) }
  | .probe name moment => do
    let d ← s.named name
    let moment ← numberOr s.clock.now moment
    return .quiet (.probe (d.probe moment)) s
  | .eq name other => do
    let d ← s.named name
    let e ← s.named other
    return .quiet (.equal (d == e)) s
  | .debug name style => do
    let d ← s.named name
    return .quiet (.text (d.tree.render style)) s
  | .unknown => .error .unknownStep

def step (i : Step) (s : Session) : Answer Result Ticks × Session :=
  Nonblocking.Session.answer view s (s.perform i)

def run (steps : List Step) : List (Answer Result Ticks) :=
  (Nonblocking.Session.run step steps ⟨.start, []⟩).1

end Session

end SoftwareClock

end Nonblocking
