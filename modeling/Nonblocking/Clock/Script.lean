import Nonblocking.Clock.Poll

/-! # Scripted waiting

A wait in which everything is laid down beforehand: what each attempt does to the clock and yields,
and what a clock of recorded readings says. A wait that outlasts its script ends in a fault. -/
namespace Nonblocking

structure ScriptStep where
  reset : Bool
  advance : Ticks
  value : Option UInt64
  deriving Repr

/-- At the end it keeps saying the last reading. -/
structure Recording where
  current : Ticks
  later : List Ticks
  taken : Nat
  deriving Repr

namespace Recording

def ofList? : List Ticks → Option Recording
  | [] => none
  | first :: later => some ⟨first, later, 0⟩

def next (r : Recording) : Ticks × Recording :=
  match r.later with
  | [] => (r.current, { r with taken := r.taken + 1 })
  | t :: later => (r.current, ⟨t, later, r.taken + 1⟩)

end Recording

inductive ScriptClock
  | software (clock : SoftwareClock)
  | recorded (recording : Recording)
  deriving Repr

namespace ScriptClock

def read : ScriptClock → Ticks × ScriptClock
  | software c => (c.now, software c)
  | recorded r => (r.next.1, recorded r.next.2)

def apply (step : ScriptStep) : ScriptClock → ScriptClock
  | software c => software ((if step.reset then c.reset else c).advance step.advance)
  | recorded r => recorded r

end ScriptClock

structure Script where
  steps : List ScriptStep
  clock : ScriptClock
  attempts : Nat

namespace Script

def attempt (s : Script) : Except Fault (Option UInt64) × Script :=
  match s.steps with
  | [] => (.ok none, s)
  | step :: steps => (.ok step.value, ⟨steps, s.clock.apply step, s.attempts + 1⟩)

def now (s : Script) : Ticks × Script :=
  let (t, clock) := s.clock.read
  (t, { s with clock })

def poll (s : Script) (timeout : Ticks) : Traced (Except Fault (Except TimedOut UInt64)) × Script :=
  let (answer, s) := Waiting.poll ⟨now, attempt⟩ timeout s.steps.length s
  let result := match answer.value with
    | .ready value => .ok (.ok value)
    | .timedOut error => .ok (.error error)
    | .faulted fault => .error fault
    | .exhausted => .error .scriptExhausted
  (⟨result, answer.events⟩, s)

end Script

/-- The clock ticks with every reading. A value is there at once; without one the wait ends one tick
after the timeout. -/
def pollFreeRunning (timeout : Ticks) (value : Option UInt64) : Ending Fault UInt64 :=
  let waiting : Waiting Ticks Fault UInt64 := ⟨fun t => (t, t + 1), fun t => (.ok value, t)⟩
  (waiting.poll timeout (timeout.toNat + 1) 0).1.value

end Nonblocking
