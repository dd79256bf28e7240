import Nonblocking.Clock.Script
import Nonblocking.Clock.Session
import Nonblocking.Handoff.Session
import Nonblocking.Pool.Session
import Nonblocking.Queue.Session
import Nonblocking.Relay

/-! # Requests

A request asks for one run of the library: a session on a container, a wait, a report. It is
rejected as a whole when it cannot be understood or asks for too much. -/
namespace Nonblocking

inductive BadRequest
  | unknownOp | unsupportedType | unsupportedCapacity | missingNumber | badKind | noReadings
  | countTooLarge | wouldWaitTooLong | notJson
  deriving DecidableEq, Repr

def BadRequest.message : BadRequest → String
  | unknownOp => "unknown op"
  | unsupportedType => "unsupported type"
  | unsupportedCapacity => "unsupported capacity"
  | missingNumber => "missing number"
  | badKind => "bad kind"
  | noReadings => "no readings"
  | countTooLarge => "count too large"
  | wouldWaitTooLong => "would wait too long"
  | notJson => "not JSON"

namespace Request

def orReject {β : Type u} (why : BadRequest) : Option β → Except BadRequest β
  | some value => .ok value
  | none => .error why

def numberCapacities : List Nat :=
  [1, 2, 3, 4, 5, 6, 7, 8, 9, 10, 15, 16, 17, 31, 32, 33, 63, 64, 65, 100, 127, 128, 255, 256,
    1000, 1024]

def otherCapacities : List Nat := [1, 2, 3, 4, 8, 16]

def capacities : ItemKind → List Nat
  | .u64 => numberCapacities
  | _ => otherCapacities

def systemSizes : List (Nat × Nat) := [(1, 1), (2, 4), (4, 4), (5, 2), (8, 3), (16, 16)]

/-- Items are numbers unless the request says otherwise. -/
def container (type : Option String) (capacity : Option Nat) :
    Except BadRequest (ItemKind × Nat) := do
  let capacity ← orReject .missingNumber capacity
  let kind ← orReject .unsupportedType (ItemKind.ofName? (type.getD "u64"))
  if capacity ∈ capacities kind then return (kind, capacity) else .error .unsupportedCapacity

def system (blocks mailbox : Option Nat) : Except BadRequest (Nat × Nat) := do
  let blocks ← orReject .missingNumber blocks
  let mailbox ← orReject .missingNumber mailbox
  if (blocks, mailbox) ∈ systemSizes then return (blocks, mailbox)
  else .error .unsupportedCapacity

structure DeadlineReport where
  debug : String
  probes : List Deadline.Probe
  deriving Repr

def deadline (start timeout : Option Ticks) (moments : List (Option Ticks)) :
    Except BadRequest DeadlineReport := do
  let start ← orReject .missingNumber start
  let timeout ← orReject .missingNumber timeout
  let moments ← moments.mapM (orReject .missingNumber)
  let d := Deadline.after start timeout
  return ⟨d.tree.inline, moments.map d.probe⟩

structure ScriptRequest where
  reset : Bool
  advance : Option Ticks
  value : Option UInt64
  deriving Repr

def ScriptRequest.step (r : ScriptRequest) : Except BadRequest ScriptStep := do
  let advance ← orReject .missingNumber r.advance
  return ⟨r.reset, advance, r.value⟩

structure PollReport where
  result : Except Fault (Except TimedOut UInt64)
  events : List Event
  attempts : Nat
  clock : ScriptClock

/-- Recorded readings, or a software clock that stands at `start`. -/
def scriptClock (start : Option Ticks) :
    Option (List (Option Ticks)) → Except BadRequest ScriptClock
  | none => return .software (SoftwareClock.start.advance (start.getD 0))
  | some readings => do
    let readings ← readings.mapM (orReject .missingNumber)
    let recording ← orReject .noReadings (Recording.ofList? readings)
    return .recorded recording

def poll (timeout start : Option Ticks) (readings : Option (List (Option Ticks)))
    (steps : List ScriptRequest) : Except BadRequest PollReport := do
  let timeout ← orReject .missingNumber timeout
  let steps ← steps.mapM ScriptRequest.step
  let clock ← scriptClock start readings
  let (answer, s) := Script.poll ⟨steps, clock, 0⟩ timeout
  return ⟨answer.value, answer.events, s.attempts, s.clock⟩

/-- The longest that is carried out, in ticks. -/
def longestWait : Ticks := 10000

/-- What a running clock says differs from run to run, so of a timeout it is told only whether more
ticks were waited than allowed. -/
inductive RunningEnd
  | value (value : UInt64)
  | timedOut (late : Bool)
  deriving DecidableEq, Repr

def RunningEnd.ofEnding (timeout : Ticks) : Ending Fault UInt64 → RunningEnd
  | .ready obtained => .value obtained
  | .timedOut error => .timedOut (decide (timeout < error.waited))
  | .faulted _ | .exhausted => .timedOut false

def runningClock (timeout : Option Ticks) (value : Option UInt64) :
    Except BadRequest RunningEnd := do
  let timeout ← orReject .missingNumber timeout
  if value = none ∧ longestWait < timeout then .error .wouldWaitTooLong
  return .ofEnding timeout (pollFreeRunning timeout value)

def errorReport (kind : Option String) (a b : Option UInt64) :
    Except BadRequest ErrorReport := do
  let a ← orReject .missingNumber a
  let b ← orReject .missingNumber b
  let kind ← orReject .badKind (kind.bind ErrorKind.ofName?)
  return kind.report a b

def longestRelay : Nat := 20000

def relay (kind : Option String) (count : Option Nat) : Except BadRequest (Relay.Kind × Nat) := do
  let count ← orReject .missingNumber count
  if longestRelay < count then .error .countTooLarge
  let kind ← orReject .badKind (kind.bind Relay.Kind.ofName?)
  return (kind, count)

end Request

end Nonblocking
