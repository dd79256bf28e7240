import Nonblocking.Clock.Poll
import Nonblocking.Handoff.Basic
import Nonblocking.Log.Session

/-! # Sessions on a whole system

One pool, one mailbox, one log with named readers, one clock, and blocks held under names. A wait
may have steps of its own before each of its attempts, and those steps may wait in turn. -/
namespace Nonblocking

namespace Handoff

inductive Awaited
  | receive
  | alloc
  | read (name : Option String)
  | nothing
  deriving Repr

structure WaitSpec where
  awaited : Awaited
  timeout : Option Ticks
  tick : Option Ticks
  limit : Option Nat
  deriving Repr

inductive Step
  | send (item : Option UInt64)
  | receive
  | hold (name : Option String)
  | release (name : Option String)
  | advance (ticks : Option Ticks)
  /-- A wait; entry `k` of the script holds the steps taken before attempt `k`. -/
  | poll (spec : WaitSpec) (script : List (List Step))
  | log (step : Log.BlockStep UInt64)

inductive Obtained
  | message (message : Message UInt64)
  | index (index : Nat)
  | entry (value : UInt64)
  deriving Repr

structure View where
  allocated : Nat
  free : Nat
  waiting : Nat
  room : Nat
  total : Nat
  readers : List (String × Log.ReaderView)
  now : Ticks

inductive Result
  | nothing
  | sending (sending : Sending)
  | message (message : Option (Message UInt64))
  | value (value : UInt64)
  | log (result : Log.BlockResult UInt64)
  | waited (answer : Except TimedOut Obtained) (attempts : Nat)
      (ran : List (List (Answer Result View)))

abbrev Answers := List (Answer Result View)

structure Session (n m : Nat) where
  handoff : Handoff UInt64 n m
  readers : NameTable Reader
  clock : SoftwareClock
  held : NameTable Nat

namespace Session

variable {n m : Nat} {ρ : Type}

def start : Session n m := ⟨.empty, [], .start, []⟩

def audience (s : Session n m) : Log.Audience UInt64 n := ⟨s.handoff.log, s.readers⟩

def setAudience (s : Session n m) (a : Log.Audience UInt64 n) : Session n m :=
  { s with handoff := { s.handoff with log := a.log }, readers := a.readers }

def view (s : Session n m) : View :=
  { allocated := s.handoff.pool.allocationCount
    free := s.handoff.pool.freeCount
    waiting := s.handoff.mail.length
    room := s.handoff.mail.freeSlots
    total := s.handoff.log.total
    readers := s.audience.readerViews
    now := s.clock.now }

def setHandoff (s : Session n m) (answer : ρ × Handoff UInt64 n m) : ρ × Session n m :=
  (answer.1, { s with handoff := answer.2 })

abbrev Reply (n m : Nat) := Except Refusal (Effect Result (Session n m))

def send (s : Session n m) (item : Option UInt64) : Reply n m := do
  let item ← need .missingNumber item
  let (sending, s) := s.setHandoff (s.handoff.send item)
  return .quiet (.sending sending) s

/-- The block that is held under the name already is freed after that. -/
def hold (s : Session n m) (name : Option String) : Reply n m := do
  let name ← need .missingName name
  match s.setHandoff s.handoff.hold with
  | (none, s) => return .quiet (.message none) s
  | (some message, s) =>
    let handoff := match s.held.find? name with
      | some i => (s.handoff.release i).2
      | none => s.handoff
    return .quiet (.message (some message))
      { s with handoff, held := s.held.insert name message.index }

def release (s : Session n m) (name : Option String) : Reply n m := do
  let name ← need .missingName name
  let i ← need .noSuchBlock (s.held.find? name)
  let (value, s) := s.setHandoff (s.handoff.release i)
  let value ← need .noSuchBlock value
  return .quiet (.value value) { s with held := s.held.erase name }

/-- A block that is obtained is freed at once; an unknown reader has nothing to read. -/
def tryFor (s : Session n m) : Awaited → Except Fault (Option Obtained) × Session n m
  | .receive =>
    let (message, s) := s.setHandoff s.handoff.receive
    (.ok (message.map .message), s)
  | .alloc =>
    match s.handoff.pool.alloc with
    | none => (.ok none, s)
    | some (i, pool) =>
      (.ok (some (.index i)), { s with handoff := { s.handoff with pool := pool.free i } })
  | .read none => (.ok none, s)
  | .read (some name) =>
    match s.readers.find? name with
    | none => (.ok none, s)
    | some r =>
      let (answer, r) := r.read s.handoff.log
      ((answer.mapError .desynchronized).map fun entry => entry.map .entry,
        { s with readers := s.readers.insert name r })
  | .nothing => (.ok none, s)

/-- The script entries still to be run, and the answers of those that were run, newest first. -/
structure Wait (n m : Nat) where
  session : Session n m
  entries : List (Session n m → Answers × Session n m)
  attempts : Nat
  ran : List Answers

namespace Wait

def runEntry (w : Wait n m) : Wait n m :=
  match w.entries with
  | [] => w
  | entry :: entries =>
    let (answers, session) := entry w.session
    { w with session, entries, ran := answers :: w.ran }

def attempt (awaited : Awaited) (tick : Ticks) (w : Wait n m) :
    Except Fault (Option Obtained) × Wait n m :=
  let w := w.runEntry
  let s := { w.session with clock := w.session.clock.advance tick }
  let (answer, s) := s.tryFor awaited
  (answer, { w with session := s, attempts := w.attempts + 1 })

def waiting (awaited : Awaited) (tick : Ticks) : Waiting (Wait n m) Fault Obtained :=
  ⟨fun w => (w.session.clock.now, w), attempt awaited tick⟩

end Wait

def defaultLimit : Nat := 100

/-- A fault loses the answers of the script entries, but not what those entries did. -/
def poll (s : Session n m) (spec : WaitSpec)
    (entries : List (Session n m → Answers × Session n m)) : Reply n m := do
  let timeout ← need .missingNumber spec.timeout
  let tick ← need .missingNumber spec.tick
  let (answer, w) := (Wait.waiting spec.awaited tick).poll timeout
    (spec.limit.getD defaultLimit) ⟨s, entries, 0, []⟩
  let result := match answer.value with
    | .ready value => .ok (.waited (.ok value) w.attempts w.ran.reverse)
    | .timedOut error => .ok (.waited (.error error) w.attempts w.ran.reverse)
    | .faulted fault => .error fault
    | .exhausted => .error .attemptLimit
  return ⟨result, w.session, answer.events⟩

mutual

def perform : Step → Session n m → Reply n m
  | .send item, s => s.send item
  | .receive, s =>
    let (message, s) := s.setHandoff s.handoff.receive
    .ok (.quiet (.message message) s)
  | .hold name, s => s.hold name
  | .release name, s => s.release name
  | .advance ticks, s => do
    let ticks ← need .missingNumber ticks
    return .quiet .nothing { s with clock := s.clock.advance ticks }
  | .poll spec script, s => s.poll spec (entries script)
  | .log step, s => do
    let e ← s.audience.perform step
    return ⟨e.result.map .log, s.setAudience e.state, e.events⟩

def runSteps : List Step → Session n m → Answers × Session n m
  | [], s => ([], s)
  | step :: steps, s =>
    let (answer, s) := Nonblocking.Session.answer view s (perform step s)
    let (answers, s) := runSteps steps s
    (answer :: answers, s)

def entries : List (List Step) → List (Session n m → Answers × Session n m)
  | [] => []
  | steps :: script => runSteps steps :: entries script

end

def run (n m : Nat) (steps : List Step) : Answers :=
  (runSteps steps (start : Session n m)).1

end Session

end Handoff

end Nonblocking
