import Nonblocking.Item
import Nonblocking.Log.Reader
import Nonblocking.NameTable
import Nonblocking.Session

/-! # Sessions on a log

Steps work on the log as a whole or, in a block of their own, on its writer and on named readers.
Readers live until the end of their block. -/
namespace Nonblocking

namespace Log

open Text (Tree)

variable {α : Type} {n : Nat}

inductive ReaderStep
  | clone (as : Option String)
  | drop
  | read
  | tryRead
  | drain
  | resync
  | skipToLive
  | debug (style : Tree.Style)
  | unknown
  deriving Repr

inductive BlockStep (α : Type)
  | push (item : Option α)
  | pushSeq (start count : Option Nat)
  | debugLog (style : Tree.Style)
  | attach (name : Option String) (policy : Option Policy) (live : Bool)
  | reader (name : Option String) (step : ReaderStep)
  deriving Repr

inductive Step (α : Type)
  | push (item : Option α)
  | pushSeq (start count : Option Nat)
  | clear
  | capacity
  | debug (style : Tree.Style)
  | block (steps : List (BlockStep α))
  | unknown
  deriving Repr

structure ReaderView where
  position : Nat
  lag : Nat
  overflowed : Bool
  deriving DecidableEq, Repr

structure BlockView where
  total : Nat
  readers : List (String × ReaderView)
  deriving Repr

inductive BlockResult (α : Type)
  | nothing
  | number (k : Nat)
  | item (value : Option α)
  | attempt (answer : Except Overflow (Option α))
  | items (values : List α)
  | text (text : String)

inductive Result (α : Type)
  | nothing
  | number (k : Nat)
  | text (text : String)
  | answers (block : List (Answer (BlockResult α) BlockView))

def pushNumbers [Item α] (log : Log α n) (start count : Option Nat) :
    Except Refusal (Log α n) := do
  let start ← need .missingNumber start
  let count ← need .missingNumber count
  match Item.ofNumber? (α := α) with
  | some ofNumber => return pushSeq ofNumber count start.toUInt64 log
  | none => if count = 0 then return log else .error .numbersOnly

structure Audience (α : Type) (n : Nat) where
  log : Log α n
  readers : NameTable Reader

namespace Audience

def readerViews (a : Audience α n) : List (String × ReaderView) :=
  a.readers.map fun (name, r) => (name, ⟨r.position, r.lag a.log, r.hasOverflowed a.log⟩)

def view (a : Audience α n) : BlockView := ⟨a.log.total, a.readerViews⟩

def setReader (a : Audience α n) (name : String) (r : Reader) : Audience α n :=
  { a with readers := a.readers.insert name r }

def push (a : Audience α n) (item : α) : Audience α n := { a with log := a.log.push item }

abbrev Reply (α : Type) (n : Nat) := Except Refusal (Effect (BlockResult α) (Audience α n))

def performReader (a : Audience α n) (name : String) (r : Reader) : ReaderStep → Reply α n
  | .clone copy => do
    let copy ← need .missingName copy
    return .quiet .nothing (a.setReader copy r)
  | .drop => .ok (.quiet .nothing { a with readers := a.readers.erase name })
  | .read =>
    let (answer, r) := r.read a.log
    .ok ⟨(answer.mapError .desynchronized).map .item, a.setReader name r, []⟩
  | .tryRead =>
    let (answer, r) := r.tryRead a.log
    .ok (.quiet (.attempt answer) (a.setReader name r))
  | .drain =>
    let (answer, r) := r.drain a.log
    .ok ⟨(answer.mapError .desynchronized).map .items, a.setReader name r, []⟩
  | .resync =>
    let moved := r.resync a.log
    .ok ⟨.ok (.number moved.value.1), a.setReader name moved.value.2, moved.events⟩
  | .skipToLive =>
    let moved := r.skipToLive a.log
    .ok ⟨.ok (.number moved.value.1), a.setReader name moved.value.2, moved.events⟩
  | .debug style => .ok (.quiet (.text (r.tree.render style)) a)
  | .unknown => .error .unknownStep

def perform [Item α] (a : Audience α n) : BlockStep α → Reply α n
  | .push item => do
    let item ← need .badItem item
    return .quiet .nothing (a.push item)
  | .pushSeq start count => do
    let log ← a.log.pushNumbers start count
    return .quiet .nothing { a with log }
  | .debugLog style => .ok (.quiet (.text (a.log.tree.render style)) a)
  | .attach name policy live => do
    let policy ← need .badPolicy policy
    let name ← need .missingName name
    return .quiet .nothing (a.setReader name (.attach policy a.log live))
  | .reader name step => do
    let name ← need .missingName name
    let r ← need .noSuchReader (a.readers.find? name)
    a.performReader name r step

def step [Item α] (i : BlockStep α) (a : Audience α n) :
    Answer (BlockResult α) BlockView × Audience α n :=
  Session.answer view a (a.perform i)

end Audience

def perform [Item α] (log : Log α n) : Step α → Except Refusal (Effect (Result α) (Log α n))
  | .push item => do
    let item ← need .badItem item
    return .quiet .nothing (log.push item)
  | .pushSeq start count => do
    let log ← log.pushNumbers start count
    return .quiet .nothing log
  | .clear => .ok ⟨.ok .nothing, log.clear.value, log.clear.events⟩
  | .capacity => .ok (.quiet (.number n) log)
  | .debug style => .ok (.quiet (.text (log.tree.render style)) log)
  | .block steps =>
    let (answers, a) := Session.run Audience.step steps (⟨log, []⟩ : Audience α n)
    .ok (.quiet (.answers answers) a.log)
  | .unknown => .error .unknownStep

def step [Item α] (i : Step α) (log : Log α n) : Answer (Result α) Nat × Log α n :=
  Session.answer total log (log.perform i)

def run [Item α] (n : Nat) (steps : List (Step α)) : List (Answer (Result α) Nat) :=
  (Session.run step steps (empty : Log α n)).1

end Log

end Nonblocking
