import Nonblocking.Text.Tree

/-! # Errors and faults

Full, empty and "nothing new" are answered with `Bool` and `Option`. An error is a condition that
its caller must act on. A fault is a broken promise: the operation is abandoned and the program goes
on with the state that was left behind. -/
namespace Nonblocking

open Text (Tree)

/-- A reader fell more than a lap behind: `lost` unread entries are overwritten. -/
structure Overflow where
  lost : Nat
  deriving DecidableEq, Repr

namespace Overflow

def message (e : Overflow) : String :=
  "reader overflowed: " ++ toString e.lost ++ " entries overwritten before they were read"

def tree (e : Overflow) : Tree := .record "Overflow" [("lost", .ofNat e.lost)]

end Overflow

structure TimedOut where
  waited : UInt64
  deriving DecidableEq, Repr

namespace TimedOut

def message (e : TimedOut) : String := "timed out after " ++ toString e.waited.toNat ++ " ticks"

def tree (e : TimedOut) : Tree := .record "TimedOut" [("waited", .ofNat e.waited.toNat)]

end TimedOut

inductive Fault
  | foreignBlock
  | indexOutOfRange
  | desynchronized (overflow : Overflow)
  /-- An item constructor gave up, with its own text. -/
  | thrown (text : String)
  | attemptLimit
  | scriptExhausted
  deriving DecidableEq, Repr

def Fault.message : Fault → String
  | foreignBlock => "block returned to an allocator it was not taken from"
  | indexOutOfRange => "block index out of range"
  | desynchronized overflow => "broadcast reader desynchronized: " ++ overflow.message
  | thrown text => text
  | attemptLimit => "attempt limit"
  | scriptExhausted => "script exhausted"

/-- An error, shown in every way it can be shown, and compared with another of its kind. -/
structure ErrorReport where
  display : String
  debug : String
  debugSpread : String
  equal : Bool
  deriving Repr

inductive ErrorKind
  | overflow | timedOut
  deriving DecidableEq, Repr

def ErrorKind.ofName? : String → Option ErrorKind
  | "overflow" => some .overflow
  | "timed_out" => some .timedOut
  | _ => none

def ErrorKind.report (kind : ErrorKind) (a b : UInt64) : ErrorReport :=
  match kind with
  | .overflow =>
    let e : Overflow := ⟨a.toNat⟩
    ⟨e.message, e.tree.inline, e.tree.spread 0, e == ⟨b.toNat⟩⟩
  | .timedOut =>
    let e : TimedOut := ⟨a⟩
    ⟨e.message, e.tree.inline, e.tree.spread 0, e == ⟨b⟩⟩

end Nonblocking
