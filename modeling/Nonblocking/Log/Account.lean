import Mathlib.Algebra.GroupWithZero.Nat
import Nonblocking.Log.Broadcast

/-! # What the owner of a reader knows

An account of a reader: where it started, and from each reply what it got or had to give up. Only
actions, their replies and the total of the log go into it. -/
namespace Nonblocking

inductive Move (α : Type u)
  | delivered (entry : α)
  | resynced (count total : Nat) (events : List Event)
  | skipped (count : Nat) (events : List Event)
  deriving DecidableEq, Repr

namespace Move

variable {α : Type u}

def width : Move α → Nat
  | .delivered _ => 1
  | .resynced count _ _ | .skipped count _ => count

def received : Move α → Option α
  | .delivered entry => some entry
  | _ => none

def resyncCount : Move α → Nat
  | .resynced count _ _ => count
  | _ => 0

def skipCount : Move α → Nat
  | .skipped count _ => count
  | _ => 0

def ofAnswer? : Except Overflow (Option α) → Option (Move α)
  | .ok (some entry) => some (.delivered entry)
  | _ => none

/-- A count that is zero is a move, too. -/
def ofReply? (total : Nat) : ReaderAction → ReaderReply α → Option (Move α)
  | .read, .read answer | .tryRead, .attempt answer => ofAnswer? answer
  | .resync, .skipped count events => some (.resynced count total events)
  | .skipToLive, .skipped count events => some (.skipped count events)
  | _, _ => none

end Move

structure Account (α : Type u) where
  start : Nat
  moves : List (Move α)
  deriving DecidableEq, Repr

namespace Account

variable {α : Type u}

def note (acc : Account α) (move : Option (Move α)) : Account α :=
  { acc with moves := acc.moves ++ move.toList }

/-- Each move with the position it starts from. -/
def stretchesFrom (p : Nat) : List (Move α) → List (Nat × Move α)
  | [] => []
  | move :: rest => (p, move) :: stretchesFrom (p + move.width) rest

def stretches (acc : Account α) : List (Nat × Move α) := stretchesFrom acc.start acc.moves

def deliveriesIn (stretches : List (Nat × Move α)) : List (Nat × α) :=
  stretches.filterMap fun stretch => stretch.2.received.map (stretch.1, ·)

def deliveries (acc : Account α) : List (Nat × α) := deliveriesIn acc.stretches

def resynced (acc : Account α) : Nat := (acc.moves.map Move.resyncCount).sum

def skipped (acc : Account α) : Nat := (acc.moves.map Move.skipCount).sum

end Account

def setAccount {α : Type u} {κ : Type v} [DecidableEq κ] (books : κ → Account α) (key : κ)
    (acc : Account α) : κ → Account α :=
  fun other => if other = key then acc else books other

namespace Broadcast

variable {α : Type u} {κ : Type v} {n : Nat} [DecidableEq κ]

/-- A new reader has a new account; a copy starts where its original is. -/
def enter (b : Broadcast α κ n) (books : κ → Account α) :
    LogAction α κ → LogReply α → κ → Account α
  | .attach key _ live, _ => setAccount books key ⟨if live then b.log.total else 0, []⟩
  | .clone key copy, _ =>
    match b.readers key with
    | none => books
    | some r => setAccount books copy ⟨r.position, []⟩
  | .ask key action, .reader reply =>
    setAccount books key ((books key).note (Move.ofReply? b.log.total action reply))
  | _, _ => books

def audit (b : Broadcast α κ n) (books : κ → Account α) : List (LogAction α κ) → κ → Account α
  | [] => books
  | a :: rest => (b.perform a).2.audit (b.enter books a (b.perform a).1) rest

end Broadcast

end Nonblocking
