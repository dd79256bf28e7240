import Nonblocking.Item
import Nonblocking.Queue.Basic
import Nonblocking.Session

/-! # Sessions on a queue

Steps work on the queue as a whole or, in a block of their own, on its two halves. The constructor
of a constructed push may run steps of the consumer before it returns. -/
namespace Nonblocking

namespace Queue

open Text (Tree)

variable {α : Type} {n : Nat}

inductive InnerStep
  | pop | peek | unknown
  deriving DecidableEq, Repr

inductive HalfStep (α : Type)
  | push (item : Option α)
  | pop
  | peek
  /-- A push whose constructor takes the `inner` steps and then fails if a text is thrown. -/
  | pushWith (item : Option α) (inner : List InnerStep) (throws : Option String)
  | unknown
  deriving Repr

inductive Step (α : Type)
  | push (item : Option α)
  | pushSeq (start count : Option Nat)
  | pop
  | popAll
  | capacity
  | clear
  | debug (style : Tree.Style)
  | halves (steps : List (HalfStep α))
  | unknown
  deriving Repr

structure InnerView where
  length : Nat
  isEmpty : Bool
  deriving DecidableEq, Repr

structure HalfView where
  length : Nat
  isEmpty : Bool
  isFull : Bool
  freeSlots : Nat
  deriving DecidableEq, Repr

structure View where
  length : Nat
  isEmpty : Bool
  isFull : Bool
  deriving DecidableEq, Repr

inductive HalfResult (α : Type)
  | accepted (room : Bool)
  | item (value : Option α)
  /-- The answers given to the constructor, if there was room for it to run. -/
  | constructed (inner : Option (List (Answer (Option α) InnerView)))

inductive Result (α : Type)
  | nothing
  | accepted (room : Bool)
  | number (k : Nat)
  | item (value : Option α)
  | items (values : List α)
  | text (text : String)
  | answers (halves : List (Answer (HalfResult α) HalfView))

def innerView (q : Queue α n) : InnerView := ⟨q.length, q.isEmpty⟩

def halfView (q : Queue α n) : HalfView := ⟨q.length, q.isEmpty, q.isFull, q.freeSlots⟩

def view (q : Queue α n) : View := ⟨q.length, q.isEmpty, q.isFull⟩

def performInner (q : Queue α n) : InnerStep → Except Refusal (Effect (Option α) (Queue α n))
  | .pop => .ok (.quiet q.pop.1 q.pop.2)
  | .peek => .ok (.quiet q.peek q)
  | .unknown => .error .unknownStep

def innerStep (i : InnerStep) (q : Queue α n) :
    Answer (Option α) InnerView × Queue α n :=
  Session.answer innerView q (q.performInner i)

def construct (item : α) (inner : List InnerStep) (throws : Option String) (q : Queue α n) :
    Except Fault (α × List (Answer (Option α) InnerView)) × Queue α n :=
  let (answers, q) := Session.run innerStep inner q
  match throws with
  | some text => (.error (.thrown text), q)
  | none => (.ok (item, answers), q)

def performHalf (q : Queue α n) :
    HalfStep α → Except Refusal (Effect (HalfResult α) (Queue α n))
  | .push item => do
    let item ← need .badItem item
    let (room, q) := q.push item
    return .quiet (.accepted room) q
  | .pop => .ok (.quiet (.item q.pop.1) q.pop.2)
  | .peek => .ok (.quiet (.item q.peek) q)
  | .pushWith item inner throws => do
    let item ← need .badItem item
    let (result, q) := q.pushWith (construct item inner throws)
    return ⟨result.map .constructed, q, []⟩
  | .unknown => .error .unknownStep

def halfStep (i : HalfStep α) (q : Queue α n) : Answer (HalfResult α) HalfView × Queue α n :=
  Session.answer halfView q (q.performHalf i)

/-- Offers `count` items that stand for the numbers from `start` on, and counts those that were
accepted. -/
def pushSeq (ofNumber : UInt64 → α) (count : Nat) (start : UInt64) (q : Queue α n) :
    Nat × Queue α n :=
  count.fold (fun i _ (accepted, q) =>
    let (room, q) := q.push (ofNumber (start + i.toUInt64))
    (if room then accepted + 1 else accepted, q)) (0, q)

def perform [Item α] (q : Queue α n) : Step α → Except Refusal (Effect (Result α) (Queue α n))
  | .push item => do
    let item ← need .badItem item
    let (room, q) := q.push item
    return .quiet (.accepted room) q
  | .pushSeq start count => do
    let start ← need .missingNumber start
    let count ← need .missingNumber count
    match Item.ofNumber? (α := α) with
    | some ofNumber =>
      let (accepted, q) := pushSeq ofNumber count start.toUInt64 q
      return .quiet (.number accepted) q
    | none => if count = 0 then return .quiet (.number 0) q else .error .numbersOnly
  | .pop => .ok (.quiet (.item q.pop.1) q.pop.2)
  | .popAll => .ok (.quiet (.items q.popAll.1) q.popAll.2)
  | .capacity => .ok (.quiet (.number n) q)
  | .clear => .ok ⟨.ok .nothing, q.clear.value, q.clear.events⟩
  | .debug style => .ok (.quiet (.text (q.tree.render style)) q)
  | .halves steps =>
    let (answers, q) := Session.run halfStep steps q
    .ok (.quiet (.answers answers) q)
  | .unknown => .error .unknownStep

def step [Item α] (i : Step α) (q : Queue α n) : Answer (Result α) View × Queue α n :=
  Session.answer view q (q.perform i)

def run [Item α] (n : Nat) (steps : List (Step α)) : List (Answer (Result α) View) :=
  (Session.run step steps (empty : Queue α n)).1

end Queue

end Nonblocking
