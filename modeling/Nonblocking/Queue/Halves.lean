import Nonblocking.Queue.Construction

/-! # What the two halves see

A queue that is split has a producer and a consumer, who act in any order and do not see each other.
A run is told as the list of all that they get to see. What the consumer sees while an item is under
construction stands between the room that was found for the item and the item itself. -/
namespace Nonblocking

inductive HalfAction (α : Type u) (ε : Type v)
  | consume (action : ConsumerAction)
  | push (item : α)
  | pushWith (constructor : Construction α ε)
  | isFull
  | freeSlots

inductive Sighting (α : Type u)
  | told (action : ConsumerAction) (reply : ConsumerReply α)
  | refused
  /-- A push found room, which is all that it has come to yet. -/
  | admitted
  | appended
  | abandoned
  | full (holds : Bool)
  | room (k : Nat)

variable {α : Type u} {ε : Type v} {n : Nat}

namespace Dialogue

def sightings (talk : Dialogue α) : List (Sighting α) :=
  talk.map fun exchange => .told exchange.1 exchange.2

end Dialogue

namespace Sighting

def isAppend : Sighting α → Bool
  | appended => true
  | _ => false

def isTake : Sighting α → Bool
  | told .pop (.item (some _)) => true
  | _ => false

/-- How many items there are after a sighting, if there were `k` before it. -/
def level (k : Nat) (s : Sighting α) : Nat := k + s.isAppend.toNat - s.isTake.toNat

def TrueOf (n k : Nat) : Sighting α → Prop
  | told .pop (.item value) | told .peek (.item value) => value.isSome = true ↔ 0 < k
  | told .length (.number l) => l = k
  | told .isEmpty (.flag holds) => holds = true ↔ k = 0
  | told _ _ => False
  | refused => k = n
  | admitted | appended => k < n
  | abandoned => True
  | full holds => holds = true ↔ k = n
  | room l => l = n - k

end Sighting

namespace Queue

def actHalf (q : Queue α n) : HalfAction α ε → List (Sighting α) × Queue α n
  | .consume action => ([.told action (q.consume action).1], (q.consume action).2)
  | .push item =>
    match q.push item with
    | (false, q) => ([.refused], q)
    | (true, q) => ([.admitted, .appended], q)
  | .pushWith constructor =>
    match q.pushWith constructor.make with
    | (.ok none, q) => ([.refused], q)
    | (.ok (some talk), q) => (.admitted :: talk.sightings ++ [.appended], q)
    | (.error (_, talk), q) => (.admitted :: talk.sightings ++ [.abandoned], q)
  | .isFull => ([.full q.isFull], q)
  | .freeSlots => ([.room q.freeSlots], q)

def sightings (q : Queue α n) : List (HalfAction α ε) → List (Sighting α)
  | [] => []
  | a :: rest => (q.actHalf a).1 ++ (q.actHalf a).2.sightings rest

end Queue

end Nonblocking
