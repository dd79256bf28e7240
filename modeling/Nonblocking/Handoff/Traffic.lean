import Nonblocking.Handoff.Basic

/-! # Messages on their way

Runs of a handoff, with the blocks that receivers hold. Beside it stands the same traffic as a post
office keeps it: a stack of free blocks, and messages that wait or are held, each with its value. -/
namespace Nonblocking

inductive HandoffAction (α : Type u)
  | send (item : α)
  | receive
  | hold
  | release (index : Nat)
  deriving DecidableEq, Repr

inductive HandoffReply (α : Type u)
  | sending (sending : Sending)
  | message (message : Option (Message α))
  | value (value : Option α)
  deriving DecidableEq, Repr

structure Exchange (α : Type u) (n m : Nat) where
  handoff : Handoff α n m
  held : List Nat

namespace Exchange

variable {α : Type u} {n m : Nat}

def initial : Exchange α n m := ⟨.empty, []⟩

def Permits (x : Exchange α n m) : HandoffAction α → Prop
  | .release i => i ∈ x.held
  | _ => True

instance (x : Exchange α n m) (a : HandoffAction α) : Decidable (x.Permits a) := by
  cases a <;> simp only [Permits] <;> infer_instance

def perform (x : Exchange α n m) : HandoffAction α → HandoffReply α × Exchange α n m
  | .send item =>
    let (sending, handoff) := x.handoff.send item
    (.sending sending, { x with handoff })
  | .receive =>
    let (message, handoff) := x.handoff.receive
    (.message message, { x with handoff })
  | .hold =>
    match x.handoff.hold with
    | (none, handoff) => (.message none, { x with handoff })
    | (some message, handoff) =>
      (.message (some message), ⟨handoff, message.index :: x.held⟩)
  | .release i =>
    let (value, handoff) := x.handoff.release i
    (.value value, ⟨handoff, x.held.erase i⟩)

def run (x : Exchange α n m) : List (HandoffAction α) → List (HandoffReply α) × Exchange α n m
  | [] => ([], x)
  | a :: rest =>
    let (reply, x) := x.perform a
    let (replies, x) := x.run rest
    (reply :: replies, x)

def Legal (x : Exchange α n m) : List (HandoffAction α) → Prop
  | [] => True
  | a :: rest => x.Permits a ∧ (x.perform a).2.Legal rest

instance decidableLegal (x : Exchange α n m) :
    (actions : List (HandoffAction α)) → Decidable (x.Legal actions)
  | [] => isTrue trivial
  | a :: rest =>
    have := decidableLegal (x.perform a).2 rest
    inferInstanceAs (Decidable (_ ∧ _))

end Exchange

structure PostOffice (α : Type u) where
  free : List Nat
  waiting : List (Message α)
  held : List (Message α)
  published : List α
  deriving DecidableEq, Repr

namespace PostOffice

variable {α : Type u}

def initial (n : Nat) : PostOffice α := ⟨List.range n, [], [], []⟩

def perform (m : Nat) (o : PostOffice α) : HandoffAction α → HandoffReply α × PostOffice α
  | .send item =>
    match o.free with
    | [] => (.sending .exhausted, o)
    | i :: free =>
      if o.waiting.length < m then
        (.sending (.sent i), { o with free, waiting := o.waiting ++ [⟨i, item⟩] })
      else (.sending .mailboxFull, o)
  | .receive =>
    match o.waiting with
    | [] => (.message none, o)
    | message :: waiting =>
      (.message (some message), { o with
        free := message.index :: o.free
        waiting
        published := o.published ++ [message.value] })
  | .hold =>
    match o.waiting with
    | [] => (.message none, o)
    | message :: waiting =>
      (.message (some message), { o with waiting, held := message :: o.held })
  | .release i =>
    (.value ((o.held.find? fun message => message.index == i).map Message.value), { o with
      free := i :: o.free
      held := o.held.filter fun message => message.index != i })

def run (m : Nat) (o : PostOffice α) :
    List (HandoffAction α) → List (HandoffReply α) × PostOffice α
  | [] => ([], o)
  | a :: rest =>
    let (reply, o) := o.perform m a
    let (replies, o) := o.run m rest
    (reply :: replies, o)

end PostOffice

end Nonblocking
