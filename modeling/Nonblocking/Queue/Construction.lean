import Nonblocking.Queue.Traffic

/-! # Constructors that consume

What a constructor does while a constructed push waits for it, told as a tree: at each node it lets
the consumer act and goes on as the reply suggests, and at each leaf it comes to an item or fails.
Such a constructor runs on a queue and on a bounded list alike. -/
namespace Nonblocking

inductive Construction (α : Type u) (ε : Type v)
  | done (outcome : Except ε α)
  | ask (action : ConsumerAction) (next : ConsumerReply α → Construction α ε)

abbrev Dialogue (α : Type u) := List (ConsumerAction × ConsumerReply α)

def Dialogue.popped {α : Type u} : Dialogue α → List α
  | (.pop, .item value) :: rest => value.toList ++ popped rest
  | _ :: rest => popped rest
  | [] => []

structure Constructed (α : Type u) (ε : Type v) (σ : Type w) where
  talk : Dialogue α
  outcome : Except ε α
  state : σ

namespace Construction

variable {α : Type u} {ε : Type v} {σ : Type w} {n : Nat}

def run (consume : σ → ConsumerAction → ConsumerReply α × σ) (s : σ) :
    Construction α ε → Constructed α ε σ
  | done outcome => ⟨[], outcome, s⟩
  | ask action next =>
    let (reply, s) := consume s action
    let rest := (next reply).run consume s
    { rest with talk := (action, reply) :: rest.talk }

def runOn (c : Construction α ε) (q : Queue α n) : Constructed α ε (Queue α n) :=
  c.run Queue.consume q

def runOnList (c : Construction α ε) (f : Fifo α n) : Constructed α ε (Fifo α n) :=
  c.run Fifo.consume f

/-- The dialogue is handed over with the item, or with what the constructor failed with, so that
whoever called the push knows whether it ran and what it was told. -/
def make (c : Construction α ε) (q : Queue α n) :
    Except (ε × Dialogue α) (α × Dialogue α) × Queue α n :=
  let made := c.runOn q
  match made.outcome with
  | .ok item => (.ok (item, made.talk), made.state)
  | .error e => (.error (e, made.talk), made.state)

def script (outcome : Except ε α) : List ConsumerAction → Construction α ε
  | [] => done outcome
  | action :: rest => ask action fun _ => script outcome rest

/-- A list of actions is a constructor that listens to no reply. -/
theorem runOn_script (outcome : Except ε α) (actions : List ConsumerAction) (q : Queue α n) :
    (script outcome actions).runOn q =
      ⟨actions.zip (q.consumeAll actions).1, outcome, (q.consumeAll actions).2⟩ := by
  induction actions generalizing q with
  | nil => rfl
  | cons a rest ih =>
    have hrest := ih (q.consume a).2
    simp only [runOn] at hrest
    simp only [runOn, script, run, hrest]
    rfl

end Construction

end Nonblocking
