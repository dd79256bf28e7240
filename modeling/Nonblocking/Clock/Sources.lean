import Nonblocking.Clock.Rounds
import Nonblocking.Log.Reader
import Nonblocking.Queue.Basic

/-! # Waiting on a container

While a wait lasts the world goes on: before each attempt items are pushed and the clock moves. A
source is what such a wait needs of a container, such as a queue for its consumer or a log for one
of its readers: what becomes of the items that are pushed, and what one attempt takes out. -/
namespace Nonblocking

structure Source (σ : Type u) (ε : Type v) (α : Type w) where
  put : σ → List α → List α × σ
  take : σ → Except ε (Option α) × σ

/-- What is pushed next may depend on everything that there is. -/
structure World (σ : Type u) (τ : Type v) (α : Type w) where
  now : τ → Ticks × τ
  arrivals : σ → τ → List α × τ

namespace World

variable {σ : Type u} {τ : Type v} {α : Type w} {ε : Type x}

def await (w : World σ τ α) (source : Source σ ε α) : Waiting (σ × τ) ε α where
  now s := ((w.now s.2).1, s.1, (w.now s.2).2)
  attempt s :=
    let arrived := w.arrivals s.1 s.2
    let taken := source.take (source.put s.1 arrived.1).2
    (taken.1, taken.2, arrived.2)

def putAt (w : World σ τ α) (source : Source σ ε α) (s : σ × τ) (k : Nat) : List α × σ :=
  let before := (w.await source).stateAt s k
  source.put before.1 (w.arrivals before.1 before.2).1

def found (w : World σ τ α) (source : Source σ ε α) (s : σ × τ) (k : Nat) : σ :=
  (w.putAt source s k).2

def accepted (w : World σ τ α) (source : Source σ ε α) (s : σ × τ) : Nat → List α
  | 0 => []
  | k + 1 => w.accepted source s k ++ (w.putAt source s k).1

end World

namespace Queue

variable {α : Type u} {n : Nat}

def pushAll (q : Queue α n) : List α → List α × Queue α n
  | [] => ([], q)
  | item :: rest =>
    let (room, q) := q.push item
    let (accepted, q) := q.pushAll rest
    (if room then item :: accepted else accepted, q)

def source (ε : Type v) : Source (Queue α n) ε α where
  put := pushAll
  take q := (.ok q.pop.1, q.pop.2)

end Queue

namespace Log

variable {α : Type u} {n : Nat}

def source : Source (Log α n × Reader) Overflow α where
  put s items := (items, items.foldl push s.1, s.2)
  take s := ((s.2.read s.1).1, s.1, (s.2.read s.1).2)

end Log

end Nonblocking
