import Nonblocking.Error
import Nonblocking.Event

/-! # Sessions

A session drives a container with a list of steps. A step that makes no sense is refused, and then
nothing is done. Otherwise it yields a result or ends in a fault; in both cases the session goes on
with the state that is left. -/
namespace Nonblocking

inductive Refusal
  | unknownStep | missingName | missingNumber | badItem | numbersOnly
  | noSuchBlock | noSuchUnwrittenBlock | alreadyWritten | sameHandle | zeroSizedItem
  | differentPools | indexNotReleased | badPolicy | noSuchReader | noSuchDeadline
  deriving DecidableEq, Repr

def Refusal.message : Refusal → String
  | unknownStep => "unknown step"
  | missingName => "missing handle name"
  | missingNumber => "missing number"
  | badItem => "bad item"
  | numbersOnly => "u64 only"
  | noSuchBlock => "no such block"
  | noSuchUnwrittenBlock => "no such uninit block"
  | alreadyWritten => "already written"
  | sameHandle => "same handle"
  | zeroSizedItem => "zero-sized item"
  | differentPools => "different pools"
  | indexNotReleased => "index not released"
  | badPolicy => "bad policy"
  | noSuchReader => "no such reader"
  | noSuchDeadline => "no such deadline"

inductive Outcome (ρ : Type u)
  | result (value : ρ)
  | refused (why : Refusal)
  | faulted (fault : Fault)
  deriving Repr

structure Answer (ρ : Type u) (ν : Type v) where
  outcome : Outcome ρ
  events : List Event
  view : ν
  deriving Repr

structure Effect (ρ : Type u) (σ : Type v) where
  result : Except Fault ρ
  state : σ
  events : List Event

namespace Effect

variable {ρ : Type u} {σ : Type v}

def quiet (value : ρ) (state : σ) : Effect ρ σ := ⟨.ok value, state, []⟩

def fault (fault : Fault) (state : σ) : Effect ρ σ := ⟨.error fault, state, []⟩

def outcome (e : Effect ρ σ) : Outcome ρ :=
  match e.result with
  | .ok value => .result value
  | .error fault => .faulted fault

end Effect

def need {β : Type u} (why : Refusal) : Option β → Except Refusal β
  | some value => .ok value
  | none => .error why

namespace Session

variable {ι : Type u} {ρ : Type v} {σ : Type w} {ν : Type x}

/-- Answers one step and moves to the state it leaves: a refused step leaves the state it found. -/
def answer (view : σ → ν) (before : σ) : Except Refusal (Effect ρ σ) → Answer ρ ν × σ
  | .error why => (⟨.refused why, [], view before⟩, before)
  | .ok e => (⟨e.outcome, e.events, view e.state⟩, e.state)

def run {α : Type v} (step : ι → σ → α × σ) : List ι → σ → List α × σ
  | [], s => ([], s)
  | i :: rest, s =>
    let (a, s) := step i s
    let (answers, s) := run step rest s
    (a :: answers, s)

end Session

end Nonblocking
