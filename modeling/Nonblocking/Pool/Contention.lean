import Nonblocking.Pool.Basic

/-! # One taker and many givers

A pool whose callers act at the same time, in small steps on the shared links. One context takes
blocks; any number of contexts give back blocks that they own. Both read the head of the chain,
prepare, and swap the head provided that it is still the one they read; a swap that fails, for no
reason even, starts over. The count is kept in a step of its own and so lags behind. -/
namespace Nonblocking.Contention

variable {α : Type u} {κ : Type v} {n : Nat}

inductive TakerPhase
  | idle
  | seen (head : Nat)
  | ready (head : Nat) (successor : Option Nat)
  /-- The block is off the chain but not counted yet. -/
  | taken (i : Nat)
  deriving DecidableEq, Repr

inductive GiverPhase
  | idle
  | holding (i : Nat)
  | seen (i : Nat) (head : Option Nat)
  /-- The block is linked to the head that was read. -/
  | linked (i : Nat) (head : Option Nat)
  /-- The block is on the chain but still counted. -/
  | given
  deriving DecidableEq, Repr

structure State (α : Type u) (κ : Type v) (n : Nat) where
  pool : Pool α n
  taker : TakerPhase
  giver : κ → GiverPhase
  owned : List Nat

def initial : State α κ n := ⟨.empty, .idle, fun _ => .idle, []⟩

inductive Event (κ : Type v)
  | take
  | readSuccessor
  | swapTake
  | failTake
  | countTake
  | give (giver : κ) (i : Nat)
  | readHead (giver : κ)
  | link (giver : κ)
  | swapGive (giver : κ)
  | failGive (giver : κ)
  | countGive (giver : κ)
  deriving DecidableEq, Repr

def Enabled (s : State α κ n) : Event κ → Prop
  | .take => s.taker = .idle
  | .readSuccessor => ∃ head, s.taker = .seen head
  | .swapTake | .failTake => ∃ head successor, s.taker = .ready head successor
  | .countTake => ∃ i, s.taker = .taken i
  | .give k i => s.giver k = .idle ∧ i ∈ s.owned
  | .readHead k => ∃ i, s.giver k = .holding i
  | .link k => ∃ i head, s.giver k = .seen i head
  | .swapGive k | .failGive k => ∃ i head, s.giver k = .linked i head
  | .countGive k => s.giver k = .given

/-- Starts over with the head as it is. An empty chain ends the attempt. -/
def retake (s : State α κ n) : State α κ n :=
  match s.pool.head with
  | none => { s with taker := .idle }
  | some head => { s with taker := .seen head }

variable [DecidableEq κ]

def setGiver (s : State α κ n) (k : κ) (phase : GiverPhase) : State α κ n :=
  { s with giver := fun j => if j = k then phase else s.giver j }

def setLink (p : Pool α n) (i : Nat) (successor : Option Nat) : Pool α n :=
  { p with next := p.next.setIfInBounds i successor }

theorem link_setLink_self (p : Pool α n) {i : Nat} (hi : i < n) (successor : Option Nat) :
    (setLink p i successor).link i = successor := by
  simp [Pool.link, setLink, hi]

theorem link_setLink_of_ne (p : Pool α n) {i j : Nat} (h : i ≠ j) (successor : Option Nat) :
    (setLink p i successor).link j = p.link j := by
  simp [Pool.link, setLink, Vector.getElem?_setIfInBounds_ne h]

def next (s : State α κ n) : Event κ → State α κ n
  | .take => retake s
  | .readSuccessor =>
    match s.taker with
    | .seen head => { s with taker := .ready head (s.pool.link head) }
    | _ => s
  | .swapTake =>
    match s.taker with
    | .ready head successor =>
      if s.pool.head = some head then
        { s with pool := { s.pool with head := successor }, taker := .taken head }
      else retake s
    | _ => s
  | .failTake => retake s
  | .countTake =>
    match s.taker with
    | .taken i =>
      { s with
        pool := { s.pool with allocated := s.pool.allocated + 1 }
        taker := .idle
        owned := i :: s.owned }
    | _ => s
  | .give k i => { setGiver s k (.holding i) with owned := s.owned.erase i }
  | .readHead k =>
    match s.giver k with
    | .holding i => setGiver s k (.seen i s.pool.head)
    | _ => s
  | .link k =>
    match s.giver k with
    | .seen i head => { setGiver s k (.linked i head) with pool := setLink s.pool i head }
    | _ => s
  | .swapGive k =>
    match s.giver k with
    | .linked i head =>
      if s.pool.head = head then
        { setGiver s k .given with pool := { s.pool with head := some i } }
      else setGiver s k (.seen i s.pool.head)
    | _ => s
  | .failGive k =>
    match s.giver k with
    | .linked i _ => setGiver s k (.seen i s.pool.head)
    | _ => s
  | .countGive k =>
    { setGiver s k .idle with pool := { s.pool with allocated := s.pool.allocated - 1 } }

def Step (s : State α κ n) (e : Event κ) (u : State α κ n) : Prop :=
  Enabled s e ∧ u = next s e

inductive Reachable : State α κ n → Prop
  | initial : Reachable initial
  | step {s u e} : Reachable s → Step s e u → Reachable u

def run (s : State α κ n) (events : List (Event κ)) : State α κ n := events.foldl next s

def Legal (s : State α κ n) : List (Event κ) → Prop
  | [] => True
  | e :: rest => Enabled s e ∧ Legal (next s e) rest

theorem reachable_run {s : State α κ n} (h : Reachable s) {events : List (Event κ)}
    (hl : Legal s events) : Reachable (run s events) := by
  induction events generalizing s with
  | nil => exact h
  | cons e rest ih => exact ih (.step h ⟨hl.1, rfl⟩) hl.2

end Nonblocking.Contention
