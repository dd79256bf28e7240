import Nonblocking.Pool.Basic

/-! # Who holds which block

A pool together with all that its callers keep: the handles of unwritten and of written blocks, the
indices that were let go and can be taken back, and the blocks whose handles were forgotten. An
action is permitted when the caller has what it takes. -/
namespace Nonblocking.Pool

/-- A handle is named by the slot of its block. -/
inductive Action (α : Type u)
  | alloc
  | allocWith (item : α)
  | write (i : Nat) (item : α)
  | writeRaw (i : Nat) (item : α)
  | get (i : Nat)
  | store (i : Nat) (item : α)
  | swap (i j : Nat)
  | discard (i : Nat)
  | forget (i : Nat)
  | drop (i : Nat)
  /-- The handle is handed to the pool that it came from, which drops it. -/
  | dealloc (i : Nat)
  | intoIndex (i : Nat)
  | fromIndex (i : Nat)
  | reset
  deriving DecidableEq, Repr

inductive Reply (α : Type u)
  | nothing
  | slot (i : Option Nat)
  | returned (item : α)
  | item (value : Option α)
  | emitted (events : List Event)
  deriving DecidableEq, Repr

structure Custody (α : Type u) (n : Nat) where
  pool : Pool α n
  unwritten : List Nat
  written : List Nat
  released : List Nat
  forgotten : List Nat

namespace Custody

variable {α : Type u} {n : Nat}

def initial : Custody α n := ⟨empty, [], [], [], []⟩

/-- The blocks that are not the pool's to hand out. -/
def owned (s : Custody α n) : List Nat := s.unwritten ++ s.written ++ s.released ++ s.forgotten

def Permits (s : Custody α n) : Action α → Prop
  | .alloc | .allocWith _ => True
  | .write i _ | .writeRaw i _ | .discard i | .forget i => i ∈ s.unwritten
  | .get i | .store i _ | .drop i | .dealloc i | .intoIndex i => i ∈ s.written
  | .swap i j => i ∈ s.written ∧ j ∈ s.written ∧ i ≠ j
  | .fromIndex i => i ∈ s.released
  | .reset => s.unwritten = [] ∧ s.written = []

instance (s : Custody α n) (a : Action α) : Decidable (s.Permits a) := by
  cases a <;> simp only [Permits] <;> infer_instance

def exchange (p : Pool α n) (i j : Nat) : Pool α n :=
  match p.read i, p.read j with
  | some x, some y => (p.write i y).write j x
  | _, _ => p

def perform (s : Custody α n) : Action α → Reply α × Custody α n
  | .alloc =>
    match s.pool.alloc with
    | none => (.slot none, s)
    | some (i, pool) => (.slot (some i), { s with pool, unwritten := i :: s.unwritten })
  | .allocWith item =>
    match s.pool.allocWith item with
    | .error item => (.returned item, s)
    | .ok (i, pool) => (.slot (some i), { s with pool, written := i :: s.written })
  | .write i item =>
    (.nothing, { s with
      pool := s.pool.write i item
      unwritten := s.unwritten.erase i
      written := i :: s.written })
  | .writeRaw i item => (.nothing, { s with pool := s.pool.write i item })
  | .get i => (.item (s.pool.read i), s)
  | .store i item => (.nothing, { s with pool := s.pool.write i item })
  | .swap i j => (.nothing, { s with pool := exchange s.pool i j })
  | .discard i => (.nothing, { s with pool := s.pool.free i, unwritten := s.unwritten.erase i })
  | .forget i =>
    (.nothing, { s with unwritten := s.unwritten.erase i, forgotten := i :: s.forgotten })
  | .drop i | .dealloc i =>
    (.nothing, { s with pool := s.pool.free i, written := s.written.erase i })
  | .intoIndex i =>
    (.nothing, { s with written := s.written.erase i, released := i :: s.released })
  | .fromIndex i =>
    (.item (s.pool.read i),
      { s with released := s.released.erase i, written := i :: s.written })
  | .reset =>
    let reset := s.pool.reset
    (.emitted reset.events, { s with pool := reset.value, released := [], forgotten := [] })

def run (s : Custody α n) : List (Action α) → List (Reply α) × Custody α n
  | [] => ([], s)
  | a :: rest =>
    let (reply, s) := s.perform a
    let (replies, s) := s.run rest
    (reply :: replies, s)

def Legal (s : Custody α n) : List (Action α) → Prop
  | [] => True
  | a :: rest => s.Permits a ∧ (s.perform a).2.Legal rest

instance decidableLegal (s : Custody α n) :
    (actions : List (Action α)) → Decidable (s.Legal actions)
  | [] => isTrue trivial
  | a :: rest =>
    have := decidableLegal (s.perform a).2 rest
    inferInstanceAs (Decidable (_ ∧ _))

theorem run_append (s : Custody α n) (actions more : List (Action α)) :
    (s.run (actions ++ more)).2 = ((s.run actions).2.run more).2 := by
  induction actions generalizing s with
  | nil => rfl
  | cons a rest ih => exact ih _

theorem legal_append (s : Custody α n) (actions more : List (Action α)) :
    s.Legal (actions ++ more) ↔ s.Legal actions ∧ (s.run actions).2.Legal more := by
  induction actions generalizing s with
  | nil => simp [Legal, run]
  | cons a rest ih => exact (and_congr_right fun _ => ih _).trans and_assoc.symm

inductive Reachable : Custody α n → Prop
  | initial : Reachable initial
  | step {s a} : Reachable s → s.Permits a → Reachable (s.perform a).2

theorem reachable_run {s : Custody α n} (h : Reachable s) {actions : List (Action α)}
    (hl : s.Legal actions) : Reachable (s.run actions).2 := by
  induction actions generalizing s with
  | nil => exact h
  | cons a rest ih => exact ih (.step h hl.1) hl.2

end Custody

end Nonblocking.Pool
