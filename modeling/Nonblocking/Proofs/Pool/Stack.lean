import Nonblocking.Proofs.Pool.Ownership
import Nonblocking.Proofs.Pool.Relabelling

/-! # A pool hands out blocks like a stack

Which block is handed out, that none is left, and how many blocks a reset finds missing can be
foretold from a stack of block numbers, without links, items or a counter. -/
namespace Nonblocking.Pool

variable {α : Type u} {β : Type v} {n : Nat}

inductive StackReply
  | nothing
  | slot (i : Option Nat)
  | emitted (events : List Event)
  deriving DecidableEq, Repr

def Reply.bare : Reply α → StackReply
  | .slot i => .slot i
  | .returned _ => .slot none
  | .emitted events => .emitted events
  | .nothing | .item _ => .nothing

def Action.bare (a : Action α) : Action Unit := a.map fun _ => ()

theorem Reply.bare_map (f : α → β) (reply : Reply α) : (reply.map f).bare = reply.bare := by
  cases reply <;> rfl

namespace Custody

def missing (n : Nat) (free : List Nat) : List Nat :=
  (List.range n).filter fun i => i ∉ free

def stackReply (n : Nat) (free : List Nat) : Action α → StackReply
  | .alloc | .allocWith _ => .slot free.head?
  | .reset => .emitted [.poolReset n (missing n free).length]
  | _ => .nothing

def stackReplies (n : Nat) (free : List Nat) : List (Action α) → List StackReply
  | [] => []
  | a :: rest => stackReply n free a :: stackReplies n (restack n free a) rest

theorem bare_alloc (s : Custody α n) : (s.perform .alloc).1.bare = .slot s.pool.head := by
  cases h : s.pool.head <;> simp [perform, Pool.alloc, h, Reply.bare]

theorem bare_allocWith (s : Custody α n) (item : α) :
    (s.perform (.allocWith item)).1.bare = .slot s.pool.head := by
  cases h : s.pool.head <;> simp [perform, Pool.allocWith, Pool.alloc, h, Reply.bare]

namespace Partition

variable {s : Custody α n} {free : List Nat}

theorem missing_perm (h : Partition s free) : (missing n free).Perm s.owned := by
  have hnodup : (missing n free).Nodup := List.nodup_range.filter _
  rw [List.perm_ext_iff_of_nodup hnodup h.owned_nodup]
  intro i
  rw [h.mem_owned_iff i, missing, List.mem_filter, List.mem_range, decide_eq_true_iff]

theorem allocated_eq (h : Partition s free) : s.pool.allocated = (missing n free).length := by
  rw [h.counted, h.missing_perm.length_eq]

theorem bare_perform (h : Partition s free) (a : Action α) :
    (s.perform a).1.bare = stackReply n free a := by
  have hhead : s.pool.head = free.head? := h.freeList.head_eq
  cases a with
  | alloc => rw [bare_alloc, hhead, stackReply]
  | allocWith item => rw [bare_allocWith, hhead, stackReply]
  | reset => simp [perform, Pool.reset, Reply.bare, stackReply, h.allocated_eq]
  | _ => rfl

theorem bare_run (h : Partition s free) {actions : List (Action α)} (hl : s.Legal actions) :
    (s.run actions).1.map Reply.bare = stackReplies n free actions := by
  induction actions generalizing s free with
  | nil => rfl
  | cons a rest ih =>
    have hreplies := ih (partition_step h hl.1) hl.2
    exact List.cons_eq_cons.mpr ⟨h.bare_perform a, hreplies⟩

end Partition

theorem legal_bare (actions : List (Action α)) :
    (initial : Custody Unit n).Legal (actions.map Action.bare) ↔
      (initial : Custody α n).Legal actions := by
  rw [← map_initial (α := α) fun _ => ()]
  exact legal_map _ _ _

theorem bare_run_bare (actions : List (Action α)) :
    ((initial : Custody Unit n).run (actions.map Action.bare)).1.map Reply.bare =
      ((initial : Custody α n).run actions).1.map Reply.bare := by
  have hrun := run_map (fun _ => ()) (initial : Custody α n) actions
  rw [map_initial] at hrun
  have hreplies : ((initial : Custody Unit n).run (actions.map Action.bare)).1 =
      ((initial : Custody α n).run actions).1.map (Reply.map fun _ => ()) :=
    congrArg Prod.fst hrun
  rw [hreplies, List.map_map]
  exact List.map_congr_left fun reply _ => Reply.bare_map _ reply

/-- Even items of another type make no difference to what is permitted and answered. -/
theorem legal_and_replies_of_bare_eq {actions : List (Action α)} {others : List (Action β)}
    (he : others.map Action.bare = actions.map Action.bare)
    (hl : (initial : Custody α n).Legal actions) :
    (initial : Custody β n).Legal others ∧
      ((initial : Custody β n).run others).1.map Reply.bare =
        ((initial : Custody α n).run actions).1.map Reply.bare := by
  constructor
  · rw [← legal_bare, he, legal_bare]
    exact hl
  · rw [← bare_run_bare, he, bare_run_bare]

/-- Every run is answered as a stack foretells that holds all blocks in slot order at first. At its
end the links lead through the blocks that are left on the stack, and the count is that of the
others. A reset puts all blocks back in slot order whatever state it finds. -/
theorem run_hands_out_stack {actions : List (Action α)}
    (hl : (initial : Custody α n).Legal actions) :
    let replies := ((initial : Custody α n).run actions).1
    let s := ((initial : Custody α n).run actions).2
    let free := actions.foldl (restack n) (List.range n)
    replies.map Reply.bare = stackReplies n (List.range n) actions ∧
      s.pool.FreeList free ∧
      s.pool.allocationCount = (missing n free).length ∧
      (∀ p : Pool α n, p.reset.value.FreeList (List.range n) ∧
        p.reset.value.allocationCount = 0) ∧
      ∀ {β : Type v} (others : List (Action β)), others.map Action.bare = actions.map Action.bare →
        (initial : Custody β n).Legal others ∧
          ((initial : Custody β n).run others).1.map Reply.bare = replies.map Reply.bare := by
  intro replies s free
  have hpart : Partition s free := partition_run partition_initial hl
  refine ⟨partition_initial.bare_run hl, hpart.freeList, hpart.allocated_eq, ?_, ?_⟩
  · intro p
    exact ⟨freeList_reset p, rfl⟩
  · intro β others he
    exact legal_and_replies_of_bare_eq he hl

/-- Two blocks leak, one way each, and the third comes back first; then a reset forgives the leaks. -/
theorem stack_after_leaks :
    (((initial : Custody Nat 3).run
      [.alloc, .allocWith 7, .alloc, .allocWith 8, .forget 0, .intoIndex 1, .discard 2, .alloc,
        .discard 2, .reset, .alloc]).1.map Reply.bare) =
      [.slot (some 0), .slot (some 1), .slot (some 2), .slot none, .nothing, .nothing, .nothing,
        .slot (some 2), .nothing, .emitted [.poolReset 3 2], .slot (some 0)] :=
  (run_hands_out_stack.{0, 0} (by decide)).1

end Custody

end Nonblocking.Pool
