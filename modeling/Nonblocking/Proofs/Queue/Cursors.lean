import Mathlib.Algebra.GroupWithZero.Nat
import Nonblocking.Proofs.Queue.Fifo
import Nonblocking.Queue.Insertion
import Nonblocking.Queue.Words

/-! # Cursors stay on the ring

Arithmetic on a queue is sound as long as both cursors are slots of the ring. The step that takes
care is the last one of a push, for it moves the tail to what was noted before the constructor ran:
nobody else moves the tail, and the head never gets to the tail that was noted, as it would have to
pass the present tail first. -/
namespace Nonblocking

namespace Queue

variable {α : Type u} {ε : Type v} {n : Nat} {q : Queue α n}

theorem advance_injective {i j : Nat} (h : advance n i = advance n j) : i = j := by
  unfold advance at h
  split at h <;> split at h <;> omega

structure OnRing (q : Queue α n) : Prop where
  head_lt : q.head < n + 1
  tail_lt : q.tail < n + 1

def Readable (q : Queue α n) (i : Nat) : Prop := ∃ k < q.length, i = position n q.head k

namespace OnRing

theorem length_le (h : q.OnRing) : q.length ≤ n := by
  have hhead := h.head_lt
  have htail := h.tail_lt
  unfold length
  split <;> omega

theorem length_eq_emod (h : q.OnRing) :
    (q.length : Int) = ((q.tail : Int) - q.head) % (n + 1 : Nat) := by
  have hhead := h.head_lt
  have htail := h.tail_lt
  unfold length
  split
  · rw [Int.emod_eq_of_lt (by omega) (by omega)]
    omega
  · rw [← Int.add_emod_right, Int.emod_eq_of_lt (by omega) (by omega)]
    omega

theorem tail_eq_position (h : q.OnRing) : q.tail = position n q.head q.length := by
  have hhead := h.head_lt
  have htail := h.tail_lt
  unfold length
  split
  · rw [position_of_lt (by omega)]
    omega
  · rw [position_of_ge hhead (by omega) (by omega)]
    omega

theorem not_readable_tail (h : q.OnRing) : ¬q.Readable q.tail := by
  rintro ⟨k, hk, htail⟩
  have hle := h.length_le
  rw [h.tail_eq_position] at htail
  have := position_injective h.head_lt (by omega) (by omega) htail
  omega

end OnRing

/-! ### In words -/

theorem slots?_cursors (hn : n + 1 < UInt64.size) :
    q.cursors.slots? = some (.ofNat (n + 1)) := Word.add?_ofNat hn

theorem slot?_cursors (hn : n + 1 < UInt64.size) {i : Nat} (hi : i < n + 1) :
    q.cursors.slot? (.ofNat i) = some (.ofNat i) := by
  have hlt := (UInt64.ofNat_lt_iff_lt (Nat.lt_trans hi hn) hn).mpr hi
  rw [Cursors.slot?, slots?_cursors hn]
  exact if_pos hlt

theorem advance?_cursors (hn : n + 1 < UInt64.size) {i : Nat} (hi : i < n + 1) :
    q.cursors.advance? (.ofNat i) = some (.ofNat (advance n i)) := by
  have hnext : i + 1 < UInt64.size := Nat.lt_of_le_of_lt hi hn
  have hadd : Word.add? (.ofNat i) 1 = some (.ofNat (i + 1)) := Word.add?_ofNat hnext
  rw [Cursors.advance?, hadd, slots?_cursors hn]
  simp only [Option.bind_eq_bind, Option.bind_some, Word.ofNat_inj hnext hn, advance]
  split <;> rfl

theorem OnRing.length?_cursors (h : q.OnRing) (hn : n + 1 < UInt64.size) :
    q.cursors.length? = some (.ofNat q.length) := by
  have hhead := Nat.lt_trans h.head_lt hn
  have htail := Nat.lt_trans h.tail_lt hn
  have hle : q.cursors.head ≤ q.cursors.tail ↔ q.head ≤ q.tail := UInt64.ofNat_le_iff_le hhead htail
  rw [Cursors.length?, length]
  by_cases hc : q.head ≤ q.tail
  · rw [if_pos (hle.mpr hc), if_pos hc]
    exact Word.sub?_ofNat htail hc
  · have hsub : Word.sub? (.ofNat (n + 1)) q.cursors.head = some (.ofNat (n + 1 - q.head)) :=
      Word.sub?_ofNat hn (Nat.le_of_lt h.head_lt)
    have hadd : Word.add? (.ofNat (n + 1 - q.head)) q.cursors.tail =
        some (.ofNat (n + 1 - q.head + q.tail)) := Word.add?_ofNat (by omega)
    rw [if_neg (mt hle.mp hc), if_neg hc, slots?_cursors hn]
    simp only [Option.bind_eq_bind, Option.bind_some, hsub, hadd]

theorem OnRing.freeSlots?_cursors (h : q.OnRing) (hn : n + 1 < UInt64.size) :
    q.cursors.freeSlots? = some (.ofNat (n - q.length)) := by
  have hsub : Word.sub? q.cursors.capacity (.ofNat q.length) = some (.ofNat (n - q.length)) :=
    Word.sub?_ofNat (Nat.lt_trans (Nat.lt_succ_self n) hn) h.length_le
  rw [Cursors.freeSlots?, h.length?_cursors hn]
  exact hsub

structure InRange (q : Queue α n) : Prop where
  head_lt : q.head < n + 1
  tail_lt : q.tail < n + 1
  head_slot : q.cursors.slot? q.cursors.head = some q.cursors.head
  tail_slot : q.cursors.slot? q.cursors.tail = some q.cursors.tail
  head_next : q.cursors.advance? q.cursors.head = some (.ofNat ((q.head + 1) % (n + 1)))
  tail_next : q.cursors.advance? q.cursors.tail = some (.ofNat ((q.tail + 1) % (n + 1)))
  length_fits : q.cursors.length? = some (.ofNat q.length)
  length_eq : (q.length : Int) = ((q.tail : Int) - q.head) % (n + 1 : Nat)
  length_le : q.length ≤ n
  freeSlots_fits : q.cursors.freeSlots? = some (.ofNat (n - q.length))

theorem OnRing.inRange (h : q.OnRing) (hn : n + 1 < UInt64.size) : q.InRange where
  head_lt := h.head_lt
  tail_lt := h.tail_lt
  head_slot := slot?_cursors hn h.head_lt
  tail_slot := slot?_cursors hn h.tail_lt
  head_next := by
    rw [← advance_eq_mod h.head_lt]
    exact advance?_cursors hn h.head_lt
  tail_next := by
    rw [← advance_eq_mod h.tail_lt]
    exact advance?_cursors hn h.tail_lt
  length_fits := h.length?_cursors hn
  length_eq := h.length_eq_emod
  length_le := h.length_le
  freeSlots_fits := h.freeSlots?_cursors hn

/-- Only a pop that finds an item moves the head. -/
theorem head_consume (q : Queue α n) (a : ConsumerAction) :
    (q.consume a).2.head = q.head ∨
      q.head ≠ q.tail ∧ (q.consume a).2.head = advance n q.head := by
  cases a with
  | pop =>
    simp only [consume, pop]
    split
    · exact Or.inl rfl
    · rename_i he
      right
      refine ⟨fun heq => he ?_, rfl⟩
      rw [isEmpty, heq, beq_self_eq_true]
  | _ => exact Or.inl rfl

theorem OnRing.consume (h : q.OnRing) (a : ConsumerAction) : (q.consume a).2.OnRing := by
  constructor
  · rcases q.head_consume a with hhead | ⟨_, hhead⟩
    · rw [hhead]
      exact h.head_lt
    · rw [hhead]
      exact advance_lt h.head_lt
  · rw [tail_consume]
    exact h.tail_lt

end Queue

/-! ## Steps -/

namespace Insertion

open Queue (advance advance_lt advance_injective OnRing InRange)

variable {α : Type u} {ε : Type v} {n : Nat} {s : State α n}

/-- To move the tail to the next slot does not close the ring. -/
structure Kept (s : State α n) : Prop where
  onRing : s.queue.OnRing
  noted : ∀ slot next, s.phase.noted = some (slot, next) →
    slot = s.queue.tail ∧ next = advance n slot ∧ next ≠ s.queue.head

theorem kept_initial : Kept (initial : State α n) where
  onRing := ⟨Nat.zero_lt_succ n, Nat.zero_lt_succ n⟩
  noted := by
    intro slot next h
    cases h

theorem Kept.of_idle {q : Queue α n} (h : q.OnRing) : Kept ⟨q, .idle⟩ where
  onRing := h
  noted := by
    intro slot next hnoted
    cases hnoted

/-- The head may catch up with the tail, but not with the next one. -/
theorem step_consume (h : Kept s) (a : ConsumerAction) : Kept (next s (.consume a)) where
  onRing := h.onRing.consume a
  noted := by
    intro slot next hnoted
    obtain ⟨rfl, hnext, hroom⟩ := h.noted slot next hnoted
    refine ⟨(s.queue.tail_consume a).symm, hnext, ?_⟩
    rcases s.queue.head_consume a with hhead | ⟨hne, hhead⟩
    · exact hhead ▸ hroom
    · intro hmet
      have hadvance : advance n s.queue.tail = advance n s.queue.head :=
        hnext.symm.trans (hmet.trans hhead)
      exact hne (advance_injective hadvance).symm

theorem step_look (h : Kept s) : Kept (next s .look) := by
  by_cases hfull : s.queue.isFull = true
  · rw [next, if_pos hfull]
    exact h
  · rw [next, if_neg hfull]
    refine ⟨h.onRing, ?_⟩
    intro slot next hnoted
    simp only [Phase.noted, Option.some.injEq, Prod.mk.injEq] at hnoted
    obtain ⟨rfl, rfl⟩ := hnoted
    refine ⟨rfl, rfl, fun hmet => hfull ?_⟩
    rw [Queue.isFull, hmet, beq_self_eq_true]

theorem step_write (h : Kept s) {item : α} (he : Enabled s (.write item)) :
    Kept (next s (.write item)) := by
  obtain ⟨slot, tail, hphase⟩ := he
  have hnoted := h.noted slot tail (by rw [hphase]; rfl)
  simp only [next, hphase]
  refine ⟨⟨h.onRing.head_lt, h.onRing.tail_lt⟩, ?_⟩
  intro slot' tail' heq
  simp only [Phase.noted, Option.some.injEq, Prod.mk.injEq] at heq
  obtain ⟨rfl, rfl⟩ := heq
  exact hnoted

theorem step_publish (h : Kept s) (he : Enabled s .publish) : Kept (next s .publish) := by
  obtain ⟨slot, tail, hphase⟩ := he
  obtain ⟨rfl, rfl, _⟩ := h.noted slot tail (by rw [hphase]; rfl)
  simp only [next, hphase]
  exact Kept.of_idle ⟨h.onRing.head_lt, advance_lt h.onRing.tail_lt⟩

theorem step (h : Kept s) {e : Event α} (he : Enabled s e) : Kept (next s e) := by
  cases e with
  | consume action => exact step_consume h action
  | look => exact step_look h
  | write item => exact step_write h he
  | abandon => exact Kept.of_idle h.onRing
  | publish => exact step_publish h he
  | clear => exact Kept.of_idle ⟨Nat.zero_lt_succ n, Nat.zero_lt_succ n⟩

theorem reachable_kept (h : Reachable s) : Kept s := by
  induction h with
  | initial => exact kept_initial
  | step _ hstep ih =>
    obtain ⟨he, rfl⟩ := hstep
    exact step ih he

/-- The slot is none of those that the consumer may read, so none of these changes. -/
structure Serves (q : Queue α n) (slot next : Nat) : Prop where
  slot_eq : slot = q.tail
  next_eq : next = (slot + 1) % (n + 1)
  next_ne_head : next ≠ q.head
  not_readable : ¬q.Readable slot
  readable_kept : ∀ i item, q.Readable i → (fill q slot item).slot i = q.slot i

structure Safe (s : State α n) : Prop where
  inRange : s.queue.InRange
  noted : ∀ slot next, s.phase.noted = some (slot, next) → Serves s.queue slot next

theorem Kept.serves (h : Kept s) {slot next : Nat} (hnoted : s.phase.noted = some (slot, next)) :
    Serves s.queue slot next := by
  obtain ⟨rfl, rfl, hroom⟩ := h.noted slot next hnoted
  have hunread := h.onRing.not_readable_tail
  refine ⟨rfl, Queue.advance_eq_mod h.onRing.tail_lt, hroom, hunread, ?_⟩
  intro i item hread
  have hne : s.queue.tail ≠ i := fun heq => hunread (heq ▸ hread)
  exact slot_fill_of_ne s.queue hne item

theorem Kept.safe (h : Kept s) (hn : n + 1 < UInt64.size) : Safe s where
  inRange := h.onRing.inRange hn
  noted := fun _ _ => h.serves

/-! ## Actions in small steps -/

theorem run_consumeAll (q : Queue α n) (phase : Phase) (actions : List ConsumerAction)
    (events : List (Event α)) :
    run ⟨q, phase⟩ (actions.map .consume ++ events) =
      run ⟨(q.consumeAll actions).2, phase⟩ events := by
  induction actions generalizing q with
  | nil => rfl
  | cons action rest ih => exact ih (q.consume action).2

theorem legal_consumeAll (q : Queue α n) (phase : Phase) (actions : List ConsumerAction)
    (events : List (Event α)) :
    Legal ⟨q, phase⟩ (actions.map .consume ++ events) ↔
      Legal ⟨(q.consumeAll actions).2, phase⟩ events := by
  induction actions generalizing q with
  | nil => rfl
  | cons action rest ih => exact (and_iff_right trivial).trans (ih (q.consume action).2)

theorem run_ending (q : Queue α n) (slot : Nat) (outcome : Except ε α) :
    Legal ⟨q, .constructing slot (advance n slot)⟩ (ending outcome) ∧
      run ⟨q, .constructing slot (advance n slot)⟩ (ending outcome) =
        ⟨match outcome with
          | .ok item => q.publish slot item
          | .error _ => q, .idle⟩ := by
  cases outcome with
  | ok item =>
    refine ⟨⟨⟨_, _, rfl⟩, ⟨_, _, rfl⟩, trivial⟩, ?_⟩
    exact congrArg (State.mk · .idle) (publish_fill q slot item)
  | error e => exact ⟨⟨⟨_, _, rfl⟩, trivial⟩, rfl⟩

/-- What is published at last is the tail that was noted at first. -/
theorem run_pushSteps (q : Queue α n) (inner : List ConsumerAction) (outcome : Except ε α) :
    Legal ⟨q, .idle⟩ (pushSteps q inner outcome) ∧
      run ⟨q, .idle⟩ (pushSteps q inner outcome) =
        ⟨(q.pushWith (Queue.constructing inner outcome)).2, .idle⟩ := by
  by_cases hfull : q.isFull = true
  · have hlook : next ⟨q, .idle⟩ (.look : Event α) = ⟨q, .idle⟩ := if_pos hfull
    rw [pushSteps, if_pos hfull, Queue.pushWith, if_pos hfull]
    exact ⟨⟨rfl, trivial⟩, hlook⟩
  · have hlook : next ⟨q, .idle⟩ (.look : Event α) =
        ⟨q, .constructing q.tail (advance n q.tail)⟩ := if_neg hfull
    obtain ⟨hlegal, hrun⟩ := run_ending (q.consumeAll inner).2 q.tail outcome
    rw [pushSteps, if_neg hfull, Queue.pushWith, if_neg hfull]
    constructor
    · refine ⟨rfl, ?_⟩
      rw [hlook, legal_consumeAll]
      exact hlegal
    · rw [run, List.foldl_cons, hlook]
      refine (run_consumeAll q _ inner (ending outcome)).trans (hrun.trans ?_)
      cases outcome <;> rfl

theorem run_steps (q : Queue α n) (a : QueueAction α ε) :
    Legal ⟨q, .idle⟩ (steps q a) ∧ run ⟨q, .idle⟩ (steps q a) = ⟨(q.act a).2, .idle⟩ := by
  cases a with
  | consume action => exact ⟨⟨trivial, trivial⟩, rfl⟩
  | push item =>
    have hpush : (q.act (.push item : QueueAction α ε)).2 =
        (q.pushWith (Queue.constructing [] (.ok item : Except ε α))).2 :=
      (congrArg Prod.snd (q.push_eq_pushWith item [])).symm
    rw [hpush]
    exact run_pushSteps q [] (.ok item)
  | pushWith inner outcome => exact run_pushSteps q inner outcome
  | isFull => exact ⟨trivial, rfl⟩
  | freeSlots => exact ⟨trivial, rfl⟩
  | clear => exact ⟨⟨rfl, trivial⟩, rfl⟩

theorem reachable_traffic {q : Queue α n} (h : Reachable (⟨q, .idle⟩ : State α n))
    (actions : List (QueueAction α ε)) : Reachable (⟨(q.traffic actions).2, .idle⟩ : State α n) := by
  induction actions generalizing q with
  | nil => exact h
  | cons a rest ih =>
    obtain ⟨hlegal, hrun⟩ := run_steps q a
    have hafter := reachable_run h hlegal
    rw [hrun] at hafter
    exact ih hafter

/-- The producer and the consumer may act in any order, also in the middle of a push. All actions on
a queue, after any traffic, come to such steps. -/
theorem reachable_arithmetic_safe (hn : n < 2 ^ 64 - 1) :
    (∀ s : State α n, Reachable s → Safe s) ∧
      ∀ (before : List (QueueAction α ε)) (a : QueueAction α ε),
        let q := ((Queue.empty : Queue α n).traffic before).2
        Reachable (⟨q, .idle⟩ : State α n) ∧ Legal ⟨q, .idle⟩ (steps q a) ∧
          run ⟨q, .idle⟩ (steps q a) = ⟨(q.act a).2, .idle⟩ := by
  have hsize : n + 1 < UInt64.size := Nat.add_lt_of_lt_sub hn
  constructor
  · intro s hs
    exact (reachable_kept hs).safe hsize
  · intro before a q
    exact ⟨reachable_traffic .initial before, run_steps q a⟩

/-- The consumer has taken both items while the slot at the end of the ring is being filled. -/
theorem safe_amid_wrapping_push :
    2 < 2 ^ 64 - 1 ∧
      Safe (run (initial : State Nat 2) [.look, .write 7, .publish, .look, .write 8, .publish,
        .consume .pop, .look, .consume .pop, .write 9, .consume .peek]) := by
  have hn : 2 < 2 ^ 64 - 1 := by decide
  have hl : Legal (initial : State Nat 2) [.look, .write 7, .publish, .look, .write 8, .publish,
      .consume .pop, .look, .consume .pop, .write 9, .consume .peek] :=
    ⟨rfl, ⟨_, _, rfl⟩, ⟨_, _, rfl⟩, rfl, ⟨_, _, rfl⟩, ⟨_, _, rfl⟩, trivial, rfl, trivial,
      ⟨_, _, rfl⟩, trivial, trivial⟩
  exact ⟨hn, (reachable_arithmetic_safe (ε := Empty) hn).1 _ (reachable_run .initial hl)⟩

end Insertion

end Nonblocking
