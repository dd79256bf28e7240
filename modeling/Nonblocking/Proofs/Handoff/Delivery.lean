import Nonblocking.Handoff.Traffic
import Nonblocking.Log.History
import Nonblocking.Proofs.Pool.Ownership
import Nonblocking.Queue.Contents

/-! # A message is delivered as it was sent

What ties the three containers of a handoff together is the custody of the blocks: an index in the
mailbox is one that was let go and not taken back, and a held block is one with a handle. So a run
of a handoff is a permitted run of its pool, and nobody else can write the block of a message. -/
namespace Nonblocking

variable {α : Type u} {n m : Nat}

namespace Exchange

/-- What a handoff asks of its pool, call by call. -/
def callsOf (x : Exchange α n m) : HandoffAction α → List (Pool.Action α)
  | .send item =>
    match x.handoff.pool.head with
    | none => [.allocWith item]
    | some i =>
      .allocWith item :: .intoIndex i ::
        if x.handoff.mail.isFull then [.fromIndex i, .drop i] else []
  | .receive =>
    match x.handoff.mail.peek with
    | none => []
    | some i => [.fromIndex i, .get i, .dealloc i]
  | .hold =>
    match x.handoff.mail.peek with
    | none => []
    | some i => [.fromIndex i, .get i]
  | .release i => [.get i, .dealloc i]

def calls (x : Exchange α n m) : List (HandoffAction α) → List (Pool.Action α)
  | [] => []
  | a :: rest => x.callsOf a ++ (x.perform a).2.calls rest

end Exchange

namespace Pool.Custody

theorem run_lend {s : Custody α n} {i : Nat} {p : Pool α n} (h : s.pool.alloc = some (i, p))
    (item : α) : (s.run [.allocWith item, .intoIndex i]).2 =
      { s with pool := p.write i item, released := i :: s.released } := by
  simp [run, perform, allocWith, h]

theorem run_refund {s : Custody α n} {i : Nat} {p : Pool α n} (h : s.pool.alloc = some (i, p))
    (item : α) : (s.run [.allocWith item, .intoIndex i, .fromIndex i, .drop i]).2 =
      { s with pool := (p.write i item).free i } := by
  simp [run, perform, allocWith, h]

theorem run_consume (s : Custody α n) (i : Nat) :
    (s.run [.fromIndex i, .get i, .dealloc i]).2 =
      { s with pool := s.pool.free i, released := s.released.erase i } := by
  simp [run, perform]

theorem run_hold (s : Custody α n) (i : Nat) :
    (s.run [.fromIndex i, .get i]).2 =
      { s with released := s.released.erase i, written := i :: s.written } := by
  simp [run, perform]

theorem run_release (s : Custody α n) (i : Nat) :
    (s.run [.get i, .dealloc i]).2 =
      { s with pool := s.pool.free i, written := s.written.erase i } := by
  simp [run, perform]

end Pool.Custody

/-! ## What the replies tell -/

def sentIn : HandoffAction α → HandoffReply α → List (Message α)
  | .send item, .sending (.sent i) => [⟨i, item⟩]
  | _, _ => []

def obtainedIn : HandoffAction α → HandoffReply α → List (Message α)
  | _, .message (some message) => [message]
  | _, _ => []

def receivedIn : HandoffAction α → HandoffReply α → List α
  | .receive, .message (some message) => [message.value]
  | _, _ => []

def gather {β : Type v} (tell : HandoffAction α → HandoffReply α → List β)
    (actions : List (HandoffAction α)) (replies : List (HandoffReply α)) : List β :=
  (List.zipWith tell actions replies).flatten

@[simp] theorem gather_nil {β : Type v} (tell : HandoffAction α → HandoffReply α → List β) :
    gather tell [] [] = [] := rfl

@[simp] theorem gather_cons {β : Type v} (tell : HandoffAction α → HandoffReply α → List β)
    (a : HandoffAction α) (actions : List (HandoffAction α)) (reply : HandoffReply α)
    (replies : List (HandoffReply α)) :
    gather tell (a :: actions) (reply :: replies) = tell a reply ++ gather tell actions replies :=
  rfl

namespace PostOffice

theorem waiting_perform (o : PostOffice α) (a : HandoffAction α) :
    o.waiting ++ sentIn a (o.perform m a).1 =
      obtainedIn a (o.perform m a).1 ++ (o.perform m a).2.waiting := by
  cases a with
  | send item =>
    simp only [perform]
    split
    · simp [sentIn, obtainedIn]
    · split <;> simp [sentIn, obtainedIn]
  | receive =>
    simp only [perform]
    split <;> simp_all [sentIn, obtainedIn]
  | hold =>
    simp only [perform]
    split <;> simp_all [sentIn, obtainedIn]
  | release i => simp [perform, sentIn, obtainedIn]

/-- Messages leave in the order in which they came. -/
theorem waiting_run (o : PostOffice α) (actions : List (HandoffAction α)) :
    o.waiting ++ gather sentIn actions (o.run m actions).1 =
      gather obtainedIn actions (o.run m actions).1 ++ (o.run m actions).2.waiting := by
  induction actions generalizing o with
  | nil => simp [run]
  | cons a rest ih =>
    simp only [run, gather_cons]
    rw [← List.append_assoc, waiting_perform, List.append_assoc, ih, List.append_assoc]

theorem published_perform (o : PostOffice α) (a : HandoffAction α) :
    (o.perform m a).2.published = o.published ++ receivedIn a (o.perform m a).1 := by
  cases a with
  | send item =>
    simp only [perform]
    split
    · simp [receivedIn]
    · split <;> simp [receivedIn]
  | receive =>
    simp only [perform]
    split <;> simp [receivedIn]
  | hold =>
    simp only [perform]
    split <;> simp [receivedIn]
  | release i => simp [perform, receivedIn]

theorem published_run (o : PostOffice α) (actions : List (HandoffAction α)) :
    (o.run m actions).2.published =
      o.published ++ gather receivedIn actions (o.run m actions).1 := by
  induction actions generalizing o with
  | nil => simp [run]
  | cons a rest ih =>
    simp only [run, gather_cons]
    rw [ih, published_perform, List.append_assoc]

theorem held_perform {o : PostOffice α} {a : HandoffAction α} {message : Message α}
    (hm : message ∈ (o.perform m a).2.held) :
    message ∈ o.held ++ obtainedIn a (o.perform m a).1 := by
  cases a with
  | send item =>
    simp only [perform] at hm
    split at hm
    · exact List.mem_append_left _ hm
    · split at hm <;> exact List.mem_append_left _ hm
  | receive =>
    simp only [perform] at hm
    split at hm <;> exact List.mem_append_left _ hm
  | hold =>
    simp only [perform] at hm ⊢
    split at hm
    · exact List.mem_append_left _ hm
    · rcases List.mem_cons.mp hm with rfl | hm
      · simp_all [obtainedIn]
      · exact List.mem_append_left _ hm
  | release i => exact List.mem_append_left _ (List.mem_filter.mp hm).1

theorem held_run {o : PostOffice α} {actions : List (HandoffAction α)} {message : Message α}
    (hm : message ∈ (o.run m actions).2.held) :
    message ∈ o.held ++ gather obtainedIn actions (o.run m actions).1 := by
  induction actions generalizing o with
  | nil => exact List.mem_append_left _ hm
  | cons a rest ih =>
    simp only [run, gather_cons]
    rw [← List.append_assoc]
    rcases List.mem_append.mp (ih hm) with hheld | hlater
    · exact List.mem_append_left _ (held_perform hheld)
    · exact List.mem_append_right _ hlater

end PostOffice

/-! ## One invariant for three containers -/

namespace Exchange

open Pool (Custody)

/-- The indices in the mailbox are those that were let go, the held blocks are those with a handle,
and every message, waiting or held, still lies in its block. -/
structure Delivers (x : Exchange α n m) (o : PostOffice α) (s : Custody α n) : Prop where
  pool_eq : s.pool = x.handoff.pool
  partition : s.Partition o.free
  unwritten_eq : s.unwritten = []
  forgotten_eq : s.forgotten = []
  written_eq : s.written = o.held.map Message.index
  released_perm : s.released.Perm (o.waiting.map Message.index)
  mail : x.handoff.mail.Holds (o.waiting.map Message.index)
  held_eq : x.held = o.held.map Message.index
  kept : ∀ message ∈ o.waiting ++ o.held,
    x.handoff.pool.read message.index = some message.value
  log_eq : x.handoff.log = o.published.foldl Log.push .empty

/-- The step keeps the invariant, answers as a post office does and asks nothing of the pool that it
may not ask. -/
def StepDelivers (x : Exchange α n m) (o : PostOffice α) (s : Custody α n)
    (a : HandoffAction α) : Prop :=
  (x.perform a).1 = (o.perform m a).1 ∧ s.Legal (x.callsOf a) ∧
    Delivers (x.perform a).2 (o.perform m a).2 (s.run (x.callsOf a)).2

theorem StepDelivers.of_eq {x y : Exchange α n m} {o p : PostOffice α} {s : Custody α n}
    {a : HandoffAction α} {calls : List (Pool.Action α)} {reply : HandoffReply α}
    (hcalls : x.callsOf a = calls) (hx : x.perform a = (reply, y))
    (ho : o.perform m a = (reply, p)) (hlegal : s.Legal calls)
    (h : Delivers y p (s.run calls).2) : StepDelivers x o s a := by
  rw [StepDelivers, hcalls, hx, ho]
  exact ⟨rfl, hlegal, h⟩

theorem delivers_initial :
    Delivers (initial : Exchange α n m) (PostOffice.initial n) Custody.initial where
  pool_eq := rfl
  partition := Custody.partition_initial
  unwritten_eq := rfl
  forgotten_eq := rfl
  written_eq := rfl
  released_perm := .refl _
  mail := Queue.holds_empty
  held_eq := rfl
  kept := by simp [PostOffice.initial]
  log_eq := rfl

namespace Delivers

variable {x : Exchange α n m} {o : PostOffice α} {s : Custody α n}

theorem owned_perm (h : Delivers x o s) :
    s.owned.Perm ((o.waiting ++ o.held).map Message.index) := by
  have hp := h.released_perm.append_left (o.held.map Message.index)
  rw [Custody.owned, h.unwritten_eq, h.forgotten_eq, h.written_eq, List.map_append]
  simpa using hp.trans List.perm_append_comm

theorem not_free (h : Delivers x o s) {message : Message α}
    (hm : message ∈ o.waiting ++ o.held) : message.index ∉ o.free := by
  have ho : message.index ∈ s.owned :=
    h.owned_perm.mem_iff.mpr (List.mem_map_of_mem hm)
  exact h.partition.not_mem_free ho

/-- Whoever takes a free block writes into none that has a message. -/
theorem kept_write (h : Delivers x o s) {i : Nat} (hi : i ∈ o.free) {p : Pool α n}
    (hcells : p.cells = x.handoff.pool.cells) (item : α) {message : Message α}
    (hm : message ∈ o.waiting ++ o.held) :
    (p.write i item).read message.index = some message.value := by
  have hne : i ≠ message.index := fun he => h.not_free hm (he ▸ hi)
  rw [Pool.read_write_of_ne p hne, Pool.read_of_cells_eq hcells]
  exact h.kept message hm

theorem step_send_exhausted (h : Delivers x o s) (hf : o.free = []) (item : α) :
    StepDelivers x o s (.send item) := by
  have hlist := h.partition.freeList
  rw [hf, h.pool_eq] at hlist
  have halloc := hlist.alloc_nil
  have hcalls : x.callsOf (.send item) = [.allocWith item] := by
    simp [callsOf, hlist.head_eq]
  have hrun : (s.run [.allocWith item]).2 = s := by
    simp [Custody.run, Custody.perform, Pool.allocWith, h.pool_eq, halloc]
  have hx : x.perform (.send item) = (.sending .exhausted, x) := by
    simp [perform, Handoff.send_of_exhausted halloc]
  have ho : o.perform m (.send item) = (.sending .exhausted, o) := by
    simp [PostOffice.perform, hf]
  refine .of_eq hcalls hx ho ⟨trivial, trivial⟩ ?_
  rw [hrun]
  exact h

theorem step_send_sent (h : Delivers x o s) {i : Nat} {free : List Nat} (hf : o.free = i :: free)
    (hroom : o.waiting.length < m) (item : α) : StepDelivers x o s (.send item) := by
  have hlist := h.partition.freeList
  rw [hf] at hlist
  obtain ⟨p, hp, _, _, hcells⟩ := hlist.alloc_cons
  have hlegal : s.Legal [.allocWith item, .intoIndex i] := by
    simp [Custody.Legal, Custody.Permits, Custody.perform, Pool.allocWith, hp]
  have hpart := Custody.partition_run h.partition hlegal
  have hrun := Custody.run_lend hp item
  have hi : i < n := hlist.bound i List.mem_cons_self
  rw [h.pool_eq] at hp hlist
  have hlen : (o.waiting.map Message.index).length < m := by simpa using hroom
  have hfull : x.handoff.mail.isFull = false := by
    rw [← Bool.not_eq_true, h.mail.isFull_iff]
    omega
  have hcalls : x.callsOf (.send item) = [.allocWith item, .intoIndex i] := by
    simp [callsOf, hlist.head_eq, hfull]
  have hmail := h.mail.publish hlen i
  have hx : x.perform (.send item) = (.sending (.sent i),
      { x with handoff := { x.handoff with
        pool := p.write i item
        mail := x.handoff.mail.publish x.handoff.mail.tail i } }) := by
    simp [perform, Handoff.send_of_room hp hfull]
  have ho : o.perform m (.send item) = (.sending (.sent i),
      { o with free, waiting := o.waiting ++ [⟨i, item⟩] }) := by
    simp [PostOffice.perform, hf, hroom]
  refine .of_eq hcalls hx ho hlegal ?_
  rw [hrun] at hpart ⊢
  refine ⟨rfl, ?_, h.unwritten_eq, h.forgotten_eq, h.written_eq, ?_, ?_, h.held_eq, ?_, h.log_eq⟩
  · rw [hf] at hpart
    exact hpart
  · simpa using (h.released_perm.cons i).trans (List.perm_append_singleton i _).symm
  · simpa using hmail
  · intro message hm
    have hcases : message ∈ o.waiting ++ o.held ∨ message = ⟨i, item⟩ := by
      simp only [List.mem_append, List.mem_singleton] at hm ⊢
      rcases hm with (hm | hm) | hm
      · exact Or.inl (Or.inl hm)
      · exact Or.inr hm
      · exact Or.inl (Or.inr hm)
    rcases hcases with hold | rfl
    · exact h.kept_write (by simp [hf]) (h.pool_eq ▸ hcells) item hold
    · exact Pool.read_write_self p i hi item

/-- The block goes back to the top of the stack that it came from. -/
theorem step_send_refused (h : Delivers x o s) {i : Nat} {free : List Nat} (hf : o.free = i :: free)
    (hroom : ¬o.waiting.length < m) (item : α) : StepDelivers x o s (.send item) := by
  have hlist := h.partition.freeList
  rw [hf] at hlist
  obtain ⟨p, hp, _, _, hcells⟩ := hlist.alloc_cons
  have hlegal : s.Legal [.allocWith item, .intoIndex i, .fromIndex i, .drop i] := by
    simp [Custody.Legal, Custody.Permits, Custody.perform, Pool.allocWith, hp]
  have hpart := Custody.partition_run h.partition hlegal
  have hrun := Custody.run_refund hp item
  rw [h.pool_eq] at hp hlist
  have hlen : (o.waiting.map Message.index).length = m := by
    have := h.mail.length_le
    simp only [List.length_map] at this ⊢
    omega
  have hfull := h.mail.isFull_iff.mpr hlen
  have hcalls : x.callsOf (.send item) =
      [.allocWith item, .intoIndex i, .fromIndex i, .drop i] := by
    simp [callsOf, hlist.head_eq, hfull]
  have hx : x.perform (.send item) = (.sending .mailboxFull,
      { x with handoff := { x.handoff with pool := (p.write i item).free i } }) := by
    simp [perform, Handoff.send_of_full hp hfull]
  have ho : o.perform m (.send item) = (.sending .mailboxFull, o) := by
    simp [PostOffice.perform, hf, hroom]
  refine .of_eq hcalls hx ho hlegal ?_
  rw [hrun] at hpart ⊢
  refine ⟨rfl, ?_, h.unwritten_eq, h.forgotten_eq, h.written_eq, h.released_perm, h.mail,
    h.held_eq, ?_, h.log_eq⟩
  · -- the stack of free blocks is the one from before, but the freed cell was written
    rw [hf] at hpart ⊢
    exact hpart
  · intro message hm
    rw [Pool.read_free]
    exact h.kept_write (by simp [hf]) (h.pool_eq ▸ hcells) item hm

theorem hold_nothing (h : Delivers x o s) (hw : o.waiting = []) :
    x.handoff.hold = (none, x.handoff) := by
  have he := h.mail.isEmpty_iff.mpr (by rw [hw]; rfl)
  exact Handoff.hold_of_empty he

theorem hold_next (h : Delivers x o s) {message : Message α} {waiting : List (Message α)}
    (hw : o.waiting = message :: waiting) :
    x.handoff.hold = (some message, { x.handoff with mail := x.handoff.mail.pop.2 }) := by
  have hpop : x.handoff.mail.pop.1 = some message.index := by
    rw [h.mail.pop_fst, hw]
    rfl
  have hread := h.kept message (by simp [hw])
  exact Handoff.hold_of_read hpop hread

theorem peek_eq (h : Delivers x o s) :
    x.handoff.mail.peek = (o.waiting.map Message.index).head? := h.mail.peek_eq

theorem mem_released (h : Delivers x o s) {message : Message α} (hm : message ∈ o.waiting) :
    message.index ∈ s.released :=
  h.released_perm.mem_iff.mpr (List.mem_map_of_mem hm)

theorem released_erase (h : Delivers x o s) {message : Message α} {waiting : List (Message α)}
    (hw : o.waiting = message :: waiting) :
    (s.released.erase message.index).Perm (waiting.map Message.index) := by
  have hp := h.released_perm
  rw [hw, List.map_cons] at hp
  simpa using hp.erase message.index

theorem step_receive_nothing (h : Delivers x o s) (hw : o.waiting = []) :
    StepDelivers x o s .receive := by
  have hcalls : x.callsOf .receive = [] := by simp [callsOf, h.peek_eq, hw]
  have hx : x.perform .receive = (.message none, x) := by
    simp [perform, Handoff.receive, h.hold_nothing hw]
  have ho : o.perform m .receive = (.message none, o) := by simp [PostOffice.perform, hw]
  exact .of_eq hcalls hx ho trivial h

theorem step_receive_next (h : Delivers x o s) {message : Message α} {waiting : List (Message α)}
    (hw : o.waiting = message :: waiting) : StepDelivers x o s .receive := by
  have hcalls : x.callsOf .receive =
      [.fromIndex message.index, .get message.index, .dealloc message.index] := by
    simp [callsOf, h.peek_eq, hw]
  have hlegal : s.Legal [.fromIndex message.index, .get message.index, .dealloc message.index] := by
    have : message.index ∈ s.released := h.mem_released (by simp [hw])
    simp [Custody.Legal, Custody.Permits, Custody.perform, this]
  have hpart := Custody.partition_run h.partition hlegal
  have hmail := h.mail.pop_snd
  have hx : x.perform .receive = (.message (some message), { x with handoff := { x.handoff with
      mail := x.handoff.mail.pop.2
      log := x.handoff.log.push message.value
      pool := x.handoff.pool.free message.index } }) := by
    simp [perform, Handoff.receive, h.hold_next hw]
  have ho : o.perform m .receive = (.message (some message), { o with
      free := message.index :: o.free
      waiting
      published := o.published ++ [message.value] }) := by
    simp [PostOffice.perform, hw]
  refine .of_eq hcalls hx ho hlegal ?_
  rw [Custody.run_consume] at hpart ⊢
  refine ⟨?_, hpart, h.unwritten_eq, h.forgotten_eq, h.written_eq, h.released_erase hw, ?_,
    h.held_eq, ?_, ?_⟩
  · exact congrArg (Pool.free · message.index) h.pool_eq
  · simpa [hw] using hmail
  · intro other hm
    rw [Pool.read_free]
    refine h.kept other ?_
    rw [hw, List.cons_append]
    exact List.mem_cons_of_mem _ hm
  · simp [h.log_eq]

theorem step_hold_nothing (h : Delivers x o s) (hw : o.waiting = []) :
    StepDelivers x o s .hold := by
  have hcalls : x.callsOf .hold = [] := by simp [callsOf, h.peek_eq, hw]
  have hx : x.perform .hold = (.message none, x) := by simp [perform, h.hold_nothing hw]
  have ho : o.perform m .hold = (.message none, o) := by simp [PostOffice.perform, hw]
  exact .of_eq hcalls hx ho trivial h

theorem step_hold_next (h : Delivers x o s) {message : Message α} {waiting : List (Message α)}
    (hw : o.waiting = message :: waiting) : StepDelivers x o s .hold := by
  have hcalls : x.callsOf .hold = [.fromIndex message.index, .get message.index] := by
    simp [callsOf, h.peek_eq, hw]
  have hlegal : s.Legal [.fromIndex message.index, .get message.index] := by
    have : message.index ∈ s.released := h.mem_released (by simp [hw])
    simp [Custody.Legal, Custody.Permits, Custody.perform, this]
  have hpart := Custody.partition_run h.partition hlegal
  have hmail := h.mail.pop_snd
  have hx : x.perform .hold = (.message (some message),
      ⟨{ x.handoff with mail := x.handoff.mail.pop.2 }, message.index :: x.held⟩) := by
    simp [perform, h.hold_next hw]
  have ho : o.perform m .hold = (.message (some message),
      { o with waiting, held := message :: o.held }) := by
    simp [PostOffice.perform, hw]
  refine .of_eq hcalls hx ho hlegal ?_
  rw [Custody.run_hold] at hpart ⊢
  refine ⟨h.pool_eq, hpart, h.unwritten_eq, h.forgotten_eq, ?_, h.released_erase hw, ?_, ?_, ?_,
    h.log_eq⟩
  · exact congrArg (message.index :: ·) h.written_eq
  · simpa [hw] using hmail
  · exact congrArg (message.index :: ·) h.held_eq
  · intro other hm
    refine h.kept other ?_
    rw [hw, List.cons_append]
    exact List.perm_middle.mem_iff.mp hm

theorem held_nodup (h : Delivers x o s) : (o.held.map Message.index).Nodup := by
  have hnodup := h.owned_perm.nodup_iff.mp h.partition.owned_nodup
  rw [List.map_append] at hnodup
  exact (List.nodup_append.mp hnodup).2.1

/-- A handle is as good as the message that it was given out with. -/
theorem held_erase (h : Delivers x o s) (i : Nat) :
    (o.held.map Message.index).erase i =
      (o.held.filter fun message => message.index != i).map Message.index := by
  rw [h.held_nodup.erase_eq_filter, List.filter_map]
  rfl

theorem read_held (h : Delivers x o s) {i : Nat} (hi : i ∈ x.held) :
    x.handoff.pool.read i =
      (o.held.find? fun message => message.index == i).map Message.value := by
  rw [h.held_eq] at hi
  obtain ⟨message, hm, rfl⟩ := List.mem_map.mp hi
  cases hfind : o.held.find? fun other => other.index == message.index with
  | none =>
    have := List.find?_eq_none.mp hfind message hm
    simp at this
  | some other =>
    -- no need to know that `other` is `message`: they lie in the same block
    have hindex : other.index = message.index := by simpa using List.find?_some hfind
    rw [← hindex]
    exact h.kept other (List.mem_append_right _ (List.mem_of_find?_eq_some hfind))

theorem step_release (h : Delivers x o s) {i : Nat} (hi : i ∈ x.held) :
    StepDelivers x o s (.release i) := by
  have hlegal : s.Legal [.get i, .dealloc i] := by
    have : i ∈ s.written := by rwa [h.written_eq, ← h.held_eq]
    simp [Custody.Legal, Custody.Permits, Custody.perform, this]
  have hpart := Custody.partition_run h.partition hlegal
  refine ⟨congrArg HandoffReply.value (h.read_held hi), hlegal, ?_⟩
  simp only [callsOf, Custody.run_release] at hpart ⊢
  refine ⟨?_, hpart, h.unwritten_eq, h.forgotten_eq, ?_, h.released_perm, h.mail, ?_, ?_, h.log_eq⟩
  · exact congrArg (Pool.free · i) h.pool_eq
  · exact (congrArg (List.erase · i) h.written_eq).trans (h.held_erase i)
  · exact (congrArg (List.erase · i) h.held_eq).trans (h.held_erase i)
  · intro message hm
    refine h.kept message ?_
    rcases List.mem_append.mp hm with hm | hm
    · exact List.mem_append_left _ hm
    · exact List.mem_append_right _ (List.mem_filter.mp hm).1

theorem step (h : Delivers x o s) {a : HandoffAction α} (ha : x.Permits a) :
    StepDelivers x o s a := by
  cases a with
  | send item =>
    cases hf : o.free with
    | nil => exact h.step_send_exhausted hf item
    | cons i free =>
      by_cases hroom : o.waiting.length < m
      · exact h.step_send_sent hf hroom item
      · exact h.step_send_refused hf hroom item
  | receive =>
    cases hw : o.waiting with
    | nil => exact h.step_receive_nothing hw
    | cons message waiting => exact h.step_receive_next hw
  | hold =>
    cases hw : o.waiting with
    | nil => exact h.step_hold_nothing hw
    | cons message waiting => exact h.step_hold_next hw
  | release i => exact h.step_release ha

theorem run (h : Delivers x o s) {actions : List (HandoffAction α)} (hl : x.Legal actions) :
    (x.run actions).1 = (o.run m actions).1 ∧ s.Legal (x.calls actions) ∧
      Delivers (x.run actions).2 (o.run m actions).2 (s.run (x.calls actions)).2 := by
  induction actions generalizing x o s with
  | nil => exact ⟨rfl, trivial, h⟩
  | cons a rest ih =>
    obtain ⟨hreply, hcalls, hstep⟩ := h.step hl.1
    obtain ⟨hreplies, hlater, hrun⟩ := ih hstep hl.2
    refine ⟨List.cons_eq_cons.mpr ⟨hreply, hreplies⟩, ?_, ?_⟩
    · exact (Custody.legal_append s _ _).mpr ⟨hcalls, hlater⟩
    · rw [calls, Custody.run_append]
      exact hrun

end Delivers

/-- Each message of the post office lies in a block of its own, and no other block is in use. -/
structure InPost (x : Exchange α n m) (o : PostOffice α) : Prop where
  mail_holds : x.handoff.mail.Holds (o.waiting.map Message.index)
  held_eq : x.held = o.held.map Message.index
  freeList : x.handoff.pool.FreeList o.free
  inUse_nodup : ((o.waiting ++ o.held).map Message.index).Nodup
  inUse_iff : ∀ i, i ∈ (o.waiting ++ o.held).map Message.index ↔ i < n ∧ i ∉ o.free
  count_eq : x.handoff.pool.allocationCount = x.handoff.mail.length + x.held.length
  reclaim_ok : ∀ i ∈ o.waiting.map Message.index, x.handoff.pool.reclaim i = .ok i
  read_eq : ∀ message ∈ o.waiting ++ o.held,
    x.handoff.pool.read message.index = some message.value

theorem Delivers.inPost {x : Exchange α n m} {o : PostOffice α} {s : Custody α n}
    (h : Delivers x o s) : InPost x o := by
  have howned := h.owned_perm
  have hiff : ∀ i, i ∈ (o.waiting ++ o.held).map Message.index ↔ i < n ∧ i ∉ o.free := by
    intro i
    rw [← howned.mem_iff]
    exact h.partition.mem_owned_iff i
  refine ⟨h.mail, h.held_eq, h.pool_eq ▸ h.partition.freeList, ?_, hiff, ?_, ?_, h.kept⟩
  · exact howned.nodup_iff.mp h.partition.owned_nodup
  · have hlength := howned.length_eq
    rw [← h.pool_eq, Pool.allocationCount, h.partition.counted, h.mail.length_eq, h.held_eq]
    simpa using hlength
  · intro i hi
    have hn := ((hiff i).mp (by rw [List.map_append]; exact List.mem_append_left _ hi)).1
    rw [Pool.reclaim, if_pos hn]

/-- A run answers as a post office does, and breaks no rule of its pool: no index is taken back that
was not let go before. What was obtained is what was sent first, what is held was obtained, and what
was received is pushed to the log in that order, so that the log records just that. -/
theorem run_delivers {actions : List (HandoffAction α)}
    (hl : (initial : Exchange α n m).Legal actions) :
    let replies := ((initial : Exchange α n m).run actions).1
    let x := ((initial : Exchange α n m).run actions).2
    let o := ((PostOffice.initial n).run m actions).2
    let calls := (initial : Exchange α n m).calls actions
    replies = ((PostOffice.initial n).run m actions).1 ∧ InPost x o ∧
      (Custody.initial : Custody α n).Legal calls ∧
      ((Custody.initial : Custody α n).run calls).2.pool = x.handoff.pool ∧
      gather sentIn actions replies = gather obtainedIn actions replies ++ o.waiting ∧
      (∀ message ∈ o.held, message ∈ gather obtainedIn actions replies) ∧
      x.handoff.log = (gather receivedIn actions replies).foldl Log.push .empty ∧
      x.handoff.log.Records (gather receivedIn actions replies) := by
  intro replies x o calls
  obtain ⟨hreplies, hcalls, hd⟩ := delivers_initial.run hl
  have hwaiting := (PostOffice.initial n).waiting_run (m := m) actions
  have hpublished := (PostOffice.initial n).published_run (m := m) actions
  rw [← hreplies] at hwaiting hpublished
  have hlog : x.handoff.log = (gather receivedIn actions replies).foldl Log.push .empty :=
    hd.log_eq.trans (congrArg (List.foldl Log.push .empty) hpublished)
  refine ⟨hreplies, hd.inPost, hcalls, hd.pool_eq, hwaiting, ?_, hlog, ?_⟩
  · intro message hm
    have := PostOffice.held_run hm
    rw [← hreplies] at this
    exact this
  · rw [hlog]
    exact Log.records_empty.foldl_push (gather receivedIn actions replies)

/-- A full mailbox, a block that is held while its neighbour is used again, and its release. -/
theorem inPost_after_reuse :
    InPost
      ((initial : Exchange Nat 3 1).run
        [.send 5, .send 6, .hold, .send 7, .receive, .send 8, .release 0]).2
      ((PostOffice.initial 3).run 1
        [.send 5, .send 6, .hold, .send 7, .receive, .send 8, .release 0]).2 :=
  (run_delivers (by decide)).2.1

end Exchange

end Nonblocking
