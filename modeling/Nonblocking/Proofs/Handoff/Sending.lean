import Nonblocking.Proofs.Handoff.Delivery

/-! # A send is done or not done

A send that finds the mailbox full gives its block back by another way than it took it, but to the
same place, so all that is left of it is an item in a free block. With no more blocks than the
mailbox has room for, a full mailbox leaves no block to send. -/
namespace Nonblocking

variable {α : Type u} {n m : Nat}

/-- A block that goes straight back finds its link still set. -/
theorem Pool.free_write_of_alloc {p q : Pool α n} {i : Nat} (h : p.alloc = some (i, q))
    (item : α) : (q.write i item).free i = p.write i item := by
  obtain ⟨head, hhead, heq⟩ := Option.map_eq_some_iff.mp h
  obtain ⟨rfl, rfl⟩ := Prod.mk.inj heq
  have hlinks : p.next.setIfInBounds head (p.link head) = p.next := by
    refine Vector.ext fun j hj => ?_
    by_cases hij : head = j
    · subst hij
      simp [Pool.link, hj]
    · simp [Vector.getElem_setIfInBounds_ne, hij]
  simp [Pool.write, Pool.free, hlinks, hhead]

namespace Handoff

/-- A block that is not `owned` is not read before it is written, so what it holds does not count.
-/
structure Restored (h after : Handoff α n m) (owned : List Nat) : Prop where
  head_eq : after.pool.head = h.pool.head
  link_eq : ∀ i, after.pool.link i = h.pool.link i
  count_eq : after.pool.allocationCount = h.pool.allocationCount
  mail_eq : after.mail = h.mail
  log_eq : after.log = h.log
  read_eq : ∀ i ∈ owned, after.pool.read i = h.pool.read i

/-- Block `i` was the first free one, and its index is now the last in the mailbox. -/
structure Added (h after : Handoff α n m) (free waiting owned : List Nat) (item : α) (i : Nat) :
    Prop where
  first_free : free.head? = some i
  freeList : after.pool.FreeList free.tail
  count_eq : after.pool.allocationCount = h.pool.allocationCount + 1
  mail_holds : after.mail.Holds (waiting ++ [i])
  log_eq : after.log = h.log
  item_eq : after.pool.read i = some item
  read_eq : ∀ j ∈ owned, after.pool.read j = h.pool.read j

theorem send_cases {h : Handoff α n m} {free waiting : List Nat} (hf : h.pool.FreeList free)
    (hm : h.mail.Holds waiting) (item : α) :
    (free = [] ∧ h.send item = (.exhausted, h)) ∨
    (∃ i rest, free = i :: rest ∧ waiting.length = m ∧
      h.send item = (.mailboxFull, { h with pool := h.pool.write i item })) ∨
    (∃ i rest p, free = i :: rest ∧ waiting.length < m ∧ h.pool.alloc = some (i, p) ∧
      h.send item =
        (.sent i, { h with pool := p.write i item, mail := h.mail.publish h.mail.tail i })) := by
  cases free with
  | nil => exact Or.inl ⟨rfl, send_of_exhausted hf.alloc_nil item⟩
  | cons i rest =>
    obtain ⟨p, hp, -⟩ := hf.alloc_cons
    rcases Nat.lt_or_eq_of_le hm.length_le with hroom | hfull
    · have hnot : h.mail.isFull = false := by
        rw [← Bool.not_eq_true, hm.isFull_iff]
        omega
      exact Or.inr (Or.inr ⟨i, rest, p, rfl, hroom, hp, send_of_room hp hnot item⟩)
    · have hsend := send_of_full hp (hm.isFull_iff.mpr hfull) item
      rw [Pool.free_write_of_alloc hp] at hsend
      exact Or.inr (Or.inl ⟨i, rest, rfl, hfull, hsend⟩)

end Handoff

namespace Exchange

structure Shared (x : Exchange α n m) (free waiting : List Nat) : Prop where
  freeList : x.handoff.pool.FreeList free
  mail_holds : x.handoff.mail.Holds waiting
  perm : (free ++ (waiting ++ x.held)).Perm (List.range n)

theorem Delivers.shared {x : Exchange α n m} {o : PostOffice α} {s : Pool.Custody α n}
    (h : Delivers x o s) : Shared x o.free (o.waiting.map Message.index) where
  freeList := h.pool_eq ▸ h.partition.freeList
  mail_holds := h.mail
  perm := by
    have howned := h.owned_perm
    rw [List.map_append, ← h.held_eq] at howned
    exact (howned.symm.append_left o.free).trans h.partition.perm

namespace Shared

variable {x : Exchange α n m} {free waiting : List Nat}

theorem not_owned (h : Shared x free waiting) {i : Nat} (hi : i ∈ free) :
    i ∉ waiting ++ x.held := by
  have hnodup := h.perm.nodup_iff.mpr List.nodup_range
  obtain ⟨_, _, hd⟩ := List.nodup_append.mp hnodup
  exact fun ho => hd i hi i ho rfl

theorem all_owned_iff (h : Shared x free waiting) :
    free = [] ↔ ∀ i < n, i ∈ waiting ++ x.held := by
  constructor
  · rintro rfl i hi
    exact h.perm.mem_iff.mpr (List.mem_range.mpr hi)
  · intro hall
    cases free with
    | nil => rfl
    | cons i rest =>
      have hi : i ∈ i :: rest := List.mem_cons_self
      exact absurd (hall i (h.freeList.bound i hi)) (h.not_owned hi)

/-- A full mailbox takes up as many blocks as it has room for. -/
theorem length_lt (h : Shared x free waiting) {i : Nat} (hi : i ∈ free) :
    waiting.length < n := by
  have hlength := h.perm.length_eq
  have hpos := List.length_pos_of_mem hi
  simp only [List.length_append, List.length_range] at hlength
  omega

theorem read_write (h : Shared x free waiting) {i : Nat} (hi : i ∈ free) {p : Pool α n}
    (hcells : p.cells = x.handoff.pool.cells) (item : α) {j : Nat}
    (hj : j ∈ waiting ++ x.held) : (p.write i item).read j = x.handoff.pool.read j := by
  have hne : i ≠ j := fun he => h.not_owned hi (he ▸ hj)
  rw [Pool.read_write_of_ne p hne, Pool.read_of_cells_eq hcells]

end Shared

/-- The blocks in use are those whose index waits and those that are held. -/
structure AllOrNothing (x : Exchange α n m) (free waiting : List Nat) (item : α) (answer : Sending)
    (after : Handoff α n m) : Prop where
  exhausted_iff : answer = .exhausted ↔ ∀ i < n, i ∈ waiting ++ x.held
  exhausted : answer = .exhausted →
    x.handoff.pool.allocWith item = .error item ∧ after = x.handoff
  full_iff : answer = .mailboxFull ↔
    (∃ i < n, i ∉ waiting ++ x.held) ∧ waiting.length = m
  full : answer = .mailboxFull →
    (∃ i, free.head? = some i ∧ x.handoff.pool.reclaim i = .ok i) ∧
      x.handoff.Restored after (waiting ++ x.held)
  sent_iff : (∃ i, answer = .sent i) ↔
    (∃ i < n, i ∉ waiting ++ x.held) ∧ waiting.length < m
  sent : ∀ i, answer = .sent i →
    x.handoff.Added after free waiting (waiting ++ x.held) item i

namespace Shared

variable {x : Exchange α n m} {free waiting : List Nat}

theorem allOrNothing_exhausted (h : Shared x free waiting) (hf : free = []) (item : α) :
    AllOrNothing x free waiting item .exhausted x.handoff := by
  subst hf
  have hall := h.all_owned_iff.mp rfl
  have hnone : ¬∃ i < n, i ∉ waiting ++ x.held := by
    rintro ⟨i, hi, hnot⟩
    exact hnot (hall i hi)
  have hback : x.handoff.pool.allocWith item = .error item := by
    rw [Pool.allocWith, h.freeList.alloc_nil]
  constructor
  case exhausted_iff => exact iff_of_true rfl hall
  case exhausted => exact fun _ => ⟨hback, rfl⟩
  case full_iff => exact iff_of_false (by simp) fun hs => hnone hs.1
  case full => simp
  case sent_iff => exact iff_of_false (by simp) fun hs => hnone hs.1
  case sent => simp

theorem allOrNothing_full (h : Shared x free waiting) {i : Nat} {rest : List Nat}
    (hf : free = i :: rest) (hlength : waiting.length = m) (item : α) :
    AllOrNothing x free waiting item .mailboxFull
      { x.handoff with pool := x.handoff.pool.write i item } := by
  subst hf
  have hi : i ∈ i :: rest := List.mem_cons_self
  have hn : i < n := h.freeList.bound i hi
  have hnot := h.not_owned hi
  constructor
  case exhausted_iff => exact iff_of_false (by simp) fun hall => hnot (hall i hn)
  case exhausted => simp
  case full_iff => exact iff_of_true rfl ⟨⟨i, hn, hnot⟩, hlength⟩
  case full =>
    refine fun _ => ⟨⟨i, rfl, if_pos hn⟩, ?_⟩
    exact ⟨rfl, fun _ => rfl, rfl, rfl, rfl, fun j hj => h.read_write hi rfl item hj⟩
  case sent_iff => exact iff_of_false (by simp) fun hs => Nat.ne_of_lt hs.2 hlength
  case sent => simp

theorem allOrNothing_sent (h : Shared x free waiting) {i : Nat} {rest : List Nat}
    (hf : free = i :: rest) (hroom : waiting.length < m) {p : Pool α n}
    (hp : x.handoff.pool.alloc = some (i, p)) (item : α) :
    AllOrNothing x free waiting item (.sent i)
      { x.handoff with
        pool := p.write i item
        mail := x.handoff.mail.publish x.handoff.mail.tail i } := by
  subst hf
  have hi : i ∈ i :: rest := List.mem_cons_self
  have hn : i < n := h.freeList.bound i hi
  have hnot := h.not_owned hi
  obtain ⟨q, hq, hrest, hcount, hcells⟩ := h.freeList.alloc_cons
  obtain ⟨-, rfl⟩ := Prod.mk.inj (Option.some.inj (hp.symm.trans hq))
  constructor
  case exhausted_iff => exact iff_of_false (by simp) fun hall => hnot (hall i hn)
  case exhausted => simp
  case full_iff => exact iff_of_false (by simp) fun hs => Nat.ne_of_lt hroom hs.2
  case full => simp
  case sent_iff => exact iff_of_true ⟨i, rfl⟩ ⟨⟨i, hn, hnot⟩, hroom⟩
  case sent =>
    rintro _ ⟨⟩
    constructor
    case first_free => rfl
    case freeList => exact hrest.write i item
    case count_eq => exact hcount
    case mail_holds => exact h.mail_holds.publish hroom i
    case log_eq => rfl
    case item_eq => exact Pool.read_write_self p i hn item
    case read_eq => exact fun j hj => h.read_write hi hcells item hj

theorem allOrNothing (h : Shared x free waiting) (item : α) :
    AllOrNothing x free waiting item (x.handoff.send item).1 (x.handoff.send item).2 := by
  rcases Handoff.send_cases h.freeList h.mail_holds item with
    ⟨hf, hsend⟩ | ⟨i, rest, hf, hlength, hsend⟩ | ⟨i, rest, p, hf, hroom, hp, hsend⟩
  · rw [hsend]
    exact h.allOrNothing_exhausted hf item
  · rw [hsend]
    exact h.allOrNothing_full hf hlength item
  · rw [hsend]
    exact h.allOrNothing_sent hf hroom hp item

theorem send_ne_mailboxFull (h : Shared x free waiting) (hnm : n ≤ m) (item : α) :
    (x.handoff.send item).1 ≠ .mailboxFull := by
  intro hfull
  obtain ⟨⟨i, hi, hnot⟩, hlength⟩ := (h.allOrNothing item).full_iff.mp hfull
  have hfree : i ∈ free ++ (waiting ++ x.held) := h.perm.mem_iff.mpr (List.mem_range.mpr hi)
  have hlt := h.length_lt ((List.mem_append.mp hfree).resolve_right hnot)
  omega

end Shared

theorem Delivers.run_ne_mailboxFull {x : Exchange α n m} {o : PostOffice α}
    {s : Pool.Custody α n} (h : Delivers x o s) (hnm : n ≤ m) {actions : List (HandoffAction α)}
    (hl : x.Legal actions) : HandoffReply.sending .mailboxFull ∉ (x.run actions).1 := by
  induction actions generalizing x o s with
  | nil => exact List.not_mem_nil
  | cons a rest ih =>
    intro hmem
    rcases List.mem_cons.mp hmem with hnow | hlater
    · cases a with
      | send item =>
        exact h.shared.send_ne_mailboxFull hnm item (HandoffReply.sending.inj hnow).symm
      | hold =>
        dsimp only at hnow
        split at hnow <;> cases hnow
      | receive => cases hnow
      | release i => cases hnow
    · exact ih (h.step hl.1).2.2 hl.2 hlater

/-- Whatever a run has come to, the next send is done whole or leaves no trace. With no more blocks
than the mailbox has room for, no send of the run was refused for want of room, and neither is the
next one. -/
theorem run_sends_all_or_nothing {actions : List (HandoffAction α)}
    (hl : (initial : Exchange α n m).Legal actions) (item : α) :
    let x := ((initial : Exchange α n m).run actions).2
    (∃ free waiting, Shared x free waiting ∧
      AllOrNothing x free waiting item (x.handoff.send item).1 (x.handoff.send item).2) ∧
    (n ≤ m → HandoffReply.sending .mailboxFull ∉ ((initial : Exchange α n m).run actions).1 ∧
      (x.handoff.send item).1 ≠ .mailboxFull) := by
  intro x
  have hshared := (delivers_initial.run hl).2.2.shared
  refine ⟨⟨_, _, hshared, hshared.allOrNothing item⟩, fun hnm => ?_⟩
  exact ⟨delivers_initial.run_ne_mailboxFull hnm hl, hshared.send_ne_mailboxFull hnm item⟩

/-- Two blocks and room for one: the second send takes a block, finds no room and gives it back.
With room for two the mailbox has it. -/
theorem given_back_for_want_of_room :
    (∃ free waiting,
      Shared ((initial : Exchange Nat 2 1).run [.send 5]).2 free waiting ∧
      AllOrNothing ((initial : Exchange Nat 2 1).run [.send 5]).2 free waiting 6 .mailboxFull
        (((initial : Exchange Nat 2 1).run [.send 5]).2.handoff.send 6).2) ∧
    (((initial : Exchange Nat 2 2).run [.send 5]).2.handoff.send 6).1 ≠ .mailboxFull :=
  ⟨(run_sends_all_or_nothing (by decide) 6).1,
    ((run_sends_all_or_nothing (by decide) 6).2 (by decide)).2⟩

end Exchange

end Nonblocking
