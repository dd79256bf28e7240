import Nonblocking.Queue.Contents
import Nonblocking.Queue.Traffic

/-! # A ring is a bounded list

Every action on a queue is answered as on a list of at most `n` items, and leaves a ring that holds
what the list holds. The consumer never moves the tail, so a constructor may let it act between the
question for room and the append, which goes by the tail from before. -/
namespace Nonblocking

variable {α : Type u} {ε : Type v} {n : Nat}

namespace Queue

theorem tail_consume (q : Queue α n) (a : ConsumerAction) : (q.consume a).2.tail = q.tail := by
  cases a with
  | pop => simp only [consume, pop]; split <;> rfl
  | _ => rfl

theorem tail_consumeAll (q : Queue α n) (actions : List ConsumerAction) :
    (q.consumeAll actions).2.tail = q.tail := by
  induction actions generalizing q with
  | nil => rfl
  | cons a rest ih => exact (ih _).trans (tail_consume q a)

namespace Holds

variable {q : Queue α n} {f : Fifo α n}

theorem consume (h : Holds q f.items) (a : ConsumerAction) :
    (q.consume a).1 = (f.consume a).1 ∧ Holds (q.consume a).2 (f.consume a).2.items := by
  cases a with
  | pop => exact ⟨congrArg ConsumerReply.item h.pop_fst, h.pop_snd⟩
  | peek => exact ⟨congrArg ConsumerReply.item h.peek_eq, h⟩
  | length => exact ⟨congrArg ConsumerReply.number h.length_eq, h⟩
  | isEmpty =>
    refine ⟨congrArg ConsumerReply.flag ?_, h⟩
    rw [Bool.eq_iff_iff, h.isEmpty_iff, List.isEmpty_iff]

theorem consumeAll (h : Holds q f.items) (actions : List ConsumerAction) :
    (q.consumeAll actions).1 = (f.consumeAll actions).1 ∧
      Holds (q.consumeAll actions).2 (f.consumeAll actions).2.items := by
  induction actions generalizing q f with
  | nil => exact ⟨rfl, h⟩
  | cons a rest ih =>
    obtain ⟨hreply, hnext⟩ := h.consume a
    obtain ⟨hreplies, hrest⟩ := ih hnext
    exact ⟨List.cons_eq_cons.mpr ⟨hreply, hreplies⟩, hrest⟩

theorem isFull_eq (h : Holds q f.items) : q.isFull = f.isFull := by
  rw [Bool.eq_iff_iff, h.isFull_iff, Fifo.isFull, beq_iff_eq]

theorem push (h : Holds q f.items) (item : α) :
    (q.push item).1 = (f.push item).1 ∧ Holds (q.push item).2 (f.push item).2.items := by
  have hfst := h.push_fst item
  have hsnd := h.push_snd item
  unfold Fifo.push
  by_cases hr : f.items.length < n
  · rw [dif_pos hr]
    rw [if_pos hr] at hsnd
    exact ⟨by simpa [hr] using hfst, hsnd⟩
  · rw [dif_neg hr]
    rw [if_neg hr] at hsnd
    exact ⟨by simpa [hr] using hfst, hsnd⟩

end Holds

end Queue

namespace Fifo

theorem length_consume_le (f : Fifo α n) (a : ConsumerAction) :
    (f.consume a).2.items.length ≤ f.items.length := by
  cases a with
  | pop => simp [consume]
  | _ => exact Nat.le_refl _

theorem length_consumeAll_le (f : Fifo α n) (actions : List ConsumerAction) :
    (f.consumeAll actions).2.items.length ≤ f.items.length := by
  induction actions generalizing f with
  | nil => exact Nat.le_refl _
  | cons a rest ih => exact Nat.le_trans (ih _) (f.length_consume_le a)

theorem lt_of_not_isFull (f : Fifo α n) (hf : ¬f.isFull = true) : f.items.length < n := by
  have := f.length_le
  simp only [isFull, beq_iff_eq] at hf
  omega

theorem room_after_consumeAll (f : Fifo α n) (hf : ¬f.isFull = true)
    (actions : List ConsumerAction) : (f.consumeAll actions).2.items.length < n :=
  Nat.lt_of_le_of_lt (f.length_consumeAll_le actions) (f.lt_of_not_isFull hf)

theorem items_push (f : Fifo α n) (hr : f.items.length < n) (item : α) :
    (f.push item).2.items = f.items ++ [item] := by
  rw [push, dif_pos hr]

end Fifo

namespace Queue.Holds

variable {q : Queue α n} {f : Fifo α n}

theorem pushWith (h : Holds q f.items) (inner : List ConsumerAction) (outcome : Except ε α) :
    (q.pushWith (constructing inner outcome)).1 = (f.pushWith inner outcome).1 ∧
      Holds (q.pushWith (constructing inner outcome)).2 (f.pushWith inner outcome).2.items := by
  obtain ⟨hreplies, hinner⟩ := h.consumeAll inner
  have htail := tail_consumeAll q inner
  unfold Queue.pushWith Fifo.pushWith
  rw [h.isFull_eq]
  by_cases hf : f.isFull = true
  · rw [if_pos hf, if_pos hf]
    exact ⟨rfl, h⟩
  · rw [if_neg hf, if_neg hf]
    cases outcome with
    | error e => exact ⟨rfl, hinner⟩
    | ok item =>
      have hroom := f.room_after_consumeAll hf inner
      have hpub := hinner.publish hroom item
      -- the item is written at the tail from before `inner`, which is still the tail
      rw [htail, ← Fifo.items_push _ hroom] at hpub
      refine ⟨?_, hpub⟩
      simp only [constructing, hreplies]
      rfl

theorem act (h : Holds q f.items) (a : QueueAction α ε) :
    (q.act a).1 = (f.act a).1 ∧ Holds (q.act a).2 (f.act a).2.items := by
  cases a with
  | consume action =>
    obtain ⟨hreply, hnext⟩ := h.consume action
    exact ⟨congrArg QueueReply.consumed hreply, hnext⟩
  | push item =>
    obtain ⟨hroom, hnext⟩ := h.push item
    exact ⟨congrArg QueueReply.accepted hroom, hnext⟩
  | pushWith inner outcome =>
    obtain ⟨hresult, hnext⟩ := h.pushWith inner outcome
    exact ⟨congrArg QueueReply.constructed hresult, hnext⟩
  | isFull => exact ⟨congrArg QueueReply.flag h.isFull_eq, h⟩
  | freeSlots => exact ⟨congrArg QueueReply.number h.freeSlots_eq, h⟩
  | clear => exact ⟨congrArg QueueReply.emitted h.clear.2, h.clear.1⟩

theorem traffic (h : Holds q f.items) (actions : List (QueueAction α ε)) :
    (q.traffic actions).1 = (f.traffic actions).1 ∧
      Holds (q.traffic actions).2 (f.traffic actions).2.items := by
  induction actions generalizing q f with
  | nil => exact ⟨rfl, h⟩
  | cons a rest ih =>
    obtain ⟨hreply, hnext⟩ := h.act a
    obtain ⟨hreplies, hrest⟩ := ih hnext
    exact ⟨List.cons_eq_cons.mpr ⟨hreply, hreplies⟩, hrest⟩

end Queue.Holds

/-! ## What goes in comes out -/

def takenItems : List ConsumerAction → List (ConsumerReply α) → List α
  | .pop :: rest, .item value :: replies => value.toList ++ takenItems rest replies
  | _ :: rest, _ :: replies => takenItems rest replies
  | _, _ => []

def acceptedItems : QueueAction α ε → QueueReply α ε → List α
  | .push item, .accepted true => [item]
  | .pushWith _ (.ok item), .constructed (.ok (some _)) => [item]
  | _, _ => []

namespace Fifo

theorem taken_consumeAll (f : Fifo α n) (actions : List ConsumerAction) :
    takenItems actions (f.consumeAll actions).1 ++ (f.consumeAll actions).2.items = f.items := by
  induction actions generalizing f with
  | nil => rfl
  | cons a rest ih =>
    cases a with
    | pop =>
      have hrest := ih (f.consume .pop).2
      simp only [consumeAll, consume, takenItems] at hrest ⊢
      rw [List.append_assoc, hrest]
      cases f.items <;> rfl
    | peek => exact ih f
    | length => exact ih f
    | isEmpty => exact ih f

end Fifo

/-- What was accepted and what was taken, in order, since the queue was last cleared. -/
structure Passage (α : Type u) where
  accepted : List α
  taken : List α

namespace Queue

def taken (q : Queue α n) : QueueAction α ε → List α
  | .consume action => takenItems [action] [(q.consume action).1]
  | .pushWith inner _ => if q.isFull then [] else takenItems inner (q.consumeAll inner).1
  | _ => []

def pass (q : Queue α n) (p : Passage α) : QueueAction α ε → Passage α
  | .clear => ⟨[], []⟩
  | a => ⟨p.accepted ++ acceptedItems a (q.act a).1, p.taken ++ q.taken a⟩

def passage (q : Queue α n) (p : Passage α) : List (QueueAction α ε) → Passage α
  | [] => p
  | a :: rest => (q.act a).2.passage (q.pass p a) rest

namespace Holds

variable {q : Queue α n} {f : Fifo α n}

/-- What an action accepts and takes is the difference that it makes to the list. -/
theorem items_act (h : Holds q f.items) {a : QueueAction α ε} (ha : a ≠ .clear) :
    f.items ++ acceptedItems a (q.act a).1 = q.taken a ++ (f.act a).2.items := by
  have hreply := (h.act a).1
  cases a with
  | consume action =>
    have hreplies := (h.consumeAll [action]).1
    have htaken := f.taken_consumeAll [action]
    rw [← hreplies] at htaken
    simp only [acceptedItems, List.append_nil]
    exact htaken.symm
  | push item =>
    rw [hreply]
    by_cases hr : f.items.length < n
    · simp [Fifo.act, Fifo.push, hr, acceptedItems, Queue.taken]
    · simp [Fifo.act, Fifo.push, hr, acceptedItems, Queue.taken]
  | pushWith inner outcome =>
    have hreplies := (h.consumeAll inner).1
    have htaken := f.taken_consumeAll inner
    rw [hreply]
    simp only [Fifo.act, Fifo.pushWith, Queue.taken, h.isFull_eq]
    by_cases hf : f.isFull = true
    · simp [hf, acceptedItems]
    · have hr := f.room_after_consumeAll hf inner
      rw [if_neg hf, if_neg hf, hreplies]
      cases outcome with
      | error e => simp [acceptedItems, htaken]
      | ok item =>
        simp only [acceptedItems, Fifo.items_push _ hr]
        rw [← List.append_assoc, htaken]
  | isFull => simp [acceptedItems, Queue.taken, Fifo.act]
  | freeSlots => simp [acceptedItems, Queue.taken, Fifo.act]
  | clear => contradiction

theorem pass (h : Holds q f.items) {p : Passage α} (hp : p.taken ++ f.items = p.accepted)
    (a : QueueAction α ε) :
    (q.pass p a).taken ++ (f.act a).2.items = (q.pass p a).accepted := by
  by_cases ha : a = .clear
  · subst ha
    rfl
  · have hitems := h.items_act ha
    have hpass : q.pass p a =
        ⟨p.accepted ++ acceptedItems a (q.act a).1, p.taken ++ q.taken a⟩ := by
      cases a <;> first | rfl | contradiction
    rw [hpass]
    calc p.taken ++ q.taken a ++ (f.act a).2.items
        = p.taken ++ (f.items ++ acceptedItems a (q.act a).1) := by rw [List.append_assoc, hitems]
      _ = p.accepted ++ acceptedItems a (q.act a).1 := by rw [← List.append_assoc, hp]

theorem passage (h : Holds q f.items) {p : Passage α} (hp : p.taken ++ f.items = p.accepted)
    (actions : List (QueueAction α ε)) :
    (q.passage p actions).taken ++ (f.traffic actions).2.items =
      (q.passage p actions).accepted := by
  induction actions generalizing q f p with
  | nil => exact hp
  | cons a rest ih => exact ih (h.act a).2 (h.pass hp a)

theorem push_full (h : Holds q f.items) (hf : f.items.length = n) (item : α) :
    q.push item = (false, q) := by
  rw [Queue.push, if_pos (h.isFull_iff.mpr hf)]

theorem pushWith_full {ρ : Type w} (h : Holds q f.items) (hf : f.items.length = n)
    (make : Queue α n → Except ε (α × ρ) × Queue α n) : q.pushWith make = (.ok none, q) := by
  rw [Queue.pushWith, if_pos (h.isFull_iff.mpr hf)]

end Holds

/-- Any traffic on a queue, wherever on the ring it has got to, is answered as by a list of at most
`n` items. A full queue is left untouched by a push, and what was taken since the last clear,
followed by what is left, is what was accepted. -/
theorem traffic_refines_fifo (actions : List (QueueAction α ε)) :
    let q := ((empty : Queue α n).traffic actions).2
    let f := ((Fifo.empty : Fifo α n).traffic actions).2
    let p := (empty : Queue α n).passage ⟨[], []⟩ actions
    ((empty : Queue α n).traffic actions).1 = ((Fifo.empty : Fifo α n).traffic actions).1 ∧
      q.Holds f.items ∧
      (f.items.length = n → (∀ item, q.push item = (false, q)) ∧
        ∀ make : Queue α n → Except ε (α × List (ConsumerReply α)) × Queue α n,
          q.pushWith make = (.ok none, q)) ∧
      p.taken ++ f.items = p.accepted := by
  have hempty : (empty : Queue α n).Holds (Fifo.empty : Fifo α n).items := holds_empty
  obtain ⟨hreplies, hholds⟩ := hempty.traffic actions
  refine ⟨hreplies, hholds, fun hf => ⟨?_, ?_⟩, hempty.passage rfl actions⟩
  · exact fun item => hholds.push_full hf item
  · exact fun make => hholds.pushWith_full hf make

end Queue

end Nonblocking
