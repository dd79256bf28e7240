import Nonblocking.Proofs.Queue.Fifo
import Nonblocking.Queue.Construction

/-! # A push outlasts its constructor

The consumer may act between the question for room and the append. It cannot spoil the answer, for
it only makes room, nor the slot that was chosen, for it never moves the tail. -/
namespace Nonblocking

variable {α : Type u} {ε : Type v} {n : Nat}

namespace Construction

theorem popped_append_items (c : Construction α ε) (f : Fifo α n) :
    (c.runOnList f).talk.popped ++ (c.runOnList f).state.items = f.items := by
  induction c generalizing f with
  | done outcome => rfl
  | ask action next ih =>
    have hrest := ih (f.consume action).1 (f.consume action).2
    cases action with
    | pop =>
      change (f.items.head?.toList ++ _) ++ _ = _
      rw [List.append_assoc]
      refine (congrArg (f.items.head?.toList ++ ·) hrest).trans ?_
      change f.items.head?.toList ++ f.items.tail = f.items
      cases f.items <;> rfl
    | peek => exact hrest
    | length => exact hrest
    | isEmpty => exact hrest

theorem popped_eq_take (c : Construction α ε) (f : Fifo α n) :
    (c.runOnList f).talk.popped = f.items.take (c.runOnList f).talk.popped.length := by
  rw [← c.popped_append_items f, List.take_left]

theorem items_eq_drop (c : Construction α ε) (f : Fifo α n) :
    (c.runOnList f).state.items = f.items.drop (c.runOnList f).talk.popped.length := by
  rw [← c.popped_append_items f, List.drop_left]

theorem length_items_le (c : Construction α ε) (f : Fifo α n) :
    (c.runOnList f).state.items.length ≤ f.items.length := by
  rw [c.items_eq_drop f, List.length_drop]
  exact Nat.sub_le _ _

theorem tail_runOn (c : Construction α ε) (q : Queue α n) :
    (c.runOn q).state.tail = q.tail := by
  induction c generalizing q with
  | done outcome => rfl
  | ask action next ih => exact (ih _ _).trans (q.tail_consume action)

end Construction

namespace Queue

namespace Holds

variable {q : Queue α n} {f : Fifo α n}

/-- A constructor cannot tell a queue from the list that it holds. -/
theorem runOn (h : Holds q f.items) (c : Construction α ε) :
    (c.runOn q).talk = (c.runOnList f).talk ∧ (c.runOn q).outcome = (c.runOnList f).outcome ∧
      Holds (c.runOn q).state (c.runOnList f).state.items := by
  induction c generalizing q f with
  | done outcome => exact ⟨rfl, rfl, h⟩
  | ask action next ih =>
    obtain ⟨hreply, hnext⟩ := h.consume action
    obtain ⟨htalk, houtcome, hstate⟩ := ih (f.consume action).1 hnext
    have hrun : (Construction.ask action next).runOn q =
        let rest := (next (f.consume action).1).runOn (q.consume action).2
        { rest with talk := (action, (f.consume action).1) :: rest.talk } := by
      rw [← hreply]
      rfl
    rw [hrun]
    exact ⟨congrArg ((action, (f.consume action).1) :: ·) htalk, houtcome, hstate⟩

theorem pushWith_done (h : Holds q f.items) (hroom : f.items.length < n) {c : Construction α ε}
    {item : α} (hc : (c.runOnList f).outcome = .ok item) :
    (q.pushWith c.make).1 = .ok (some (c.runOnList f).talk) ∧
      Holds (q.pushWith c.make).2 ((c.runOnList f).state.items ++ [item]) := by
  obtain ⟨htalk, houtcome, hstate⟩ := h.runOn c
  have hfull : ¬q.isFull = true := by
    rw [h.isFull_iff]
    omega
  have hmake : c.make q = (.ok (item, (c.runOnList f).talk), (c.runOn q).state) := by
    simp only [Construction.make, houtcome, hc, htalk]
  have hleft : (c.runOnList f).state.items.length < n :=
    Nat.lt_of_le_of_lt (c.length_items_le f) hroom
  -- the item goes to the tail from before the constructor ran, which is still the tail
  have hpublish := hstate.publish hleft item
  rw [c.tail_runOn q] at hpublish
  rw [Queue.pushWith, if_neg hfull, hmake]
  exact ⟨rfl, hpublish⟩

theorem pushWith_failed (h : Holds q f.items) (hroom : f.items.length < n) {c : Construction α ε}
    {e : ε} (hc : (c.runOnList f).outcome = .error e) :
    (q.pushWith c.make).1 = .error (e, (c.runOnList f).talk) ∧
      Holds (q.pushWith c.make).2 (c.runOnList f).state.items := by
  obtain ⟨htalk, houtcome, hstate⟩ := h.runOn c
  have hfull : ¬q.isFull = true := by
    rw [h.isFull_iff]
    omega
  have hmake : c.make q = (.error (e, (c.runOnList f).talk), (c.runOn q).state) := by
    simp only [Construction.make, houtcome, hc, htalk]
  rw [Queue.pushWith, if_neg hfull, hmake]
  exact ⟨rfl, hstate⟩

end Holds

/-- Whatever is done to the queue from here on is answered as by the list. -/
structure ServesAs (ε : Type v) (q : Queue α n) (items : List α) : Prop where
  holds : q.Holds items
  replies_eq : ∀ actions : List (QueueAction α ε),
    (q.traffic actions).1 = ((⟨items, holds.length_le⟩ : Fifo α n).traffic actions).1

theorem Holds.servesAs {q : Queue α n} {items : List α} (h : Holds q items) :
    ServesAs ε q items := by
  refine ⟨h, fun actions => ?_⟩
  exact (Holds.traffic (f := ⟨items, h.length_le⟩) h actions).1

/-- On a full queue the constructor does not run. Otherwise it runs once: its dialogue is the one
that it has with the list of items, the `k` items that it took are the oldest ones, and the queue is
left with the others, followed by the item if the constructor came to one. -/
theorem pushWith_amid_consumption (before : List (QueueAction α ε)) (c : Construction α ε) :
    let q := ((empty : Queue α n).traffic before).2
    let f := ((Fifo.empty : Fifo α n).traffic before).2
    let made := c.runOnList f
    let k := made.talk.popped.length
    q.ServesAs ε f.items ∧
      (f.items.length = n → q.pushWith c.make = (.ok none, q)) ∧
      (f.items.length < n →
        made.talk.popped = f.items.take k ∧
        match made.outcome with
        | .ok item =>
          (q.pushWith c.make).1 = .ok (some made.talk) ∧
            (q.pushWith c.make).2.ServesAs ε (f.items.drop k ++ [item])
        | .error e =>
          (q.pushWith c.make).1 = .error (e, made.talk) ∧
            (q.pushWith c.make).2.ServesAs ε (f.items.drop k)) := by
  intro q f made k
  have hempty : (empty : Queue α n).Holds (Fifo.empty : Fifo α n).items := holds_empty
  have hholds : q.Holds f.items := (hempty.traffic before).2
  refine ⟨hholds.servesAs, ?_, ?_⟩
  · intro hfull
    exact hholds.pushWith_full hfull c.make
  · intro hroom
    refine ⟨c.popped_eq_take f, ?_⟩
    have hleft : made.state.items = f.items.drop k := c.items_eq_drop f
    cases hc : made.outcome with
    | ok item =>
      obtain ⟨hanswer, hafter⟩ := hholds.pushWith_done hroom hc
      rw [← hleft]
      exact ⟨hanswer, hafter.servesAs⟩
    | error e =>
      obtain ⟨hanswer, hafter⟩ := hholds.pushWith_failed hroom hc
      rw [← hleft]
      exact ⟨hanswer, hafter.servesAs⟩

end Queue

end Nonblocking
