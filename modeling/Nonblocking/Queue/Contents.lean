import Nonblocking.Queue.Basic

/-! # What a queue holds

`Holds q items` says that `items` lie in the slots from `head` on, around the end of the ring if
need be, and that `tail` is the slot behind the last of them. Then the queue is the list: a push
appends, and a pop takes the first item. -/
namespace Nonblocking.Queue

variable {α : Type u} {n : Nat}

def position (n head k : Nat) : Nat := (head + k) % (n + 1)

structure Holds (q : Queue α n) (items : List α) : Prop where
  head_lt : q.head < n + 1
  length_le : items.length ≤ n
  tail_eq : q.tail = position n q.head items.length
  slot_eq : ∀ k, k < items.length → q.slot (position n q.head k) = items[k]?

theorem position_lt (n head k : Nat) : position n head k < n + 1 := Nat.mod_lt _ (by omega)

theorem position_zero {n head : Nat} (h : head < n + 1) : position n head 0 = head :=
  Nat.mod_eq_of_lt h

theorem position_of_lt {n head k : Nat} (h : head + k < n + 1) : position n head k = head + k :=
  Nat.mod_eq_of_lt h

theorem position_of_ge {n head k : Nat} (hh : head < n + 1) (hk : k < n + 1)
    (h : n + 1 ≤ head + k) : position n head k = head + k - (n + 1) := by
  unfold position
  rw [Nat.mod_eq_sub_mod h, Nat.mod_eq_of_lt (by omega)]

/-- Less than a lap apart, different offsets are different slots. -/
theorem position_injective {n head i j : Nat} (hh : head < n + 1) (hi : i < n + 1)
    (hj : j < n + 1) (h : position n head i = position n head j) : i = j := by
  by_cases h1 : head + i < n + 1 <;> by_cases h2 : head + j < n + 1
  · rw [position_of_lt h1, position_of_lt h2] at h; omega
  · rw [position_of_lt h1, position_of_ge hh hj (by omega)] at h; omega
  · rw [position_of_ge hh hi (by omega), position_of_lt h2] at h; omega
  · rw [position_of_ge hh hi (by omega), position_of_ge hh hj (by omega)] at h; omega

theorem advance_position {n head k : Nat} :
    advance n (position n head k) = position n head (k + 1) := by
  rw [advance_eq_mod (position_lt n head k)]
  simp [position, Nat.add_assoc]

theorem position_advance {n head k : Nat} (h : head < n + 1) :
    position n (advance n head) k = position n head (k + 1) := by
  rw [advance_eq_mod h]
  simp only [position, Nat.mod_add_mod]
  congr 1
  omega

theorem holds_empty : Holds (empty : Queue α n) [] :=
  ⟨by simp [empty], by simp, by simp [empty, position], by simp⟩

namespace Holds

variable {q : Queue α n} {items : List α}

theorem tail_lt (h : Holds q items) : q.tail < n + 1 := h.tail_eq ▸ position_lt _ _ _

theorem length_eq (h : Holds q items) : q.length = items.length := by
  have hh := h.head_lt
  have hl := h.length_le
  unfold length
  rw [h.tail_eq]
  by_cases hw : q.head + items.length < n + 1
  · rw [position_of_lt hw]
    split <;> omega
  · rw [position_of_ge hh (by omega) (by omega)]
    split <;> omega

theorem isEmpty_iff (h : Holds q items) : q.isEmpty = true ↔ items = [] := by
  have hh := h.head_lt
  have hl := h.length_le
  simp only [isEmpty, beq_iff_eq, h.tail_eq]
  constructor
  · intro he
    rw [← position_zero hh, position_zero hh] at he
    have := position_injective hh (by omega) (Nat.zero_lt_succ n) (he.trans (position_zero hh).symm)
    exact List.length_eq_zero_iff.mp this
  · rintro rfl
    exact position_zero hh

theorem isFull_iff (h : Holds q items) : q.isFull = true ↔ items.length = n := by
  have hh := h.head_lt
  have hl := h.length_le
  simp only [isFull, beq_iff_eq, h.tail_eq, advance_position]
  constructor
  · intro he
    rcases Nat.lt_or_ge items.length n with hn | hn
    · have := position_injective hh (by omega) (Nat.zero_lt_succ n)
        (he.trans (position_zero hh).symm)
      omega
    · omega
  · intro he
    rw [he, position, Nat.add_mod_right, Nat.mod_eq_of_lt hh]

theorem freeSlots_eq (h : Holds q items) : q.freeSlots = n - items.length := by
  rw [freeSlots, h.length_eq]

theorem peek_eq (h : Holds q items) : q.peek = items.head? := by
  unfold peek
  split
  · rename_i he
    rw [h.isEmpty_iff.mp he]; rfl
  · rename_i he
    rw [Bool.not_eq_true] at he
    cases hi : items with
    | nil => rw [h.isEmpty_iff.mpr hi] at he; contradiction
    | cons a rest =>
      have := h.slot_eq 0 (by simp [hi])
      rw [position_zero h.head_lt] at this
      simp [this, hi]

theorem pop_fst (h : Holds q items) : q.pop.1 = items.head? := by
  rw [← peek_eq_pop_fst, h.peek_eq]

theorem pop_snd (h : Holds q items) : Holds q.pop.2 items.tail := by
  unfold pop
  split
  · rename_i he
    have hi := h.isEmpty_iff.mp he
    subst hi
    exact h
  · rename_i he
    cases hi : items with
    | nil => rw [h.isEmpty_iff.mpr hi] at he; contradiction
    | cons a rest =>
      subst hi
      have hl := h.length_le
      simp only [List.length_cons] at hl
      refine ⟨advance_lt h.head_lt, by simp; omega, ?_, ?_⟩
      · rw [h.tail_eq]
        simp [position_advance h.head_lt]
      · intro k hk
        have := h.slot_eq (k + 1) (by simpa using hk)
        simpa [position_advance h.head_lt, slot] using this

/-- The head may have moved since the tail was read, as long as the queue still ends there. -/
theorem publish (h : Holds q items) (hr : items.length < n) (item : α) :
    Holds (q.publish q.tail item) (items ++ [item]) := by
  refine ⟨h.head_lt, by simp; omega, ?_, ?_⟩
  · simp only [Queue.publish, List.length_append, List.length_singleton]
    rw [h.tail_eq, advance_position]
  · intro k hk
    simp only [List.length_append, List.length_singleton] at hk
    simp only [slot, Queue.publish]
    by_cases he : k = items.length
    · subst he
      rw [← h.tail_eq]
      simp [h.tail_lt]
    · have hne : q.tail ≠ position n q.head k := by
        rw [h.tail_eq]
        intro hp
        have := position_injective h.head_lt (by omega) (by omega) hp
        omega
      rw [Vector.getElem?_setIfInBounds_ne hne, List.getElem?_append_left (by omega)]
      exact h.slot_eq k (by omega)

theorem push_fst (h : Holds q items) (item : α) :
    (q.push item).1 = decide (items.length < n) := by
  have hl := h.length_le
  unfold push
  split
  · rename_i hf
    have := h.isFull_iff.mp hf
    simp; omega
  · rename_i hf
    have : items.length ≠ n := fun he => hf (h.isFull_iff.mpr he)
    simp; omega

theorem push_snd (h : Holds q items) (item : α) :
    Holds (q.push item).2 (if items.length < n then items ++ [item] else items) := by
  have hl := h.length_le
  unfold push
  split
  · rename_i hf
    rw [if_neg (by have := h.isFull_iff.mp hf; omega)]
    exact h
  · rename_i hf
    have hr : items.length < n := by
      have : items.length ≠ n := fun he => hf (h.isFull_iff.mpr he)
      omega
    rw [if_pos hr]
    exact h.publish hr item

theorem clear (h : Holds q items) :
    Holds q.clear.value [] ∧ q.clear.events = [.queueCleared items.length] := by
  refine ⟨⟨by simp [Queue.clear], by simp, by simp [Queue.clear, position], by simp⟩, ?_⟩
  simp [Queue.clear, h.length_eq]

end Holds

end Nonblocking.Queue
