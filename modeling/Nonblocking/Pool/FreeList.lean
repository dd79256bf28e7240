import Nonblocking.Pool.Basic

/-! # The chain of free blocks

`Chain p start l` says that the links from `start` on lead through the blocks of `l`, in order, and
then end; `FreeList p l` that the chain from the head does, passes no block twice and stays inside
the pool. -/
namespace Nonblocking.Pool

variable {α : Type u} {n : Nat}

inductive Chain (p : Pool α n) : Option Nat → List Nat → Prop
  | nil : Chain p none []
  | cons {i l} : Chain p (p.link i) l → Chain p (some i) (i :: l)

structure FreeList (p : Pool α n) (l : List Nat) : Prop where
  chain : Chain p p.head l
  nodup : l.Nodup
  bound : ∀ i ∈ l, i < n

theorem Chain.congr {p q : Pool α n} {start : Option Nat} {l : List Nat} (h : Chain p start l)
    (he : ∀ i ∈ l, q.link i = p.link i) : Chain q start l := by
  induction h with
  | nil => exact .nil
  | @cons i l _ ih =>
    refine .cons ?_
    rw [he i (by simp)]
    exact ih fun j hj => he j (by simp [hj])

theorem chain_slotAfter (p : Pool α n) (hp : ∀ i, p.link i = slotAfter n i) (k : Nat) :
    ∀ i, i + k = n → Chain p (if i < n then some i else none) (List.range' i k) := by
  induction k with
  | zero =>
    intro i hi
    rw [if_neg (by omega)]
    exact .nil
  | succ k ih =>
    intro i hi
    rw [if_pos (by omega), List.range'_succ]
    refine .cons ?_
    have := ih (i + 1) (by omega)
    rwa [hp i]

theorem freeList_empty : FreeList (empty : Pool α n) (List.range n) := by
  refine ⟨?_, List.nodup_range, by simp⟩
  have := chain_slotAfter (empty : Pool α n) link_empty n 0 (by omega)
  rwa [List.range_eq_range']

theorem freeList_reset (p : Pool α n) : FreeList p.reset.value (List.range n) := by
  have h := freeList_empty (α := α) (n := n)
  exact ⟨h.chain.congr fun _ _ => rfl, h.nodup, h.bound⟩

theorem FreeList.head_eq {p : Pool α n} {l : List Nat} (h : FreeList p l) : p.head = l.head? := by
  have hc := h.chain
  cases he : p.head with
  | none => rw [he] at hc; cases hc; rfl
  | some i => rw [he] at hc; cases hc; rfl

/-- Only the head and the links of free blocks count. -/
theorem FreeList.congr {p q : Pool α n} {l : List Nat} (h : FreeList p l) (hh : q.head = p.head)
    (hl : ∀ j ∈ l, q.link j = p.link j) : FreeList q l :=
  ⟨hh ▸ h.chain.congr hl, h.nodup, h.bound⟩

/-- The first block comes off when its successor becomes the head. -/
theorem FreeList.unlink {p q : Pool α n} {i : Nat} {l : List Nat} (h : FreeList p (i :: l))
    (hh : q.head = p.link i) (hl : ∀ j ∈ l, q.link j = p.link j) : FreeList q l := by
  have hc := h.chain
  rw [h.head_eq] at hc
  cases hc with
  | cons hc =>
    exact ⟨hh ▸ hc.congr hl, (List.nodup_cons.mp h.nodup).2, fun j hj => h.bound j (by simp [hj])⟩

/-- A block that is not free already goes on in front when it is linked to the head. -/
theorem FreeList.relink {p q : Pool α n} {i : Nat} {l : List Nat} (h : FreeList p l) (hi : i < n)
    (hm : i ∉ l) (hh : q.head = some i) (hs : q.link i = p.head)
    (hl : ∀ j ∈ l, q.link j = p.link j) : FreeList q (i :: l) := by
  refine ⟨?_, List.nodup_cons.mpr ⟨hm, h.nodup⟩, ?_⟩
  · rw [hh]
    refine .cons ?_
    rw [hs]
    exact h.chain.congr hl
  · intro j hj
    rcases List.mem_cons.mp hj with rfl | hj
    · exact hi
    · exact h.bound j hj

theorem FreeList.write {p : Pool α n} {l : List Nat} (h : FreeList p l) (i : Nat) (item : α) :
    FreeList (p.write i item) l :=
  h.congr rfl fun _ _ => rfl

theorem FreeList.alloc_nil {p : Pool α n} (h : FreeList p []) : p.alloc = none := by
  rw [alloc_eq_none_iff]
  exact h.head_eq

theorem FreeList.alloc_cons {p : Pool α n} {i : Nat} {l : List Nat} (h : FreeList p (i :: l)) :
    ∃ p', p.alloc = some (i, p') ∧ FreeList p' l ∧ p'.allocated = p.allocated + 1 ∧
      p'.cells = p.cells := by
  refine ⟨{ p with head := p.link i, allocated := p.allocated + 1 }, ?_,
    h.unlink rfl fun _ _ => rfl, rfl, rfl⟩
  simp [alloc, h.head_eq]

theorem FreeList.free {p : Pool α n} {l : List Nat} (h : FreeList p l) {i : Nat} (hi : i < n)
    (hm : i ∉ l) : FreeList (p.free i) (i :: l) := by
  refine h.relink hi hm rfl (link_free_self p i hi) fun j hj => link_free_of_ne p ?_
  rintro rfl
  exact hm hj

end Nonblocking.Pool
