import Nonblocking.Pool.Custody
import Nonblocking.Pool.FreeList

/-! # Free or owned

`Partition s free` says that the links of the pool run through the blocks of `free`, that these and
the owned blocks are all blocks, each once, and that the count is the number of the owned ones. What
an action does to the free blocks is said by `restack`, which knows a stack and no links. -/
namespace Nonblocking.Pool

variable {α : Type u} {n : Nat}

def Action.gives : Action α → Option Nat
  | .discard i | .drop i | .dealloc i => some i
  | _ => none

theorem FreeList.exchange {p : Pool α n} {l : List Nat} (h : FreeList p l) (i j : Nat) :
    FreeList (Custody.exchange p i j) l := by
  unfold Custody.exchange
  split
  · exact (h.write _ _).write _ _
  · exact h

theorem allocated_exchange (p : Pool α n) (i j : Nat) :
    (Custody.exchange p i j).allocated = p.allocated := by
  unfold Custody.exchange
  split <;> rfl

namespace Custody

/-- The free blocks after an action, the next one to be taken first. -/
def restack (n : Nat) (free : List Nat) : Action α → List Nat
  | .alloc | .allocWith _ => free.tail
  | .discard i | .drop i | .dealloc i => i :: free
  | .reset => List.range n
  | _ => free

structure Partition (s : Custody α n) (free : List Nat) : Prop where
  freeList : s.pool.FreeList free
  perm : (free ++ s.owned).Perm (List.range n)
  counted : s.pool.allocated = s.owned.length

namespace Partition

variable {s u : Custody α n} {free : List Nat}

theorem nodup (h : Partition s free) : (free ++ s.owned).Nodup :=
  h.perm.nodup_iff.mpr List.nodup_range

theorem owned_lt (h : Partition s free) {i : Nat} (hi : i ∈ s.owned) : i < n :=
  List.mem_range.mp (h.perm.mem_iff.mp (List.mem_append_right free hi))

theorem owned_nodup (h : Partition s free) : s.owned.Nodup :=
  (List.nodup_append.mp h.nodup).2.1

theorem not_mem_free (h : Partition s free) {i : Nat} (hi : i ∈ s.owned) : i ∉ free := by
  obtain ⟨_, _, hd⟩ := List.nodup_append.mp h.nodup
  exact fun hf => hd i hf i hi rfl

theorem mem_or_mem (h : Partition s free) {i : Nat} (hi : i < n) : i ∈ free ∨ i ∈ s.owned :=
  List.mem_append.mp (h.perm.mem_iff.mpr (List.mem_range.mpr hi))

theorem mem_free_iff (h : Partition s free) (i : Nat) : i ∈ free ↔ i < n ∧ i ∉ s.owned := by
  constructor
  · intro hi
    exact ⟨h.freeList.bound i hi, fun ho => h.not_mem_free ho hi⟩
  · rintro ⟨hi, ho⟩
    exact (h.mem_or_mem hi).resolve_right ho

theorem mem_owned_iff (h : Partition s free) (i : Nat) : i ∈ s.owned ↔ i < n ∧ i ∉ free := by
  constructor
  · intro hi
    exact ⟨h.owned_lt hi, h.not_mem_free hi⟩
  · rintro ⟨hi, hf⟩
    exact (h.mem_or_mem hi).resolve_left hf

theorem length_add (h : Partition s free) : free.length + s.owned.length = n := by
  have := h.perm.length_eq
  simpa using this

theorem alloc_eq_none_iff (h : Partition s free) :
    s.pool.alloc = none ↔ ∀ i < n, i ∈ s.owned := by
  cases free with
  | nil =>
    refine iff_of_true h.freeList.alloc_nil fun i hi => ?_
    exact (h.mem_or_mem hi).resolve_left List.not_mem_nil
  | cons i free =>
    obtain ⟨p, hp, _⟩ := h.freeList.alloc_cons
    refine iff_of_false (by simp [hp]) fun ho => ?_
    have hi : i ∈ i :: free := List.mem_cons_self
    exact h.not_mem_free (ho i (h.freeList.bound i hi)) hi

theorem pass (h : Partition s free) (hf : u.pool.FreeList free)
    (hc : u.pool.allocated = s.pool.allocated) (ho : u.owned.Perm s.owned) : Partition u free where
  freeList := hf
  perm := (ho.append_left free).trans h.perm
  counted := by rw [hc, h.counted, ho.length_eq]

theorem take {i : Nat} (h : Partition s (i :: free)) (hf : u.pool.FreeList free)
    (hc : u.pool.allocated = s.pool.allocated + 1) (ho : u.owned.Perm (i :: s.owned)) :
    Partition u free where
  freeList := hf
  perm := ((ho.append_left free).trans List.perm_middle).trans h.perm
  counted := by rw [hc, h.counted, ho.length_eq, List.length_cons]

theorem give {i : Nat} (h : Partition s free) (hp : u.pool = s.pool.free i)
    (ho : s.owned.Perm (i :: u.owned)) : Partition u (i :: free) where
  freeList := by
    have hi : i ∈ s.owned := ho.mem_iff.mpr List.mem_cons_self
    rw [hp]
    exact h.freeList.free (h.owned_lt hi) (h.not_mem_free hi)
  perm := (List.perm_middle.symm.trans (ho.symm.append_left free)).trans h.perm
  counted := by
    have hl := ho.length_eq
    rw [List.length_cons] at hl
    rw [hp]
    simp only [Pool.free, h.counted, hl]
    omega

end Partition

theorem owned_perm_of_gives {s : Custody α n} {a : Action α} {i : Nat} (ha : s.Permits a)
    (hi : a.gives = some i) :
    s.owned.Perm (i :: (s.perform a).2.owned) ∧ (s.perform a).2.pool = s.pool.free i := by
  cases a <;> simp only [Action.gives, Option.some.injEq, reduceCtorEq] at hi
  all_goals
    subst hi
    refine ⟨?_, rfl⟩
    simp only [perform, owned]
    grind [Permits]

/-- The first free block is what is handed out, with an item or without. -/
theorem takes_first {s : Custody α n} {i : Nat} {free : List Nat}
    (h : s.pool.FreeList (i :: free)) {a : Action α}
    (ha : a = .alloc ∨ ∃ item, a = .allocWith item) :
    (s.perform a).1 = .slot (some i) ∧ (s.perform a).2.owned.Perm (i :: s.owned) ∧
      (s.perform a).2.pool.FreeList free ∧
      (s.perform a).2.pool.allocated = s.pool.allocated + 1 := by
  obtain ⟨p, hp, hf, hc, _⟩ := h.alloc_cons
  rcases ha with rfl | ⟨item, rfl⟩
  · simp only [perform, hp]
    exact ⟨trivial, by simp [owned], hf, hc⟩
  · simp only [perform, allocWith, hp]
    exact ⟨trivial, by simp [owned], hf.write _ _, hc⟩

theorem partition_initial : Partition (initial : Custody α n) (List.range n) :=
  ⟨freeList_empty, by simp [initial, owned], rfl⟩

theorem partition_step {s : Custody α n} {free : List Nat} (h : Partition s free) {a : Action α}
    (ha : s.Permits a) : Partition (s.perform a).2 (restack n free a) := by
  cases a with
  | alloc =>
    cases free with
    | nil => simpa [perform, restack, h.freeList.alloc_nil] using h
    | cons i free =>
      obtain ⟨_, ho, hf, hc⟩ := takes_first h.freeList (.inl rfl)
      exact h.take hf hc ho
  | allocWith item =>
    cases free with
    | nil => simpa [perform, restack, allocWith, h.freeList.alloc_nil] using h
    | cons i free =>
      obtain ⟨_, ho, hf, hc⟩ := takes_first h.freeList (.inr ⟨item, rfl⟩)
      exact h.take hf hc ho
  | write i item =>
    exact h.pass (h.freeList.write _ _) rfl (by simp only [perform, owned]; grind [Permits])
  | writeRaw i item => exact h.pass (h.freeList.write _ _) rfl (.refl _)
  | get i => exact h
  | store i item => exact h.pass (h.freeList.write _ _) rfl (.refl _)
  | swap i j => exact h.pass (h.freeList.exchange _ _) (allocated_exchange _ _ _) (.refl _)
  | discard i =>
    obtain ⟨ho, hp⟩ := owned_perm_of_gives ha rfl
    exact h.give hp ho
  | forget i => exact h.pass h.freeList rfl (by simp only [perform, owned]; grind [Permits])
  | drop i =>
    obtain ⟨ho, hp⟩ := owned_perm_of_gives ha rfl
    exact h.give hp ho
  | dealloc i =>
    obtain ⟨ho, hp⟩ := owned_perm_of_gives ha rfl
    exact h.give hp ho
  | intoIndex i => exact h.pass h.freeList rfl (by simp only [perform, owned]; grind [Permits])
  | fromIndex i => exact h.pass h.freeList rfl (by simp only [perform, owned]; grind [Permits])
  | reset =>
    obtain ⟨hu, hw⟩ := ha
    refine ⟨freeList_reset _, ?_, ?_⟩
    · simp [perform, restack, owned, hu, hw]
    · simp [perform, owned, hu, hw, Pool.reset, Pool.empty]

theorem partition_run {s : Custody α n} {free : List Nat} (h : Partition s free)
    {actions : List (Action α)} (hl : s.Legal actions) :
    Partition (s.run actions).2 (actions.foldl (restack n) free) := by
  induction actions generalizing s free with
  | nil => exact h
  | cons a rest ih => exact ih (partition_step h hl.1) hl.2

theorem reachable_partition {s : Custody α n} (h : Reachable s) : ∃ free, Partition s free := by
  induction h with
  | initial => exact ⟨_, partition_initial⟩
  | step _ ha ih =>
    obtain ⟨free, hf⟩ := ih
    exact ⟨_, partition_step hf ha⟩

theorem alloc_refused_iff (s : Custody α n) :
    (s.perform .alloc).1 = .slot none ↔ s.pool.alloc = none := by
  cases h : s.pool.alloc with
  | none => simp [perform, h]
  | some taken => simp [perform, h]

theorem allocWith_refused_iff (s : Custody α n) (item : α) :
    (s.perform (.allocWith item)).1 = .returned item ↔ s.pool.alloc = none := by
  cases h : s.pool.alloc with
  | none => simp [perform, allocWith, h]
  | some taken => simp [perform, allocWith, h]

/-- An index is answered with only when a free block becomes an owned one. -/
theorem Partition.taken {s : Custody α n} {free : List Nat} (h : Partition s free) {a : Action α}
    {i : Nat} (hi : (s.perform a).1 = .slot (some i)) :
    i ∈ free ∧ (s.perform a).2.owned.Perm (i :: s.owned) := by
  have ha : a = .alloc ∨ ∃ item, a = .allocWith item := by
    cases a with
    | alloc => exact .inl rfl
    | allocWith item => exact .inr ⟨item, rfl⟩
    | _ => cases hi
  cases free with
  | nil =>
    have hnone := h.freeList.alloc_nil
    rcases ha with rfl | ⟨item, rfl⟩
    · simp [perform, hnone] at hi
    · simp [perform, allocWith, hnone] at hi
  | cons first rest =>
    obtain ⟨hreply, ho, _⟩ := takes_first h.freeList ha
    obtain rfl : first = i := by simpa [hreply] using hi
    exact ⟨List.mem_cons_self, ho⟩

/-- Pool and callers agree: on who has which block, and on how many blocks are taken. -/
structure Accounted (s : Custody α n) (free : List Nat) : Prop where
  freeList : s.pool.FreeList free
  mem_free_iff : ∀ i, i ∈ free ↔ i < n ∧ i ∉ s.owned
  owned_nodup : s.owned.Nodup
  owned_lt : ∀ i ∈ s.owned, i < n
  count_eq : s.pool.allocationCount = s.owned.length
  count_le : s.pool.allocationCount ≤ n
  freeCount_eq : s.pool.freeCount = free.length
  alloc_refused : (s.perform .alloc).1 = .slot none ↔ ∀ i < n, i ∈ s.owned
  allocWith_refused :
    ∀ item, (s.perform (.allocWith item)).1 = .returned item ↔ ∀ i < n, i ∈ s.owned
  /-- Only a free block is handed out, and it has an owner from then on. -/
  taken : ∀ a i, (s.perform a).1 = .slot (some i) →
    i ∈ free ∧ (s.perform a).2.owned.Perm (i :: s.owned)
  given : ∀ a i, s.Permits a → a.gives = some i →
    s.owned.Perm (i :: (s.perform a).2.owned)
  count_gives : ∀ a i, s.Permits a → a.gives = some i →
    (s.perform a).2.pool.allocationCount + 1 = s.pool.allocationCount

theorem reachable_free_or_owned {s : Custody α n} (h : Reachable s) : ∃ free, Accounted s free := by
  obtain ⟨free, hf⟩ := reachable_partition h
  have hl := hf.length_add
  refine ⟨free, hf.freeList, hf.mem_free_iff, hf.owned_nodup, fun i hi => hf.owned_lt hi,
    hf.counted, ?_, ?_, ?_, ?_, ?_, ?_, ?_⟩
  · rw [allocationCount, hf.counted]
    omega
  · rw [freeCount, hf.counted]
    omega
  · exact (alloc_refused_iff s).trans hf.alloc_eq_none_iff
  · exact fun item => (allocWith_refused_iff s item).trans hf.alloc_eq_none_iff
  · exact fun a i hi => hf.taken hi
  · exact fun a i ha hi => (owned_perm_of_gives ha hi).1
  · intro a i ha hi
    obtain ⟨ho, hp⟩ := owned_perm_of_gives ha hi
    have hpos := List.length_pos_of_mem (ho.mem_iff.mpr List.mem_cons_self)
    simp only [hp, allocationCount, Pool.free, hf.counted]
    omega

/-- A block forgotten, one let go and one taken after it was given back. -/
theorem accounted_after_leaks :
    ∃ free, Accounted ((initial : Custody Nat 4).run
      [.alloc, .allocWith 7, .alloc, .forget 0, .intoIndex 1, .discard 2, .allocWith 9]).2 free :=
  reachable_free_or_owned (reachable_run .initial (by decide))

end Custody

end Nonblocking.Pool
