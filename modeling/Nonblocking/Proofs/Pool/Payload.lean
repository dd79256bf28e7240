import Nonblocking.Pool.Ledger
import Nonblocking.Proofs.Pool.Ownership

/-! # A block keeps what was stored through it

`Keeps s g` says that the cells hold what the ledger's blocks carry. It rests on two facts: no two
blocks in use are in the same slot, and what an action writes lies in a slot of its own caller. -/
namespace Nonblocking.Pool

variable {α : Type u} {n : Nat}

def Action.stores : Action α → List Nat
  | .write i _ | .writeRaw i _ | .store i _ => [i]
  | .swap i j => [i, j]
  | _ => []

theorem read_exchange_of_ne (p : Pool α n) {i j k : Nat} (hi : i ≠ k) (hj : j ≠ k) :
    (Custody.exchange p i j).read k = p.read k := by
  unfold Custody.exchange
  split
  · rw [read_write_of_ne _ hj, read_write_of_ne _ hi]
  · rfl

theorem read_exchange {p : Pool α n} {i j : Nat} (hi : i < n) (hj : j < n) (hne : i ≠ j) {x y : α}
    (hx : p.read i = some x) (hy : p.read j = some y) :
    (Custody.exchange p i j).read i = some y ∧ (Custody.exchange p i j).read j = some x := by
  simp only [Custody.exchange, hx, hy]
  constructor
  · rw [read_write_of_ne _ hne.symm, read_write_self _ i hi]
  · rw [read_write_self _ j hj]

/-- Leaves block `j` to its owner. A reset leaves no block to anybody. -/
def Action.Spares (a : Action α) (j : Nat) : Prop :=
  j ∉ a.stores ∧ a.gives ≠ some j ∧ a ≠ .reset

namespace Custody

def inUse (s : Custody α n) : List Nat := s.written ++ s.released

theorem mem_owned_of_inUse {s : Custody α n} {j : Nat} (hj : j ∈ s.inUse) : j ∈ s.owned := by
  simp only [inUse, owned, List.mem_append] at hj ⊢
  exact Or.inl (hj.imp_left Or.inr)

theorem mem_inUse_perform {s : Custody α n} {a : Action α} {j : Nat} (hj : j ∈ s.inUse)
    (hs : a.Spares j) : j ∈ (s.perform a).2.inUse := by
  obtain ⟨_, hgives, hreset⟩ := hs
  simp only [inUse, List.mem_append] at hj ⊢
  cases a with
  | alloc =>
    cases h : s.pool.alloc <;> simpa [perform, h] using hj
  | allocWith item =>
    cases h : s.pool.alloc with
    | none => simpa [perform, allocWith, h] using hj
    | some taken => simpa [perform, allocWith, h] using hj.imp_left Or.inr
  | write i item => exact hj.imp_left (List.mem_cons_of_mem i)
  | drop i | dealloc i =>
    have hne : j ≠ i := by simpa [Action.gives, eq_comm] using hgives
    exact hj.imp_left (List.mem_erase_of_ne hne).mpr
  | intoIndex i =>
    by_cases hne : j = i
    · exact Or.inr (hne ▸ List.mem_cons_self)
    · exact hj.imp (List.mem_erase_of_ne hne).mpr (List.mem_cons_of_mem i)
  | fromIndex i =>
    by_cases hne : j = i
    · exact Or.inl (hne ▸ List.mem_cons_self)
    · exact hj.imp (List.mem_cons_of_mem i) (List.mem_erase_of_ne hne).mpr
  | reset => exact absurd rfl hreset
  | _ => exact hj

theorem pool_of_stores {s : Custody α n} {a : Action α} (ha : a.stores ≠ []) :
    ∃ cells, (s.perform a).2.pool = { s.pool with cells } := by
  cases a with
  | write i item | writeRaw i item | store i item => exact ⟨_, rfl⟩
  | swap i j =>
    simp only [perform, exchange]
    split
    · exact ⟨_, rfl⟩
    · exact ⟨_, rfl⟩
  | _ => exact absurd rfl ha

namespace Partition

variable {s : Custody α n} {free : List Nat}

theorem written_nodup (h : Partition s free) : s.written.Nodup := by
  have hn := h.owned_nodup
  simp only [owned, List.nodup_append] at hn
  exact hn.1.1.2.1

theorem released_nodup (h : Partition s free) : s.released.Nodup := by
  have hn := h.owned_nodup
  simp only [owned, List.nodup_append] at hn
  exact hn.1.2.1

theorem ne_of_unwritten (h : Partition s free) {i j : Nat} (hi : i ∈ s.unwritten)
    (hj : j ∈ s.inUse) : i ≠ j := by
  have hn := h.owned_nodup
  simp only [owned, List.append_assoc] at hn
  rw [← List.append_assoc s.written] at hn
  exact (List.nodup_append.mp hn).2.2 i hi j (List.mem_append_left _ hj)

theorem ne_of_written (h : Partition s free) {i j : Nat} (hi : i ∈ s.written)
    (hj : j ∈ s.released) : i ≠ j := by
  have hn := h.owned_nodup
  simp only [owned, List.nodup_append] at hn
  exact hn.1.2.2 i (List.mem_append_right _ hi) j hj

theorem lt_of_unwritten (h : Partition s free) {i : Nat} (hi : i ∈ s.unwritten) : i < n :=
  h.owned_lt (by simp [owned, hi])

theorem lt_of_written (h : Partition s free) {i : Nat} (hi : i ∈ s.written) : i < n :=
  h.owned_lt (by simp [owned, hi])

/-- Nothing that others do reaches into a block in use. -/
theorem read_perform (h : Partition s free) (a : Action α) {j : Nat} (hj : j ∈ s.owned)
    (hs : j ∉ a.stores) : (s.perform a).2.pool.read j = s.pool.read j := by
  cases a with
  | alloc =>
    simp only [perform]
    cases ha : s.pool.alloc with
    | none => rfl
    | some taken => exact read_of_cells_eq (cells_of_alloc ha) j
  | allocWith item =>
    cases free with
    | nil => simp [perform, allocWith, h.freeList.alloc_nil]
    | cons i free =>
      obtain ⟨p, hp, _, _, hcells⟩ := h.freeList.alloc_cons
      -- the slot that is written was free until now
      have hne : i ≠ j := by
        rintro rfl
        exact h.not_mem_free hj List.mem_cons_self
      simp only [perform, allocWith, hp]
      rw [read_write_of_ne p hne]
      exact read_of_cells_eq hcells j
  | write i item => exact read_write_of_ne _ (Ne.symm (by simpa [Action.stores] using hs)) _
  | writeRaw i item => exact read_write_of_ne _ (Ne.symm (by simpa [Action.stores] using hs)) _
  | store i item => exact read_write_of_ne _ (Ne.symm (by simpa [Action.stores] using hs)) _
  | swap i k =>
    simp only [Action.stores, List.mem_cons, List.not_mem_nil, or_false, not_or] at hs
    exact read_exchange_of_ne _ (Ne.symm hs.1) (Ne.symm hs.2)
  | _ => rfl

end Partition

structure Keeps (s : Custody α n) (g : Ledger α) : Prop where
  partition : Partition s g.free
  unwritten_eq : s.unwritten = g.unwritten
  written_eq : s.written = g.written.map Prod.fst
  released_eq : s.released = g.released.map Prod.fst
  forgotten_eq : s.forgotten = g.forgotten
  kept : ∀ entry ∈ g.written ++ g.released, s.pool.read entry.1 = some entry.2

theorem keeps_initial : Keeps (initial : Custody α n) (Ledger.initial n) where
  partition := partition_initial
  unwritten_eq := rfl
  written_eq := rfl
  released_eq := rfl
  forgotten_eq := rfl
  kept := by simp [Ledger.initial]

namespace Keeps

variable {s : Custody α n} {g : Ledger α} {entry : Nat × α}

theorem mem_written (h : Keeps s g) (he : entry ∈ g.written) : entry.1 ∈ s.written := by
  rw [h.written_eq]
  exact List.mem_map_of_mem he

theorem mem_released (h : Keeps s g) (he : entry ∈ g.released) : entry.1 ∈ s.released := by
  rw [h.released_eq]
  exact List.mem_map_of_mem he

theorem mem_inUse (h : Keeps s g) (he : entry ∈ g.written ++ g.released) :
    entry.1 ∈ s.inUse := by
  rcases List.mem_append.mp he with he | he
  · exact List.mem_append_left _ (h.mem_written he)
  · exact List.mem_append_right _ (h.mem_released he)

theorem lookup_written (h : Keeps s g) {i : Nat} (hi : i ∈ s.written) :
    ∃ item, g.written.lookup i = some item ∧ s.pool.read i = some item := by
  rw [h.written_eq] at hi
  exact Ledger.lookup_of_agree (fun entry he => h.kept entry (List.mem_append_left _ he)) hi

theorem lookup_released (h : Keeps s g) {i : Nat} (hi : i ∈ s.released) :
    ∃ item, g.released.lookup i = some item ∧ s.pool.read i = some item := by
  rw [h.released_eq] at hi
  exact Ledger.lookup_of_agree (fun entry he => h.kept entry (List.mem_append_right _ he)) hi

theorem kept_perform (h : Keeps s g) (a : Action α) (he : entry ∈ g.written ++ g.released)
    (hs : entry.1 ∉ a.stores) : (s.perform a).2.pool.read entry.1 = some entry.2 :=
  (h.partition.read_perform a (mem_owned_of_inUse (h.mem_inUse he)) hs).trans (h.kept entry he)

/-- The ledger's blocks whose entries an action leaves alone or takes away keep what they carry. -/
theorem kept_of_subset (h : Keeps s g) {a : Action α} (hs : a.stores = [])
    {entries : List (Nat × α)} (hsub : entries ⊆ g.written ++ g.released) :
    ∀ entry ∈ entries, (s.perform a).2.pool.read entry.1 = some entry.2 := by
  intro entry he
  exact h.kept_perform a (hsub he) (by rw [hs]; exact List.not_mem_nil)

theorem step_alloc (h : Keeps s g) :
    (s.perform .alloc).1 = (g.perform n .alloc).1 ∧
      Keeps (s.perform .alloc).2 (g.perform n .alloc).2 := by
  have hpart := partition_step h.partition (a := .alloc) trivial
  have hkept := h.kept_of_subset (a := .alloc) rfl (List.Subset.refl _)
  have hlist := h.partition.freeList
  cases hf : g.free with
  | nil =>
    rw [hf] at hlist
    simpa [perform, hlist.alloc_nil, Ledger.perform, hf] using h
  | cons i free =>
    rw [hf] at hlist
    obtain ⟨p, hp, _⟩ := hlist.alloc_cons
    simp only [perform, hp, Ledger.perform, hf] at hpart hkept ⊢
    exact ⟨trivial, hpart, congrArg (i :: ·) h.unwritten_eq, h.written_eq, h.released_eq,
      h.forgotten_eq, hkept⟩

theorem step_allocWith (h : Keeps s g) (item : α) :
    (s.perform (.allocWith item)).1 = (g.perform n (.allocWith item)).1 ∧
      Keeps (s.perform (.allocWith item)).2 (g.perform n (.allocWith item)).2 := by
  have hpart := partition_step h.partition (a := .allocWith item) trivial
  have hkept := h.kept_of_subset (a := .allocWith item) rfl (List.Subset.refl _)
  have hlist := h.partition.freeList
  cases hf : g.free with
  | nil =>
    rw [hf] at hlist
    simpa [perform, allocWith, hlist.alloc_nil, Ledger.perform, hf] using h
  | cons i free =>
    rw [hf] at hlist
    obtain ⟨p, hp, _⟩ := hlist.alloc_cons
    have hi : i < n := hlist.bound i List.mem_cons_self
    simp only [perform, allocWith, hp, Ledger.perform, hf] at hpart hkept ⊢
    refine ⟨trivial, hpart, h.unwritten_eq, congrArg (i :: ·) h.written_eq, h.released_eq,
      h.forgotten_eq, ?_⟩
    intro entry he
    rcases List.mem_cons.mp he with rfl | he
    · exact read_write_self p i hi item
    · exact hkept entry he

theorem keys_nodup (h : Keeps s g) :
    (g.written.map Prod.fst).Nodup ∧ (g.released.map Prod.fst).Nodup := by
  rw [← h.written_eq, ← h.released_eq]
  exact ⟨h.partition.written_nodup, h.partition.released_nodup⟩

theorem written_erase (h : Keeps s g) (i : Nat) :
    s.written.erase i = (Ledger.without i g.written).map Prod.fst := by
  rw [Ledger.keys_without h.keys_nodup.1, h.written_eq]

theorem released_erase (h : Keeps s g) (i : Nat) :
    s.released.erase i = (Ledger.without i g.released).map Prod.fst := by
  rw [Ledger.keys_without h.keys_nodup.2, h.released_eq]

theorem step_write (h : Keeps s g) {i : Nat} (hi : i ∈ s.unwritten) (item : α) :
    Keeps (s.perform (.write i item)).2 (g.perform n (.write i item)).2 where
  partition := partition_step h.partition (a := .write i item) hi
  unwritten_eq := congrArg (List.erase · i) h.unwritten_eq
  written_eq := congrArg (i :: ·) h.written_eq
  released_eq := h.released_eq
  forgotten_eq := h.forgotten_eq
  kept := by
    intro entry he
    rcases List.mem_cons.mp he with rfl | he
    · exact read_write_self _ i (h.partition.lt_of_unwritten hi) item
    · have hne := h.partition.ne_of_unwritten hi (h.mem_inUse he)
      exact h.kept_perform (.write i item) he (by simpa [Action.stores] using hne.symm)

theorem step_writeRaw (h : Keeps s g) {i : Nat} (hi : i ∈ s.unwritten) (item : α) :
    Keeps (s.perform (.writeRaw i item)).2 (g.perform n (.writeRaw i item)).2 where
  partition := partition_step h.partition (a := .writeRaw i item) hi
  unwritten_eq := h.unwritten_eq
  written_eq := h.written_eq
  released_eq := h.released_eq
  forgotten_eq := h.forgotten_eq
  kept := by
    intro entry he
    have hne := h.partition.ne_of_unwritten hi (h.mem_inUse he)
    exact h.kept_perform (.writeRaw i item) he (by simpa [Action.stores] using hne.symm)

theorem step_store (h : Keeps s g) {i : Nat} (hi : i ∈ s.written) (item : α) :
    Keeps (s.perform (.store i item)).2 (g.perform n (.store i item)).2 where
  partition := partition_step h.partition (a := .store i item) hi
  unwritten_eq := h.unwritten_eq
  written_eq := h.written_eq.trans (Ledger.keys_overwrite i item g.written).symm
  released_eq := h.released_eq
  forgotten_eq := h.forgotten_eq
  kept := by
    intro entry he
    rcases List.mem_append.mp he with he | he
    · rcases Ledger.mem_overwrite he with rfl | ⟨he, hne⟩
      · exact read_write_self _ i (h.partition.lt_of_written hi) item
      · exact h.kept_perform (.store i item) (List.mem_append_left _ he)
          (by simpa [Action.stores] using hne)
    · have hne := h.partition.ne_of_written hi (h.mem_released he)
      exact h.kept_perform (.store i item) (List.mem_append_right _ he)
        (by simpa [Action.stores] using hne.symm)

theorem step_swap (h : Keeps s g) {i j : Nat} (hi : i ∈ s.written) (hj : j ∈ s.written)
    (hne : i ≠ j) : Keeps (s.perform (.swap i j)).2 (g.perform n (.swap i j)).2 where
  partition := partition_step h.partition (a := .swap i j) ⟨hi, hj, hne⟩
  unwritten_eq := h.unwritten_eq
  written_eq := h.written_eq.trans (Ledger.keys_exchange i j g.written).symm
  released_eq := h.released_eq
  forgotten_eq := h.forgotten_eq
  kept := by
    obtain ⟨x, hlx, hx⟩ := h.lookup_written hi
    obtain ⟨y, hly, hy⟩ := h.lookup_written hj
    have hafter := read_exchange (h.partition.lt_of_written hi) (h.partition.lt_of_written hj)
      hne hx hy
    intro entry he
    rcases List.mem_append.mp he with he | he
    · rcases Ledger.mem_exchange hlx hly he with rfl | rfl | ⟨he, hi, hj⟩
      · exact hafter.2
      · exact hafter.1
      · exact h.kept_perform (.swap i j) (List.mem_append_left _ he)
          (by simp [Action.stores, hi, hj])
    · have hi := h.partition.ne_of_written hi (h.mem_released he)
      have hj := h.partition.ne_of_written hj (h.mem_released he)
      exact h.kept_perform (.swap i j) (List.mem_append_right _ he)
        (by simp [Action.stores, hi.symm, hj.symm])

theorem step_discard (h : Keeps s g) {i : Nat} (hi : i ∈ s.unwritten) :
    Keeps (s.perform (.discard i)).2 (g.perform n (.discard i)).2 where
  partition := partition_step h.partition (a := .discard i) hi
  unwritten_eq := congrArg (List.erase · i) h.unwritten_eq
  written_eq := h.written_eq
  released_eq := h.released_eq
  forgotten_eq := h.forgotten_eq
  kept := h.kept_of_subset (a := .discard i) rfl (List.Subset.refl _)

theorem step_forget (h : Keeps s g) {i : Nat} (hi : i ∈ s.unwritten) :
    Keeps (s.perform (.forget i)).2 (g.perform n (.forget i)).2 where
  partition := partition_step h.partition (a := .forget i) hi
  unwritten_eq := congrArg (List.erase · i) h.unwritten_eq
  written_eq := h.written_eq
  released_eq := h.released_eq
  forgotten_eq := congrArg (i :: ·) h.forgotten_eq
  kept := h.kept_of_subset (a := .forget i) rfl (List.Subset.refl _)

theorem step_drop (h : Keeps s g) {i : Nat} (hi : i ∈ s.written) :
    Keeps (s.perform (.drop i)).2 (g.perform n (.drop i)).2 where
  partition := partition_step h.partition (a := .drop i) hi
  unwritten_eq := h.unwritten_eq
  written_eq := h.written_erase i
  released_eq := h.released_eq
  forgotten_eq := h.forgotten_eq
  kept := by
    refine h.kept_of_subset (a := .drop i) rfl fun entry he => ?_
    rcases List.mem_append.mp he with he | he
    · exact List.mem_append_left _ (Ledger.mem_without.mp he).1
    · exact List.mem_append_right _ he

theorem step_intoIndex (h : Keeps s g) {i : Nat} (hi : i ∈ s.written) :
    Keeps (s.perform (.intoIndex i)).2 (g.perform n (.intoIndex i)).2 where
  partition := partition_step h.partition (a := .intoIndex i) hi
  unwritten_eq := h.unwritten_eq
  written_eq := h.written_erase i
  released_eq := by
    rw [h.written_eq] at hi
    exact (congrArg (i :: ·) h.released_eq).trans (Ledger.keys_carry h.keys_nodup.1 hi _).symm
  forgotten_eq := h.forgotten_eq
  kept := by
    refine h.kept_of_subset (a := .intoIndex i) rfl fun entry he => ?_
    rcases List.mem_append.mp he with he | he
    · exact List.mem_append_left _ (Ledger.mem_without.mp he).1
    · rcases Ledger.mem_carry.mp he with ⟨he, _⟩ | he
      · exact List.mem_append_left _ he
      · exact List.mem_append_right _ he

theorem step_fromIndex (h : Keeps s g) {i : Nat} (hi : i ∈ s.released) :
    Keeps (s.perform (.fromIndex i)).2 (g.perform n (.fromIndex i)).2 where
  partition := partition_step h.partition (a := .fromIndex i) hi
  unwritten_eq := h.unwritten_eq
  written_eq := by
    rw [h.released_eq] at hi
    exact (congrArg (i :: ·) h.written_eq).trans (Ledger.keys_carry h.keys_nodup.2 hi _).symm
  released_eq := h.released_erase i
  forgotten_eq := h.forgotten_eq
  kept := by
    refine h.kept_of_subset (a := .fromIndex i) rfl fun entry he => ?_
    rcases List.mem_append.mp he with he | he
    · rcases Ledger.mem_carry.mp he with ⟨he, _⟩ | he
      · exact List.mem_append_right _ he
      · exact List.mem_append_left _ he
    · exact List.mem_append_right _ (Ledger.mem_without.mp he).1

theorem step_reset (h : Keeps s g) (hu : s.unwritten = []) (hw : s.written = []) :
    (s.perform .reset).1 = (g.perform n .reset).1 ∧
      Keeps (s.perform .reset).2 (g.perform n .reset).2 := by
  have hpart := partition_step h.partition (a := .reset) ⟨hu, hw⟩
  have hleaked : s.pool.allocated = n - g.free.length := by
    have hlength := h.partition.length_add
    rw [h.partition.counted]
    omega
  have hnone : g.written = [] := by
    rw [h.written_eq] at hw
    exact List.map_eq_nil_iff.mp hw
  constructor
  · simp [perform, Pool.reset, Ledger.perform, hleaked]
  · refine ⟨hpart, h.unwritten_eq, h.written_eq, rfl, rfl, ?_⟩
    intro entry he
    simp [Ledger.perform, hnone] at he

theorem step (h : Keeps s g) {a : Action α} (ha : s.Permits a) :
    (s.perform a).1 = (g.perform n a).1 ∧ Keeps (s.perform a).2 (g.perform n a).2 := by
  cases a with
  | alloc => exact h.step_alloc
  | allocWith item => exact h.step_allocWith item
  | write i item => exact ⟨rfl, h.step_write ha item⟩
  | writeRaw i item => exact ⟨rfl, h.step_writeRaw ha item⟩
  | get i =>
    obtain ⟨item, hlookup, hread⟩ := h.lookup_written ha
    exact ⟨congrArg Reply.item (hread.trans hlookup.symm), h⟩
  | store i item => exact ⟨rfl, h.step_store ha item⟩
  | swap i j => exact ⟨rfl, h.step_swap ha.1 ha.2.1 ha.2.2⟩
  | discard i => exact ⟨rfl, h.step_discard ha⟩
  | forget i => exact ⟨rfl, h.step_forget ha⟩
  | drop i => exact ⟨rfl, h.step_drop ha⟩
  | dealloc i => exact ⟨rfl, h.step_drop ha⟩
  | intoIndex i => exact ⟨rfl, h.step_intoIndex ha⟩
  | fromIndex i =>
    obtain ⟨item, hlookup, hread⟩ := h.lookup_released ha
    exact ⟨congrArg Reply.item (hread.trans hlookup.symm), h.step_fromIndex ha⟩
  | reset => exact h.step_reset ha.1 ha.2

theorem run (h : Keeps s g) {actions : List (Action α)} (hl : s.Legal actions) :
    (s.run actions).1 = (g.run n actions).1 ∧ Keeps (s.run actions).2 (g.run n actions).2 := by
  induction actions generalizing s g with
  | nil => exact ⟨rfl, h⟩
  | cons a rest ih =>
    obtain ⟨hreply, hstep⟩ := h.step hl.1
    obtain ⟨hreplies, hrun⟩ := ih hstep hl.2
    exact ⟨List.cons_eq_cons.mpr ⟨hreply, hreplies⟩, hrun⟩

end Keeps

namespace Partition

variable {s : Custody α n} {free : List Nat} {j : Nat}

/-- However long it takes until its owner turns to it again, a block in use holds what it held. -/
theorem read_run (h : Partition s free) (hj : j ∈ s.inUse) {actions : List (Action α)}
    (hl : s.Legal actions) (hs : ∀ a ∈ actions, a.Spares j) :
    j ∈ (s.run actions).2.inUse ∧ (s.run actions).2.pool.read j = s.pool.read j := by
  induction actions generalizing s free with
  | nil => exact ⟨hj, rfl⟩
  | cons a rest ih =>
    have ha : a.Spares j := hs a List.mem_cons_self
    have hrest : ∀ b ∈ rest, b.Spares j := fun b hb => hs b (List.mem_cons_of_mem a hb)
    obtain ⟨hmem, hread⟩ := ih (partition_step h hl.1) (mem_inUse_perform hj ha) hl.2 hrest
    exact ⟨hmem, hread.trans (h.read_perform a (mem_owned_of_inUse hj) ha.1)⟩

end Partition

structure Intact (s : Custody α n) (g : Ledger α) : Prop where
  written_eq : s.written = g.written.map Prod.fst
  released_eq : s.released = g.released.map Prod.fst
  read_written : ∀ i ∈ s.written, ∃ item,
    g.written.lookup i = some item ∧ s.pool.read i = some item
  read_released : ∀ i ∈ s.released, ∃ item,
    g.released.lookup i = some item ∧ s.pool.read i = some item
  /-- A store changes the cells of the blocks that it is made through, and nothing else. -/
  read_others : ∀ a, ∀ j ∈ s.inUse, j ∉ a.stores →
    (s.perform a).2.pool.read j = s.pool.read j
  links_kept : ∀ a, a.stores ≠ [] → ∃ cells, (s.perform a).2.pool = { s.pool with cells }
  read_later : ∀ later, s.Legal later → ∀ j ∈ s.inUse, (∀ a ∈ later, a.Spares j) →
    j ∈ (s.run later).2.inUse ∧ (s.run later).2.pool.read j = s.pool.read j

theorem Keeps.intact {s : Custody α n} {g : Ledger α} (h : Keeps s g) : Intact s g where
  written_eq := h.written_eq
  released_eq := h.released_eq
  read_written := fun _ hi => h.lookup_written hi
  read_released := fun _ hi => h.lookup_released hi
  read_others := fun a _ hj hs => h.partition.read_perform a (mem_owned_of_inUse hj) hs
  links_kept := fun _ hs => pool_of_stores hs
  read_later := fun _ hl _ hj hs => h.partition.read_run hj hl hs

/-- All that a run reads through its blocks is what the ledger reads, and so it would be if the run
went on. -/
theorem run_keeps_items {actions : List (Action α)} (hl : (initial : Custody α n).Legal actions) :
    ((initial : Custody α n).run actions).1 = ((Ledger.initial n).run n actions).1 ∧
      Intact ((initial : Custody α n).run actions).2 ((Ledger.initial n).run n actions).2 := by
  obtain ⟨hreplies, hkeeps⟩ := keeps_initial.run hl
  exact ⟨hreplies, hkeeps.intact⟩

/-- Two blocks exchange their items, one travels as an index while the other's slot is given back
and taken again. -/
theorem intact_after_travel :
    Intact ((initial : Custody Nat 3).run
        [.allocWith 5, .alloc, .writeRaw 1 9, .write 1 6, .swap 0 1, .store 1 8, .intoIndex 0,
          .drop 1, .allocWith 7, .allocWith 4, .allocWith 3, .store 2 2, .fromIndex 0]).2
      ((Ledger.initial 3).run 3
        [.allocWith 5, .alloc, .writeRaw 1 9, .write 1 6, .swap 0 1, .store 1 8, .intoIndex 0,
          .drop 1, .allocWith 7, .allocWith 4, .allocWith 3, .store 2 2, .fromIndex 0]).2 :=
  (run_keeps_items (by decide)).2

end Custody

end Nonblocking.Pool
