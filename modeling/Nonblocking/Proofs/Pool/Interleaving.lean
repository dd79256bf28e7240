import Mathlib.Data.List.Basic
import Nonblocking.Pool.Contention
import Nonblocking.Pool.FreeList

/-! # Free, owned or on the way

While blocks are taken and given back in small steps, a block can be off the chain and not counted
yet, or given up and not linked yet. A head that was read earlier may be the head again, although
the chain was another one in between. This does not matter to the givers, and a block that the taker
has seen stays on the chain until the taker itself takes it off, with its link unchanged. -/
namespace Nonblocking.Contention

variable {α : Type u} {κ : Type v} {n : Nat}

def TakerPhase.block : TakerPhase → Option Nat
  | .taken i => some i
  | _ => none

def GiverPhase.block : GiverPhase → Option Nat
  | .holding i | .seen i _ | .linked i _ => some i
  | .idle | .given => none

def returning (s : State α κ n) (givers : List κ) : List Nat :=
  givers.filterMap fun k => (s.giver k).block

def onTheWay (s : State α κ n) (givers : List κ) : List Nat :=
  s.taker.block.toList ++ returning s givers

def TakerPhase.Fresh (p : Pool α n) (free : List Nat) : TakerPhase → Prop
  | .seen head => head ∈ free
  | .ready head successor => head ∈ free ∧ p.link head = successor
  | .idle | .taken _ => True

/-- A block that is given back stays counted until its giver is done. -/
structure Divided (s : State α κ n) (free : List Nat) (busy : List κ) : Prop where
  freeList : s.pool.FreeList free
  busy_nodup : busy.Nodup
  mem_busy_iff : ∀ k, k ∈ busy ↔ s.giver k ≠ .idle
  perm : (free ++ (s.owned ++ onTheWay s busy)).Perm (List.range n)
  counted : s.pool.allocated = s.owned.length + busy.length
  fresh : s.taker.Fresh s.pool free
  linked : ∀ k i head, s.giver k = .linked i head → s.pool.link i = head

theorem divided_initial : Divided (initial : State α κ n) (List.range n) [] where
  freeList := Pool.freeList_empty
  busy_nodup := .nil
  mem_busy_iff := by simp [initial]
  perm := by simp [initial, onTheWay, returning, TakerPhase.block]
  counted := rfl
  fresh := trivial
  linked := by simp [initial]

theorem TakerPhase.Fresh.congr {p q : Pool α n} {free after : List Nat} {phase : TakerPhase}
    (h : phase.Fresh p free) (hsub : ∀ j ∈ free, j ∈ after)
    (hl : ∀ j ∈ free, q.link j = p.link j) : phase.Fresh q after := by
  cases phase with
  | idle => trivial
  | seen head => exact hsub head h
  | ready head successor => exact ⟨hsub head h.1, (hl head h.1).trans h.2⟩
  | taken i => trivial

section

variable [DecidableEq κ]

/-- One giver's block apart from those of the others. -/
theorem returning_perm {s : State α κ n} {givers : List κ} {k : κ} (hk : k ∈ givers) :
    (returning s givers).Perm ((s.giver k).block.toList ++ returning s (givers.erase k)) := by
  have hperm := (List.perm_cons_erase hk).filterMap fun k => (s.giver k).block
  refine hperm.trans (.of_eq ?_)
  cases hb : (s.giver k).block <;> simp [returning, hb]

theorem returning_setGiver_of_notMem {s : State α κ n} {givers : List κ} {k : κ}
    (hk : k ∉ givers) (phase : GiverPhase) :
    returning (setGiver s k phase) givers = returning s givers := by
  refine List.filterMap_congr fun j hj => ?_
  have hjk : j ≠ k := fun h => hk (h ▸ hj)
  simp [setGiver, hjk]

theorem returning_setGiver_perm {s : State α κ n} {givers : List κ} {k : κ} (hn : givers.Nodup)
    (hk : k ∈ givers) (phase : GiverPhase) : (returning (setGiver s k phase) givers).Perm
      (phase.block.toList ++ returning s (givers.erase k)) := by
  have hapart := returning_perm (s := setGiver s k phase) hk
  rw [returning_setGiver_of_notMem hn.not_mem_erase] at hapart
  simpa [setGiver] using hapart

theorem returning_setGiver_of_block {s : State α κ n} {k : κ} {phase : GiverPhase}
    (hb : phase.block = (s.giver k).block) (givers : List κ) :
    returning (setGiver s k phase) givers = returning s givers := by
  refine List.filterMap_congr fun j _ => ?_
  by_cases hj : j = k
  · simp [setGiver, hj, hb]
  · simp [setGiver, hj]

end

namespace Divided

variable {s : State α κ n} {free : List Nat} {busy : List κ}

theorem nodup (h : Divided s free busy) : (free ++ (s.owned ++ onTheWay s busy)).Nodup :=
  h.perm.nodup_iff.mpr List.nodup_range

theorem mem_busy_of_block (h : Divided s free busy) {k : κ} {i : Nat}
    (hk : (s.giver k).block = some i) : k ∈ busy := by
  refine (h.mem_busy_iff k).mpr fun hidle => ?_
  rw [hidle] at hk
  cases hk

theorem mem_returning (h : Divided s free busy) {k : κ} {i : Nat}
    (hk : (s.giver k).block = some i) : i ∈ returning s busy :=
  List.mem_filterMap.mpr ⟨k, h.mem_busy_of_block hk, hk⟩

theorem lt_of_block (h : Divided s free busy) {k : κ} {i : Nat}
    (hk : (s.giver k).block = some i) : i < n := by
  have hi := h.mem_returning hk
  exact List.mem_range.mp (h.perm.mem_iff.mp (by simp [onTheWay, hi]))

theorem notMem_of_block (h : Divided s free busy) {k : κ} {i : Nat}
    (hk : (s.giver k).block = some i) : i ∉ free := by
  intro hf
  obtain ⟨_, _, hd⟩ := List.nodup_append.mp h.nodup
  exact hd i hf i (by simp [onTheWay, h.mem_returning hk]) rfl

/-- The taker goes on, and the pool stays as it is. -/
theorem setTaker (h : Divided s free busy) {phase : TakerPhase} (hb : phase.block = s.taker.block)
    (hf : phase.Fresh s.pool free) : Divided { s with taker := phase } free busy := by
  refine ⟨h.freeList, h.busy_nodup, h.mem_busy_iff, ?_, h.counted, hf, h.linked⟩
  simp only [onTheWay, hb]
  exact h.perm

theorem retake (h : Divided s free busy) (hb : s.taker.block = none) :
    Divided (retake s) free busy := by
  unfold Contention.retake
  split
  · exact h.setTaker hb.symm trivial
  · rename_i head hhead
    have hmem : head ∈ free := List.mem_of_head? (h.freeList.head_eq.symm.trans hhead)
    exact h.setTaker hb.symm hmem

variable [DecidableEq κ]

theorem block_ne (h : Divided s free busy) {j k : κ} (hjk : j ≠ k) {i i' : Nat}
    (hj : (s.giver j).block = some i) (hk : (s.giver k).block = some i') : i ≠ i' := by
  have hapart := returning_perm (s := s) (h.mem_busy_of_block hk)
  have hmem : i ∈ returning s (busy.erase k) :=
    List.mem_filterMap.mpr ⟨j, (List.mem_erase_of_ne hjk).mpr (h.mem_busy_of_block hj), hj⟩
  have hnodup : (returning s busy).Nodup :=
    h.nodup.sublist (by simp only [onTheWay]; grind)
  rw [hk] at hapart
  have hnotMem := (List.nodup_cons.mp (hapart.nodup_iff.mp hnodup)).1
  rintro rfl
  exact hnotMem hmem

theorem mem_busy_setGiver (h : Divided s free busy) {k : κ} {phase : GiverPhase} {after : List κ}
    (hothers : ∀ j, j ≠ k → (j ∈ after ↔ j ∈ busy)) (hk : k ∈ after ↔ phase ≠ .idle) (j : κ) :
    j ∈ after ↔ (setGiver s k phase).giver j ≠ .idle := by
  by_cases hjk : j = k
  · simpa [setGiver, hjk] using hk
  · simpa [setGiver, hjk] using (hothers j hjk).trans (h.mem_busy_iff j)

/-- The blocks that the other givers have linked keep their links. -/
theorem linked_setGiver (h : Divided s free busy) {k : κ} {phase : GiverPhase} {p : Pool α n}
    (hl : ∀ j i, j ≠ k → (s.giver j).block = some i → p.link i = s.pool.link i)
    (hlinked : ∀ i head, phase = .linked i head → p.link i = head) {j : κ} {i : Nat}
    {head : Option Nat} (hj : (setGiver s k phase).giver j = .linked i head) :
    p.link i = head := by
  by_cases hjk : j = k
  · simp only [setGiver, hjk, if_true] at hj
    exact hlinked i head hj
  · simp only [setGiver, hjk, if_false] at hj
    exact (hl j i hjk (by rw [hj]; rfl)).trans (h.linked j i head hj)

/-- A giver goes on with its block. It may set the link of that block and of no other. -/
theorem rephase (h : Divided s free busy) {k : κ} {i : Nat} {phase : GiverPhase} {p : Pool α n}
    (hk : (s.giver k).block = some i) (hb : phase.block = some i)
    (hh : p.head = s.pool.head) (hc : p.allocated = s.pool.allocated)
    (hl : ∀ j, i ≠ j → p.link j = s.pool.link j)
    (hlinked : ∀ head, phase = .linked i head → p.link i = head) :
    Divided { setGiver s k phase with pool := p } free busy := by
  have hfree : ∀ j ∈ free, p.link j = s.pool.link j := by
    intro j hj
    refine hl j ?_
    rintro rfl
    exact h.notMem_of_block hk hj
  refine ⟨h.freeList.congr hh hfree, h.busy_nodup, h.mem_busy_setGiver (fun _ _ => .rfl) ?_, ?_,
    hc.trans h.counted, h.fresh.congr (fun _ hj => hj) hfree,
    fun j i' head => h.linked_setGiver (fun j i' hjk hj => ?_) (fun i' head hphase => ?_)⟩
  · refine iff_of_true (h.mem_busy_of_block hk) fun hidle => ?_
    rw [hidle] at hb
    cases hb
  · have hsame := returning_setGiver_of_block (s := s) (hb.trans hk.symm) busy
    have hperm := h.perm
    rw [onTheWay, ← hsame] at hperm
    exact hperm
  · exact hl i' (h.block_ne hjk hj hk).symm
  · rw [hphase] at hb
    obtain rfl : i' = i := Option.some.inj hb
    exact hlinked head hphase

/-- A giver that has not linked its block for good looks at the head, for the first time or again. -/
theorem reread (h : Divided s free busy) {k : κ} {i : Nat} (hk : (s.giver k).block = some i) :
    Divided (setGiver s k (.seen i s.pool.head)) free busy :=
  h.rephase (p := s.pool) hk rfl rfl rfl (fun _ _ => rfl) (by simp)

theorem step_swapTake (h : Divided s free busy) {head : Nat} {successor : Option Nat}
    (ht : s.taker = .ready head successor) (hhead : s.pool.head = some head) :
    Divided (next s .swapTake) free.tail busy := by
  have hfresh := h.fresh
  rw [ht] at hfresh
  obtain ⟨_, hsuccessor⟩ := hfresh
  have hfirst := h.freeList.head_eq.symm.trans hhead
  cases hf : free with
  | nil => rw [hf] at hfirst; cases hfirst
  | cons first rest =>
    rw [hf] at hfirst
    obtain rfl : first = head := Option.some.inj hfirst
    have hlist := h.freeList
    have hperm := h.perm
    rw [hf] at hlist hperm
    simp only [next, ht, hhead, if_true, List.tail_cons]
    refine ⟨hlist.unlink hsuccessor.symm fun _ _ => rfl, h.busy_nodup, h.mem_busy_iff, ?_,
      h.counted, trivial, h.linked⟩
    simp only [onTheWay, ht, TakerPhase.block, returning] at hperm ⊢
    grind

theorem step_countTake (h : Divided s free busy) {i : Nat} (ht : s.taker = .taken i) :
    Divided (next s .countTake) free busy := by
  have hcounted := h.counted
  have hperm := h.perm
  simp only [next, ht]
  refine ⟨h.freeList.congr rfl fun _ _ => rfl, h.busy_nodup, h.mem_busy_iff, ?_, ?_, trivial,
    h.linked⟩
  · simp only [onTheWay, ht, TakerPhase.block, returning] at hperm ⊢
    grind
  · simp only [List.length_cons]
    omega

theorem step_give (h : Divided s free busy) {k : κ} {i : Nat} (hk : s.giver k = .idle)
    (hi : i ∈ s.owned) : Divided (next s (.give k i)) free (k :: busy) := by
  have hidle : k ∉ busy := fun hbusy => (h.mem_busy_iff k).mp hbusy hk
  have hcounted := h.counted
  have hperm := h.perm
  refine ⟨h.freeList, List.nodup_cons.mpr ⟨hidle, h.busy_nodup⟩,
    h.mem_busy_setGiver (fun j hjk => by simp [hjk]) (by simp), ?_, ?_, h.fresh,
    fun j i' head => h.linked_setGiver (fun _ _ _ _ => rfl) (by simp)⟩
  · have hsame := returning_setGiver_of_notMem (s := s) hidle (.holding i)
    have hreturning : returning (next s (.give k i)) (k :: busy) = i :: returning s busy := by
      rw [← hsame]
      simp [returning, next, setGiver, GiverPhase.block]
    simp only [onTheWay, hreturning] at hperm ⊢
    simp only [next, setGiver]
    grind
  · have hlength := List.length_erase_of_mem hi
    have hpos := List.length_pos_of_mem hi
    simp only [next, setGiver, List.length_cons, hlength]
    omega

theorem step_swapGive (h : Divided s free busy) {k : κ} {i : Nat} {head : Option Nat}
    (hk : s.giver k = .linked i head) (hhead : s.pool.head = head) :
    Divided (next s (.swapGive k)) (i :: free) busy := by
  have hblock : (s.giver k).block = some i := by rw [hk]; rfl
  have hbusy := h.mem_busy_of_block hblock
  have hlink : s.pool.link i = s.pool.head := (h.linked k i head hk).trans hhead.symm
  have hperm := h.perm
  simp only [next, hk, hhead, if_true]
  refine ⟨h.freeList.relink (h.lt_of_block hblock) (h.notMem_of_block hblock) rfl hlink
    fun _ _ => rfl, h.busy_nodup, h.mem_busy_setGiver (fun _ _ => .rfl) (by simp [hbusy]), ?_,
    h.counted, h.fresh.congr (fun j hj => List.mem_cons_of_mem i hj) fun _ _ => rfl,
    fun j i' other => h.linked_setGiver (fun _ _ _ _ => rfl) (by simp)⟩
  have hbefore := returning_perm (s := s) hbusy
  have hafter := returning_setGiver_perm (s := s) h.busy_nodup hbusy .given
  rw [hblock] at hbefore
  simp only [onTheWay, GiverPhase.block] at hperm hafter ⊢
  simp only [setGiver] at hafter ⊢
  grind [returning]

theorem step_countGive (h : Divided s free busy) {k : κ} (hk : s.giver k = .given) :
    Divided (next s (.countGive k)) free (busy.erase k) := by
  have hbusy : k ∈ busy := (h.mem_busy_iff k).mpr (by simp [hk])
  have hcounted := h.counted
  have hperm := h.perm
  have hnotMem : k ∉ busy.erase k := h.busy_nodup.not_mem_erase
  refine ⟨h.freeList.congr rfl fun _ _ => rfl, h.busy_nodup.erase k,
    h.mem_busy_setGiver (fun j hjk => List.mem_erase_of_ne hjk) (by simp [hnotMem]), ?_, ?_,
    h.fresh.congr (fun _ hj => hj) fun _ _ => rfl,
    fun j i' other => h.linked_setGiver (fun _ _ _ _ => rfl) (by simp)⟩
  · have hbefore := returning_perm (s := s) hbusy
    have hsame := returning_setGiver_of_notMem (s := s) hnotMem .idle
    have hreturning : returning (next s (.countGive k)) (busy.erase k) =
      returning s (busy.erase k) := hsame
    rw [hk] at hbefore
    simp only [onTheWay, hreturning] at hperm ⊢
    simp only [next, setGiver, GiverPhase.block] at hbefore ⊢
    grind
  · have hlength := List.length_erase_of_mem hbusy
    have hpos := List.length_pos_of_mem hbusy
    simp only [next, setGiver, hlength]
    omega

theorem step (h : Divided s free busy) {e : Event κ} (he : Enabled s e) :
    ∃ free busy, Divided (next s e) free busy := by
  cases e with
  | take =>
    exact ⟨free, busy, h.retake (by rw [show s.taker = .idle from he]; rfl)⟩
  | readSuccessor =>
    obtain ⟨head, ht⟩ := he
    have hfresh := h.fresh
    rw [ht] at hfresh
    simp only [next, ht]
    exact ⟨free, busy, h.setTaker (by rw [ht]; rfl) ⟨hfresh, rfl⟩⟩
  | swapTake =>
    obtain ⟨head, successor, ht⟩ := he
    by_cases hhead : s.pool.head = some head
    · exact ⟨free.tail, busy, h.step_swapTake ht hhead⟩
    · simp only [next, ht, hhead, if_false]
      exact ⟨free, busy, h.retake (by rw [ht]; rfl)⟩
  | failTake =>
    obtain ⟨head, successor, ht⟩ := he
    exact ⟨free, busy, h.retake (by rw [ht]; rfl)⟩
  | countTake =>
    obtain ⟨i, ht⟩ := he
    exact ⟨free, busy, h.step_countTake ht⟩
  | give k i => exact ⟨free, k :: busy, h.step_give he.1 he.2⟩
  | readHead k =>
    obtain ⟨i, hk⟩ := he
    simp only [next, hk]
    exact ⟨free, busy, h.reread (by rw [hk]; rfl)⟩
  | link k =>
    obtain ⟨i, head, hk⟩ := he
    have hblock : (s.giver k).block = some i := by rw [hk]; rfl
    simp only [next, hk]
    refine ⟨free, busy, h.rephase hblock rfl rfl rfl (fun j hj => link_setLink_of_ne _ hj _) ?_⟩
    intro other hother
    obtain ⟨-, rfl⟩ := GiverPhase.linked.inj hother
    exact link_setLink_self s.pool (h.lt_of_block hblock) head
  | swapGive k =>
    obtain ⟨i, head, hk⟩ := he
    by_cases hhead : s.pool.head = head
    · exact ⟨i :: free, busy, h.step_swapGive hk hhead⟩
    · simp only [next, hk, hhead, if_false]
      exact ⟨free, busy, h.reread (by rw [hk]; rfl)⟩
  | failGive k =>
    obtain ⟨i, head, hk⟩ := he
    simp only [next, hk]
    exact ⟨free, busy, h.reread (by rw [hk]; rfl)⟩
  | countGive k => exact ⟨free, busy.erase k, h.step_countGive he⟩

end Divided

theorem reachable_divided [DecidableEq κ] {s : State α κ n} (h : Reachable s) :
    ∃ free busy, Divided s free busy := by
  induction h with
  | initial => exact ⟨List.range n, [], divided_initial⟩
  | step _ hs ih =>
    obtain ⟨free, busy, hd⟩ := ih
    obtain ⟨he, rfl⟩ := hs
    exact hd.step he

/-! ## The count -/

def uncounted (s : State α κ n) : Nat := s.taker.block.toList.length

def overcounted (s : State α κ n) (givers : List κ) : Nat :=
  givers.countP fun k => s.giver k = .given

theorem length_returning_add {s : State α κ n} {givers : List κ}
    (h : ∀ k ∈ givers, s.giver k ≠ .idle) :
    (returning s givers).length + overcounted s givers = givers.length := by
  induction givers with
  | nil => rfl
  | cons k rest ih =>
    have hrest := ih fun j hj => h j (List.mem_cons_of_mem k hj)
    have hk := h k List.mem_cons_self
    cases hphase : s.giver k with
    | idle => exact absurd hphase hk
    | holding i | seen i head | linked i head | given =>
      simp [returning, overcounted, hphase, GiverPhase.block] at hrest ⊢
      omega

/-- The count is right up to the counting that is still to be done. -/
structure Conserved (s : State α κ n) (free : List Nat) (busy : List κ) : Prop where
  freeList : s.pool.FreeList free
  busy_nodup : busy.Nodup
  mem_busy_iff : ∀ k, k ∈ busy ↔ s.giver k ≠ .idle
  perm : (free ++ (s.owned ++ onTheWay s busy)).Perm (List.range n)
  count_eq : s.pool.allocationCount + uncounted s =
    (s.owned ++ onTheWay s busy).length + overcounted s busy
  /-- The count is there to be counted down. -/
  count_pos : ∀ k, s.giver k = .given → 0 < s.pool.allocationCount
  /-- A swap that would succeed puts the right block at the head. -/
  successor_eq : ∀ head successor, s.taker = .ready head successor → s.pool.head = some head →
    s.pool.link head = successor
  link_eq : ∀ k i head, s.giver k = .linked i head → s.pool.link i = head
  settled : s.taker = .idle → (∀ k, s.giver k = .idle) →
    s.pool.allocationCount = s.owned.length ∧ s.pool.freeCount = free.length

theorem Divided.conserved {s : State α κ n} {free : List Nat} {busy : List κ}
    (h : Divided s free busy) : Conserved s free busy := by
  have hcounted := h.counted
  have hlength := length_returning_add fun k hk => (h.mem_busy_iff k).mp hk
  refine ⟨h.freeList, h.busy_nodup, h.mem_busy_iff, h.perm, ?_, fun k hk => ?_,
    fun head successor ht _ => ?_, h.linked, fun ht hidle => ?_⟩
  · simp only [Pool.allocationCount, uncounted, onTheWay, List.length_append]
    omega
  · have hbusy : k ∈ busy := (h.mem_busy_iff k).mpr (by simp [hk])
    have hpos := List.length_pos_of_mem hbusy
    rw [Pool.allocationCount]
    omega
  · have hfresh := h.fresh
    rw [ht] at hfresh
    exact hfresh.2
  · have hbusy : busy = [] :=
      List.eq_nil_iff_forall_not_mem.mpr fun k hk => (h.mem_busy_iff k).mp hk (hidle k)
    have hall := h.perm.length_eq
    simp only [hbusy, onTheWay, returning, ht, TakerPhase.block, List.filterMap_nil,
      Option.toList_none, List.append_nil, List.length_append, List.length_range,
      List.length_nil] at hall hcounted
    rw [Pool.allocationCount, Pool.freeCount]
    omega

variable [DecidableEq κ]

/-- One context takes, any number give back, and their steps follow each other in any order: no
block gets two owners, and none is lost. -/
theorem reachable_conserves_blocks {s : State α κ n} (h : Reachable s) :
    ∃ free busy, Conserved s free busy := by
  obtain ⟨free, busy, hd⟩ := reachable_divided h
  exact ⟨free, busy, hd.conserved⟩

/-- A head that was read and prepared for is covered by a block that comes back, so the swap fails.
The next one takes that block, whose giver has not counted it down yet. -/
theorem conserved_after_retaking :
    ∃ free busy, Conserved (run (initial : State Nat Bool 2)
      [.take, .readSuccessor, .swapTake, .countTake, .take, .readSuccessor, .give true 0,
        .readHead true, .link true, .failGive true, .link true, .swapGive true, .swapTake,
        .readSuccessor, .swapTake]) free busy := by
  have hl : Legal (initial : State Nat Bool 2)
      [.take, .readSuccessor, .swapTake, .countTake, .take, .readSuccessor, .give true 0,
        .readHead true, .link true, .failGive true, .link true, .swapGive true, .swapTake,
        .readSuccessor, .swapTake] :=
    ⟨rfl, ⟨_, rfl⟩, ⟨_, _, rfl⟩, ⟨_, rfl⟩, rfl, ⟨_, rfl⟩, ⟨rfl, by decide⟩, ⟨_, rfl⟩, ⟨_, _, rfl⟩,
      ⟨_, _, rfl⟩, ⟨_, _, rfl⟩, ⟨_, _, rfl⟩, ⟨_, _, rfl⟩, ⟨_, rfl⟩, ⟨_, _, rfl⟩, trivial⟩
  exact reachable_conserves_blocks (reachable_run .initial hl)

end Nonblocking.Contention
