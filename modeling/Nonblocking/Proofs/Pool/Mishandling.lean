import Nonblocking.Pool.Mishandling
import Nonblocking.Proofs.Pool.Ownership

/-! # Mistakes are contained

A block that is handed to the wrong pool is dropped on the way out, and the other calls that fail do
so before anything is changed. Each call leads where the one in its place leads, and by induction so
does a run, in which each pool stays one that its own callers could have brought about alone. -/
namespace Nonblocking

namespace Pool.Custody

variable {α : Type u} {n : Nat} {s t : Custody α n} {i : Nat}

/-- Block `i` goes from its holder back to the pool, once, and everything else stays. -/
structure TakesBack (s t : Custody α n) (i : Nat) : Prop where
  freed_once : ∃ free, s.pool.FreeList free ∧ i ∉ free ∧ t.pool.FreeList (i :: free)
  count_eq : t.pool.allocationCount + 1 = s.pool.allocationCount
  cells_eq : t.pool.cells = s.pool.cells
  owned_perm : s.owned.Perm (i :: t.owned)
  not_owned : i ∉ t.owned

theorem takesBack_drop (h : Reachable s) (hi : i ∈ s.written) :
    TakesBack s (s.perform (.drop i)).2 i := by
  obtain ⟨free, hf⟩ := reachable_partition h
  have hafter : Partition (s.perform (.drop i)).2 (i :: free) :=
    partition_step hf (a := .drop i) hi
  have howned : i ∈ s.owned := by simp [owned, hi]
  have hperm : s.owned.Perm (i :: (s.perform (.drop i)).2.owned) := by
    simp only [perform, owned]
    grind
  refine ⟨⟨free, hf.freeList, hf.not_mem_free howned, hafter.freeList⟩, ?_, rfl, hperm, ?_⟩
  · have hlength := hperm.length_eq
    rw [List.length_cons] at hlength
    rw [allocationCount, allocationCount, hafter.counted, hf.counted, hlength]
  · exact fun hmem => hafter.not_mem_free hmem List.mem_cons_self

theorem exhausted_iff (h : Reachable s) : s.Exhausted ↔ s.pool.alloc = none := by
  obtain ⟨free, hf⟩ := reachable_partition h
  exact hf.alloc_eq_none_iff.symm

theorem perform_allocWith_of_exhausted (h : Reachable s) (he : s.Exhausted) (item : α) :
    s.perform (.allocWith item) = (.returned item, s) := by
  have hnone := (exhausted_iff h).mp he
  simp [perform, allocWith, hnone]

theorem exhausted_of_returned (h : Reachable s) {a : Action α} {item : α}
    (hreply : (s.perform a).1 = .returned item) : a = .allocWith item ∧ s.Exhausted := by
  cases a with
  | allocWith given =>
    cases halloc : s.pool.alloc with
    | none =>
      simp only [perform, allocWith, halloc, Reply.returned.injEq] at hreply
      exact ⟨congrArg Action.allocWith hreply, (exhausted_iff h).mpr halloc⟩
    | some taken => simp [perform, allocWith, halloc] at hreply
  | alloc => cases halloc : s.pool.alloc <;> simp [perform, halloc] at hreply
  | _ => cases hreply

end Pool.Custody

namespace Custodies

open Pool (Action Custody Reply)

variable {α : Type u} {n : Nat} {s : Custodies α n} {c : Call α}

theorem perform_act (s : Custodies α n) (side : Side) (a : Action α) :
    s.perform (.act side a) =
      (.ok ((s.on side).perform a).1, s.set side ((s.on side).perform a).2) := rfl

theorem perform_hand (s : Custodies α n) (block : Block) (side : Side) :
    s.perform (.hand block side) =
      (if block.home = side then .ok .nothing else .error .foreignBlock,
        (s.act block.home (.drop block.index)).2) := by
  obtain ⟨home, i⟩ := block
  have hleft : (s.perform (.hand ⟨home, i⟩ side)).2 = (s.act home (.drop i)).2 := by
    cases home <;> rfl
  refine Prod.ext ?_ hleft
  by_cases hhome : home = side
  · simp [perform, Depot.dealloc, hhome, Except.map]
  · simp [perform, Depot.dealloc, hhome, Except.map]

theorem perform_offer_of_lt (s : Custodies α n) (side : Side) {i : Nat} (hi : i < n) :
    s.perform (.offer side i) = s.perform (.act side (.fromIndex i)) := by
  simp [perform, Depot.reclaim, Pool.reclaim, hi, Except.map]

theorem perform_offer_of_le (s : Custodies α n) (side : Side) {i : Nat} (hi : n ≤ i) :
    s.perform (.offer side i) = (.error .indexOutOfRange, s) := by
  simp [perform, Depot.reclaim, Pool.reclaim, Nat.not_lt_of_le hi, Except.map]

def Sound (s : Custodies α n) : Prop := ∀ side, (s.on side).Reachable

theorem sound_initial : (initial : Custodies α n).Sound := by
  intro side
  cases side <;> exact .initial

theorem Sound.act (h : s.Sound) {side : Side} {a : Action α} (ha : (s.on side).Permits a) :
    (s.act side a).2.Sound := by
  intro other
  show ((s.set side ((s.on side).perform a).2).on other).Reachable
  by_cases hside : side = other
  · subst hside
    rw [on_set_self]
    exact .step (h side) ha
  · rw [on_set_of_ne s hside]
    exact h other

theorem Sound.perform (h : s.Sound) (hc : s.Permits c) : (s.perform c).2.Sound := by
  cases c with
  | act side a => exact h.act hc
  | hand block side =>
    rw [perform_hand]
    exact h.act (a := .drop block.index) hc
  | offer side i =>
    rcases Nat.lt_or_ge i n with hi | hi
    · rw [perform_offer_of_lt s side hi]
      have hreleased := hc.resolve_right (Nat.not_le_of_lt hi)
      exact h.act (a := .fromIndex i) hreleased
    · rw [perform_offer_of_le s side hi]
      exact h

theorem Sound.run (h : s.Sound) {calls : List (Call α)} (hl : s.Legal calls) :
    (s.run calls).2.Sound := by
  induction calls generalizing s with
  | nil => exact h
  | cons c rest ih => exact ih (h.perform hl.1) hl.2

/-- The call that is made in the place of `c`, if any, does without failing what `c` did. -/
def Settles (s : Custodies α n) (c : Call α) : Option (Call α) → Prop
  | some better => s.Permits better ∧
      ∃ reply, settled (s.perform c).1 = some reply ∧ s.perform better = (.ok reply, (s.perform c).2)
  | none => settled (s.perform c).1 = none ∧ (s.perform c).2 = s

theorem settles_act {side : Side} {a : Action α} (ha : s.Permits (.act side a))
    (hroom : ∀ item, ((s.on side).perform a).1 ≠ .returned item) :
    s.Settles (.act side a) (some (.act side a)) := by
  refine ⟨ha, ((s.on side).perform a).1, ?_, rfl⟩
  rw [perform_act]
  cases hreply : ((s.on side).perform a).1 with
  | returned item => exact absurd hreply (hroom item)
  | _ => rfl

theorem Sound.mend (h : s.Sound) (hc : s.Permits c) : s.Settles c (s.mend c) := by
  cases c with
  | act side a =>
    cases a with
    | allocWith item =>
      by_cases hexhausted : (s.on side).Exhausted
      · have hperform := Custody.perform_allocWith_of_exhausted (h side) hexhausted item
        rw [Custodies.mend, if_pos hexhausted, Settles, perform_act, hperform, set_on]
        exact ⟨rfl, rfl⟩
      · rw [Custodies.mend, if_neg hexhausted]
        apply settles_act hc
        intro given hreply
        exact hexhausted (Custody.exhausted_of_returned (h side) hreply).2
    | _ =>
      apply settles_act hc
      intro item hreply
      cases (Custody.exhausted_of_returned (h side) hreply).1
  | hand block side =>
    by_cases hhome : block.home = side
    · rw [Custodies.mend, if_pos hhome, Settles, perform_hand, if_pos hhome]
      exact ⟨hc, .nothing, rfl, rfl⟩
    · rw [Custodies.mend, if_neg hhome, Settles, perform_hand, if_neg hhome]
      exact ⟨hc, .nothing, rfl, rfl⟩
  | offer side i =>
    rcases Nat.lt_or_ge i n with hi | hi
    · rw [Custodies.mend, if_pos hi, Settles, perform_offer_of_lt s side hi]
      exact ⟨hc, _, rfl, rfl⟩
    · rw [Custodies.mend, if_neg (Nat.not_lt_of_le hi), Settles, perform_offer_of_le s side hi]
      exact ⟨rfl, rfl⟩

theorem Sound.mended (h : s.Sound) {calls : List (Call α)} (hl : s.Legal calls) :
    s.Legal (s.mended calls) ∧ (s.run (s.mended calls)).2 = (s.run calls).2 ∧
      (s.run (s.mended calls)).1 = ((s.run calls).1.filterMap settled).map .ok := by
  induction calls generalizing s with
  | nil => exact ⟨trivial, rfl, rfl⟩
  | cons c rest ih =>
    -- the calls are mended in the states of the run with the mistakes, which both runs share
    have hmend := h.mend hl.1
    obtain ⟨hlegal, hstate, hreplies⟩ := ih (h.perform hl.1) hl.2
    simp only [Custodies.mended, Custodies.run]
    cases hc : s.mend c with
    | none =>
      rw [hc] at hmend
      obtain ⟨hreply, hsame⟩ := hmend
      rw [List.filterMap_cons_none hreply]
      rw [hsame] at hlegal hstate hreplies ⊢
      exact ⟨hlegal, hstate, hreplies⟩
    | some better =>
      rw [hc] at hmend
      obtain ⟨hpermits, reply, hreply, hperform⟩ := hmend
      rw [List.filterMap_cons_some hreply]
      simp only [Option.toList_some, List.singleton_append, Legal, Custodies.run, hperform]
      refine ⟨⟨hpermits, hlegal⟩, hstate, ?_⟩
      rw [hreplies, List.map_cons]

theorem legal_append {calls more : List (Call α)} (h : s.Legal (calls ++ more)) :
    s.Legal calls ∧ (s.run calls).2.Legal more := by
  induction calls generalizing s with
  | nil => exact ⟨trivial, h⟩
  | cons c rest ih =>
    obtain ⟨hrest, hmore⟩ := ih h.2
    exact ⟨⟨h.1, hrest⟩, hmore⟩

/-- The mistake is reported, and the pool that it was made on is left as it was. A block goes home.
-/
def Contained (s : Custodies α n) : Call α → Prop
  | .act side (.allocWith item) => (s.on side).Exhausted →
      s.perform (.act side (.allocWith item)) = (.ok (.returned item), s)
  | .hand block side => block.home ≠ side →
      let handed := s.perform (.hand block side)
      handed.1 = .error .foreignBlock ∧ handed.2.on side = s.on side ∧
        (s.on block.home).TakesBack (handed.2.on block.home) block.index
  | .offer side i => n ≤ i → s.perform (.offer side i) = (.error .indexOutOfRange, s)
  | _ => True

theorem Sound.contained (h : s.Sound) (hc : s.Permits c) : s.Contained c := by
  cases c with
  | act side a =>
    cases a with
    | allocWith item =>
      intro hexhausted
      have hperform := Custody.perform_allocWith_of_exhausted (h side) hexhausted item
      rw [perform_act, hperform, set_on]
    | _ => trivial
  | hand block side =>
    intro hhome handed
    have hhanded : handed = _ := perform_hand s block side
    rw [if_neg hhome] at hhanded
    rw [hhanded]
    refine ⟨rfl, on_set_of_ne s hhome _, ?_⟩
    show Custody.TakesBack _ ((s.set block.home _).on block.home) _
    rw [on_set_self]
    exact Custody.takesBack_drop (h block.home) hc
  | offer side i =>
    intro hi
    exact perform_offer_of_le s side hi

/-- Each mistake is contained where it is made, and the run with all of them mended leads to the
same two pools and gives the same replies. -/
theorem run_contains_mistakes {calls : List (Call α)}
    (hl : (initial : Custodies α n).Legal calls) :
    let mended := (initial : Custodies α n).mended calls
    (∀ before c after, calls = before ++ c :: after →
      ((initial : Custodies α n).run before).2.Contained c) ∧
    (initial : Custodies α n).Legal mended ∧
    ((initial : Custodies α n).run mended).2 = ((initial : Custodies α n).run calls).2 ∧
    ((initial : Custodies α n).run mended).1 =
      (((initial : Custodies α n).run calls).1.filterMap settled).map .ok ∧
    ((initial : Custodies α n).run calls).2.Sound := by
  intro mended
  obtain ⟨hlegal, hstate, hreplies⟩ := sound_initial.mended hl
  refine ⟨?_, hlegal, hstate, hreplies, sound_initial.run hl⟩
  rintro before c after rfl
  obtain ⟨hbefore, hrest⟩ := legal_append hl
  exact (sound_initial.run hbefore).contained hrest.1

/-- The first pool is exhausted, one of its blocks is handed to the second, and the second is offered
an index that no pool of two blocks has. -/
theorem mistakes_mended_across_pools :
    let calls : List (Call Nat) :=
      [.act .first (.allocWith 7), .act .first (.allocWith 8), .act .first (.allocWith 9),
        .act .second (.allocWith 5), .hand ⟨.first, 0⟩ .second, .offer .second 2,
        .act .first (.allocWith 6)]
    let mended : List (Call Nat) :=
      [.act .first (.allocWith 7), .act .first (.allocWith 8), .act .second (.allocWith 5),
        .act .first (.drop 0), .act .first (.allocWith 6)]
    (initial : Custodies Nat 2).mended calls = mended ∧
      ((initial : Custodies Nat 2).run mended).2 = ((initial : Custodies Nat 2).run calls).2 := by
  intro calls mended
  have hlegal : (initial : Custodies Nat 2).Legal calls := by decide
  have hmended : (initial : Custodies Nat 2).mended calls = mended := by decide
  have hrun := (run_contains_mistakes hlegal).2.2.1
  rw [hmended] at hrun
  exact ⟨hmended, hrun⟩

end Custodies

end Nonblocking
