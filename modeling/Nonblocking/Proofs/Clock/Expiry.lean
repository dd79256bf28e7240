import Mathlib.Algebra.BigOperators.Group.Finset.Basic
import Mathlib.Algebra.Order.BigOperators.Group.Finset
import Nonblocking.Proofs.Clock.Decision

/-! # A wait cannot miss its expiry

A clock that moves far enough between two readings can pass over everything that is too late. It
cannot if each advance leaves the timeout out: before it at most `timeout` ticks had elapsed, and
together that is less than a full turn. So what has elapsed is the exact sum of the advances, each
is at least one tick, and after `timeout + 1` of them the sum is too large. -/
namespace Nonblocking.Waiting

variable {σ : Type u} {ε : Type v} {β : Type w}

/-- An attempt that is made and yields nothing is followed by an advance of a tick at least, and of
no more than leaves room for the timeout in the tick range. -/
def Advances (w : Waiting σ ε β) (s : σ) (timeout : Ticks) (advance : Nat → Ticks) : Prop :=
  ∀ k, (∀ j < k, ¬w.Ends s timeout j) → w.result s k = .ok none →
    w.reading s (k + 1) = w.reading s k + advance k ∧ 1 ≤ (advance k).toNat ∧
      (advance k).toNat ≤ maxTicks.toNat - timeout.toNat

variable {w : Waiting σ ε β} {s : σ} {timeout : Ticks} {advance : Nat → Ticks} {k : Nat}

theorem result_of_not_ends (h : ¬w.Ends s timeout k) : w.result s k = .ok none :=
  Classical.not_not.mp (not_or.mp h).1

theorem elapsed_le_of_not_ends (hfinite : timeout ≠ maxTicks) (h : ¬w.Ends s timeout k) :
    (w.elapsed s (k + 1)).toNat ≤ timeout.toNat := by
  apply Nat.le_of_not_lt
  intro hlt
  exact (not_or.mp h).2 ⟨hfinite, UInt64.lt_iff_toNat_lt.mpr hlt⟩

theorem toNat_elapsed_succ (h : w.reading s (k + 1) = w.reading s k + advance k)
    (hfits : (w.elapsed s k).toNat + (advance k).toNat < 2 ^ 64) :
    (w.elapsed s (k + 1)).toNat = (w.elapsed s k).toNat + (advance k).toNat := by
  have hsum : w.elapsed s (k + 1) = w.elapsed s k + advance k := by
    rw [elapsed, elapsed, h]
    grind
  rw [hsum, UInt64.toNat_add, Nat.mod_eq_of_lt hfits]

namespace Advances

theorem fits (h : w.Advances s timeout advance) (hopen : ∀ j < k, ¬w.Ends s timeout j)
    (hresult : w.result s k = .ok none) (hle : (w.elapsed s k).toNat ≤ timeout.toNat) :
    (w.elapsed s k).toNat + (advance k).toNat < 2 ^ 64 := by
  have hadvance := (h k hopen hresult).2.2
  have hmax : maxTicks.toNat + 1 = 2 ^ 64 := rfl
  have htimeout := timeout.toNat_lt
  omega

/-- As long as a wait lasts, what has elapsed is the sum of the advances, and it is in time. -/
theorem elapsed_eq_sum (h : w.Advances s timeout advance) (hfinite : timeout ≠ maxTicks)
    (hopen : ∀ j < k, ¬w.Ends s timeout j) :
    (w.elapsed s k).toNat = ∑ i ∈ Finset.range k, (advance i).toNat ∧
      (w.elapsed s k).toNat ≤ timeout.toNat ∧ k ≤ (w.elapsed s k).toNat := by
  induction k with
  | zero => simp [elapsed]
  | succ k ih =>
    have hbefore : ∀ j < k, ¬w.Ends s timeout j := fun j hj => hopen j (Nat.lt_succ_of_lt hj)
    have hnot := hopen k (Nat.lt_succ_self k)
    have hresult := result_of_not_ends hnot
    obtain ⟨hsum, hle, hcount⟩ := ih hbefore
    obtain ⟨hreading, hpos, _⟩ := h k hbefore hresult
    have hsucc := toNat_elapsed_succ hreading (h.fits hbefore hresult hle)
    refine ⟨?_, elapsed_le_of_not_ends hfinite hnot, ?_⟩
    · rw [hsucc, hsum, Finset.sum_range_succ]
    · omega

/-- One of the first `timeout + 1` attempts ends the wait, or they would take it too far. -/
theorem exists_ends (h : w.Advances s timeout advance) (hfinite : timeout ≠ maxTicks) :
    ∃ k ≤ timeout.toNat, w.Ends s timeout k := by
  by_contra hnone
  have hopen : ∀ j < timeout.toNat + 1, ¬w.Ends s timeout j := by
    intro j hj hends
    exact hnone ⟨j, Nat.le_of_lt_succ hj, hends⟩
  obtain ⟨_, hle, hcount⟩ := h.elapsed_eq_sum hfinite hopen
  omega

theorem elapsed_late (h : w.Advances s timeout advance) (hfinite : timeout ≠ maxTicks)
    (hopen : ∀ j < k, ¬w.Ends s timeout j) (hresult : w.result s k = .ok none) :
    (w.elapsed s (k + 1)).toNat = ∑ i ∈ Finset.range (k + 1), (advance i).toNat ∧
      (w.elapsed s (k + 1)).toNat ≤ timeout.toNat + (advance k).toNat ∧
      ∑ i ∈ Finset.range k, (advance i).toNat ≤ timeout.toNat := by
  obtain ⟨hsum, hle, _⟩ := h.elapsed_eq_sum hfinite hopen
  have hreading := (h k hopen hresult).1
  have hsucc := toNat_elapsed_succ hreading (h.fits hopen hresult hle)
  rw [Finset.sum_range_succ, ← hsum, hsucc]
  exact ⟨rfl, Nat.add_le_add_right hle _, hle⟩

end Advances

/-- A wait with a timeout that can be reached, on a clock that so advances, ends with one of its
first `timeout + 1` attempts. If it ends as late, it has waited for the exact sum of the advances,
of which only the last one led past the timeout. -/
theorem poll_expires_exactly (hfinite : timeout ≠ maxTicks) (h : w.Advances s timeout advance) :
    ∃ k ≤ timeout.toNat, (∀ j < k, w.result s j = .ok none) ∧
      ∀ budget, k < budget →
        match w.result s k with
        | .error fault =>
          w.poll timeout budget s = (⟨.faulted fault, []⟩, (w.attempt (w.stateAt s k)).2)
        | .ok (some value) =>
          w.poll timeout budget s = (⟨.ready value, []⟩, (w.attempt (w.stateAt s k)).2)
        | .ok none =>
          ∃ waited : Ticks,
            w.poll timeout budget s =
              (⟨.timedOut ⟨waited⟩, [.pollTimedOut waited timeout]⟩, w.stateAt s (k + 1)) ∧
            waited.toNat = ∑ i ∈ Finset.range (k + 1), (advance i).toNat ∧
            timeout.toNat < waited.toNat ∧ waited.toNat ≤ timeout.toNat + (advance k).toNat ∧
            ∑ i ∈ Finset.range k, (advance i).toNat ≤ timeout.toNat := by
  obtain ⟨last, hlast, hends⟩ := h.exists_ends hfinite
  obtain ⟨k, hk, hkEnds, hopen⟩ := exists_first_end hends
  refine ⟨k, Nat.le_trans hk hlast, ?_, ?_⟩
  · intro j hj
    exact result_of_not_ends (hopen j hj)
  intro budget hbudget
  have hpoll := poll_eq_ending hkEnds hopen hbudget
  rw [ending] at hpoll
  split
  · rename_i hresult
    rwa [hresult] at hpoll
  · rename_i hresult
    rwa [hresult] at hpoll
  · rename_i hresult
    rw [hresult] at hpoll
    have hlate := (hkEnds.resolve_left (not_not_intro hresult)).2
    obtain ⟨hsum, hle, hbefore⟩ := h.elapsed_late hfinite hopen hresult
    exact ⟨_, hpoll, hsum, UInt64.lt_iff_toNat_lt.mp hlate, hle, hbefore⟩

/-- The clock is three ticks from the top of its range when the wait starts. -/
theorem expires_across_the_top :
    let stalled : Waiting SoftwareClock Empty Nat :=
      ⟨fun c => (c.now, c), fun c => (.ok none, c.advance 2)⟩
    (stalled.poll 5 6 ⟨maxTicks - 2⟩).1 = ⟨.timedOut ⟨6⟩, [.pollTimedOut 6 5]⟩ := by
  intro stalled
  have hadvances : stalled.Advances ⟨maxTicks - 2⟩ 5 (fun _ => 2) := by
    intro k _ _
    have hreading : stalled.reading ⟨maxTicks - 2⟩ (k + 1) =
        stalled.reading ⟨maxTicks - 2⟩ k + 2 := by
      cases k <;> rfl
    exact ⟨hreading, Nat.le_succ 1, Nat.le_of_ble_eq_true rfl⟩
  obtain ⟨k, hk, _, hpoll⟩ := poll_expires_exactly (by decide) hadvances
  obtain ⟨waited, hwaited, hsum, hlate, hle, _⟩ := hpoll 6 (Nat.lt_succ_of_le hk)
  have hsix : waited = 6 := by
    have hdouble : waited.toNat = (k + 1) * 2 := by simpa using hsum
    have hfive : (5 : Ticks).toNat = 5 := rfl
    have htwo : (2 : Ticks).toNat = 2 := rfl
    have hnat : waited.toNat = 6 := by omega
    exact UInt64.toNat_inj.mp hnat
  rw [hwaited, hsix]

end Nonblocking.Waiting
