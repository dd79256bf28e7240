import Mathlib.Algebra.GroupWithZero.Nat
import Nonblocking.Proofs.Clock.Decision

/-! # Deadlines across the top of the tick range

A deadline subtracts its start from the present, so the start cancels out, and with it every turn of
the range before. What is left is the sum of the advances since, up to full turns: as long as that
is less than one turn, a timeout that can be reached counts down by the exact sum. -/
namespace Nonblocking

def SoftwareClock.advanceAll (c : SoftwareClock) (advances : List Ticks) : SoftwareClock :=
  advances.foldl advance c

def ticksIn (advances : List Ticks) : Nat := (advances.map UInt64.toNat).sum

theorem ticksIn_append (advances more : List Ticks) :
    ticksIn (advances ++ more) = ticksIn advances + ticksIn more := by
  rw [ticksIn, List.map_append, List.sum_append]
  rfl

/-- The clock may wrap at each advance, but it is enough to let it wrap once, at the end. -/
theorem SoftwareClock.now_advanceAll (c : SoftwareClock) (advances : List Ticks) :
    (c.advanceAll advances).now = c.now + UInt64.ofNat (ticksIn advances) := by
  induction advances generalizing c with
  | nil => exact (UInt64.add_zero c.now).symm
  | cons ticks rest ih =>
    have hsum : ticksIn (ticks :: rest) = ticks.toNat + ticksIn rest := rfl
    calc ((c.advance ticks).advanceAll rest).now
        = c.now + ticks + UInt64.ofNat (ticksIn rest) := ih (c.advance ticks)
      _ = c.now + UInt64.ofNat (ticksIn (ticks :: rest)) := by
          rw [hsum, UInt64.ofNat_add, UInt64.ofNat_toNat, UInt64.add_assoc]

namespace Deadline

theorem toNat_remaining_after {timeout : Ticks} (h : timeout ≠ maxTicks) (start now : Ticks) :
    ((after start timeout).remaining now).toNat =
      timeout.toNat - ((after start timeout).elapsed now).toNat := by
  simp only [remaining, after, if_neg h]
  split
  · rename_i hle
    exact UInt64.toNat_sub_of_le _ _ hle
  · rename_i hlate
    rw [UInt64.le_iff_toNat_le] at hlate
    have hzero : (0 : UInt64).toNat = 0 := rfl
    omega

def probeAfter (c : SoftwareClock) (timeout : Ticks) (advances : List Ticks) : Probe :=
  (after c.now timeout).probe (c.advanceAll advances).now

theorem toNat_elapsed_probeAfter (c : SoftwareClock) (timeout : Ticks) (advances : List Ticks) :
    (probeAfter c timeout advances).elapsed.toNat = ticksIn advances % 2 ^ 64 := by
  have helapsed : (probeAfter c timeout advances).elapsed =
      (c.advanceAll advances).now - c.now := rfl
  rw [helapsed, c.now_advanceAll, UInt64.add_comm, UInt64.add_sub_cancel, UInt64.toNat_ofNat']

variable {c : SoftwareClock} {timeout : Ticks} {advances later : List Ticks}

theorem expired_probeAfter_iff (h : timeout ≠ maxTicks) (hturn : ticksIn advances < 2 ^ 64) :
    (probeAfter c timeout advances).expired = true ↔ timeout.toNat < ticksIn advances := by
  have helapsed := toNat_elapsed_probeAfter c timeout advances
  rw [Nat.mod_eq_of_lt hturn] at helapsed
  rw [← helapsed, ← UInt64.lt_iff_toNat_lt]
  exact (isExpired_after_iff _ _ _).trans (and_iff_right h)

theorem toNat_remaining_probeAfter (h : timeout ≠ maxTicks) (hturn : ticksIn advances < 2 ^ 64) :
    (probeAfter c timeout advances).remaining.toNat = timeout.toNat - ticksIn advances := by
  have helapsed := toNat_elapsed_probeAfter c timeout advances
  rw [Nat.mod_eq_of_lt hturn] at helapsed
  rw [← helapsed]
  exact toNat_remaining_after h _ _

structure CountsDown (c : SoftwareClock) (timeout : Ticks) : Prop where
  expired_iff : ∀ advances, ticksIn advances < 2 ^ 64 →
    ((probeAfter c timeout advances).expired = true ↔ timeout.toNat < ticksIn advances)
  remaining_eq : ∀ advances, ticksIn advances < 2 ^ 64 →
    (probeAfter c timeout advances).remaining.toNat = timeout.toNat - ticksIn advances
  expired_lasts : ∀ advances later, ticksIn advances ≤ ticksIn later → ticksIn later < 2 ^ 64 →
    (probeAfter c timeout advances).expired = true → (probeAfter c timeout later).expired = true
  /-- However little time has passed, enough of it can still pass before the clock is round. -/
  expires : ∀ advances, ticksIn advances ≤ timeout.toNat →
    ∃ more, ticksIn (advances ++ more) < 2 ^ 64 ∧
      (probeAfter c timeout (advances ++ more)).expired = true
  remaining_le : ∀ advances later, ticksIn advances ≤ ticksIn later → ticksIn later < 2 ^ 64 →
    (probeAfter c timeout later).remaining ≤ (probeAfter c timeout advances).remaining
  last_tick_iff : ∀ advances, ticksIn advances < 2 ^ 64 →
    ((probeAfter c timeout advances).remaining = 0 ∧
        (probeAfter c timeout advances).expired = false ↔
      ticksIn advances = timeout.toNat)

theorem toNat_lt_of_ne_maxTicks (h : timeout ≠ maxTicks) : timeout.toNat + 1 < 2 ^ 64 := by
  have hmax : maxTicks.toNat + 1 = 2 ^ 64 := rfl
  have hne : timeout.toNat ≠ maxTicks.toNat := fun heq => h (UInt64.toNat_inj.mp heq)
  have hlt := timeout.toNat_lt
  omega

theorem exists_expired (h : timeout ≠ maxTicks) (hle : ticksIn advances ≤ timeout.toNat) :
    ∃ more, ticksIn (advances ++ more) < 2 ^ 64 ∧
      (probeAfter c timeout (advances ++ more)).expired = true := by
  have hroom := toNat_lt_of_ne_maxTicks h
  -- one advance that takes the sum to the first tick that is too late
  let rest := timeout.toNat + 1 - ticksIn advances
  have hrest : (UInt64.ofNat rest).toNat = rest := by
    rw [UInt64.toNat_ofNat', Nat.mod_eq_of_lt]
    exact Nat.lt_of_le_of_lt (Nat.sub_le _ _) hroom
  have hsum : ticksIn (advances ++ [UInt64.ofNat rest]) = timeout.toNat + 1 := by
    have hone : ticksIn [UInt64.ofNat rest] = rest := hrest
    rw [ticksIn_append, hone]
    exact Nat.add_sub_of_le (Nat.le_succ_of_le hle)
  have hturn : ticksIn (advances ++ [UInt64.ofNat rest]) < 2 ^ 64 := hsum ▸ hroom
  refine ⟨[UInt64.ofNat rest], hturn, ?_⟩
  rw [expired_probeAfter_iff h hturn, hsum]
  exact Nat.lt_succ_self _

theorem countsDown (h : timeout ≠ maxTicks) : CountsDown c timeout where
  expired_iff := by
    intro advances hturn
    exact expired_probeAfter_iff h hturn
  remaining_eq := by
    intro advances hturn
    exact toNat_remaining_probeAfter h hturn
  expired_lasts := by
    intro advances later hle hturn hexpired
    rw [expired_probeAfter_iff h (Nat.lt_of_le_of_lt hle hturn)] at hexpired
    rw [expired_probeAfter_iff h hturn]
    exact Nat.lt_of_lt_of_le hexpired hle
  expires := by
    intro advances hle
    exact exists_expired h hle
  remaining_le := by
    intro advances later hle hturn
    rw [UInt64.le_iff_toNat_le, toNat_remaining_probeAfter h hturn,
      toNat_remaining_probeAfter h (Nat.lt_of_le_of_lt hle hturn)]
    exact Nat.sub_le_sub_left hle _
  last_tick_iff := by
    intro advances hturn
    have hzero : (0 : Ticks).toNat = 0 := rfl
    rw [← UInt64.toNat_inj, toNat_remaining_probeAfter h hturn, hzero, ← Bool.not_eq_true,
      expired_probeAfter_iff h hturn]
    omega

/-- Whatever the clock shows when a deadline is set on it, what has elapsed is the sum of the
advances up to full turns. A timeout that can be reached counts down by that sum, and the largest
one never begins to. -/
theorem counts_exactly (c : SoftwareClock) (timeout : Ticks) :
    (∀ advances, (probeAfter c timeout advances).elapsed.toNat = ticksIn advances % 2 ^ 64) ∧
      (timeout ≠ maxTicks → CountsDown c timeout) ∧
      (timeout = maxTicks → ∀ advances, (probeAfter c timeout advances).expired = false ∧
        (probeAfter c timeout advances).remaining = maxTicks) := by
  refine ⟨toNat_elapsed_probeAfter c timeout, countsDown, ?_⟩
  rintro rfl advances
  exact ⟨rfl, rfl⟩

/-- Five ticks from the top of the range, with the last tick in time and the first one too late. -/
example : probeAfter ⟨maxTicks - 5⟩ 10 [3, 4, 3] = ⟨false, 0, 10⟩ ∧
    probeAfter ⟨maxTicks - 5⟩ 10 [3, 4, 3, 1] = ⟨true, 0, 11⟩ := by
  decide

end Deadline

end Nonblocking
