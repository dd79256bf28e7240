import Nonblocking.Proofs.Log.Recovery

/-! # What a replay brings

A reader that is not attached at the live end starts at the first entry that was ever pushed, and
not at the oldest one that is still there. Once more was pushed than the log has room for, it is
overtaken before it has read anything, and gets none of the entries that are left unless it is told
to resync first. -/
namespace Nonblocking

variable {α : Type u} {n : Nat}

namespace Reader

variable {log : Log α n} {entries : List α}

theorem readsOut_attach_of_le (h : log.Records entries) (hle : entries.length ≤ n)
    (policy : Policy) :
    (attach policy log false).ReadsOut log entries ⟨entries.length, policy⟩ := by
  apply readsOut_of_le h (r := attach policy log false)
  · exact Nat.zero_le _
  · exact Nat.le_trans hle (Nat.le_add_left _ _)

/-- What reading on comes to when the first read already meets an overflow. -/
def cutShort (overflow : Overflow) : Policy → Except Overflow (List α)
  | .checked => .ok []
  | .failFast => .error overflow

theorem tryRead_attach_of_lt (h : log.Records entries) (hlt : n < entries.length)
    (policy : Policy) :
    (attach policy log false).tryRead log =
      (.error ⟨entries.length - n⟩, attach policy log false) := by
  have hstart : (attach policy log false).position + n < entries.length := by
    change 0 + n < entries.length
    rwa [Nat.zero_add]
  exact (tryRead_overflow_iff h (Nat.zero_le _)).mpr hstart

/-- A replay of a log that has lost entries ends before it begins. -/
theorem readUpTo_attach_of_lt (h : log.Records entries) (hlt : n < entries.length)
    (policy : Policy) (limit : Nat) :
    readUpTo log (limit + 1) (attach policy log false) =
      (cutShort ⟨entries.length - n⟩ policy, attach policy log false) := by
  rw [readUpTo, read, tryRead_attach_of_lt h hlt policy]
  cases policy <;> rfl

theorem le_of_readsOut_attach (h : log.Records entries) {policy : Policy} {got : List α}
    (hread : (attach policy log false).ReadsOut log got ⟨entries.length, policy⟩) :
    entries.length ≤ n := by
  apply Nat.le_of_not_lt
  intro hlt
  have hgot := hread.readUpTo_eq (got.length + 1) (Nat.le_succ _)
  rw [readUpTo_attach_of_lt h hlt] at hgot
  have hend : attach policy log false = ⟨entries.length, policy⟩ := congrArg Prod.snd hgot
  have hzero : 0 = entries.length := congrArg Reader.position hend
  omega

theorem readsOut_attach_live (h : log.Records entries) {items : List α}
    (hle : items.length ≤ n) (policy : Policy) :
    (attach policy log true).ReadsOut (items.foldl Log.push log) items
      ⟨entries.length + items.length, policy⟩ := by
  have hposition : (attach policy log true).position = entries.length := h.published_eq
  have hread := readsOut_of_le (r := attach policy log true) (h.foldl_push items)
    (by rw [hposition, List.length_append]; exact Nat.le_add_right _ _)
    (by rw [hposition, List.length_append]; exact Nat.add_le_add_left hle _)
  rw [hposition, List.drop_left, List.length_append] at hread
  exact hread

structure Replays (log : Log α n) (entries : List α) (policy : Policy) : Prop where
  total_eq : log.total = entries.length
  retained_read_iff :
    (attach policy log false).ReadsOut log (entries.drop (entries.length - min log.total n))
      ⟨log.total, policy⟩ ↔ log.total ≤ n
  overtaken : n < log.total → (attach policy log false).hasOverflowed log = true
  /-- Otherwise it stops where it starts, with nothing but what the policy makes of the overflow. -/
  nothing_read : n < log.total → ∀ limit,
    readUpTo log (limit + 1) (attach policy log false) =
      (cutShort ⟨log.total - n⟩ policy, attach policy log false)
  resync_read :
    ((attach policy log false).resync log).value.1 = log.total - n ∧
    ((attach policy log false).resync log).value.2.ReadsOut log
      (entries.drop (entries.length - min log.total n)) ⟨log.total, policy⟩
  live_read : ∀ items : List α, items.length ≤ n →
    (attach policy log true).ReadsOut (items.foldl Log.push log) items
      ⟨log.total + items.length, policy⟩

theorem replays (h : log.Records entries) (policy : Policy) : Replays log entries policy := by
  have htotal : log.total = entries.length := h.published_eq
  have hrecovers := recovers (r := attach policy log false) h (Nat.zero_le _)
  refine
    { total_eq := htotal
      retained_read_iff := ?retained
      overtaken := ?overtaken
      nothing_read := ?nothing
      resync_read := ⟨?position, ?newest⟩
      live_read := ?live }
  case retained =>
    rw [htotal]
    constructor
    · exact le_of_readsOut_attach h
    · intro hle
      rw [Nat.min_eq_left hle, Nat.sub_self]
      exact readsOut_attach_of_le h hle policy
  case overtaken =>
    intro hlt
    rw [hasOverflowed_iff, h.reserved_eq, ← htotal]
    change 0 + n < log.total
    rwa [Nat.zero_add]
  case nothing =>
    intro hlt limit
    rw [htotal] at hlt ⊢
    exact readUpTo_attach_of_lt h hlt policy limit
  case position =>
    rw [resync_value h (Nat.zero_le _), htotal]
    rfl
  case newest =>
    have hmin : min n (log.total - (attach policy log false).position) = min log.total n :=
      Nat.min_comm n log.total
    have hnewest := hrecovers.newest_read
    rwa [hmin] at hnewest
  case live =>
    intro items hle
    rw [htotal]
    exact readsOut_attach_live h hle policy

end Reader

namespace Broadcast

variable {κ : Type v} [DecidableEq κ]

/-- A replay brings the entries that the log retains just when they are all that there ever were
since the last clear. -/
theorem run_replays {actions : List (LogAction α κ)}
    (hl : (initial : Broadcast α κ n).Legal actions) (policy : Policy) :
    Reader.Replays ((initial : Broadcast α κ n).run actions).2.log (pushedSinceClear actions)
      policy := by
  obtain ⟨_, hf⟩ := follows_run follows_initial hl
  have he : (Chronicle.initial.run n actions).2.entries = pushedSinceClear actions :=
    Chronicle.entries_run Chronicle.initial actions
  rw [← he]
  exact Reader.replays hf.records policy

/-- A log with room for two that was cleared once and has taken three pushes since. -/
theorem replays_after_lap :
    Reader.Replays ((initial : Broadcast Nat Bool 2).run
      [.push 1, .clear, .push 2, .push 3, .push 4]).2.log [2, 3, 4] .failFast := by
  have hl : (initial : Broadcast Nat Bool 2).Legal
      [.push 1, .clear, .push 2, .push 3, .push 4] :=
    ⟨trivial, fun _ => rfl, trivial, trivial, trivial, trivial⟩
  exact run_replays hl .failFast

/-- After three pushes a log with room for two retains two entries, and no replay brings them. -/
theorem replay_misses_retained :
    let log := ((initial : Broadcast Nat Bool 2).run [.push 1, .push 2, .push 3]).2.log
    (∀ policy, ¬(Reader.attach policy log false).ReadsOut log [2, 3] ⟨3, policy⟩) ∧
      (Reader.attach .checked log false).drain log = (.ok [], ⟨0, .checked⟩) ∧
      (Reader.attach .failFast log false).drain log = (.error ⟨1⟩, ⟨0, .failFast⟩) := by
  refine ⟨?_, rfl, rfl⟩
  intro policy hread
  have hgot := congrArg Prod.snd (hread.readUpTo_eq 2 (Nat.le_refl 2))
  cases policy <;> cases hgot

end Broadcast

end Nonblocking
