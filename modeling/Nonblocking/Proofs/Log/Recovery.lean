import Nonblocking.Proofs.Log.Pacing

/-! # What an overtaken reader can still have

A resync takes a reader to the oldest entry that is still there, and from there reading on gets all
that is left. Without the resync an overtaken reader that is not stopped by a fault gets nothing,
and it is no nearer to the end for having tried. -/
namespace Nonblocking

variable {α : Type u} {n : Nat}

namespace Reader

/-- Reading on until there is nothing to read brings `got`, for every limit that is large enough. -/
structure ReadsOut (r : Reader) (log : Log α n) (got : List α) (last : Reader) : Prop where
  readUpTo_eq : ∀ limit, got.length ≤ limit → readUpTo log limit r = (.ok got, last)
  nothing_left : last.read log = (.ok none, last)

variable {log : Log α n} {entries : List α} {r : Reader}

theorem read_of_tryRead_ok {answer : Option α} {moved : Reader}
    (h : r.tryRead log = (.ok answer, moved)) : r.read log = (.ok answer, moved) := by
  rw [read, h]

theorem readsOut_nil (h : r.read log = (.ok none, r)) : r.ReadsOut log [] r := by
  constructor
  · intro limit _
    cases limit with
    | zero => rfl
    | succ limit => rw [readUpTo, h]
  · exact h

theorem readsOut_cons {entry : α} {moved last : Reader} {got : List α}
    (h : r.read log = (.ok (some entry), moved)) (hrest : moved.ReadsOut log got last) :
    r.ReadsOut log (entry :: got) last := by
  constructor
  · intro limit hlimit
    cases limit with
    | zero => exact absurd hlimit (Nat.not_succ_le_zero _)
    | succ limit =>
      have hgot := hrest.readUpTo_eq limit (Nat.le_of_succ_le_succ hlimit)
      rw [readUpTo, h]
      simp only [hgot]
      rfl
  · exact hrest.nothing_left

/-- A reader that has all it has not read still before it gets all of it. -/
theorem readsOut_of_le (h : log.Records entries) (hr : r.position ≤ entries.length)
    (hw : entries.length ≤ r.position + n) :
    r.ReadsOut log (entries.drop r.position) { r with position := entries.length } := by
  -- on what is left to read
  induction hleft : entries.length - r.position generalizing r with
  | zero =>
    have hend : r.position = entries.length := by omega
    rw [List.drop_eq_nil_of_le (Nat.le_of_eq hend.symm), ← hend]
    apply readsOut_nil
    exact read_of_tryRead_ok ((tryRead_nothing_iff h hr).mpr hend)
  | succ left ih =>
    have hp : r.position < entries.length := by omega
    obtain ⟨entry, hentry, hread⟩ := (tryRead_entry_iff h hr).mpr ⟨hp, hw⟩
    obtain ⟨_, rfl⟩ := List.getElem?_eq_some_iff.mp hentry
    rw [List.drop_eq_getElem_cons hp]
    apply readsOut_cons (read_of_tryRead_ok hread)
    apply ih
    · exact hp
    · simp only
      omega
    · simp only
      omega

theorem readsOut_overtaken (h : log.Records entries) (hr : r.position ≤ entries.length)
    (ho : r.position + n < entries.length) (hpolicy : r.policy = .checked) :
    r.ReadsOut log [] r := by
  apply readsOut_nil
  rw [read, (tryRead_overflow_iff h hr).mpr ho, hpolicy]

theorem resync_value (h : log.Records entries) (hr : r.position ≤ entries.length) :
    (r.resync log).value = (r.lost n entries,
      { r with position := entries.length - min n (entries.length - r.position) }) := by
  rw [resync_of_records h, lost]
  split
  · have hmin : min n (entries.length - r.position) = n := by omega
    rw [hmin]
  · have hlost : entries.length - n - r.position = 0 := by omega
    have hend : entries.length - min n (entries.length - r.position) = r.position := by omega
    rw [hlost, hend]

theorem keepsUp_resync (h : log.Records entries) (hr : r.position ≤ entries.length) :
    (r.resync log).value.2.KeepsUp log entries := by
  rw [resync_value h hr]
  apply keepsUp h
  · exact Nat.sub_le _ _
  · simp only
    omega

structure Recovers (r : Reader) (log : Log α n) (entries : List α) : Prop where
  total_eq : log.total = entries.length
  skipped_eq : (r.resync log).value.1 =
    match (r.tryRead log).1 with
    | .error overflow => overflow.lost
    | .ok _ => 0
  unmoved : (∀ overflow, (r.tryRead log).1 ≠ .error overflow) → (r.resync log).value.2 = r
  current : (r.resync log).value.2.hasOverflowed log = false
  again_eq : (r.resync log).value.2.resync log = ⟨(0, (r.resync log).value.2), []⟩
  newest_read : (r.resync log).value.2.ReadsOut log
    (entries.drop (entries.length - min n (log.total - r.position)))
    { r with position := log.total }
  /-- Without the resync, and with at most a full log to read. -/
  unread_read : log.total - r.position ≤ n →
    r.ReadsOut log (entries.drop r.position) { r with position := log.total }
  nothing_read : r.policy = .checked → n < log.total - r.position → r.ReadsOut log [] r

theorem recovers (h : log.Records entries) (hr : r.position ≤ entries.length) :
    r.Recovers log entries := by
  have htotal : log.total = entries.length := h.published_eq
  have hvalue := resync_value h hr
  have hkeeps := keepsUp_resync h hr
  constructor
  · exact htotal
  · rw [hvalue]
    rcases tryRead_cases h hr with ⟨hp, ht⟩ | ⟨_, hw, ht⟩ | ⟨_, ht⟩
    · simp only [ht, lost]
      omega
    · simp only [ht, lost]
      omega
    · simp only [ht, lost]
  · intro hnone
    have hw : ¬r.position + n < entries.length := by
      intro ho
      apply hnone
      rw [(tryRead_overflow_iff h hr).mpr ho]
    rw [resync_of_records h, if_neg hw]
  · exact hkeeps.current
  · exact hkeeps.resync_eq
  · rw [hvalue, htotal]
    apply readsOut_of_le h
    · exact Nat.sub_le _ _
    · simp only
      omega
  · intro hlag
    rw [htotal]
    exact readsOut_of_le h hr (by omega)
  · intro hpolicy hlag
    exact readsOut_overtaken h hr (by omega) hpolicy

end Reader

namespace Broadcast

variable {κ : Type v} [DecidableEq κ]

/-- Wherever a reader of a log is, a resync gives up just the entries that are lost to it, and then
reading on gets all the newer ones, oldest first. -/
theorem run_resync_recovers {actions : List (LogAction α κ)}
    (hl : (initial : Broadcast α κ n).Legal actions) (key : κ) {r : Reader}
    (hr : ((initial : Broadcast α κ n).run actions).2.readers key = some r) :
    r.Recovers ((initial : Broadcast α κ n).run actions).2.log (pushedSinceClear actions) := by
  obtain ⟨_, hf⟩ := follows_run follows_initial hl
  have he : (Chronicle.initial.run n actions).2.entries = pushedSinceClear actions :=
    Chronicle.entries_run Chronicle.initial actions
  rw [hf.readers_eq] at hr
  rw [← he]
  exact Reader.recovers hf.records (hf.position_le key r hr)

/-- A reader that replays a log with room for two after five pushes. -/
theorem recovers_in_replay :
    (⟨0, .failFast⟩ : Reader).Recovers
      ((initial : Broadcast Nat Bool 2).run
        [.push 1, .push 2, .push 3, .push 4, .push 5, .attach true .failFast false]).2.log
      [1, 2, 3, 4, 5] := by
  have hl : (initial : Broadcast Nat Bool 2).Legal
      [.push 1, .push 2, .push 3, .push 4, .push 5, .attach true .failFast false] :=
    ⟨trivial, trivial, trivial, trivial, trivial, trivial, trivial⟩
  exact run_resync_recovers hl true rfl

end Broadcast

end Nonblocking
