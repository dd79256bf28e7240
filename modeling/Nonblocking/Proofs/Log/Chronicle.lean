import Mathlib.Algebra.GroupWithZero.Nat
import Nonblocking.Log.Broadcast
import Nonblocking.Log.History

/-! # A log is the list of its entries

`Follows b c` ties a log to the list of all entries since the last clear: the log records the
entries, the readers are the same, and none of them is past the end. A clear takes the end back to
zero, but it is permitted only when there is no reader that could be left behind it. -/
namespace Nonblocking

namespace Reader

variable {α : Type u} {n : Nat} {log : Log α n} {entries : List α} {r : Reader}

theorem lost_pos_iff : 0 < r.lost n entries ↔ r.position + n < entries.length := by
  unfold lost
  omega

theorem tryRead_eq_consultNext (h : log.Records entries) (hr : r.position ≤ entries.length) :
    r.tryRead log = r.consultNext n entries := by
  rw [tryRead_of_records h r hr, consultNext]
  simp only [lost_pos_iff]
  rfl

theorem tryRead_cases (h : log.Records entries) (hr : r.position ≤ entries.length) :
    (r.position = entries.length ∧ r.tryRead log = (.ok none, r)) ∨
    (∃ hp : r.position < entries.length, entries.length ≤ r.position + n ∧
      r.tryRead log = (.ok (some entries[r.position]), { r with position := r.position + 1 })) ∨
    (r.position + n < entries.length ∧
      r.tryRead log = (.error ⟨entries.length - n - r.position⟩, r)) := by
  have ht := tryRead_of_records h r hr
  by_cases ho : r.position + n < entries.length
  · rw [if_pos ho] at ht
    exact Or.inr (Or.inr ⟨ho, ht⟩)
  · rw [if_neg ho] at ht
    rcases Nat.lt_or_eq_of_le hr with hp | hp
    · rw [List.getElem?_eq_getElem hp] at ht
      exact Or.inr (Or.inl ⟨hp, by omega, ht⟩)
    · rw [List.getElem?_eq_none (by omega)] at ht
      exact Or.inl ⟨hp, ht⟩

theorem tryRead_nothing_iff (h : log.Records entries) (hr : r.position ≤ entries.length) :
    r.tryRead log = (.ok none, r) ↔ r.position = entries.length := by
  rcases tryRead_cases h hr with ⟨hp, ht⟩ | ⟨hp, _, ht⟩ | ⟨ho, ht⟩
  · simp [ht, hp]
  · simp only [ht, Prod.mk.injEq, Except.ok.injEq, reduceCtorEq, false_and, false_iff]
    omega
  · simp only [ht, Prod.mk.injEq, reduceCtorEq, false_and, false_iff]
    omega

theorem tryRead_entry_iff (h : log.Records entries) (hr : r.position ≤ entries.length) :
    (∃ entry, entries[r.position]? = some entry ∧
        r.tryRead log = (.ok (some entry), { r with position := r.position + 1 })) ↔
      r.position < entries.length ∧ entries.length ≤ r.position + n := by
  rcases tryRead_cases h hr with ⟨hp, ht⟩ | ⟨hp, hw, ht⟩ | ⟨ho, ht⟩
  · simp [ht, hp]
  · simp [ht, hp, hw]
  · simp only [ht, Prod.mk.injEq, reduceCtorEq, false_and, and_false, exists_false, false_iff]
    omega

theorem tryRead_overflow_iff (h : log.Records entries) (hr : r.position ≤ entries.length) :
    r.tryRead log = (.error ⟨entries.length - n - r.position⟩, r) ↔
      r.position + n < entries.length := by
  rcases tryRead_cases h hr with ⟨hp, ht⟩ | ⟨hp, hw, ht⟩ | ⟨ho, ht⟩
  · simp [ht, hp]
  · simp only [ht, Prod.mk.injEq, reduceCtorEq, false_and, false_iff]
    omega
  · simp [ht, ho]

/-- A position behind a counter that fits into a machine word is subtracted from it exactly. -/
theorem word_sub_exact {count position : Nat} (hp : position ≤ count) (hc : count < 2 ^ 64) :
    (UInt64.ofNat count - UInt64.ofNat position).toNat = count - position := by
  have hcount : (UInt64.ofNat count).toNat = count := UInt64.toNat_ofNat_of_lt' hc
  have hposition : (UInt64.ofNat position).toNat = position :=
    UInt64.toNat_ofNat_of_lt' (Nat.lt_of_le_of_lt hp hc)
  rw [UInt64.toNat_sub_of_le, hcount, hposition]
  rwa [UInt64.le_iff_toNat_le, hcount, hposition]

theorem hasOverflowed_of_records (h : log.Records entries) :
    r.hasOverflowed log = decide (0 < r.lost n entries) := by
  rw [hasOverflowed, overflow?_of_records h]
  by_cases hc : r.position + n < entries.length
  · simp [hc, lost_pos_iff]
  · simp [hc, lost_pos_iff]

/-- A reader that is not past the end is answered by the list as it is by the log. -/
theorem act_eq_consult (h : log.Records entries) (hr : r.position ≤ entries.length)
    (a : ReaderAction) : r.act log a = r.consult n entries a := by
  have hlag := lag_of_records h r
  cases a with
  | read =>
    simp only [act, consult, Reader.read, tryRead_eq_consultNext h hr]
    cases hc : r.consultNext n entries with
    | mk answer moved => cases answer <;> cases r.policy <;> rfl
  | tryRead => simp only [act, consult, tryRead_eq_consultNext h hr]
  | resync =>
    simp only [act, consult, resync_of_records h, lost_pos_iff]
    split <;> rfl
  | skipToLive => simp [act, consult, skipToLive, hlag, h.published_eq]
  | hasOverflowed => simp only [act, consult, hasOverflowed_of_records h]
  | lag => simp [act, consult, hlag]
  | position => rfl

theorem position_consultNext_le (hr : r.position ≤ entries.length) :
    (r.consultNext n entries).2.position ≤ entries.length := by
  unfold consultNext
  split
  · exact hr
  · split
    · exact hr
    · rename_i entry he
      exact (List.getElem?_eq_some_iff.mp he).1

theorem position_consult_le (hr : r.position ≤ entries.length) (a : ReaderAction) :
    (r.consult n entries a).2.position ≤ entries.length := by
  have hnext := position_consultNext_le (n := n) hr
  cases a with
  | read =>
    cases hc : r.consultNext n entries with
    | mk answer moved =>
      rw [hc] at hnext
      simp only [consult, hc]
      cases answer <;> cases r.policy <;> exact hnext
  | tryRead => exact hnext
  | resync =>
    simp only [consult]
    split
    · exact Nat.sub_le _ _
    · exact hr
  | skipToLive => exact Nat.le_refl _
  | hasOverflowed => exact hr
  | lag => exact hr
  | position => exact hr

end Reader

def LogAction.record {α : Type u} {κ : Type v} (entries : List α) : LogAction α κ → List α
  | .push item => entries ++ [item]
  | .clear => []
  | _ => entries

def pushedSinceClear {α : Type u} {κ : Type v} (actions : List (LogAction α κ)) : List α :=
  actions.foldl LogAction.record []

section

variable {α : Type u} {κ : Type v} {n : Nat} [DecidableEq κ]

theorem eq_of_setReader {readers : κ → Option Reader} {key other : κ} {v : Option Reader}
    {r : Reader} (h : setReader readers key v other = some r) :
    v = some r ∨ readers other = some r := by
  unfold setReader at h
  split at h
  · exact Or.inl h
  · exact Or.inr h

theorem Chronicle.entries_perform (c : Chronicle α κ) (a : LogAction α κ) :
    (c.perform n a).2.entries = a.record c.entries := by
  cases a with
  | ask key action =>
    simp only [perform, LogAction.record]
    split <;> rfl
  | _ => rfl

theorem Chronicle.entries_run (c : Chronicle α κ) (actions : List (LogAction α κ)) :
    (c.run n actions).2.entries = actions.foldl LogAction.record c.entries := by
  induction actions generalizing c with
  | nil => rfl
  | cons a rest ih =>
    rw [List.foldl_cons, ← entries_perform (n := n)]
    exact ih _

namespace Broadcast

structure Follows (b : Broadcast α κ n) (c : Chronicle α κ) : Prop where
  records : b.log.Records c.entries
  readers_eq : b.readers = c.readers
  position_le : ∀ key r, c.readers key = some r → r.position ≤ c.entries.length

omit [DecidableEq κ] in
theorem follows_initial : Follows (initial : Broadcast α κ n) Chronicle.initial :=
  ⟨Log.records_empty, rfl, by simp [Chronicle.initial]⟩

theorem follows_step {b : Broadcast α κ n} {c : Chronicle α κ} (h : Follows b c)
    {a : LogAction α κ} (ha : b.Permits a) :
    (b.perform a).1 = (c.perform n a).1 ∧ Follows (b.perform a).2 (c.perform n a).2 := by
  obtain ⟨hlog, hreaders, hpos⟩ := h
  cases a with
  | push item =>
    refine ⟨rfl, hlog.push item, hreaders, fun key r hr => ?_⟩
    have := hpos key r hr
    simp only [Chronicle.perform, List.length_append]
    omega
  | clear =>
    refine ⟨?_, Log.records_clear _, hreaders, fun key r hr => ?_⟩
    · simp [perform, Chronicle.perform, Log.clear, hlog.published_eq]
    · -- a reader that outlived the clear would be past the new end, but there is none
      have hnone : b.readers key = none := ha key
      rw [hreaders] at hnone
      simp [Chronicle.perform, hnone] at hr
  | attach key policy live =>
    refine ⟨rfl, hlog, ?_, fun other r hr => ?_⟩
    · simp [perform, Chronicle.perform, Reader.attach, hreaders, hlog.published_eq]
    · rcases eq_of_setReader hr with hr | hr
      · simp only [Option.some.injEq] at hr
        subst hr
        simp only [Chronicle.perform]
        split <;> omega
      · exact hpos other r hr
  | clone key copy =>
    refine ⟨rfl, hlog, ?_, fun other r hr => ?_⟩
    · simp [perform, Chronicle.perform, hreaders]
    · rcases eq_of_setReader hr with hr | hr
      · exact hpos key r hr
      · exact hpos other r hr
  | detach key =>
    refine ⟨rfl, hlog, ?_, fun other r hr => ?_⟩
    · simp [perform, Chronicle.perform, hreaders]
    · rcases eq_of_setReader hr with hr | hr
      · cases hr
      · exact hpos other r hr
  | ask key action =>
    cases hk : c.readers key with
    | none =>
      simp only [perform, Chronicle.perform, hreaders, hk]
      exact ⟨trivial, hlog, hreaders, hpos⟩
    | some r =>
      have hact := Reader.act_eq_consult hlog (hpos key r hk) action
      simp only [perform, Chronicle.perform, hreaders, hk, hact]
      refine ⟨trivial, hlog, rfl, fun other q hq => ?_⟩
      rcases eq_of_setReader hq with hq | hq
      · simp only [Option.some.injEq] at hq
        subst hq
        exact Reader.position_consult_le (hpos key r hk) action
      · exact hpos other q hq

theorem follows_run {b : Broadcast α κ n} {c : Chronicle α κ} (h : Follows b c)
    {actions : List (LogAction α κ)} (hl : b.Legal actions) :
    (b.run actions).1 = (c.run n actions).1 ∧ Follows (b.run actions).2 (c.run n actions).2 := by
  induction actions generalizing b c with
  | nil => exact ⟨rfl, h⟩
  | cons a rest ih =>
    obtain ⟨hreply, hstep⟩ := follows_step h hl.1
    obtain ⟨hreplies, hrun⟩ := ih hstep hl.2
    exact ⟨List.cons_eq_cons.mpr ⟨hreply, hreplies⟩, hrun⟩

structure Mirrors (b : Broadcast α κ n) (entries : List α) : Prop where
  reserved_eq : b.log.reserved = entries.length
  published_eq : b.log.published = entries.length
  total_eq : b.log.total = entries.length
  slot_eq : ∀ p, entries.length - n ≤ p → ∀ h : p < entries.length,
    b.log.slots[p % n]? = some (some entries[p])
  position_le : ∀ key r, b.readers key = some r → r.position ≤ entries.length
  nothing_iff : ∀ key r, b.readers key = some r →
    (r.tryRead b.log = (.ok none, r) ↔ r.position = entries.length)
  entry_iff : ∀ key r, b.readers key = some r →
    ((∃ entry, entries[r.position]? = some entry ∧
        r.tryRead b.log = (.ok (some entry), { r with position := r.position + 1 })) ↔
      r.position < entries.length ∧ entries.length ≤ r.position + n)
  overflow_iff : ∀ key r, b.readers key = some r →
    (r.tryRead b.log = (.error ⟨entries.length - n - r.position⟩, r) ↔
      r.position + n < entries.length)
  words_exact : ∀ key r, b.readers key = some r → entries.length < 2 ^ 64 →
    (UInt64.ofNat b.log.reserved - UInt64.ofNat r.position).toNat = b.log.reserved - r.position ∧
    (UInt64.ofNat b.log.published - UInt64.ofNat r.position).toNat = r.lag b.log

omit [DecidableEq κ] in
theorem Follows.mirrors {b : Broadcast α κ n} {c : Chronicle α κ} (h : Follows b c) :
    Mirrors b c.entries := by
  obtain ⟨hlog, hreaders, hpos⟩ := h
  rw [← hreaders] at hpos
  refine ⟨hlog.reserved_eq, hlog.published_eq, hlog.published_eq, ?_, hpos, ?_, ?_, ?_, ?_⟩
  · intro p hw hp
    have hs := hlog.slot_eq p hp (by omega)
    rw [Log.slot, List.getElem?_eq_getElem hp, Option.join_eq_some_iff] at hs
    exact hs
  · intro key r hr
    exact Reader.tryRead_nothing_iff hlog (hpos key r hr)
  · intro key r hr
    exact Reader.tryRead_entry_iff hlog (hpos key r hr)
  · intro key r hr
    exact Reader.tryRead_overflow_iff hlog (hpos key r hr)
  · intro key r hr hc
    have hp := hpos key r hr
    rw [Reader.lag, hlog.reserved_eq, hlog.published_eq]
    exact ⟨Reader.word_sub_exact hp hc, Reader.word_sub_exact hp hc⟩

/-- Whatever readers came and went and whatever a clear left in the slots: each answer is the one
that the list of entries gives, and so is the state that is left. -/
theorem run_mirrors_entries {actions : List (LogAction α κ)}
    (hl : (initial : Broadcast α κ n).Legal actions) :
    ((initial : Broadcast α κ n).run actions).1 = (Chronicle.initial.run n actions).1 ∧
      ((initial : Broadcast α κ n).run actions).2.readers =
        (Chronicle.initial.run n actions).2.readers ∧
      Mirrors ((initial : Broadcast α κ n).run actions).2 (pushedSinceClear actions) := by
  obtain ⟨hreplies, hf⟩ := follows_run follows_initial hl
  have he : (Chronicle.initial.run n actions).2.entries = pushedSinceClear actions :=
    Chronicle.entries_run Chronicle.initial actions
  exact ⟨hreplies, hf.readers_eq, he ▸ hf.mirrors⟩

/-- A reader is overtaken, a clear leaves its entries in the slots, and another reader starts. -/
theorem mirrors_after_clear :
    Mirrors ((initial : Broadcast Nat Bool 2).run
      [.attach true .checked false, .push 1, .push 2, .push 3, .ask true .tryRead, .detach true,
        .clear, .attach false .failFast false, .push 4, .ask false .read]).2 [4] := by
  have hl : (initial : Broadcast Nat Bool 2).Legal
      [.attach true .checked false, .push 1, .push 2, .push 3, .ask true .tryRead, .detach true,
        .clear, .attach false .failFast false, .push 4, .ask false .read] := by
    refine ⟨trivial, trivial, trivial, trivial, rfl, trivial, ?_, trivial, trivial, rfl, trivial⟩
    intro key
    cases key <;> rfl
  exact (run_mirrors_entries hl).2.2

end Broadcast

end

end Nonblocking
