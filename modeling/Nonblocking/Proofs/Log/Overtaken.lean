import Nonblocking.Log.Overtaking
import Nonblocking.Proofs.Log.Recovery

/-! # An overflow lasts until the reader moves on

The distance from a reader's position to the end of the log decides how many entries it has lost.
Pushes make it larger, and being asked does not move a reader that has lost entries, so the distance
grows by exactly the pushes until the reader is told to give up what it has lost. -/
namespace Nonblocking

variable {α : Type u} {κ : Type v} {n : Nat}

namespace Reader

structure Overtaken (r : Reader) (log : Log α n) (lost : Nat) : Prop where
  overflowed : r.hasOverflowed log = true
  tryRead_eq : r.tryRead log = (.error ⟨lost⟩, r)
  read_eq : r.policy = .checked → r.read log = (.ok none, r)
  lag_eq : r.lag log = n + lost
  resync_eq : (r.resync log).value.1 = lost
  resync_ends : (r.resync log).value.2.hasOverflowed log = false
  skipToLive_eq : (r.skipToLive log).value = (n + lost, { r with position := log.total })
  skipToLive_ends : (r.skipToLive log).value.2.hasOverflowed log = false

variable {log : Log α n} {entries : List α} {r : Reader} {lost : Nat}

theorem overtaken (h : log.Records entries) (hlost : 0 < lost)
    (hlength : entries.length = r.position + n + lost) : r.Overtaken log lost := by
  have hle : r.position ≤ entries.length := by omega
  have ho : r.position + n < entries.length := by omega
  have hcount : entries.length - n - r.position = lost := by omega
  have hread := (tryRead_overflow_iff h hle).mpr ho
  rw [hcount] at hread
  have hlag : r.lag log = n + lost := by
    rw [lag_of_records h]
    omega
  constructor
  · rw [hasOverflowed_iff, h.reserved_eq]
    exact ho
  · exact hread
  · intro hpolicy
    rw [read, hread, hpolicy]
  · exact hlag
  · rw [resync_value h hle]
    exact hcount
  · exact (keepsUp_resync h hle).current
  · rw [skipToLive, hlag]
    rfl
  · rw [skipToLive, h.published_eq]
    exact (keepsUp h (Nat.le_refl _) (Nat.le_add_right _ _)).current

theorem length_of_tryRead_error (h : log.Records entries) (hr : r.position ≤ entries.length)
    (he : (r.tryRead log).1 = .error ⟨lost⟩) :
    0 < lost ∧ entries.length = r.position + n + lost := by
  rcases tryRead_cases h hr with ⟨_, ht⟩ | ⟨_, _, ht⟩ | ⟨ho, ht⟩
  · rw [ht] at he
    cases he
  · rw [ht] at he
    cases he
  · rw [ht] at he
    cases he
    omega

theorem consult_of_lost (ho : 0 < r.lost n entries) {action : ReaderAction}
    (hresync : action ≠ .resync) (hskip : action ≠ .skipToLive) :
    (r.consult n entries action).2 = r := by
  have hnext : r.consultNext n entries = (.error ⟨r.lost n entries⟩, r) := if_pos ho
  cases action with
  | read =>
    simp only [consult, hnext]
    cases r.policy <;> rfl
  | tryRead => simp only [consult, hnext]
  | resync => contradiction
  | skipToLive => contradiction
  | hasOverflowed | lag | position => rfl

theorem heardIn_of_lost [DecidableEq κ] (ho : 0 < r.lost n entries) (action : ReaderAction)
    (key other : κ) :
    heardIn key (.ask other action) (.reader (r.consult n entries action).1) = [] := by
  have hnext : r.consultNext n entries = (.error ⟨r.lost n entries⟩, r) := if_pos ho
  cases action with
  | read =>
    simp only [consult, hnext]
    cases r.policy <;> rfl
  | tryRead => simp only [consult, hnext, heardIn]
  | resync | skipToLive | hasOverflowed | lag | position => simp [heardIn]

/-- Asking a reader leaves it overtaken, and does not overtake it. -/
theorem lt_length_consult_iff (hr : r.position ≤ entries.length) (action : ReaderAction) :
    (r.consult n entries action).2.position + n < entries.length ↔
      r.position + n < entries.length ∧ action ≠ .resync ∧ action ≠ .skipToLive := by
  by_cases ho : r.position + n < entries.length
  · have hlost := lost_pos_iff.mpr ho
    by_cases hresync : action = .resync
    · subst hresync
      simp only [consult, if_pos hlost, ne_eq, not_true_eq_false, false_and, and_false, iff_false]
      omega
    · by_cases hskip : action = .skipToLive
      · subst hskip
        simp only [consult, ne_eq, not_true_eq_false, and_false, iff_false]
        omega
      · rw [consult_of_lost hlost hresync hskip]
        exact ⟨fun h => ⟨h, hresync, hskip⟩, fun h => h.1⟩
  · have hforward := le_position_consult hr (Nat.le_of_not_lt ho) action
    omega

end Reader

namespace LogAction

theorem movesOn_self_iff (key : κ) (action : ReaderAction) :
    (ask key action : LogAction α κ).MovesOn key ↔
      action = .resync ∨ action = .skipToLive := by
  cases action <;> simp [MovesOn]

theorem not_movesOn {key : κ} {a : LogAction α κ} (h : ∀ action, a ≠ .ask key action) :
    ¬a.MovesOn key := by
  unfold MovesOn
  split
  · rintro rfl
    exact h _ rfl
  · rintro rfl
    exact h _ rfl
  · exact id

end LogAction

variable [DecidableEq κ]

theorem Chronicle.reader_of_keeps {c : Chronicle α κ} {key : κ} {r : Reader}
    (hr : c.readers key = some r) {a : LogAction α κ} (ha : a.Keeps key) :
    ((c.perform n a).2.readers key = some r ∧ ∀ action, a ≠ .ask key action) ∨
      ∃ action, a = .ask key action ∧
        (c.perform n a).2.readers key = some (r.consult n c.entries action).2 := by
  cases a with
  | push item | clear =>
    left
    refine ⟨hr, fun action h => ?_⟩
    cases h
  | attach other policy live | clone original other | detach other =>
    have hne : key ≠ other := fun he => ha he.symm
    left
    refine ⟨?_, fun action h => ?_⟩
    · simp [perform, setReader, hne, hr]
    · cases h
  | ask other action =>
    by_cases he : other = key
    · subst he
      right
      exact ⟨action, rfl, by simp [perform, hr, setReader]⟩
    · have hne : key ≠ other := fun h => he h.symm
      left
      refine ⟨?_, fun asked h => ?_⟩
      · simp only [perform]
        split
        · exact hr
        · simp [setReader, hne, hr]
      · cases h
        exact he rfl

namespace Broadcast

variable {b : Broadcast α κ n} {c : Chronicle α κ}

/-- While there is a reader, the log is not cleared and grows by the pushes. -/
theorem length_perform (hf : Follows b c) {key : κ} {r : Reader} (hr : c.readers key = some r)
    {a : LogAction α κ} (ha : b.Permits a) :
    (c.perform n a).2.entries.length = c.entries.length + if a.isPush then 1 else 0 := by
  rw [Chronicle.entries_perform]
  cases a with
  | push item => exact List.length_append
  | clear =>
    have hnone : b.readers key = none := ha key
    rw [hf.readers_eq, hr] at hnone
    cases hnone
  | attach other policy live | clone original other | detach other | ask other action => rfl

theorem lt_length_perform_iff (hf : Follows b c) {key : κ} {r moved : Reader}
    (hr : c.readers key = some r) {a : LogAction α κ} (ha : b.Permits a) (hkeeps : a.Keeps key)
    (hmoved : (c.perform n a).2.readers key = some moved) :
    moved.position + n < (c.perform n a).2.entries.length ↔
      (r.position + n < c.entries.length ∧ ¬a.MovesOn key) ∨
        (c.entries.length = r.position + n ∧ a.isPush = true) := by
  rw [length_perform hf hr ha]
  rcases Chronicle.reader_of_keeps hr hkeeps with ⟨hsame, hother⟩ | ⟨action, rfl, hask⟩
  · rw [hsame, Option.some.injEq] at hmoved
    subst hmoved
    have hstays := LogAction.not_movesOn hother
    cases a.isPush with
    | true =>
      simp only [if_pos, hstays, not_false_eq_true, and_true]
      omega
    | false =>
      simp [hstays]
  · rw [hask, Option.some.injEq] at hmoved
    subst hmoved
    simp only [LogAction.isPush, Bool.false_eq_true, if_false, and_false, or_false, Nat.add_zero]
    rw [Reader.lt_length_consult_iff (hf.position_le key r hr), LogAction.movesOn_self_iff, not_or]

/-- The members are copies of one reader that has lost `lost` entries. -/
def StuckAt (n : Nat) (c : Chronicle α κ) (members : κ → Prop) (r : Reader) (lost : Nat) : Prop :=
  ∀ key, members key → c.readers key = some r ∧ c.entries.length = r.position + n + lost

omit [DecidableEq κ] in
theorem StuckAt.lost_pos {members : κ → Prop} {r : Reader} {lost : Nat} {key : κ}
    (h : StuckAt n c members r lost) (hlost : 0 < lost) (hmem : members key) :
    0 < r.lost n c.entries := by
  have hlength := (h key hmem).2
  rw [Reader.lost_pos_iff]
  omega

theorem stuckAt_step {members : κ → Prop} {r : Reader} {lost : Nat} (hf : Follows b c)
    (hlost : 0 < lost) (h : StuckAt n c members r lost) {a : LogAction α κ} (ha : b.Permits a) :
    StuckAt n (c.perform n a).2 (a.remaining members) r (lost + if a.isPush then 1 else 0) := by
  intro key hkey
  rcases hkey with ⟨hmem, hkeeps, hstays⟩ | ⟨original, rfl, hmem⟩
  · obtain ⟨hr, hlength⟩ := h key hmem
    constructor
    · rcases Chronicle.reader_of_keeps hr hkeeps with ⟨hsame, _⟩ | ⟨action, rfl, hask⟩
      · exact hsame
      · rw [LogAction.movesOn_self_iff, not_or] at hstays
        rw [hask, Reader.consult_of_lost (h.lost_pos hlost hmem) hstays.1 hstays.2]
    · rw [length_perform hf hr ha, hlength, Nat.add_assoc]
  · obtain ⟨hr, hlength⟩ := h original hmem
    exact ⟨by simp [Chronicle.perform, setReader, hr], hlength⟩

theorem heardIn_of_stuckAt {members : κ → Prop} {r : Reader} {lost : Nat} {key : κ}
    (h : StuckAt n c members r lost) (hlost : 0 < lost) (hmem : members key)
    (a : LogAction α κ) : heardIn key a (c.perform n a).1 = [] := by
  cases a with
  | push item => rfl
  | clear => rfl
  | attach other policy live => rfl
  | clone original other => rfl
  | detach other => rfl
  | ask other action =>
    by_cases he : other = key
    · subst he
      simp only [Chronicle.perform, (h other hmem).1]
      exact Reader.heardIn_of_lost (h.lost_pos hlost hmem) action other other
    · exact heardIn_of_ne he action _

theorem stuckAt_run {members : κ → Prop} {r : Reader} {lost : Nat} (hf : Follows b c)
    (hlost : 0 < lost) (h : StuckAt n c members r lost) {actions : List (LogAction α κ)}
    (hl : b.Legal actions) :
    StuckAt n (c.run n actions).2 (remainingAfter members actions) r
        (lost + actions.countP LogAction.isPush) ∧
      Unheard members actions (c.run n actions).1 := by
  induction actions generalizing b c members lost with
  | nil => exact ⟨h, trivial⟩
  | cons a rest ih =>
    have hstep := stuckAt_step hf hlost h hl.1
    obtain ⟨hrun, hunheard⟩ := ih (follows_step hf hl.1).2 (Nat.lt_add_right _ hlost) hstep hl.2
    rw [List.countP_cons, Nat.add_comm (rest.countP _), ← Nat.add_assoc]
    exact ⟨hrun, fun key hmem => heardIn_of_stuckAt h hlost hmem a, hunheard⟩

/-- A reader that has lost entries stays where it is and hears nothing, it and its copies, until
they are told to move on; what they have lost grows by the pushes. A reader is overtaken only in
this way or by a push when it has a full log before it. -/
theorem run_overflow_lasts {before : List (LogAction α κ)}
    (hl : (initial : Broadcast α κ n).Legal before) :
    let b := ((initial : Broadcast α κ n).run before).2
    (∀ key r lost, b.readers key = some r → (r.tryRead b.log).1 = .error ⟨lost⟩ →
      ∀ after, b.Legal after →
        Unheard (· = key) after (b.run after).1 ∧
        (∀ member, remainingAfter (· = key) after member →
          (b.run after).2.readers member = some r ∧
            r.Overtaken (b.run after).2.log (lost + after.countP LogAction.isPush)) ∧
        ((∀ a ∈ after, a.Keeps key ∧ ¬a.MovesOn key) → remainingAfter (· = key) after key)) ∧
    (∀ key r a, b.readers key = some r → b.Permits a → a.Keeps key →
      ∃ moved, (b.perform a).2.readers key = some moved ∧
        (moved.hasOverflowed (b.perform a).2.log = true ↔
          (r.hasOverflowed b.log = true ∧ ¬a.MovesOn key) ∨
            (r.lag b.log = n ∧ a.isPush = true))) := by
  intro b
  obtain ⟨_, hf⟩ := follows_run follows_initial hl
  constructor
  · intro key r lost hr he after hafter
    rw [hf.readers_eq] at hr
    obtain ⟨hlost, hlength⟩ :=
      Reader.length_of_tryRead_error hf.records (hf.position_le key r hr) he
    have hstuck : StuckAt n (Chronicle.initial.run n before).2 (· = key) r lost := by
      rintro _ rfl
      exact ⟨hr, hlength⟩
    obtain ⟨hstuckAfter, hunheard⟩ := stuckAt_run hf hlost hstuck hafter
    obtain ⟨hreplies, hfAfter⟩ := follows_run hf hafter
    refine ⟨hreplies ▸ hunheard, ?_, ?_⟩
    · intro member hmember
      obtain ⟨hreader, hlengthAfter⟩ := hstuckAfter member hmember
      refine ⟨hfAfter.readers_eq ▸ hreader, ?_⟩
      exact Reader.overtaken hfAfter.records (Nat.lt_add_right _ hlost) hlengthAfter
    · intro hstays
      apply remainingAfter_self _ hstays
      rfl
  · intro key r a hr ha hkeeps
    rw [hf.readers_eq] at hr
    obtain ⟨_, hfAfter⟩ := follows_step hf ha
    have hpos := hf.position_le key r hr
    obtain ⟨moved, hmoved⟩ :
        ∃ moved, ((Chronicle.initial.run n before).2.perform n a).2.readers key = some moved := by
      rcases Chronicle.reader_of_keeps hr hkeeps with ⟨hsame, _⟩ | ⟨action, _, hask⟩
      · exact ⟨r, hsame⟩
      · exact ⟨_, hask⟩
    refine ⟨moved, hfAfter.readers_eq ▸ hmoved, ?_⟩
    have hlag : r.lag b.log = n ↔
        (Chronicle.initial.run n before).2.entries.length = r.position + n := by
      rw [Reader.lag_of_records hf.records]
      omega
    rw [Reader.hasOverflowed_iff, Reader.hasOverflowed_iff, hfAfter.records.reserved_eq,
      hf.records.reserved_eq, hlag]
    exact lt_length_perform_iff hf hr ha hkeeps hmoved

/-- A copy of an overtaken reader, two pushes later. -/
theorem overtaken_copy_of_overtaken :
    (⟨0, .checked⟩ : Reader).Overtaken
      (((initial : Broadcast Nat Bool 2).run
          [.attach true .checked false, .push 1, .push 2, .push 3]).2.run
        [.clone true false, .ask true .read, .push 4, .ask false .tryRead, .ask true .resync,
          .push 5]).2.log 3 := by
  have hbefore : (initial : Broadcast Nat Bool 2).Legal
      [.attach true .checked false, .push 1, .push 2, .push 3] :=
    ⟨trivial, trivial, trivial, trivial, trivial⟩
  have hafter : ((initial : Broadcast Nat Bool 2).run
      [.attach true .checked false, .push 1, .push 2, .push 3]).2.Legal
      [.clone true false, .ask true .read, .push 4, .ask false .tryRead, .ask true .resync,
        .push 5] :=
    ⟨rfl, rfl, trivial, rfl, rfl, trivial, trivial⟩
  have hmember : remainingAfter (· = true)
      ([.clone true false, .ask true .read, .push 4, .ask false .tryRead, .ask true .resync,
        .push 5] : List (LogAction Nat Bool)) false := by
    simp [remainingAfter, LogAction.remaining, LogAction.Keeps, LogAction.MovesOn]
  exact (((run_overflow_lasts hbefore).1 true ⟨0, .checked⟩ 1 rfl rfl _ hafter).2.1 false hmember).2

end Broadcast

end Nonblocking
