import Nonblocking.Log.Pacing
import Nonblocking.Proofs.Log.Chronicle

/-! # Paced readers lose nothing

While pushes wait for the slowest reader, every reader has at most a full log before it: a push adds
one to that only when one is to spare, and every action of a reader brings it forward. One push too
many, and the slowest reader is overtaken. -/
namespace Nonblocking

variable {α : Type u} {κ : Type v} {n : Nat}

namespace Reader

variable {log : Log α n} {entries : List α} {r : Reader}

structure KeepsUp (r : Reader) (log : Log α n) (entries : List α) : Prop where
  lag_le : r.lag log ≤ n
  current : r.hasOverflowed log = false
  tryRead_eq : (r.tryRead log).1 = .ok entries[r.position]?
  read_eq : (r.read log).1 = .ok entries[r.position]?
  resync_eq : r.resync log = ⟨(0, r), []⟩

theorem consultNext_of_le (hw : entries.length ≤ r.position + n) :
    r.consultNext n entries = (.ok entries[r.position]?,
      { r with position := r.position + entries[r.position]?.toList.length }) := by
  have hlost : ¬0 < r.lost n entries := by
    rw [lost_pos_iff]
    omega
  rw [consultNext, if_neg hlost]
  cases entries[r.position]? <;> rfl

theorem keepsUp (h : log.Records entries) (hr : r.position ≤ entries.length)
    (hw : entries.length ≤ r.position + n) : r.KeepsUp log entries := by
  have hnext := (tryRead_eq_consultNext h hr).trans (consultNext_of_le hw)
  have hread : r.read log = r.tryRead log := by
    rw [read, hnext]
  refine ⟨?_, ?_, by rw [hnext], by rw [hread, hnext], ?_⟩
  · rw [lag_of_records h]
    omega
  · rw [← Bool.not_eq_true, hasOverflowed_iff, h.reserved_eq]
    omega
  · rw [resync_of_records h, if_neg (by omega)]

/-- An action that is no skip takes nothing but what it brings. -/
theorem take_consult [DecidableEq κ] (hw : entries.length ≤ r.position + n) {a : ReaderAction}
    (ha : a ≠ .skipToLive) (key : κ) :
    entries.take (r.consult n entries a).2.position =
      entries.take r.position ++ heardIn key (.ask key a) (.reader (r.consult n entries a).1) := by
  have hnext := consultNext_of_le hw
  have hgrown : entries.take (r.position + entries[r.position]?.toList.length) =
      entries.take r.position ++ entries[r.position]?.toList := by
    cases he : entries[r.position]? with
    | none => simp
    | some entry => simp [List.take_add_one, he]
  have hlost : ¬0 < r.lost n entries := by
    rw [lost_pos_iff]
    omega
  cases a with
  | read | tryRead =>
    simp only [consult, hnext]
    rw [hgrown]
    cases entries[r.position]? <;> simp [heardIn]
  | resync => simp [consult, hlost, heardIn]
  | skipToLive => contradiction
  | hasOverflowed | lag | position => simp [consult, heardIn]

/-- No action takes a reader back. -/
theorem le_position_consult (hr : r.position ≤ entries.length)
    (hw : entries.length ≤ r.position + n) (a : ReaderAction) :
    r.position ≤ (r.consult n entries a).2.position := by
  have hnext := consultNext_of_le hw
  cases a with
  | read | tryRead =>
    simp only [consult, hnext]
    exact Nat.le_add_right _ _
  | resync =>
    simp only [consult]
    split
    · rename_i hlost
      rw [lost_pos_iff] at hlost
      omega
    · exact Nat.le_refl _
  | skipToLive => exact hr
  | hasOverflowed | lag | position => exact Nat.le_refl _

end Reader

variable [DecidableEq κ]

namespace Broadcast

def InStep (n : Nat) (c : Chronicle α κ) : Prop :=
  ∀ key r, c.readers key = some r → c.entries.length ≤ r.position + n

theorem inStep_step {b : Broadcast α κ n} {c : Chronicle α κ} (h : Follows b c) (hs : InStep n c)
    {a : LogAction α κ} (ha : b.Paces a) : InStep n (c.perform n a).2 := by
  intro key r hr
  cases a with
  | push item =>
    have hr' : b.readers key = some r := by rw [h.readers_eq]; exact hr
    have hlag := ha key r hr'
    rw [Reader.lag_of_records h.records] at hlag
    simp only [Chronicle.perform, List.length_append, List.length_singleton]
    omega
  | clear => exact Nat.zero_le _
  | attach other policy live =>
    rcases eq_of_setReader hr with hr | hr
    · have hlag : (Reader.attach policy b.log live).lag b.log ≤ n := ha
      rw [Reader.lag_of_records h.records, Reader.attach, h.records.published_eq] at hlag
      simp only [Option.some.injEq] at hr
      subst hr
      exact Nat.sub_le_iff_le_add'.mp hlag
    · exact hs key r hr
  | clone original copy =>
    rcases eq_of_setReader hr with hr | hr
    · exact hs original r hr
    · exact hs key r hr
  | detach other =>
    rcases eq_of_setReader hr with hr | hr
    · cases hr
    · exact hs key r hr
  | ask other action =>
    cases hother : c.readers other with
    | none =>
      simp only [Chronicle.perform, hother] at hr ⊢
      exact hs key r hr
    | some q =>
      simp only [Chronicle.perform, hother] at hr ⊢
      rcases eq_of_setReader hr with hr | hr
      · have hforward := Reader.le_position_consult (h.position_le other q hother)
          (hs other q hother) action
        have hbefore := hs other q hother
        simp only [Option.some.injEq] at hr
        subst hr
        omega
      · exact hs key r hr

theorem heardIn_of_ne {key other : κ} (h : other ≠ key) (action : ReaderAction)
    (reply : LogReply α) : heardIn key (.ask other action) reply = [] := by
  unfold heardIn
  split <;> simp_all

/-- What a reader has behind it grows by what it hears. -/
theorem take_step {b : Broadcast α κ n} {c : Chronicle α κ} (h : Follows b c) (hs : InStep n c)
    {a : LogAction α κ} (ha : b.Permits a) {key : κ} (hkey : a.ReadsOn key) {r : Reader}
    (hr : c.readers key = some r) :
    ∃ q, (c.perform n a).2.readers key = some q ∧
      (c.perform n a).2.entries.take q.position =
        c.entries.take r.position ++ heardIn key a (c.perform n a).1 := by
  cases a with
  | push item =>
    have hpos := h.position_le key r hr
    exact ⟨r, hr, by simp [Chronicle.perform, heardIn, List.take_append_of_le_length hpos]⟩
  | clear =>
    have hnone : b.readers key = none := ha key
    rw [h.readers_eq, hr] at hnone
    cases hnone
  | attach other policy live | clone original other | detach other =>
    have hne : key ≠ other := fun he => hkey he.symm
    exact ⟨r, by simp [Chronicle.perform, setReader, hne, hr],
      by simp [Chronicle.perform, heardIn]⟩
  | ask other action =>
    by_cases hother : other = key
    · subst hother
      have htake := Reader.take_consult (hs other r hr) (hkey rfl) other
      simp only [Chronicle.perform, hr]
      exact ⟨_, by simp [setReader], htake⟩
    · rw [heardIn_of_ne hother, List.append_nil]
      have hne : key ≠ other := fun he => hother he.symm
      cases hq : c.readers other with
      | none => exact ⟨r, by simp [Chronicle.perform, hq, hr], by simp [Chronicle.perform, hq]⟩
      | some q =>
        exact ⟨r, by simp [Chronicle.perform, hq, setReader, hne, hr],
          by simp [Chronicle.perform, hq]⟩

theorem inStep_run {b : Broadcast α κ n} {c : Chronicle α κ} (h : Follows b c) (hs : InStep n c)
    {actions : List (LogAction α κ)} (hp : b.Paced actions) :
    InStep n (c.run n actions).2 := by
  induction actions generalizing b c with
  | nil => exact hs
  | cons a rest ih => exact ih (follows_step h hp.1).2 (inStep_step h hs hp.2.1) hp.2.2

theorem take_run {b : Broadcast α κ n} {c : Chronicle α κ} (h : Follows b c) (hs : InStep n c)
    {actions : List (LogAction α κ)} (hp : b.Paced actions) {key : κ}
    (hkey : ∀ a ∈ actions, a.ReadsOn key) {r : Reader} (hr : c.readers key = some r) :
    ∃ q, (c.run n actions).2.readers key = some q ∧
      (c.run n actions).2.entries.take q.position =
        c.entries.take r.position ++ heard key actions (c.run n actions).1 := by
  induction actions generalizing b c r with
  | nil => exact ⟨r, hr, by simp [Chronicle.run]⟩
  | cons a rest ih =>
    obtain ⟨mid, hmid, htake⟩ := take_step h hs hp.1 (hkey a List.mem_cons_self) hr
    obtain ⟨q, hq, hrest⟩ := ih (follows_step h hp.1).2 (inStep_step h hs hp.2.1) hp.2.2
      (fun other hmem => hkey other (List.mem_cons_of_mem a hmem)) hmid
    refine ⟨q, hq, ?_⟩
    simp only [Chronicle.run, heard_cons]
    rw [hrest, htake, List.append_assoc]

theorem eq_stretch_of_take {old new middle : List α} {p q : Nat} (hp : p ≤ old.length)
    (hq : q ≤ new.length) (h : new.take q = old.take p ++ middle) :
    p ≤ q ∧ middle = (new.drop p).take (q - p) := by
  have hlength := congrArg List.length h
  simp only [List.length_take, List.length_append, Nat.min_eq_left hp, Nat.min_eq_left hq]
    at hlength
  refine ⟨by omega, ?_⟩
  calc middle = (old.take p ++ middle).drop p := by
        rw [List.drop_left' (by rw [List.length_take, Nat.min_eq_left hp])]
    _ = (new.drop p).take (q - p) := by rw [← h, List.drop_take]

/-- A reader that has a full log before it has lost an entry when one more is pushed. -/
theorem overflowed_push {r : Reader} {log : Log α n} (hn : 0 < n) (hr : r.lag log = n) (item : α) :
    r.hasOverflowed (log.push item) = true := by
  rw [Reader.lag] at hr
  rw [Reader.hasOverflowed_iff, Log.reserved_push]
  omega

/-- In a paced run every reader keeps up all the time, and one that reads on hears just the entries
that it gets past. The pace is the fastest that does this. -/
theorem paced_run_loses_nothing (hn : 0 < n) {before after : List (LogAction α κ)}
    (hp : (initial : Broadcast α κ n).Paced (before ++ after)) :
    let b := ((initial : Broadcast α κ n).run before).2
    let c := (b.run after).2
    let replies := (b.run after).1
    let entries := pushedSinceClear (before ++ after)
    (∀ key r, b.readers key = some r → r.KeepsUp b.log (pushedSinceClear before)) ∧
    (∀ key r, b.readers key = some r → (∀ a ∈ after, a.ReadsOn key) →
      ∃ q, c.readers key = some q ∧ r.position ≤ q.position ∧ q.position ≤ entries.length ∧
        heard key after replies = (entries.drop r.position).take (q.position - r.position)) ∧
    (∀ (d : Broadcast α κ n) key r item, d.readers key = some r → r.lag d.log = n →
      (d.perform (.push item)).2.readers key = some r ∧
        r.hasOverflowed (d.perform (.push item)).2.log = true) := by
  intro b c replies entries
  obtain ⟨hbefore, hafter⟩ := (paced_append _ before after).mp hp
  have hsinit : InStep n (Chronicle.initial : Chronicle α κ) := by
    intro key r hr
    cases hr
  have hfb := (follows_run follows_initial hbefore.legal).2
  have hsb := inStep_run follows_initial hsinit hbefore
  obtain ⟨hreplies, hfc⟩ := follows_run hfb hafter.legal
  have hb : (Chronicle.initial.run n before).2.entries = pushedSinceClear before :=
    Chronicle.entries_run Chronicle.initial before
  have hc : ((Chronicle.initial.run n before).2.run n after).2.entries = entries := by
    rw [Chronicle.entries_run, hb]
    exact List.foldl_append.symm
  refine ⟨fun key r hr => ?_, fun key r hr hkey => ?_, fun d key r item hr hlag => ?_⟩
  · rw [hfb.readers_eq] at hr
    rw [← hb]
    exact Reader.keepsUp hfb.records (hfb.position_le key r hr) (hsb key r hr)
  · rw [hfb.readers_eq] at hr
    obtain ⟨q, hq, htake⟩ := take_run hfb hsb hafter hkey hr
    have hqpos := hfc.position_le key q hq
    rw [hc] at htake hqpos
    obtain ⟨hle, hheard⟩ := eq_stretch_of_take (hfb.position_le key r hr) hqpos htake
    refine ⟨q, hfc.readers_eq ▸ hq, hle, hqpos, ?_⟩
    rw [← hheard]
    exact congrArg (heard key after) hreplies
  · exact ⟨hr, overflowed_push hn hlag item⟩

/-- A copy of a reader that has read one of two entries, at the pace of a log with room for two. -/
theorem heard_at_full_pace :
    ∃ q, ((initial : Broadcast Nat Bool 2).run
        [.attach true .failFast false, .push 1, .push 2, .ask true .read, .clone true false,
          .push 3, .ask false .tryRead, .ask false .resync, .ask false .read]).2.readers false =
        some q ∧ 1 ≤ q.position ∧ q.position ≤ 3 ∧
      heard false [.push 3, .ask false .tryRead, .ask false .resync, .ask false .read]
        (((initial : Broadcast Nat Bool 2).run
            [.attach true .failFast false, .push 1, .push 2, .ask true .read,
              .clone true false]).2.run
          [.push 3, .ask false .tryRead, .ask false .resync, .ask false .read]).1 =
        ([1, 2, 3].drop 1).take (q.position - 1) := by
  have hp : (initial : Broadcast Nat Bool 2).Paced
      ([.attach true .failFast false, .push 1, .push 2, .ask true .read, .clone true false] ++
        [.push 3, .ask false .tryRead, .ask false .resync, .ask false .read]) := by
    refine ⟨trivial, Nat.zero_le _, trivial, ?_, trivial, ?_, rfl, trivial, rfl, trivial, trivial,
      ?_, rfl, trivial, rfl, trivial, rfl, trivial, trivial⟩
    all_goals
      intro key r hr
      cases key <;> cases hr <;> decide
  have hreads : ∀ a ∈ ([.push 3, .ask false .tryRead, .ask false .resync, .ask false .read] :
      List (LogAction Nat Bool)), a.ReadsOn false := by
    simp [LogAction.ReadsOn]
  exact (paced_run_loses_nothing (by decide) hp).2.1 false ⟨1, .failFast⟩ rfl hreads

end Broadcast

end Nonblocking
