import Nonblocking.Log.History
import Nonblocking.Log.Publication
import Nonblocking.Proofs.Log.Chronicle

/-! # No entry is torn

A reader may copy a slot while the writer is at work in it. The writer claims a slot before it
touches it, and the reader asks for claims after its copy, so a copy is trusted only as far as no
claim was made that reaches the slot. `Sound` says this of a reader that is copying, and goes on
holding whatever the writer does, since a claim can only make the condition fail. -/
namespace Nonblocking.Publication

variable {ι : Type u} {β : Type v} {κ : Type w} {n : Nat}

def whole (entry : ι → β) : Parts ι β := fun i => some (entry i)

/-- A published entry is in its slot as long as the slot is not claimed for another one. -/
def Retains (log : Log (Parts ι β) n) (entries : List (ι → β)) : Prop :=
  ∀ p entry, p < log.published → log.reserved ≤ p + n → entries[p]? = some entry →
    parts log p = whole entry

def WriterPhase.Sound (log : Log (Parts ι β) n) (entries : List (ι → β)) :
    WriterPhase ι β → Prop
  | .idle => log.reserved = log.published
  | .writing entry written =>
    log.reserved = log.published + 1 ∧ entries[log.published]? = some entry ∧
      ∀ i, written i = true → parts log log.published i = some (entry i)

/-- Of the parts that were copied this is said only while the slot is not claimed. -/
def ReaderPhase.Sound (log : Log (Parts ι β) n) (entries : List (ι → β)) (position : Nat) :
    ReaderPhase ι β → Prop
  | .idle => True
  | .behind => position < log.published
  | .copying taken copy =>
    position < log.published ∧ (log.reserved ≤ position + n →
      ∀ entry, entries[position]? = some entry → ∀ i, taken i = true → copy i = some (entry i))
  | .verified copy =>
    position < log.published ∧ ∀ entry, entries[position]? = some entry → copy = whole entry
  | .moving target => target ≤ log.published

def ReaderPhase.Reading : ReaderPhase ι β → Prop
  | .behind | .copying _ _ | .verified _ => True
  | .idle | .moving _ => False

structure Sound (s : State ι β κ n) : Prop where
  counted : s.entries.length = s.log.reserved
  writer : s.writer.Sound s.log s.entries
  retains : Retains s.log s.entries
  position_le : ∀ k, (s.reader k).position ≤ s.log.published
  reader : ∀ k, (s.phase k).Sound s.log s.entries (s.reader k).position

namespace WriterPhase.Sound

variable {log : Log (Parts ι β) n} {entries : List (ι → β)} {phase : WriterPhase ι β}

theorem published_le (h : phase.Sound log entries) : log.published ≤ log.reserved := by
  cases phase with
  | idle => exact Nat.le_of_eq (Eq.symm h)
  | writing entry written => exact h.1 ▸ Nat.le_succ _

theorem reserved_le (h : phase.Sound log entries) : log.reserved ≤ log.published + 1 := by
  cases phase with
  | idle => exact Nat.le_succ_of_le (Nat.le_of_eq h)
  | writing entry written => exact Nat.le_of_eq h.1

end WriterPhase.Sound

/-- The counters go up and entries are added at the end: what a reader knows stays true. -/
theorem ReaderPhase.Sound.grow {log after : Log (Parts ι β) n} {entries : List (ι → β)}
    {position : Nat} {phase : ReaderPhase ι β} (h : phase.Sound log entries position)
    (more : List (ι → β)) (hp : log.published ≤ after.published)
    (hr : log.reserved ≤ after.reserved) (hlen : log.published ≤ entries.length) :
    phase.Sound after (entries ++ more) position := by
  have hsame : position < log.published → (entries ++ more)[position]? = entries[position]? :=
    fun hlt => List.getElem?_append_left (Nat.lt_of_lt_of_le hlt hlen)
  cases phase with
  | idle => trivial
  | behind => exact Nat.lt_of_lt_of_le h hp
  | copying taken copy =>
    obtain ⟨hlt, hcopy⟩ := h
    refine ⟨Nat.lt_of_lt_of_le hlt hp, fun hfree entry he => ?_⟩
    rw [hsame hlt] at he
    exact hcopy (Nat.le_trans hr hfree) entry he
  | verified copy =>
    obtain ⟨hlt, hcopy⟩ := h
    refine ⟨Nat.lt_of_lt_of_le hlt hp, fun entry he => ?_⟩
    rw [hsame hlt] at he
    exact hcopy entry he
  | moving target => exact Nat.le_trans h hp

theorem sound_initial (policy : κ → Policy) : Sound (initial policy : State ι β κ n) where
  counted := rfl
  writer := rfl
  retains := fun _ _ hp => absurd hp (Nat.not_lt_zero _)
  position_le := fun _ => Nat.le_refl 0
  reader := fun _ => trivial

/-! ## The writer -/

section

variable [DecidableEq ι]

theorem parts_writePart_self (log : Log (Parts ι β) n) (hn : 0 < n) (i : ι) (value : β) :
    parts (writePart log i value) log.published =
      fun j => if j = i then some value else parts log log.published j := by
  rw [parts, writePart, Log.slot_fill_self log hn, Option.getD_some]

theorem parts_writePart_of_ne (log : Log (Parts ι β) n) {p : Nat}
    (hp : log.published % n ≠ p % n) (i : ι) (value : β) :
    parts (writePart log i value) p = parts log p := by
  rw [parts, writePart, Log.slot_fill_of_ne log hp, parts]

/-- To write into the claimed slot is to leave alone every slot that nobody claimed. -/
theorem Retains.writePart {log : Log (Parts ι β) n} {entries : List (ι → β)}
    (h : Retains log entries) (hr : log.reserved = log.published + 1) (i : ι) (value : β) :
    Retains (writePart log i value) entries := by
  intro p entry hp hfree he
  change p < log.published at hp
  change log.reserved ≤ p + n at hfree
  have hne : log.published % n ≠ p % n := (Log.mod_ne_of_lt hp (by omega)).symm
  rw [parts_writePart_of_ne log hne]
  exact h p entry hp hfree he

end

namespace Sound

variable {s : State ι β κ n}

theorem published_le_length (h : Sound s) : s.log.published ≤ s.entries.length :=
  h.counted ▸ h.writer.published_le

theorem reader_grow (h : Sound s) {after : Log (Parts ι β) n}
    (hp : s.log.published ≤ after.published) (hr : s.log.reserved ≤ after.reserved) (k : κ) :
    (s.phase k).Sound after s.entries (s.reader k).position := by
  have hgrow := (h.reader k).grow [] hp hr h.published_le_length
  rwa [List.append_nil] at hgrow

variable [DecidableEq ι] [DecidableEq κ]

theorem step_reserve (h : Sound s) (he : s.writer = .idle) (entry : ι → β) :
    Sound (next s (.reserve entry)) := by
  have hw := h.writer
  rw [he] at hw
  change s.log.reserved = s.log.published at hw
  have hcounted := h.counted
  refine ⟨?_, ⟨rfl, ?_, fun i hi => by cases hi⟩, ?_, h.position_le, fun k => ?_⟩
  · change (s.entries ++ [entry]).length = s.log.published + 1
    rw [List.length_append, List.length_singleton, hcounted, hw]
  · change (s.entries ++ [entry])[s.log.published]? = some entry
    rw [← hw, ← hcounted, List.getElem?_concat_length]
  · intro p other hp hfree hother
    change p < s.log.published at hp
    change s.log.published + 1 ≤ p + n at hfree
    change (s.entries ++ [entry])[p]? = some other at hother
    rw [List.getElem?_append_left (by omega)] at hother
    exact h.retains p other hp (by omega) hother
  · exact (h.reader k).grow [entry] (Nat.le_refl _) (Nat.le_succ_of_le (Nat.le_of_eq hw))
      h.published_le_length

theorem step_writePart (h : Sound s) (hn : 0 < n) {entry : ι → β} {written : ι → Bool}
    (he : s.writer = .writing entry written) (i : ι) : Sound (next s (.writePart i)) := by
  have hw := h.writer
  rw [he] at hw
  obtain ⟨hr, hentry, hwritten⟩ := hw
  simp only [next, he]
  refine ⟨h.counted, ⟨hr, hentry, fun j hj => ?_⟩, h.retains.writePart hr i _, h.position_le,
    h.reader_grow (Nat.le_refl _) (Nat.le_refl _)⟩
  change parts (writePart s.log i (entry i)) s.log.published j = some (entry j)
  rw [parts_writePart_self s.log hn]
  by_cases hji : j = i
  · simp [hji]
  · simp only [hji, if_false] at hj ⊢
    exact hwritten j hj

theorem step_publish (h : Sound s) {entry : ι → β} {written : ι → Bool}
    (he : s.writer = .writing entry written) (hall : ∀ i, written i = true) :
    Sound (next s .publish) := by
  have hw := h.writer
  rw [he] at hw
  obtain ⟨hr, hentry, hwritten⟩ := hw
  refine ⟨h.counted, hr, ?_, fun k => Nat.le_succ_of_le (h.position_le k),
    h.reader_grow (Nat.le_succ _) (Nat.le_refl _)⟩
  intro p other hp hfree hother
  change p < s.log.published + 1 at hp
  change parts s.log p = whole other
  rcases Nat.lt_succ_iff_lt_or_eq.mp hp with hlt | rfl
  · exact h.retains p other hlt hfree hother
  · -- the entry that is published now, all of whose parts are in place
    obtain rfl : entry = other := Option.some.inj (hentry.symm.trans hother)
    exact funext fun i => hwritten i (hall i)

end Sound

/-! ## A reader -/

namespace Sound

variable [DecidableEq κ] {s : State ι β κ n}

theorem enter (h : Sound s) {k : κ} {phase : ReaderPhase ι β}
    (hphase : phase.Sound s.log s.entries (s.reader k).position) :
    Sound (setPhase s k phase) := by
  refine ⟨h.counted, h.writer, h.retains, h.position_le, fun j => ?_⟩
  simp only [setPhase]
  split
  · rename_i hj
    exact hj ▸ hphase
  · exact h.reader j

theorem place (h : Sound s) {k : κ} (hk : s.phase k = .idle) {r : Reader}
    (hr : r.position ≤ s.log.published) :
    Sound { s with reader := fun j => if j = k then r else s.reader j } := by
  refine ⟨h.counted, h.writer, h.retains, fun j => ?_, fun j => ?_⟩
  · by_cases hj : j = k
    · simpa [hj] using hr
    · simpa [hj] using h.position_le j
  · by_cases hj : j = k
    · simp only [hj, hk]
      trivial
    · simpa [hj] using h.reader j

theorem settle (h : Sound s) (k : κ) {position : Nat} (hp : position ≤ s.log.published) :
    Sound (setPhase (setPosition s k position) k .idle) := by
  have hidle : Sound (setPhase s k .idle) := h.enter trivial
  have hk : (setPhase s k .idle).phase k = .idle := by simp [setPhase]
  exact hidle.place hk (r := { s.reader k with position }) hp

variable [DecidableEq ι]

theorem step_look (h : Sound s) (k : κ) : Sound (next s (.look k)) := by
  simp only [next]
  split
  · exact h
  · rename_i hne
    exact h.enter (Nat.lt_of_le_of_ne (h.position_le k) hne)

theorem step_check (h : Sound s) {k : κ} (hk : s.phase k = .behind) :
    Sound (next s (.check k)) := by
  have hbehind := h.reader k
  rw [hk] at hbehind
  simp only [next]
  split
  · exact h.enter trivial
  · exact h.enter ⟨hbehind, fun _ _ _ i hi => by cases hi⟩

/-- While the slot is not claimed, what lies in it is the entry. -/
theorem step_copyPart (h : Sound s) {k : κ} {taken : ι → Bool} {copy : Parts ι β}
    (hk : s.phase k = .copying taken copy) (i : ι) : Sound (next s (.copyPart k i)) := by
  have hcopying := h.reader k
  rw [hk] at hcopying
  obtain ⟨hlt, hcopy⟩ := hcopying
  simp only [next, hk]
  refine h.enter ⟨hlt, fun hfree entry he j hj => ?_⟩
  by_cases hji : j = i
  · have hparts := h.retains _ entry hlt hfree he
    simp only [hji, if_true, hparts]
    rfl
  · simp only [hji, if_false] at hj ⊢
    exact hcopy hfree entry he j hj

theorem step_recheck (h : Sound s) {k : κ} {taken : ι → Bool} {copy : Parts ι β}
    (hk : s.phase k = .copying taken copy) (hall : ∀ i, taken i = true) :
    Sound (next s (.recheck k)) := by
  have hcopying := h.reader k
  rw [hk] at hcopying
  obtain ⟨hlt, hcopy⟩ := hcopying
  simp only [next, hk]
  split
  · exact h.enter trivial
  · rename_i hover
    rw [Reader.hasOverflowed_iff] at hover
    refine h.enter ⟨hlt, fun entry he => funext fun i => ?_⟩
    exact hcopy (by omega) entry he i (hall i)

theorem step_advance (h : Sound s) {k : κ} {copy : Parts ι β} (hk : s.phase k = .verified copy) :
    Sound (next s (.advance k)) := by
  have hverified := h.reader k
  rw [hk] at hverified
  exact h.settle k hverified.1

/-- Even in the middle of an append the oldest entry that is left, or the next one to come, is not
past the end. -/
theorem step_resync (h : Sound s) (hn : 0 < n) (k : κ) : Sound (next s (.resync k)) := by
  have hreserved := h.writer.reserved_le
  simp only [next]
  split
  · exact h.enter (show s.log.reserved - n ≤ s.log.published by omega)
  · exact h

theorem step_move (h : Sound s) {k : κ} {target : Nat} (hk : s.phase k = .moving target) :
    Sound (next s (.move k)) := by
  have htarget := h.reader k
  rw [hk] at htarget
  simp only [next, hk]
  exact h.settle k htarget

theorem step_attach (h : Sound s) {k : κ} (hk : s.phase k = .idle) (live : Bool) :
    Sound (next s (.attach k live)) := by
  refine h.place hk (r := { s.reader k with position := _ }) ?_
  cases live
  · exact Nat.zero_le _
  · exact Nat.le_refl _

theorem step (h : Sound s) (hn : 0 < n) {e : Event ι β κ} (he : Enabled s e) :
    Sound (next s e) := by
  cases e with
  | reserve entry => exact h.step_reserve he entry
  | writePart i =>
    obtain ⟨entry, written, hw⟩ := he
    exact h.step_writePart hn hw i
  | publish =>
    obtain ⟨entry, written, hw, hall⟩ := he
    exact h.step_publish hw hall
  | attach k live => exact h.step_attach he live
  | clone k copy => exact h.place he.2 (h.position_le k)
  | look k => exact h.step_look k
  | check k => exact h.step_check he
  | copyPart k i =>
    obtain ⟨taken, copy, hk⟩ := he
    exact h.step_copyPart hk i
  | recheck k =>
    obtain ⟨taken, copy, hk, hall⟩ := he
    exact h.step_recheck hk hall
  | advance k =>
    obtain ⟨copy, hk⟩ := he
    exact h.step_advance hk
  | resync k => exact h.step_resync hn k
  | skipToLive k => exact h.enter (Nat.le_refl s.log.published)
  | move k =>
    obtain ⟨target, hk⟩ := he
    exact h.step_move hk
  | probe k => exact h

end Sound

variable [DecidableEq ι] [DecidableEq κ]

theorem reachable_sound {policy : κ → Policy} {s : State ι β κ n} (hn : 0 < n)
    (h : Reachable policy s) : Sound s := by
  induction h with
  | initial => exact sound_initial policy
  | step _ hs ih =>
    obtain ⟨he, rfl⟩ := hs
    exact ih.step hn he

/-- No step but its own last one moves a reader that is trying to read. -/
theorem reader_next_of_reading {s : State ι β κ n} {k : κ} {e : Event ι β κ}
    (hk : (s.phase k).Reading) (he : Enabled s e) (hne : e ≠ .advance k) :
    (next s e).reader k = s.reader k := by
  have hbusy : ∀ j, (s.phase j = .idle ∨ ∃ target, s.phase j = .moving target) → k ≠ j := by
    rintro j hj rfl
    rcases hj with hj | ⟨target, hj⟩ <;> rw [hj] at hk <;> exact hk
  cases e with
  | attach j live => simp [next, setPosition, hbusy j (Or.inl he)]
  | clone j copy => simp [next, hbusy copy (Or.inl he.2)]
  | advance j =>
    have hj : k ≠ j := fun hkj => hne (by rw [hkj])
    simp [next, setPosition, setPhase, hj]
  | move j =>
    obtain ⟨target, hj⟩ := he
    simp [next, hj, setPosition, setPhase, hbusy j (Or.inr ⟨target, hj⟩)]
  | look j | check j | resync j =>
    simp only [next]
    split <;> rfl
  | writePart i | copyPart j i =>
    simp only [next]
    split <;> rfl
  | recheck j =>
    simp only [next]
    split
    · split <;> rfl
    · rfl
  | reserve entry | publish | skipToLive j | probe j => rfl

structure ReadsWhole (s : State ι β κ n) : Prop where
  published_le : s.log.published ≤ s.log.reserved
  reserved_le : s.log.reserved ≤ s.log.published + 1
  reserved_eq : s.log.reserved = s.entries.length
  position_le : ∀ k, (s.reader k).position ≤ s.log.published
  words_exact : ∀ k, s.entries.length < 2 ^ 64 →
    (UInt64.ofNat s.log.reserved - UInt64.ofNat (s.reader k).position).toNat =
      s.log.reserved - (s.reader k).position
  steady : ∀ k e, (s.phase k).Reading → Enabled s e → e ≠ .advance k →
    (next s e).reader k = s.reader k
  nothing_iff : ∀ k, outcome s (.look k) = some .nothingNew ↔
    (s.reader k).position = s.log.published
  delivered : ∀ k, Enabled s (.advance k) → ∃ entry,
    s.entries[(s.reader k).position]? = some entry ∧
      outcome s (.advance k) = some (.entry (whole entry)) ∧
      ((next s (.advance k)).reader k).position = (s.reader k).position + 1
  /-- The entry at the reader is lost to a later one, whose slot was claimed at the least. -/
  lost_iff : ∀ k e overflow, e = .check k ∨ e = .recheck k →
    (outcome s e = some (.lost overflow) ↔ 1 ≤ overflow.lost ∧
      s.entries.length = (s.reader k).position + n + overflow.lost)
  lost_unmoved : ∀ k e overflow, e = .check k ∨ e = .recheck k → Enabled s e →
    outcome s e = some (.lost overflow) →
      (s.reader k).position < s.log.published ∧ (next s e).reader = s.reader ∧
        (next s e).phase k = .idle
  overflowed : ∀ k, outcome s (.probe k) =
    some (.overflowed (decide ((s.reader k).position + n < s.entries.length)))
  /-- A resync goes to the oldest entry that nobody claimed the slot of. -/
  resync_iff : ∀ k target, s.phase k = .idle →
    ((next s (.resync k)).phase k = .moving target ↔
      (s.reader k).position < target ∧ target ≤ s.log.published ∧ s.entries.length = target + n)

theorem Sound.delivered {s : State ι β κ n} (h : Sound s) {k : κ} (he : Enabled s (.advance k)) :
    ∃ entry, s.entries[(s.reader k).position]? = some entry ∧
      outcome s (.advance k) = some (.entry (whole entry)) ∧
      ((next s (.advance k)).reader k).position = (s.reader k).position + 1 := by
  obtain ⟨copy, hk⟩ := he
  have hverified := h.reader k
  rw [hk] at hverified
  obtain ⟨hlt, hcopy⟩ := hverified
  have hentry := List.getElem?_eq_getElem (Nat.lt_of_lt_of_le hlt h.published_le_length)
  refine ⟨_, hentry, ?_, ?_⟩
  · simp [outcome, hk, hcopy _ hentry]
  · simp [next, setPosition, setPhase]

theorem Sound.lost_unmoved {s : State ι β κ n} (h : Sound s) {k : κ} {e : Event ι β κ}
    {overflow : Overflow} (hck : e = .check k ∨ e = .recheck k) (he : Enabled s e)
    (hout : outcome s e = some (.lost overflow)) :
    (s.reader k).position < s.log.published ∧ (next s e).reader = s.reader ∧
      (next s e).phase k = .idle := by
  have hreader := h.reader k
  have hover : (s.reader k).hasOverflowed s.log = true := by
    rcases hck with rfl | rfl <;>
      · obtain ⟨_, ho, _⟩ := Option.map_eq_some_iff.mp hout
        rw [Reader.hasOverflowed, ho, Option.isSome_some]
  rcases hck with rfl | rfl
  · rw [show s.phase k = .behind from he] at hreader
    refine ⟨hreader, ?_, ?_⟩ <;> simp [next, hover, setPhase]
  · obtain ⟨taken, copy, hk, -⟩ := he
    rw [hk] at hreader
    refine ⟨hreader.1, ?_, ?_⟩ <;> simp [next, hk, hover, setPhase]

theorem Sound.readsWhole {s : State ι β κ n} (h : Sound s) (hn : 0 < n) : ReadsWhole s := by
  have hcounted := h.counted
  have hreserved := h.writer.reserved_le
  have hpublished := h.writer.published_le
  refine ⟨hpublished, hreserved, hcounted.symm, h.position_le, ?_, ?_, ?_, fun k => h.delivered,
    ?_, fun k e overflow => h.lost_unmoved, ?_, ?_⟩
  · intro k hc
    exact Reader.word_sub_exact (Nat.le_trans (h.position_le k) hpublished) (hcounted ▸ hc)
  · exact fun k e => reader_next_of_reading
  · intro k
    simp [outcome]
  · intro k e overflow hck
    have hout : outcome s e = ((s.reader k).overflow? s.log).map .lost := by
      rcases hck with rfl | rfl <;> rfl
    have hiff := Reader.overflow?_eq_some_iff (s.reader k) s.log overflow
    have hpos := h.position_le k
    simp only [hout, Option.map_eq_some_iff, Outcome.lost.injEq, exists_eq_right, hiff]
    omega
  · intro k
    simp only [outcome, Option.some.injEq, Outcome.overflowed.injEq]
    rw [Bool.eq_iff_iff, Reader.hasOverflowed_iff, decide_eq_true_eq, hcounted]
  · intro k target hk
    have hiff := Reader.hasOverflowed_iff (s.reader k) s.log
    by_cases hover : (s.reader k).hasOverflowed s.log = true
    · have hlost := hiff.mp hover
      simp only [next, hover, if_true, setPhase, ReaderPhase.moving.injEq]
      omega
    · have hthere := mt hiff.mpr hover
      simp only [next, hover, Bool.false_eq_true, if_false, hk, reduceCtorEq, false_iff]
      omega

/-- In whatever order the steps of the writer and of any number of readers follow each other: a
reader that gets an entry gets all of it, and it is the one at its position; and a reader that is
told of a loss has lost the entry and stays where it is. -/
theorem reachable_reads_whole {policy : κ → Policy} {s : State ι β κ n} (hn : 0 < n)
    (h : Reachable policy s) : ReadsWhole s :=
  (reachable_sound hn h).readsWhole hn

/-- With room for one entry, a slot is claimed and half written while it is copied. The copy is
thrown away, and the reader goes on to the entry that is still being written. -/
theorem reads_whole_amid_append :
    ReadsWhole (run (initial fun _ => .checked : State Bool Nat Unit 1)
      [.reserve fun _ => 3, .writePart false, .writePart true, .publish, .look (), .check (),
        .copyPart () true, .reserve fun _ => 4, .writePart false, .copyPart () false,
        .recheck (), .resync (), .move ()]) := by
  have hl : Legal (initial fun _ => .checked : State Bool Nat Unit 1)
      [.reserve fun _ => 3, .writePart false, .writePart true, .publish, .look (), .check (),
        .copyPart () true, .reserve fun _ => 4, .writePart false, .copyPart () false,
        .recheck (), .resync (), .move ()] :=
    ⟨rfl, ⟨_, _, rfl⟩, ⟨_, _, rfl⟩, ⟨_, _, rfl, by decide⟩, rfl, rfl, ⟨_, _, rfl⟩, rfl,
      ⟨_, _, rfl⟩, ⟨_, _, rfl⟩, ⟨_, _, rfl, by decide⟩, rfl, ⟨_, rfl⟩, trivial⟩
  exact reachable_reads_whole Nat.zero_lt_one (reachable_run .initial hl)

end Nonblocking.Publication
