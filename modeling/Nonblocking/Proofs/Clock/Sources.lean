import Nonblocking.Clock.Sources
import Nonblocking.Proofs.Clock.Decision
import Nonblocking.Proofs.Log.Chronicle
import Nonblocking.Proofs.Queue.Fifo

/-! # A wait takes what is next or nothing

An attempt that yields nothing leaves its container as it found it, and the one that yields a value
takes the first item that there is and is the last. So what is known of a container is carried
through the rounds by two facts: it is kept when items are put in, and by taking nothing. -/
namespace Nonblocking

namespace Waiting

variable {σ : Type u} {ε : Type v} {β : Type w}

theorem poll_outcome (w : Waiting σ ε β) (s : σ) (timeout : Ticks) (budget : Nat) :
    match w.poll timeout budget s with
    | (⟨.ready value, _⟩, s') => ∃ k < budget, (∀ j < k, w.result s j = .ok none) ∧
        w.attempt (w.stateAt s k) = (.ok (some value), s')
    | (⟨.timedOut _, _⟩, s') => ∃ k < budget, (∀ j ≤ k, w.result s j = .ok none) ∧
        s' = w.stateAt s (k + 1)
    | (⟨.faulted fault, _⟩, s') => ∃ k < budget, (∀ j < k, w.result s j = .ok none) ∧
        w.attempt (w.stateAt s k) = (.error fault, s')
    | (⟨.exhausted, _⟩, s') => (∀ j < budget, w.result s j = .ok none) ∧
        s' = w.stateAt s budget := by
  have hopen : ∀ {j}, ¬w.Ends s timeout j → w.result s j = .ok none := by
    intro j hj
    exact Classical.not_not.mp (not_or.mp hj).1
  rcases poll_cases w s timeout budget with ⟨k, hk, _, hfirst, hpoll⟩ | ⟨hnone, hpoll⟩
  · have hbefore : ∀ j < k, w.result s j = .ok none := fun j hj => hopen (hfirst j hj)
    rw [hpoll, ending]
    cases hresult : w.result s k with
    | error fault => exact ⟨k, hk, hbefore, attempt_eq hresult⟩
    | ok yielded =>
      cases yielded with
      | some value => exact ⟨k, hk, hbefore, attempt_eq hresult⟩
      | none =>
        refine ⟨k, hk, ?_, rfl⟩
        intro j hj
        rcases Nat.lt_or_eq_of_le hj with hlt | rfl
        · exact hbefore j hlt
        · exact hresult
  · rw [hpoll]
    exact ⟨fun j hj => hopen (hnone j hj), rfl⟩

end Waiting

/-- `P accepted c` goes on holding of all that a container `c` has accepted. -/
structure Source.Keeps {σ : Type u} {ε : Type v} {α : Type w} (source : Source σ ε α)
    (P : List α → σ → Prop) : Prop where
  put : ∀ accepted c items, P accepted c →
    P (accepted ++ (source.put c items).1) (source.put c items).2
  take_none : ∀ accepted c, P accepted c → (source.take c).1 = .ok none →
    P accepted (source.take c).2

namespace World

variable {σ : Type u} {τ : Type v} {α : Type w} {ε : Type x} {w : World σ τ α}
  {source : Source σ ε α} {s : σ × τ} {P : List α → σ → Prop} {k : Nat}

theorem take_of_attempt {answer : Except ε (Option α)} {s' : σ × τ}
    (h : (w.await source).attempt ((w.await source).stateAt s k) = (answer, s')) :
    source.take (w.found source s k) = (answer, s'.1) := by
  have hanswer : (source.take (w.found source s k)).1 = answer := congrArg Prod.fst h
  have hleft : (source.take (w.found source s k)).2 = s'.1 :=
    congrArg (fun ended => ended.2.1) h
  exact Prod.ext hanswer hleft

theorem keeps_found (h : source.Keeps P)
    (hk : P (w.accepted source s k) ((w.await source).stateAt s k).1) :
    P (w.accepted source s (k + 1)) (w.found source s k) :=
  h.put _ _ _ hk

theorem keeps_stateAt (h : source.Keeps P) (h0 : P [] s.1)
    (hnone : ∀ j < k, (w.await source).result s j = .ok none) :
    P (w.accepted source s k) ((w.await source).stateAt s k).1 := by
  induction k with
  | zero => exact h0
  | succ k ih =>
    have hbefore := ih fun j hj => hnone j (Nat.lt_succ_of_lt hj)
    exact h.take_none _ _ (keeps_found h hbefore) (hnone k (Nat.lt_succ_self k))

def Idle (w : World σ τ α) (source : Source σ ε α) (s : σ × τ) (P : List α → σ → Prop) (j : Nat) :
    Prop :=
  P (w.accepted source s (j + 1)) (w.found source s j) ∧
    (source.take (w.found source s j)).1 = .ok none

theorem idle (h : source.Keeps P) (h0 : P [] s.1)
    (hnone : ∀ j < k, (w.await source).result s j = .ok none) : ∀ j < k, w.Idle source s P j := by
  intro j hj
  have hbefore := keeps_stateAt h h0 fun i hi => hnone i (Nat.lt_trans hi hj)
  exact ⟨keeps_found h hbefore, hnone j hj⟩

/-- All attempts but the last found nothing, and what is known of the container holds of the one
that the last attempt found or, if that found nothing either, of the one that is left. -/
theorem await_outcome (h : source.Keeps P) (h0 : P [] s.1) (timeout : Ticks) (budget : Nat) :
    match (w.await source).poll timeout budget s with
    | (⟨.ready value, _⟩, s') => ∃ k < budget, (∀ j < k, w.Idle source s P j) ∧
        P (w.accepted source s (k + 1)) (w.found source s k) ∧
        source.take (w.found source s k) = (.ok (some value), s'.1)
    | (⟨.timedOut _, _⟩, s') => ∃ k < budget, (∀ j ≤ k, w.Idle source s P j) ∧
        P (w.accepted source s (k + 1)) s'.1
    | (⟨.faulted fault, _⟩, s') => ∃ k < budget,
        P (w.accepted source s (k + 1)) (w.found source s k) ∧
        source.take (w.found source s k) = (.error fault, s'.1)
    | (⟨.exhausted, _⟩, s') => (∀ j < budget, w.Idle source s P j) ∧
        P (w.accepted source s budget) s'.1 := by
  have houtcome := (w.await source).poll_outcome s timeout budget
  rcases hpoll : (w.await source).poll timeout budget s with ⟨⟨ended, events⟩, s'⟩
  rw [hpoll] at houtcome
  cases ended with
  | ready value =>
    obtain ⟨k, hk, hnone, hlast⟩ := houtcome
    refine ⟨k, hk, idle h h0 hnone, keeps_found h (keeps_stateAt h h0 hnone), ?_⟩
    exact take_of_attempt hlast
  | timedOut error =>
    obtain ⟨k, hk, hnone, rfl⟩ := houtcome
    have hnone' : ∀ j < k + 1, (w.await source).result s j = .ok none :=
      fun j hj => hnone j (Nat.le_of_lt_succ hj)
    refine ⟨k, hk, ?_, keeps_stateAt h h0 hnone'⟩
    intro j hj
    exact idle h h0 hnone' j (Nat.lt_succ_of_le hj)
  | faulted fault =>
    obtain ⟨k, hk, hnone, hlast⟩ := houtcome
    refine ⟨k, hk, keeps_found h (keeps_stateAt h h0 hnone), ?_⟩
    exact take_of_attempt hlast
  | exhausted =>
    obtain ⟨hnone, rfl⟩ := houtcome
    exact ⟨idle h h0 hnone, keeps_stateAt h h0 hnone⟩

theorem length_accepted_le {i j : Nat} (h : i ≤ j) :
    (w.accepted source s i).length ≤ (w.accepted source s j).length := by
  induction h with
  | refl => exact Nat.le_refl _
  | step _ ih =>
    apply Nat.le_trans ih
    rw [accepted, List.length_append]
    exact Nat.le_add_right _ _

end World

/-! ## Waiting for an item -/

namespace Queue

variable {α : Type u} {n : Nat} {ε : Type v} {τ : Type w} {q : Queue α n} {items : List α}

theorem Holds.pushAll (h : q.Holds items) (arrived : List α) :
    Holds (q.pushAll arrived).2 (items ++ (q.pushAll arrived).1) := by
  induction arrived generalizing q items with
  | nil => rwa [Queue.pushAll, List.append_nil]
  | cons item rest ih =>
    have hpush := h.push_snd item
    by_cases hroom : items.length < n
    · rw [if_pos hroom] at hpush
      have hrest := ih hpush
      simpa [Queue.pushAll, h.push_fst, hroom] using hrest
    · rw [if_neg hroom] at hpush
      have hrest := ih hpush
      simpa [Queue.pushAll, h.push_fst, hroom] using hrest

theorem Holds.isEmpty_of_pop (h : q.Holds items) (hpop : q.pop.1 = none) : q.isEmpty = true := by
  rw [h.pop_fst, List.head?_eq_none_iff] at hpop
  exact h.isEmpty_iff.mpr hpop

theorem Holds.pop_some {value : α} {left : Queue α n} (h : q.Holds items)
    (hpop : q.pop = (some value, left)) : ∃ rest, items = value :: rest ∧ left.Holds rest := by
  have hhead := h.pop_fst
  have htail := h.pop_snd
  rw [hpop] at hhead htail
  obtain ⟨rest, rfl⟩ := List.head?_eq_some_iff.mp hhead.symm
  exact ⟨rest, rfl, htail⟩

theorem keeps_holds (ε : Type v) (items : List α) :
    (source ε : Source (Queue α n) ε α).Keeps fun accepted q => q.Holds (items ++ accepted) := by
  constructor
  · intro accepted q arrived h
    rw [← List.append_assoc]
    exact h.pushAll arrived
  · intro accepted q h hnone
    have hpop : q.pop.1 = none := Except.ok.inj hnone
    have hempty := h.isEmpty_of_pop hpop
    show Holds q.pop.2 (items ++ accepted)
    rwa [pop, if_pos hempty]

/-- The last attempt may take the oldest item that there is. All others find the queue empty. -/
def Awaited (w : World (Queue α n) τ α) (s : Queue α n × τ) (items : List α) (budget : Nat) :
    Ending ε α → Queue α n → Prop
  | .ready value, q => ∃ k < budget, (∀ j < k, (w.found (source ε) s j).isEmpty = true) ∧
      ∃ rest, items ++ w.accepted (source ε) s (k + 1) = value :: rest ∧ q.Holds rest
  | .timedOut _, q => ∃ k < budget, (∀ j ≤ k, (w.found (source ε) s j).isEmpty = true) ∧
      q.Holds (items ++ w.accepted (source ε) s (k + 1))
  | .faulted _, _ => False
  | .exhausted, q => (∀ j < budget, (w.found (source ε) s j).isEmpty = true) ∧
      q.Holds (items ++ w.accepted (source ε) s budget)

theorem awaited (h : q.Holds items) (w : World (Queue α n) τ α) (t : τ) (timeout : Ticks)
    (budget : Nat) :
    let ended := (w.await (source ε)).poll timeout budget (q, t)
    Awaited w (q, t) items budget ended.1.value ended.2.1 := by
  intro ended
  have h0 : q.Holds (items ++ []) := by rwa [List.append_nil]
  have houtcome := w.await_outcome (s := (q, t)) (keeps_holds ε items) h0 timeout budget
  have hidle : ∀ j, w.Idle (source ε) (q, t) (fun accepted q => q.Holds (items ++ accepted)) j →
      (w.found (source ε) (q, t) j).isEmpty = true := by
    intro j hj
    exact hj.1.isEmpty_of_pop (Except.ok.inj hj.2)
  rcases hended : ended with ⟨⟨ending, events⟩, s'⟩
  rw [show (w.await (source ε)).poll timeout budget (q, t) = _ from hended] at houtcome
  cases ending with
  | ready value =>
    obtain ⟨k, hk, hbefore, hfound, htake⟩ := houtcome
    refine ⟨k, hk, fun j hj => hidle j (hbefore j hj), ?_⟩
    have hpop : (w.found (source ε) (q, t) k).pop = (some value, s'.1) := by
      have hfst := congrArg Prod.fst htake
      have hsnd := congrArg Prod.snd htake
      exact Prod.ext (Except.ok.inj hfst) hsnd
    exact hfound.pop_some hpop
  | timedOut error =>
    obtain ⟨k, hk, hbefore, hleft⟩ := houtcome
    exact ⟨k, hk, fun j hj => hidle j (hbefore j hj), hleft⟩
  | faulted fault =>
    obtain ⟨k, hk, hfound, htake⟩ := houtcome
    cases htake
  | exhausted =>
    obtain ⟨hbefore, hleft⟩ := houtcome
    exact ⟨fun j hj => hidle j (hbefore j hj), hleft⟩

end Queue

/-! ## Waiting for an entry -/

namespace Reader

variable {α : Type u} {n : Nat} {log : Log α n} {entries : List α} {r : Reader}

theorem read_checked_cases (h : log.Records entries) (hr : r.position ≤ entries.length)
    (hpolicy : r.policy = .checked) :
    ((r.lag log = 0 ∨ r.hasOverflowed log = true) ∧ r.read log = (.ok none, r)) ∨
    (r.hasOverflowed log = false ∧ ∃ value, entries[r.position]? = some value ∧
      r.read log = (.ok (some value), { r with position := r.position + 1 })) := by
  rcases tryRead_cases h hr with ⟨hp, ht⟩ | ⟨hp, hw, ht⟩ | ⟨ho, ht⟩
  · left
    rw [read, ht, hpolicy]
    refine ⟨Or.inl ?_, rfl⟩
    rw [lag_of_records h, hp, Nat.sub_self]
  · right
    rw [read, ht, hpolicy]
    refine ⟨?_, entries[r.position], List.getElem?_eq_getElem hp, rfl⟩
    rw [← Bool.not_eq_true, hasOverflowed_iff, h.reserved_eq]
    exact Nat.not_lt_of_le hw
  · left
    rw [read, ht, hpolicy]
    refine ⟨Or.inr ?_, rfl⟩
    rw [hasOverflowed_iff, h.reserved_eq]
    exact ho

end Reader

namespace Log

variable {α : Type u} {n : Nat} {τ : Type v} {log : Log α n} {entries accepted : List α}
  {r : Reader} {s s' : Log α n × Reader}

structure Unread (entries : List α) (r : Reader) (accepted : List α) (s : Log α n × Reader) :
    Prop where
  records : s.1.Records (entries ++ accepted)
  reader_eq : s.2 = r
  position_le : r.position ≤ entries.length
  checked : r.policy = .checked

namespace Unread

theorem take_cases (h : Unread entries r accepted s) :
    ((r.lag s.1 = 0 ∨ r.hasOverflowed s.1 = true) ∧ source.take s = (.ok none, s)) ∨
    (r.hasOverflowed s.1 = false ∧ ∃ value, (entries ++ accepted)[r.position]? = some value ∧
      source.take s = (.ok (some value), s.1, { r with position := r.position + 1 })) := by
  obtain ⟨hrecords, rfl, hposition, hchecked⟩ := h
  have hle : s.2.position ≤ (entries ++ accepted).length := by
    rw [List.length_append]
    exact Nat.le_add_right_of_le hposition
  rcases Reader.read_checked_cases hrecords hle hchecked with ⟨hwhy, hread⟩ |
    ⟨hkept, value, hvalue, hread⟩
  · left
    refine ⟨hwhy, ?_⟩
    simp only [source, hread]
  · right
    refine ⟨hkept, value, hvalue, ?_⟩
    simp only [source, hread]

theorem nothing (h : Unread entries r accepted s) (hnone : (source.take s).1 = .ok none) :
    (r.lag s.1 = 0 ∨ r.hasOverflowed s.1 = true) ∧ (source.take s).2 = s := by
  rcases h.take_cases with ⟨hwhy, htake⟩ | ⟨_, value, _, htake⟩
  · exact ⟨hwhy, congrArg Prod.snd htake⟩
  · rw [htake] at hnone
    cases hnone

theorem entry {value : α} (h : Unread entries r accepted s)
    (hsome : source.take s = (.ok (some value), s')) :
    r.hasOverflowed s.1 = false ∧ (entries ++ accepted)[r.position]? = some value ∧
      s' = (s.1, { r with position := r.position + 1 }) := by
  rcases h.take_cases with ⟨_, htake⟩ | ⟨hkept, next, hnext, htake⟩
  · rw [htake] at hsome
    cases hsome
  · rw [htake] at hsome
    cases hsome
    exact ⟨hkept, hnext, rfl⟩

theorem no_fault {fault : Overflow} (h : Unread entries r accepted s) :
    source.take s ≠ (.error fault, s') := by
  intro herror
  rcases h.take_cases with ⟨_, htake⟩ | ⟨_, value, _, htake⟩
  · rw [htake] at herror
    cases herror
  · rw [htake] at herror
    cases herror

theorem not_overflowed_of_le {later : List α} (h : Unread entries r accepted s)
    (hlater : Unread entries r later s') (hle : accepted.length ≤ later.length)
    (hkept : r.hasOverflowed s'.1 = false) : r.hasOverflowed s.1 = false := by
  rw [← Bool.not_eq_true, Reader.hasOverflowed_iff, hlater.records.reserved_eq] at hkept
  rw [← Bool.not_eq_true, Reader.hasOverflowed_iff, h.records.reserved_eq]
  simp only [List.length_append] at hkept ⊢
  omega

end Unread

theorem keeps_unread (entries : List α) (r : Reader) :
    (source : Source (Log α n × Reader) Overflow α).Keeps (Unread entries r) := by
  constructor
  · intro accepted s arrived h
    obtain ⟨hrecords, hreader, hposition, hchecked⟩ := h
    refine ⟨?_, hreader, hposition, hchecked⟩
    rw [← List.append_assoc]
    exact hrecords.foldl_push arrived
  · intro accepted s h hnone
    rw [(h.nothing hnone).2]
    exact h

/-- The last attempt may read the next entry, and then the reader was not overtaken at any time. At
all others it is at the end or overtaken, and it stays where it is. -/
def Awaited (w : World (Log α n × Reader) τ α) (s : (Log α n × Reader) × τ) (entries : List α)
    (budget : Nat) : Ending Overflow α → Log α n × Reader → Prop
  | .ready value, (log, r) => ∃ k < budget,
      (∀ j < k, s.1.2.lag (w.found source s j).1 = 0) ∧
      (∀ j ≤ k, s.1.2.hasOverflowed (w.found source s j).1 = false) ∧
      (entries ++ w.accepted source s (k + 1))[s.1.2.position]? = some value ∧
      log.Records (entries ++ w.accepted source s (k + 1)) ∧
      r = { s.1.2 with position := s.1.2.position + 1 }
  | .timedOut _, (log, r) => ∃ k < budget,
      (∀ j ≤ k, s.1.2.lag (w.found source s j).1 = 0 ∨
        s.1.2.hasOverflowed (w.found source s j).1 = true) ∧
      log.Records (entries ++ w.accepted source s (k + 1)) ∧ r = s.1.2
  | .faulted _, _ => False
  | .exhausted, (log, r) =>
      (∀ j < budget, s.1.2.lag (w.found source s j).1 = 0 ∨
        s.1.2.hasOverflowed (w.found source s j).1 = true) ∧
      log.Records (entries ++ w.accepted source s budget) ∧ r = s.1.2

theorem awaited (h : Unread entries r [] (log, r)) (w : World (Log α n × Reader) τ α) (t : τ)
    (timeout : Ticks) (budget : Nat) :
    let ended := (w.await source).poll timeout budget ((log, r), t)
    Awaited w ((log, r), t) entries budget ended.1.value ended.2.1 := by
  intro ended
  have houtcome := w.await_outcome (s := ((log, r), t)) (keeps_unread entries r) h timeout budget
  have hidle : ∀ j, w.Idle source ((log, r), t) (Unread entries r) j →
      r.lag (w.found source ((log, r), t) j).1 = 0 ∨
        r.hasOverflowed (w.found source ((log, r), t) j).1 = true := by
    intro j hj
    exact (hj.1.nothing hj.2).1
  rcases hended : ended with ⟨⟨ending, events⟩, s'⟩
  rw [show (w.await source).poll timeout budget ((log, r), t) = _ from hended] at houtcome
  cases ending with
  | ready value =>
    obtain ⟨k, hk, hbefore, hfound, htake⟩ := houtcome
    obtain ⟨hkept, hvalue, hleft⟩ := hfound.entry htake
    -- an overflow at an earlier attempt would have lasted until the one that read
    have hkeptAt : ∀ j ≤ k, r.hasOverflowed (w.found source ((log, r), t) j).1 = false := by
      intro j hj
      rcases Nat.lt_or_eq_of_le hj with hlt | rfl
      · exact (hbefore j hlt).1.not_overflowed_of_le hfound
          (World.length_accepted_le (Nat.succ_le_succ hj)) hkept
      · exact hkept
    rw [hleft]
    refine ⟨k, hk, ?_, hkeptAt, hvalue, hfound.records, rfl⟩
    intro j hj
    have hnot := hkeptAt j (Nat.le_of_lt hj)
    exact (hidle j (hbefore j hj)).resolve_right (by rw [hnot]; exact Bool.false_ne_true)
  | timedOut error =>
    obtain ⟨k, hk, hbefore, hleft⟩ := houtcome
    exact ⟨k, hk, fun j hj => hidle j (hbefore j hj), hleft.records, hleft.reader_eq⟩
  | faulted fault =>
    obtain ⟨k, hk, hfound, htake⟩ := houtcome
    exact hfound.no_fault htake
  | exhausted =>
    obtain ⟨hbefore, hleft⟩ := houtcome
    exact ⟨fun j hj => hidle j (hbefore j hj), hleft.records, hleft.reader_eq⟩

/-- However long an overtaken reader waits and whatever is pushed meanwhile, it gets nothing. -/
theorem not_ready_of_overflow (h : Unread entries r [] (log, r)) (ho : r.hasOverflowed log = true)
    (w : World (Log α n × Reader) τ α) (t : τ) (timeout : Ticks) (budget : Nat) (value : α) :
    ((w.await source).poll timeout budget ((log, r), t)).1.value ≠ .ready value := by
  intro hready
  have hend := awaited h w t timeout budget
  simp only [hready, Awaited] at hend
  obtain ⟨k, _, _, hkept, _⟩ := hend
  have hfirst : Unread entries r (w.accepted source ((log, r), t) 1)
      (w.found source ((log, r), t) 0) :=
    World.keeps_found (keeps_unread entries r) h
  have hstart := h.not_overflowed_of_le hfirst (Nat.zero_le _) (hkept 0 (Nat.zero_le k))
  rw [ho] at hstart
  cases hstart

theorem unread_after_run {κ : Type w} [DecidableEq κ] {before : List (LogAction α κ)}
    (hlegal : (Broadcast.initial : Broadcast α κ n).Legal before) {key : κ}
    (hreader : ((Broadcast.initial : Broadcast α κ n).run before).2.readers key = some r)
    (hchecked : r.policy = .checked) :
    Unread (pushedSinceClear before) r []
      (((Broadcast.initial : Broadcast α κ n).run before).2.log, r) := by
  have hfollows := (Broadcast.follows_run Broadcast.follows_initial hlegal).2
  have hentries : (Chronicle.initial.run n before).2.entries = pushedSinceClear before :=
    Chronicle.entries_run Chronicle.initial before
  rw [hfollows.readers_eq] at hreader
  have hposition := hfollows.position_le key r hreader
  have hrecords := hfollows.records
  rw [hentries] at hposition hrecords
  refine ⟨?_, rfl, hposition, hchecked⟩
  rwa [List.append_nil]

end Log

/-- To wait for an item takes the oldest one that was not taken before or none at all, and a checked
reader that waits reads the next entry or stays where it is, whatever clock times the wait and
whatever is pushed meanwhile. A reader that is overtaken gets nothing by waiting. -/
theorem wait_takes_next_or_nothing {α : Type u} {ε : Type v} {τ : Type w} {κ : Type x} {n : Nat}
    [DecidableEq κ] (timeout : Ticks) (budget : Nat) (t : τ) :
    (∀ (before : List (QueueAction α ε)) (w : World (Queue α n) τ α),
      let q := ((Queue.empty : Queue α n).traffic before).2
      let p := (Queue.empty : Queue α n).passage ⟨[], []⟩ before
      let ended := (w.await (Queue.source ε)).poll timeout budget (q, t)
      ∃ items, p.taken ++ items = p.accepted ∧
        Queue.Awaited w (q, t) items budget ended.1.value ended.2.1) ∧
    ∀ before : List (LogAction α κ), (Broadcast.initial : Broadcast α κ n).Legal before →
      ∀ (w : World (Log α n × Reader) τ α) (key : κ) (r : Reader),
      let b := ((Broadcast.initial : Broadcast α κ n).run before).2
      let ended := (w.await Log.source).poll timeout budget ((b.log, r), t)
      b.readers key = some r → r.policy = .checked →
        Log.Awaited w ((b.log, r), t) (pushedSinceClear before) budget ended.1.value ended.2.1 ∧
        (r.hasOverflowed b.log = true → ∀ value, ended.1.value ≠ .ready value) := by
  constructor
  · intro before w q p ended
    have hempty : (Queue.empty : Queue α n).Holds (Fifo.empty : Fifo α n).items :=
      Queue.holds_empty
    have hholds := (hempty.traffic before).2
    refine ⟨_, hempty.passage rfl before, ?_⟩
    exact Queue.awaited hholds w t timeout budget
  · intro before hlegal w key r b ended hreader hchecked
    have hunread := Log.unread_after_run hlegal hreader hchecked
    constructor
    · exact Log.awaited hunread w t timeout budget
    · intro ho
      exact Log.not_ready_of_overflow hunread ho w t timeout budget

/-- A log of one entry is pushed to twice, and then once more before each attempt. -/
theorem overtaken_wait_gets_nothing :
    let b := ((Broadcast.initial : Broadcast Nat Unit 1).run
      [.attach () .checked false, .push 1, .push 2]).2
    let w : World (Log Nat 1 × Reader) SoftwareClock Nat :=
      ⟨fun c => (c.now, c), fun _ c => ([3], c.advance 1)⟩
    ∀ budget value, ((w.await Log.source).poll 5 budget ((b.log, ⟨0, .checked⟩), .start)).1.value ≠
      .ready value := by
  intro b w budget
  have hlegal : (Broadcast.initial : Broadcast Nat Unit 1).Legal
      [.attach () .checked false, .push 1, .push 2] := ⟨trivial, trivial, trivial, trivial⟩
  have hwait := wait_takes_next_or_nothing (α := Nat) (ε := Empty) (κ := Unit) (n := 1) 5 budget
    SoftwareClock.start
  have hentry := hwait.2 _ hlegal w () ⟨0, .checked⟩ rfl rfl
  exact hentry.2 rfl

end Nonblocking
