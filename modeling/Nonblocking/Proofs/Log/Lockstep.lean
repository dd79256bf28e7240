import Nonblocking.Log.Broadcast

/-! # Policies in lockstep

A program can be run with any policies and once more with checked readers only, and the two runs
stay together for good, as an overflow is found before anything is changed. `checked` makes all
readers of a state checked, `muffled` tells a fault as nothing new, and every action commutes with
these two. -/
namespace Nonblocking

variable {α : Type u} {κ : Type v} {n : Nat}

def Reader.checked (r : Reader) : Reader := { r with policy := .checked }

def ReaderReply.muffled : ReaderReply α → ReaderReply α
  | .read (.error _) => .read (.ok none)
  | reply => reply

namespace LogAction

def checked : LogAction α κ → LogAction α κ
  | .attach key _ live => .attach key .checked live
  | a => a

end LogAction

namespace LogReply

def muffled : LogReply α → LogReply α
  | .reader reply => .reader reply.muffled
  | reply => reply

def fault? : LogReply α → Option Fault
  | .reader (.read (.error overflow)) => some (.desynchronized overflow)
  | _ => none

end LogReply

namespace Reader

variable (r : Reader) (log : Log α n)

theorem tryRead_checked :
    r.checked.tryRead log = ((r.tryRead log).1, (r.tryRead log).2.checked) := by
  have hoverflow : r.checked.overflow? log = r.overflow? log := rfl
  have hposition : r.checked.position = r.position := rfl
  unfold tryRead
  rw [hoverflow, hposition]
  split
  · rfl
  · split
    · rfl
    · rfl

theorem act_checked (action : ReaderAction) :
    r.checked.act log action = ((r.act log action).1.muffled, (r.act log action).2.checked) := by
  cases action with
  | read =>
    have htry := r.tryRead_checked log
    obtain ⟨position, policy⟩ := r
    cases hanswer : (Reader.mk position policy).tryRead log with
    | mk answer moved =>
      rw [hanswer] at htry
      cases answer with
      | ok value =>
        simp only [act, read, htry, hanswer]
        rfl
      | error overflow =>
        -- the policy of the reader decides whether there is anything to muffle
        simp only [act, read, htry, hanswer]
        cases policy with
        | checked => rfl
        | failFast => rfl
  | tryRead =>
    simp only [act, tryRead_checked]
    rfl
  | resync =>
    have hoverflow : r.checked.overflow? log = r.overflow? log := rfl
    simp only [act, resync, hoverflow]
    cases r.overflow? log with
    | none => rfl
    | some overflow => rfl
  | skipToLive => rfl
  | hasOverflowed => rfl
  | lag => rfl
  | position => rfl

end Reader

variable [DecidableEq κ]

theorem setReader_map (f : Reader → Reader) (readers : κ → Option Reader) (key : κ)
    (r : Option Reader) :
    setReader (fun other => (readers other).map f) key (r.map f) =
      fun other => (setReader readers key r other).map f := by
  funext other
  unfold setReader
  by_cases h : other = key
  · rw [if_pos h, if_pos h]
  · rw [if_neg h, if_neg h]

theorem setReader_self (readers : κ → Option Reader) (key : κ) :
    setReader readers key (readers key) = readers := by
  funext other
  unfold setReader
  by_cases h : other = key
  · rw [if_pos h, h]
  · rw [if_neg h]

namespace Broadcast

def checked (b : Broadcast α κ n) : Broadcast α κ n :=
  { b with readers := fun key => (b.readers key).map Reader.checked }

variable (b : Broadcast α κ n)

omit [DecidableEq κ] in
theorem permits_checked (a : LogAction α κ) : b.checked.Permits a.checked ↔ b.Permits a := by
  cases a with
  | clear =>
    constructor
    · intro hnone key
      exact Option.map_eq_none_iff.mp (hnone key)
    · intro hnone key
      exact Option.map_eq_none_iff.mpr (hnone key)
  | clone key copy => simp [Permits, LogAction.checked, checked]
  | ask key action => simp [Permits, LogAction.checked, checked]
  | push item => rfl
  | attach key policy live => rfl
  | detach key => rfl

theorem perform_checked (a : LogAction α κ) :
    b.checked.perform a.checked = ((b.perform a).1.muffled, (b.perform a).2.checked) := by
  cases a with
  | push item => rfl
  | clear => rfl
  | attach key policy live =>
    have hset := setReader_map Reader.checked b.readers key (some (.attach policy b.log live))
    simp only [perform, LogAction.checked, checked, ← hset]
    rfl
  | clone key copy =>
    have hset := setReader_map Reader.checked b.readers copy (b.readers key)
    simp only [perform, LogAction.checked, checked, ← hset]
    rfl
  | detach key =>
    have hset := setReader_map Reader.checked b.readers key none
    simp only [perform, LogAction.checked, checked, ← hset]
    rfl
  | ask key action =>
    cases hr : b.readers key with
    | none => simp only [perform, LogAction.checked, checked, hr, Option.map_none, LogReply.muffled]
    | some r =>
      have hset := setReader_map Reader.checked b.readers key (some (r.act b.log action).2)
      simp only [perform, LogAction.checked, checked, hr, Option.map_some, r.act_checked,
        LogReply.muffled, ← hset]

/-- Both runs: the replies differ by the faults, the states by the policies. -/
theorem run_checked (actions : List (LogAction α κ)) :
    b.checked.run (actions.map LogAction.checked) =
      ((b.run actions).1.map LogReply.muffled, (b.run actions).2.checked) := by
  induction actions generalizing b with
  | nil => rfl
  | cons a rest ih => simp only [List.map_cons, run, perform_checked, ih]

theorem legal_checked (actions : List (LogAction α κ)) :
    b.checked.Legal (actions.map LogAction.checked) ↔ b.Legal actions := by
  induction actions generalizing b with
  | nil => exact Iff.rfl
  | cons a rest ih =>
    simp only [List.map_cons, Legal, perform_checked]
    exact and_congr (permits_checked b a) (ih _)

end Broadcast

/-! ## When a read faults -/

namespace Reader

variable {r : Reader} {log : Log α n} {overflow : Overflow}

/-- When nothing is claimed but what is published, a reader at the end has lost nothing. -/
theorem tryRead_of_overflow (h : log.reserved = log.published)
    (ho : r.overflow? log = some overflow) : r.tryRead log = (.error overflow, r) := by
  have hlost := (r.overflow?_eq_some_iff log overflow).mp ho
  have hend : r.position ≠ log.published := by omega
  rw [tryRead, if_neg hend, ho]

theorem read_of_overflow (h : log.reserved = log.published)
    (ho : r.overflow? log = some overflow) :
    r.read log = (if r.policy = .failFast then .error overflow else .ok none, r) := by
  rw [read, tryRead_of_overflow h ho]
  cases r.policy with
  | checked => rfl
  | failFast => rfl

theorem exists_read_ok (ho : r.overflow? log = none) : ∃ answer, (r.read log).1 = .ok answer := by
  rw [read, tryRead, ho]
  by_cases hend : r.position = log.published
  · exact ⟨none, by rw [if_pos hend]⟩
  · exact ⟨log.slot r.position, by rw [if_neg hend]⟩

end Reader

namespace Broadcast

variable {b : Broadcast α κ n} {key : κ} {r : Reader}

/-- Outside of a push nothing is claimed but what is published. -/
theorem reserved_eq_perform (h : b.log.reserved = b.log.published) (a : LogAction α κ) :
    (b.perform a).2.log.reserved = (b.perform a).2.log.published := by
  cases a with
  | push item => simp [perform]
  | clear => rfl
  | attach key policy live => exact h
  | clone key copy => exact h
  | detach key => exact h
  | ask key action =>
    simp only [perform]
    split
    · exact h
    · exact h

theorem reserved_eq_run (h : b.log.reserved = b.log.published) (actions : List (LogAction α κ)) :
    (b.run actions).2.log.reserved = (b.run actions).2.log.published := by
  induction actions generalizing b with
  | nil => exact h
  | cons a rest ih => exact ih (reserved_eq_perform h a)

theorem perform_ask (hr : b.readers key = some r) (action : ReaderAction) :
    b.perform (.ask key action) =
      (.reader (r.act b.log action).1,
        { b with readers := setReader b.readers key (some (r.act b.log action).2) }) := by
  simp only [perform, hr]

theorem perform_read_of_overflow {overflow : Overflow} (h : b.log.reserved = b.log.published)
    (hr : b.readers key = some r) (ho : r.overflow? b.log = some overflow) :
    b.perform (.ask key .read) =
      (.reader (.read (if r.policy = .failFast then .error overflow else .ok none)), b) := by
  have hsame : setReader b.readers key (some r) = b.readers := by rw [← hr, setReader_self]
  rw [perform_ask hr, Reader.act, Reader.read_of_overflow h ho]
  simp only [hsame]

theorem fault?_eq_none (hr : b.readers key = some r) (ho : r.overflow? b.log = none) :
    (b.perform (.ask key .read)).1.fault? = none := by
  obtain ⟨answer, hanswer⟩ := Reader.exists_read_ok ho
  rw [perform_ask hr]
  simp only [Reader.act, hanswer]
  rfl

omit [DecidableEq κ] in
theorem act_fault? (r : Reader) (log : Log α n) {action : ReaderAction}
    (ha : action ≠ .read) : (LogReply.reader (r.act log action).1).fault? = none := by
  cases action with
  | read => contradiction
  | tryRead => rfl
  | resync => rfl
  | skipToLive => rfl
  | hasOverflowed => rfl
  | lag => rfl
  | position => rfl

/-- Nothing but a plain read faults. -/
theorem ask_read_of_fault {a : LogAction α κ} {fault : Fault}
    (h : (b.perform a).1.fault? = some fault) : ∃ key, a = .ask key .read := by
  cases a with
  | ask key action =>
    cases hr : b.readers key with
    | none =>
      simp only [perform, hr] at h
      cases h
    | some r =>
      rw [perform_ask hr] at h
      by_cases ha : action = .read
      · exact ⟨key, by rw [ha]⟩
      · rw [act_fault? r b.log ha] at h
        cases h
  | push item => cases h
  | clear => cases h
  | attach key policy live => cases h
  | clone key copy => cases h
  | detach key => cases h

structure FaultsByPolicy (b : Broadcast α κ n) (key : κ) (r : Reader) : Prop where
  fault_iff : (∃ fault, (b.perform (.ask key .read)).1.fault? = some fault) ↔
    r.policy = .failFast ∧ r.hasOverflowed b.log = true
  fault_eq : ∀ fault, (b.perform (.ask key .read)).1.fault? = some fault →
    ∃ lost, (b.perform (.ask key .tryRead)).1 = .reader (.attempt (.error ⟨lost⟩)) ∧
      fault.message = "broadcast reader desynchronized: " ++
        ("reader overflowed: " ++ toString lost ++ " entries overwritten before they were read")
  unchanged : r.hasOverflowed b.log = true → (b.perform (.ask key .read)).2 = b
  checked_eq : r.hasOverflowed b.log = true →
    b.checked.perform (.ask key .read) = (.reader (.read (.ok none)), b.checked)

theorem faultsByPolicy (h : b.log.reserved = b.log.published) (hr : b.readers key = some r) :
    FaultsByPolicy b key r := by
  have hchecked : b.checked.perform (.ask key .read) =
      ((b.perform (.ask key .read)).1.muffled, (b.perform (.ask key .read)).2.checked) :=
    b.perform_checked (.ask key .read)
  cases ho : r.overflow? b.log with
  | none =>
    have hnot : ¬r.hasOverflowed b.log = true := by simp [Reader.hasOverflowed, ho]
    have hfault := fault?_eq_none hr ho
    constructor
    · simp [hfault, hnot]
    · simp [hfault]
    · exact fun hover => absurd hover hnot
    · exact fun hover => absurd hover hnot
  | some overflow =>
    have hover : r.hasOverflowed b.log = true := by simp [Reader.hasOverflowed, ho]
    have hread := perform_read_of_overflow h hr ho
    constructor
    · rw [hread]
      cases r.policy with
      | checked => simp [LogReply.fault?]
      | failFast => simp [LogReply.fault?, hover]
    · intro fault hfault
      refine ⟨overflow.lost, ?_, ?_⟩
      · rw [perform_ask hr, Reader.act, Reader.tryRead_of_overflow h ho]
      · rw [hread] at hfault
        cases hpolicy : r.policy with
        | checked => simp [hpolicy, LogReply.fault?] at hfault
        | failFast =>
          simp only [hpolicy, if_pos, LogReply.fault?, Option.some.injEq] at hfault
          rw [← hfault]
          rfl
    · intro _
      rw [hread]
    · intro _
      rw [hchecked, hread]
      cases r.policy with
      | checked => rfl
      | failFast => rfl

/-- Both runs are permitted alike, every reply is the same but for the faults, which a checked
reader is not told of, and after each action the logs are the same and all readers are in the same
places. What faults is a plain read of a fail-fast reader that has overflowed and nothing else, and
it leaves everything as it was. -/
theorem run_policies_in_lockstep (actions : List (LogAction α κ)) :
    let own := (initial : Broadcast α κ n).run actions
    let mild := (initial : Broadcast α κ n).run (actions.map LogAction.checked)
    ((initial : Broadcast α κ n).Legal (actions.map LogAction.checked) ↔
        (initial : Broadcast α κ n).Legal actions) ∧
      mild.1 = own.1.map LogReply.muffled ∧
      mild.2.log = own.2.log ∧
      (∀ key, mild.2.readers key = (own.2.readers key).map Reader.checked) ∧
      (∀ a fault, (own.2.perform a).1.fault? = some fault → ∃ key, a = .ask key .read) ∧
      ∀ key r, own.2.readers key = some r → FaultsByPolicy own.2 key r := by
  intro own mild
  have hmild : mild = (own.1.map LogReply.muffled, own.2.checked) :=
    (initial : Broadcast α κ n).run_checked actions
  rw [hmild]
  refine ⟨(initial : Broadcast α κ n).legal_checked actions, rfl, rfl, fun _ => rfl, ?_, ?_⟩
  · intro a fault hfault
    exact ask_read_of_fault hfault
  · intro key r hr
    exact faultsByPolicy (reserved_eq_run rfl actions) hr

/-- The second read of an overtaken reader faults, and the program goes on. -/
example : (((initial : Broadcast Nat Bool 1).run
      [.attach true .failFast false, .push 7, .ask true .read, .push 8, .push 9, .ask true .read,
        .ask true .resync, .ask true .read]).1.map LogReply.fault?) =
    [none, none, none, none, none, some (.desynchronized ⟨1⟩), none, none] := by
  decide

end Broadcast

end Nonblocking
