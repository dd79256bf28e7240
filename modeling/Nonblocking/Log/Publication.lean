import Nonblocking.Log.Reader

/-! # Publication in two phases

A log whose writer and readers act at the same time, in small steps on one shared state; an entry
has parts, written and copied one at a time. The writer claims the slot, writes and then publishes;
a reader looks for something new, checks that the slot is not claimed, copies, checks again and only
then moves on. -/
namespace Nonblocking.Publication

variable {ι : Type u} {β : Type v} {κ : Type w} {n : Nat}

abbrev Parts (ι : Type u) (β : Type v) := ι → Option β

inductive WriterPhase (ι : Type u) (β : Type v)
  | idle
  /-- The slot is claimed; `written` are the parts of `entry` that are in place. -/
  | writing (entry : ι → β) (written : ι → Bool)

inductive ReaderPhase (ι : Type u) (β : Type v)
  | idle
  | behind
  /-- The slot was not claimed; `taken` are the parts that are copied. -/
  | copying (taken : ι → Bool) (copy : Parts ι β)
  /-- The slot was still not claimed after the copy was complete. -/
  | verified (copy : Parts ι β)
  | moving (target : Nat)

structure State (ι : Type u) (β : Type v) (κ : Type w) (n : Nat) where
  log : Log (Parts ι β) n
  writer : WriterPhase ι β
  /-- All entries so far, the one that is being written among them. -/
  entries : List (ι → β)
  reader : κ → Reader
  phase : κ → ReaderPhase ι β

def initial (policy : κ → Policy) : State ι β κ n :=
  ⟨.empty, .idle, [], fun k => ⟨0, policy k⟩, fun _ => .idle⟩

inductive Event (ι : Type u) (β : Type v) (κ : Type w)
  | reserve (entry : ι → β)
  | writePart (part : ι)
  | publish
  | attach (reader : κ) (live : Bool)
  | clone (reader copy : κ)
  | look (reader : κ)
  | check (reader : κ)
  | copyPart (reader : κ) (part : ι)
  | recheck (reader : κ)
  | advance (reader : κ)
  | resync (reader : κ)
  | skipToLive (reader : κ)
  | move (reader : κ)
  | probe (reader : κ)

def Enabled (s : State ι β κ n) : Event ι β κ → Prop
  | .reserve _ => s.writer = .idle
  | .writePart _ => ∃ entry written, s.writer = .writing entry written
  | .publish => ∃ entry written, s.writer = .writing entry written ∧ ∀ i, written i = true
  | .attach k _ | .look k | .resync k | .skipToLive k | .probe k => s.phase k = .idle
  | .clone k copy => s.phase k = .idle ∧ s.phase copy = .idle
  | .check k => s.phase k = .behind
  | .copyPart k _ => ∃ taken copy, s.phase k = .copying taken copy
  | .recheck k => ∃ taken copy, s.phase k = .copying taken copy ∧ ∀ i, taken i = true
  | .advance k => ∃ copy, s.phase k = .verified copy
  | .move k => ∃ target, s.phase k = .moving target

def parts (log : Log (Parts ι β) n) (p : Nat) : Parts ι β := (log.slot p).getD fun _ => none

variable [DecidableEq ι] [DecidableEq κ]

def writePart (log : Log (Parts ι β) n) (i : ι) (value : β) : Log (Parts ι β) n :=
  log.fill fun j => if j = i then some value else parts log log.published j

def setPhase (s : State ι β κ n) (k : κ) (phase : ReaderPhase ι β) : State ι β κ n :=
  { s with phase := fun j => if j = k then phase else s.phase j }

def setPosition (s : State ι β κ n) (k : κ) (position : Nat) : State ι β κ n :=
  { s with reader := fun j => if j = k then { s.reader k with position } else s.reader j }

def next (s : State ι β κ n) : Event ι β κ → State ι β κ n
  | .reserve entry =>
    { s with
      log := s.log.reserve
      writer := .writing entry fun _ => false
      entries := s.entries ++ [entry] }
  | .writePart i =>
    match s.writer with
    | .writing entry written =>
      { s with
        log := writePart s.log i (entry i)
        writer := .writing entry fun j => if j = i then true else written j }
    | .idle => s
  | .publish => { s with log := s.log.publish, writer := .idle }
  | .attach k live => setPosition s k (if live then s.log.published else 0)
  | .clone k copy => { s with reader := fun j => if j = copy then s.reader k else s.reader j }
  | .look k =>
    if (s.reader k).position = s.log.published then s else setPhase s k .behind
  | .check k =>
    if (s.reader k).hasOverflowed s.log then setPhase s k .idle
    else setPhase s k (.copying (fun _ => false) fun _ => none)
  | .copyPart k i =>
    match s.phase k with
    | .copying taken copy =>
      setPhase s k (.copying (fun j => if j = i then true else taken j)
        fun j => if j = i then parts s.log (s.reader k).position i else copy j)
    | _ => s
  | .recheck k =>
    match s.phase k with
    | .copying _ copy =>
      if (s.reader k).hasOverflowed s.log then setPhase s k .idle
      else setPhase s k (.verified copy)
    | _ => s
  | .advance k => setPhase (setPosition s k ((s.reader k).position + 1)) k .idle
  | .resync k =>
    if (s.reader k).hasOverflowed s.log then setPhase s k (.moving (s.log.reserved - n)) else s
  | .skipToLive k => setPhase s k (.moving s.log.published)
  | .move k =>
    match s.phase k with
    | .moving target => setPhase (setPosition s k target) k .idle
    | _ => s
  | .probe _ => s

inductive Outcome (ι : Type u) (β : Type v)
  | nothingNew
  | lost (overflow : Overflow)
  | entry (copy : Parts ι β)
  | overflowed (holds : Bool)

def outcome (s : State ι β κ n) : Event ι β κ → Option (Outcome ι β)
  | .look k => if (s.reader k).position = s.log.published then some .nothingNew else none
  | .check k | .recheck k => ((s.reader k).overflow? s.log).map .lost
  | .advance k =>
    match s.phase k with
    | .verified copy => some (.entry copy)
    | _ => none
  | .probe k => some (.overflowed ((s.reader k).hasOverflowed s.log))
  | _ => none

def Step (s : State ι β κ n) (e : Event ι β κ) (u : State ι β κ n) : Prop :=
  Enabled s e ∧ u = next s e

inductive Reachable (policy : κ → Policy) : State ι β κ n → Prop
  | initial : Reachable policy (initial policy)
  | step {s u e} : Reachable policy s → Step s e u → Reachable policy u

def run (s : State ι β κ n) (events : List (Event ι β κ)) : State ι β κ n := events.foldl next s

def Legal (s : State ι β κ n) : List (Event ι β κ) → Prop
  | [] => True
  | e :: rest => Enabled s e ∧ Legal (next s e) rest

theorem reachable_run {policy : κ → Policy} {s : State ι β κ n} (h : Reachable policy s)
    {events : List (Event ι β κ)} (hl : Legal s events) : Reachable policy (run s events) := by
  induction events generalizing s with
  | nil => exact h
  | cons e rest ih => exact ih (.step h ⟨hl.1, rfl⟩) hl.2

end Nonblocking.Publication
