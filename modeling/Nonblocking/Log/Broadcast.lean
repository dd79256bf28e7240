import Nonblocking.Log.Reader

/-! # A log and its audience

Runs of a log with any number of readers, told apart by keys of a type `κ`. A clear needs that there
are no readers. Beside it stands the same audience in front of a chronicle: the list of all entries
since the last clear, whose newest `n` can be read. -/
namespace Nonblocking

inductive ReaderAction
  | read | tryRead | resync | skipToLive | hasOverflowed | lag | position
  deriving DecidableEq, Repr

inductive ReaderReply (α : Type u)
  | read (answer : Except Overflow (Option α))
  | attempt (answer : Except Overflow (Option α))
  | skipped (count : Nat) (events : List Event)
  | flag (holds : Bool)
  | number (k : Nat)

inductive LogAction (α : Type u) (κ : Type v)
  | push (item : α)
  | clear
  | attach (key : κ) (policy : Policy) (live : Bool)
  | clone (key copy : κ)
  | detach (key : κ)
  | ask (key : κ) (action : ReaderAction)

inductive LogReply (α : Type u)
  | nothing
  | emitted (events : List Event)
  | reader (reply : ReaderReply α)

namespace Reader

variable {α : Type u} {n : Nat}

def act (r : Reader) (log : Log α n) : ReaderAction → ReaderReply α × Reader
  | .read => (.read (r.read log).1, (r.read log).2)
  | .tryRead => (.attempt (r.tryRead log).1, (r.tryRead log).2)
  | .resync =>
    let moved := r.resync log
    (.skipped moved.value.1 moved.events, moved.value.2)
  | .skipToLive =>
    let moved := r.skipToLive log
    (.skipped moved.value.1 moved.events, moved.value.2)
  | .hasOverflowed => (.flag (r.hasOverflowed log), r)
  | .lag => (.number (r.lag log), r)
  | .position => (.number r.position, r)

/-- How many of the entries before the reader do not fit into `n` any more. -/
def lost (r : Reader) (n : Nat) (entries : List α) : Nat := entries.length - n - r.position

def consultNext (r : Reader) (n : Nat) (entries : List α) :
    Except Overflow (Option α) × Reader :=
  if 0 < r.lost n entries then (.error ⟨r.lost n entries⟩, r)
  else
    match entries[r.position]? with
    | none => (.ok none, r)
    | some entry => (.ok (some entry), { r with position := r.position + 1 })

def consult (r : Reader) (n : Nat) (entries : List α) : ReaderAction → ReaderReply α × Reader
  | .read =>
    match r.consultNext n entries, r.policy with
    | (.error _, r), .checked => (.read (.ok none), r)
    | (answer, r), _ => (.read answer, r)
  | .tryRead => (.attempt (r.consultNext n entries).1, (r.consultNext n entries).2)
  | .resync =>
    if 0 < r.lost n entries then
      (.skipped (r.lost n entries)
        [.readerResynced (r.lost n entries) (entries.length - n)],
        { r with position := entries.length - n })
    else (.skipped 0 [], r)
  | .skipToLive =>
    let unread := (entries.drop r.position).length
    (.skipped unread [.readerSkippedToLive unread entries.length],
      { r with position := entries.length })
  | .hasOverflowed => (.flag (decide (0 < r.lost n entries)), r)
  | .lag => (.number (entries.drop r.position).length, r)
  | .position => (.number r.position, r)

end Reader

def setReader {κ : Type v} [DecidableEq κ] (readers : κ → Option Reader) (key : κ)
    (r : Option Reader) : κ → Option Reader :=
  fun other => if other = key then r else readers other

structure Broadcast (α : Type u) (κ : Type v) (n : Nat) where
  log : Log α n
  readers : κ → Option Reader

namespace Broadcast

variable {α : Type u} {κ : Type v} {n : Nat} [DecidableEq κ]

def initial : Broadcast α κ n := ⟨.empty, fun _ => none⟩

def Permits (b : Broadcast α κ n) : LogAction α κ → Prop
  | .clear => ∀ key, b.readers key = none
  | .clone key _ | .ask key _ => (b.readers key).isSome
  | _ => True

def perform (b : Broadcast α κ n) : LogAction α κ → LogReply α × Broadcast α κ n
  | .push item => (.nothing, { b with log := b.log.push item })
  | .clear => (.emitted b.log.clear.events, { b with log := b.log.clear.value })
  | .attach key policy live =>
    (.nothing, { b with readers := setReader b.readers key (some (.attach policy b.log live)) })
  | .clone key copy => (.nothing, { b with readers := setReader b.readers copy (b.readers key) })
  | .detach key => (.nothing, { b with readers := setReader b.readers key none })
  | .ask key action =>
    match b.readers key with
    | none => (.nothing, b)
    | some r =>
      let (reply, r) := r.act b.log action
      (.reader reply, { b with readers := setReader b.readers key (some r) })

def run (b : Broadcast α κ n) : List (LogAction α κ) → List (LogReply α) × Broadcast α κ n
  | [] => ([], b)
  | a :: rest =>
    let (reply, b) := b.perform a
    let (replies, b) := b.run rest
    (reply :: replies, b)

def Legal (b : Broadcast α κ n) : List (LogAction α κ) → Prop
  | [] => True
  | a :: rest => b.Permits a ∧ (b.perform a).2.Legal rest

end Broadcast

structure Chronicle (α : Type u) (κ : Type v) where
  entries : List α
  readers : κ → Option Reader

namespace Chronicle

variable {α : Type u} {κ : Type v} [DecidableEq κ]

def initial : Chronicle α κ := ⟨[], fun _ => none⟩

def perform (n : Nat) (c : Chronicle α κ) : LogAction α κ → LogReply α × Chronicle α κ
  | .push item => (.nothing, { c with entries := c.entries ++ [item] })
  | .clear => (.emitted [.logCleared c.entries.length], { c with entries := [] })
  | .attach key policy live =>
    let position := if live then c.entries.length else 0
    (.nothing, { c with readers := setReader c.readers key (some ⟨position, policy⟩) })
  | .clone key copy => (.nothing, { c with readers := setReader c.readers copy (c.readers key) })
  | .detach key => (.nothing, { c with readers := setReader c.readers key none })
  | .ask key action =>
    match c.readers key with
    | none => (.nothing, c)
    | some r =>
      let (reply, r) := r.consult n c.entries action
      (.reader reply, { c with readers := setReader c.readers key (some r) })

def run (n : Nat) (c : Chronicle α κ) : List (LogAction α κ) → List (LogReply α) × Chronicle α κ
  | [] => ([], c)
  | a :: rest =>
    let (reply, c) := c.perform n a
    let (replies, c) := c.run n rest
    (reply :: replies, c)

end Chronicle

end Nonblocking
