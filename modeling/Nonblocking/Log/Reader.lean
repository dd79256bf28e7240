import Nonblocking.Log.Basic

/-! # Readers

A reader is the number of the entry that it reads next. The log knows nothing of its readers and
never waits for them: once the writer has claimed the slot of an unread entry, that entry is lost.
What happens then on a plain read is the reader's policy. -/
namespace Nonblocking

/-- On an overflow a plain read answers as if nothing were new, or faults. -/
inductive Policy
  | checked | failFast
  deriving DecidableEq, Repr

namespace Policy

def ofName? : String → Option Policy
  | "checked" => some .checked
  | "fail_fast" => some .failFast
  | _ => none

def typeName : Policy → String
  | checked => "alice_lockfree::spmc::Checked"
  | failFast => "alice_lockfree::spmc::FailFast"

end Policy

structure Reader where
  position : Nat
  policy : Policy
  deriving DecidableEq, Repr

namespace Reader

open Text (Tree)

variable {α : Type u} {n : Nat}

/-- A new reader: at the live end, or at the very first entry. -/
def attach (policy : Policy) (log : Log α n) (live : Bool) : Reader :=
  ⟨if live then log.published else 0, policy⟩

def overflow? (r : Reader) (log : Log α n) : Option Overflow :=
  if n < log.reserved - r.position then some ⟨log.reserved - r.position - n⟩ else none

def hasOverflowed (r : Reader) (log : Log α n) : Bool := (r.overflow? log).isSome

/-- Overwritten entries are among them. -/
def lag (r : Reader) (log : Log α n) : Nat := log.published - r.position

/-- On an overflow the reader stays where it is. -/
def tryRead (r : Reader) (log : Log α n) : Except Overflow (Option α) × Reader :=
  if r.position = log.published then (.ok none, r)
  else
    match r.overflow? log with
    | some overflow => (.error overflow, r)
    | none => (.ok (log.slot r.position), { r with position := r.position + 1 })

def read (r : Reader) (log : Log α n) : Except Overflow (Option α) × Reader :=
  match r.tryRead log, r.policy with
  | (.error _, r), .checked => (.ok none, r)
  | answer, _ => answer

def readUpTo (log : Log α n) : Nat → Reader → Except Overflow (List α) × Reader
  | 0, r => (.ok [], r)
  | k + 1, r =>
    match r.read log with
    | (.error overflow, r) => (.error overflow, r)
    | (.ok none, r) => (.ok [], r)
    | (.ok (some entry), r) =>
      let (entries, r) := readUpTo log k r
      (entries.map (entry :: ·), r)

def drain (r : Reader) (log : Log α n) : Except Overflow (List α) × Reader :=
  readUpTo log (r.lag log) r

/-- Moves an overtaken reader to the oldest entry that is still there. -/
def resync (r : Reader) (log : Log α n) : Traced (Nat × Reader) :=
  match r.overflow? log with
  | none => ⟨(0, r), []⟩
  | some overflow =>
    let oldest := log.reserved - n
    ⟨(overflow.lost, { r with position := oldest }), [.readerResynced overflow.lost oldest]⟩

def skipToLive (r : Reader) (log : Log α n) : Traced (Nat × Reader) :=
  ⟨(r.lag log, { r with position := log.published }),
    [.readerSkippedToLive (r.lag log) log.published]⟩

def tree (r : Reader) : Tree :=
  .record "Reader" [("position", .ofNat r.position),
    ("policy", .leaf ("\"" ++ r.policy.typeName ++ "\""))]

theorem overflow?_eq_some_iff (r : Reader) (log : Log α n) (e : Overflow) :
    r.overflow? log = some e ↔ 0 < e.lost ∧ log.reserved - r.position = n + e.lost := by
  obtain ⟨lost⟩ := e
  unfold overflow?
  split
  · simp only [Option.some.injEq, Overflow.mk.injEq]; omega
  · simp only [reduceCtorEq, false_iff]; omega

theorem hasOverflowed_iff (r : Reader) (log : Log α n) :
    r.hasOverflowed log = true ↔ r.position + n < log.reserved := by
  unfold hasOverflowed overflow?
  split
  · simp only [Option.isSome_some, true_iff]; omega
  · simp only [Option.isSome_none, Bool.false_eq_true, false_iff]; omega

end Reader

end Nonblocking
