import Nonblocking.Clock.Poll

/-! # Waiting on given sequences

A wait whose clock readings and attempts are laid down as two sequences. The state counts how many
of each were used, so that what a wait did can be read off it. -/
namespace Nonblocking

structure Uses where
  readings : Nat
  attempts : Nat
  deriving DecidableEq, Repr

/-- Reading number `k` of the clock is `readings k` and attempt number `k` yields `results k`, both
counted from zero. -/
def Waiting.ofSequences {ε : Type u} {β : Type v} (readings : Nat → Ticks)
    (results : Nat → Option β) : Waiting Uses ε β where
  now u := (readings u.readings, { u with readings := u.readings + 1 })
  attempt u := (.ok (results u.attempts), { u with attempts := u.attempts + 1 })

def Decisive {β : Type v} (readings : Nat → Ticks) (results : Nat → Option β) (timeout : Ticks)
    (k : Nat) : Prop :=
  (results k).isSome ∨ timeout ≠ maxTicks ∧ timeout < readings (k + 1) - readings 0

instance {β : Type v} (readings : Nat → Ticks) (results : Nat → Option β) (timeout : Ticks)
    (k : Nat) : Decidable (Decisive readings results timeout k) :=
  inferInstanceAs (Decidable (_ ∨ _ ∧ _))

end Nonblocking
