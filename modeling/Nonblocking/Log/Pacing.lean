import Nonblocking.Log.Broadcast

/-! # Flow control

A run is paced when nothing is pushed while a reader has a full log before it, and no reader is
attached that is overtaken from the start. What a reader hears is what its reads bring it. -/
namespace Nonblocking

variable {α : Type u} {κ : Type v} {n : Nat}

/-- The reader `key` goes on being the same one and skips nothing of its own accord. -/
def LogAction.ReadsOn (key : κ) : LogAction α κ → Prop
  | .attach other _ _ | .detach other => other ≠ key
  | .clone _ copy => copy ≠ key
  | .ask other action => other = key → action ≠ .skipToLive
  | .push _ | .clear => True

variable [DecidableEq κ]

def heardIn (key : κ) : LogAction α κ → LogReply α → List α
  | .ask other .read, .reader (.read (.ok (some entry)))
  | .ask other .tryRead, .reader (.attempt (.ok (some entry))) =>
    if other = key then [entry] else []
  | _, _ => []

def heard (key : κ) (actions : List (LogAction α κ)) (replies : List (LogReply α)) : List α :=
  (List.zipWith (heardIn key) actions replies).flatten

@[simp] theorem heard_nil (key : κ) : heard key ([] : List (LogAction α κ)) [] = [] := rfl

@[simp] theorem heard_cons (key : κ) (a : LogAction α κ) (actions : List (LogAction α κ))
    (reply : LogReply α) (replies : List (LogReply α)) :
    heard key (a :: actions) (reply :: replies) =
      heardIn key a reply ++ heard key actions replies := rfl

namespace Broadcast

def Paces (b : Broadcast α κ n) : LogAction α κ → Prop
  | .push _ => ∀ key r, b.readers key = some r → r.lag b.log < n
  | .attach _ policy live => (Reader.attach policy b.log live).lag b.log ≤ n
  | _ => True

def Paced (b : Broadcast α κ n) : List (LogAction α κ) → Prop
  | [] => True
  | a :: rest => b.Permits a ∧ b.Paces a ∧ (b.perform a).2.Paced rest

theorem Paced.legal {b : Broadcast α κ n} {actions : List (LogAction α κ)}
    (h : b.Paced actions) : b.Legal actions := by
  induction actions generalizing b with
  | nil => trivial
  | cons a rest ih => exact ⟨h.1, ih h.2.2⟩

theorem paced_append (b : Broadcast α κ n) (actions more : List (LogAction α κ)) :
    b.Paced (actions ++ more) ↔ b.Paced actions ∧ (b.run actions).2.Paced more := by
  induction actions generalizing b with
  | nil => simp [Paced, run]
  | cons a rest ih =>
    simp only [List.cons_append, Paced, run, ih, and_assoc]

end Broadcast

end Nonblocking
