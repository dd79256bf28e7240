import Nonblocking.Log.Pacing

/-! # Readers that stay where they were overtaken

The keys of an overtaken reader and of its copies, followed through a run: a copy of a member is a
member, and a key is none any more once its reader moves on or is replaced. -/
namespace Nonblocking

variable {α : Type u} {κ : Type v}

namespace LogAction

def isPush : LogAction α κ → Bool
  | .push _ => true
  | _ => false

/-- The reader `key` goes on being the same one. -/
def Keeps (key : κ) : LogAction α κ → Prop
  | .attach other _ _ | .detach other => other ≠ key
  | .clone _ copy => copy ≠ key
  | .push _ | .clear | .ask _ _ => True

def MovesOn (key : κ) : LogAction α κ → Prop
  | .ask other .resync | .ask other .skipToLive => other = key
  | _ => False

def remaining (a : LogAction α κ) (members : κ → Prop) (key : κ) : Prop :=
  (members key ∧ a.Keeps key ∧ ¬a.MovesOn key) ∨
    ∃ original, a = .clone original key ∧ members original

end LogAction

def remainingAfter (members : κ → Prop) (actions : List (LogAction α κ)) : κ → Prop :=
  actions.foldl (fun members a => a.remaining members) members

def Unheard [DecidableEq κ] (members : κ → Prop) :
    List (LogAction α κ) → List (LogReply α) → Prop
  | a :: actions, reply :: replies =>
    (∀ key, members key → heardIn key a reply = []) ∧
      Unheard (a.remaining members) actions replies
  | _, _ => True

theorem remainingAfter_self {members : κ → Prop} {key : κ} (h : members key)
    {actions : List (LogAction α κ)} (hactions : ∀ a ∈ actions, a.Keeps key ∧ ¬a.MovesOn key) :
    remainingAfter members actions key := by
  induction actions generalizing members with
  | nil => exact h
  | cons a rest ih =>
    apply ih
    · exact Or.inl ⟨h, hactions a List.mem_cons_self⟩
    · exact fun other hmem => hactions other (List.mem_cons_of_mem a hmem)

end Nonblocking
