import Mathlib.Data.Nat.Find
import Nonblocking.Clock.Rounds
import Nonblocking.Clock.Sequences

/-! # The first decisive attempt ends a wait

The rounds before it leave nothing behind but the state they lead to, so a wait is as it would have
been if it had started in any of them. A wait that no attempt ends uses up every budget. -/
namespace Nonblocking

theorem Deadline.isExpired_after_iff (start timeout now : Ticks) :
    (Deadline.after start timeout).isExpired now = true ↔
      timeout ≠ maxTicks ∧ timeout < now - start := by
  unfold Deadline.after Deadline.isExpired
  by_cases h : timeout = maxTicks
  · simp [h]
  · simp only [if_neg h, decide_eq_true_eq]
    exact (and_iff_right h).symm

namespace Waiting

variable {σ : Type u} {ε : Type v} {β : Type w} (w : Waiting σ ε β) (s : σ) (timeout : Ticks)

def pollFrom (k budget : Nat) : Traced (Ending ε β) × σ :=
  w.pollUntil (.after (w.reading s 0) timeout) timeout budget (w.stateAt s k)

variable {w s timeout} {k : Nat}

theorem attempt_eq {answer : Except ε (Option β)} (h : w.result s k = answer) :
    w.attempt (w.stateAt s k) = (answer, (w.attempt (w.stateAt s k)).2) :=
  Prod.ext h rfl

theorem pollFrom_of_result_none (h : w.result s k = .ok none) (budget : Nat) :
    w.pollFrom s timeout k (budget + 1) =
      if (Deadline.after (w.reading s 0) timeout).isExpired (w.reading s (k + 1)) then
        w.ending s timeout k
      else w.pollFrom s timeout (k + 1) budget := by
  rw [pollFrom, pollUntil, attempt_eq h, ending, h]
  rfl

theorem pollFrom_of_ends (h : w.Ends s timeout k) (budget : Nat) :
    w.pollFrom s timeout k (budget + 1) = w.ending s timeout k := by
  cases hresult : w.result s k with
  | error fault => rw [pollFrom, pollUntil, attempt_eq hresult, ending, hresult]
  | ok yielded =>
    cases yielded with
    | some value => rw [pollFrom, pollUntil, attempt_eq hresult, ending, hresult]
    | none =>
      -- nothing but the reading can have ended it
      have hlate := h.resolve_left (not_not_intro hresult)
      rw [pollFrom_of_result_none hresult,
        if_pos ((Deadline.isExpired_after_iff _ _ _).mpr hlate)]

theorem pollFrom_of_not_ends (h : ¬w.Ends s timeout k) (budget : Nat) :
    w.pollFrom s timeout k (budget + 1) = w.pollFrom s timeout (k + 1) budget := by
  obtain ⟨hresult, hlate⟩ := not_or.mp h
  rw [pollFrom_of_result_none (Classical.not_not.mp hresult),
    if_neg (mt (Deadline.isExpired_after_iff _ _ _).mp hlate)]

/-- Rounds that do not end a wait take nothing but their share of the budget. -/
theorem poll_eq_pollFrom (h : ∀ j < k, ¬w.Ends s timeout j) (budget : Nat) :
    w.poll timeout (k + budget) s = w.pollFrom s timeout k budget := by
  induction k generalizing budget with
  | zero =>
    rw [Nat.zero_add]
    rfl
  | succ k ih =>
    rw [← pollFrom_of_not_ends (h k (Nat.lt_succ_self k)), Nat.add_assoc, Nat.add_comm 1]
    exact ih (fun j hj => h j (Nat.lt_succ_of_lt hj)) (budget + 1)

/-- A wait is decided by the first attempt that ends it, whatever the budget for later ones. -/
theorem poll_eq_ending (h : w.Ends s timeout k) (hfirst : ∀ j < k, ¬w.Ends s timeout j)
    {budget : Nat} (hbudget : k < budget) : w.poll timeout budget s = w.ending s timeout k := by
  obtain ⟨more, rfl⟩ := Nat.exists_eq_add_of_lt hbudget
  rw [Nat.add_assoc, poll_eq_pollFrom hfirst, pollFrom_of_ends h]

theorem poll_eq_exhausted {budget : Nat} (h : ∀ j < budget, ¬w.Ends s timeout j) :
    w.poll timeout budget s = (⟨.exhausted, []⟩, w.stateAt s budget) :=
  poll_eq_pollFrom h 0

theorem exists_first_end (h : w.Ends s timeout k) :
    ∃ i ≤ k, w.Ends s timeout i ∧ ∀ j < i, ¬w.Ends s timeout j := by
  classical
  have hends : ∃ i, w.Ends s timeout i := ⟨k, h⟩
  exact ⟨Nat.find hends, Nat.find_min' hends h, Nat.find_spec hends, fun j => Nat.find_min hends⟩

theorem poll_cases (w : Waiting σ ε β) (s : σ) (timeout : Ticks) (budget : Nat) :
    (∃ k < budget, w.Ends s timeout k ∧ (∀ j < k, ¬w.Ends s timeout j) ∧
      w.poll timeout budget s = w.ending s timeout k) ∨
    ((∀ j < budget, ¬w.Ends s timeout j) ∧
      w.poll timeout budget s = (⟨.exhausted, []⟩, w.stateAt s budget)) := by
  by_cases h : ∃ k < budget, w.Ends s timeout k
  · obtain ⟨last, hlast, hends⟩ := h
    obtain ⟨k, hk, hkEnds, hfirst⟩ := exists_first_end hends
    have hbudget := Nat.lt_of_le_of_lt hk hlast
    exact Or.inl ⟨k, hbudget, hkEnds, hfirst, poll_eq_ending hkEnds hfirst hbudget⟩
  · have hopen : ∀ j < budget, ¬w.Ends s timeout j := fun j hj hends => h ⟨j, hj, hends⟩
    exact Or.inr ⟨hopen, poll_eq_exhausted hopen⟩

theorem poll_fst_congr {τ : Type x} {w' : Waiting τ ε β} {t : τ}
    (hreading : ∀ k, w.reading s k = w'.reading t k)
    (hresult : ∀ k, w.result s k = w'.result t k) (budget : Nat) :
    (w.poll timeout budget s).1 = (w'.poll timeout budget t).1 := by
  have helapsed : ∀ k, w.elapsed s k = w'.elapsed t k := by
    intro k
    rw [elapsed, elapsed, hreading, hreading]
  have hends : ∀ k, w.Ends s timeout k ↔ w'.Ends t timeout k := by
    intro k
    rw [Ends, Ends, hresult, helapsed]
  rcases poll_cases w s timeout budget with ⟨k, hbudget, hk, hfirst, hpoll⟩ | ⟨hopen, hpoll⟩
  · have hfirst' : ∀ j < k, ¬w'.Ends t timeout j := fun j hj => mt (hends j).mpr (hfirst j hj)
    rw [hpoll, poll_eq_ending ((hends k).mp hk) hfirst' hbudget, ending, ending, hresult, helapsed]
    split <;> rfl
  · rw [hpoll, poll_eq_exhausted fun j hj => mt (hends j).mpr (hopen j hj)]

theorem poll_ne_timedOut (h : timeout = maxTicks) (budget : Nat) (error : TimedOut) :
    (w.poll timeout budget s).1.value ≠ .timedOut error := by
  rcases poll_cases w s timeout budget with ⟨k, _, hk, _, hpoll⟩ | ⟨_, hpoll⟩
  · have hresult := hk.resolve_right fun hlate => hlate.1 h
    rw [hpoll, ending]
    split
    · intro h
      cases h
    · intro h
      cases h
    · contradiction
  · rw [hpoll]
    intro h
    cases h

section

variable (readings : Nat → Ticks) (results : Nat → Option β)

theorem stateAt_ofSequences (k : Nat) :
    (ofSequences readings results : Waiting Uses ε β).stateAt ⟨0, 0⟩ k = ⟨k + 1, k⟩ := by
  induction k with
  | zero => rfl
  | succ k ih =>
    rw [stateAt, ih]
    rfl

theorem reading_ofSequences (k : Nat) :
    (ofSequences readings results : Waiting Uses ε β).reading ⟨0, 0⟩ k = readings k := by
  cases k with
  | zero => rfl
  | succ k =>
    rw [reading, stateAt_ofSequences]
    rfl

theorem result_ofSequences (k : Nat) :
    (ofSequences readings results : Waiting Uses ε β).result ⟨0, 0⟩ k = .ok (results k) := by
  rw [result, stateAt_ofSequences]
  rfl

theorem ends_ofSequences_iff (timeout : Ticks) (k : Nat) :
    (ofSequences readings results : Waiting Uses ε β).Ends ⟨0, 0⟩ timeout k ↔
      Decisive readings results timeout k := by
  simp only [Ends, Decisive, elapsed, result_ofSequences, reading_ofSequences]
  cases results k <;> simp

theorem ending_ofSequences (timeout : Ticks) (k : Nat) :
    (ofSequences readings results : Waiting Uses ε β).ending ⟨0, 0⟩ timeout k =
      match results k with
      | some value => (⟨.ready value, []⟩, ⟨k + 1, k + 1⟩)
      | none =>
        let waited := readings (k + 1) - readings 0
        (⟨.timedOut ⟨waited⟩, [.pollTimedOut waited timeout]⟩, ⟨k + 2, k + 1⟩) := by
  simp only [ending, elapsed, result_ofSequences, reading_ofSequences, stateAt_ofSequences]
  cases results k <;> rfl

/-- A wait makes its attempts up to the first decisive one and no more. With a value it has read the
clock as often as it tried; without, it reads the clock once more and returns how far that reading
is from the first. A wait on any clock and any operation answers as the one on the sequences that
these go through. -/
theorem poll_stops_at_first_decisive (ε : Type v) (timeout : Ticks) :
    let wait := fun budget =>
      (ofSequences readings results : Waiting Uses ε β).poll timeout budget ⟨0, 0⟩
    (∀ k, Decisive readings results timeout k →
      (∀ j < k, ¬Decisive readings results timeout j) →
      (∀ budget ≤ k, wait budget = (⟨.exhausted, []⟩, ⟨budget + 1, budget⟩)) ∧
      (∀ budget, k < budget →
        match results k with
        | some value => wait budget = (⟨.ready value, []⟩, ⟨k + 1, k + 1⟩)
        | none =>
          let waited := readings (k + 1) - readings 0
          timeout < waited ∧
            wait budget =
              (⟨.timedOut ⟨waited⟩, [.pollTimedOut waited timeout]⟩, ⟨k + 2, k + 1⟩))) ∧
    ((∀ k, ¬Decisive readings results timeout k) →
      ∀ budget, wait budget = (⟨.exhausted, []⟩, ⟨budget + 1, budget⟩)) ∧
    (timeout = maxTicks → ∀ budget error, (wait budget).1.value ≠ .timedOut error) ∧
    (∀ {σ : Type u} (w : Waiting σ ε β) (s : σ), (∀ k, w.reading s k = readings k) →
      (∀ k, w.result s k = .ok (results k)) →
      ∀ budget, (w.poll timeout budget s).1 = (wait budget).1) := by
  intro wait
  have hends : ∀ k, (ofSequences readings results : Waiting Uses ε β).Ends ⟨0, 0⟩ timeout k ↔
      Decisive readings results timeout k := ends_ofSequences_iff readings results timeout
  have hopen : ∀ budget, (∀ j < budget, ¬Decisive readings results timeout j) →
      wait budget = (⟨.exhausted, []⟩, ⟨budget + 1, budget⟩) := by
    intro budget h
    have hexhausted := poll_eq_exhausted fun j hj => mt (hends j).mp (h j hj)
    rwa [stateAt_ofSequences] at hexhausted
  refine ⟨?_, ?_, ?_, ?_⟩
  · intro k hk hfirst
    constructor
    · intro budget hbudget
      exact hopen budget fun j hj => hfirst j (Nat.lt_of_lt_of_le hj hbudget)
    · intro budget hbudget
      have hending := poll_eq_ending ((hends k).mpr hk)
        (fun j hj => mt (hends j).mp (hfirst j hj)) hbudget
      rw [ending_ofSequences] at hending
      cases hresult : results k with
      | some value =>
        rw [hresult] at hending
        exact hending
      | none =>
        rw [hresult] at hending
        have hlate := hk.resolve_left (by simp [hresult])
        exact ⟨hlate.2, hending⟩
  · intro hnever budget
    exact hopen budget fun j _ => hnever j
  · intro hmax budget error
    exact poll_ne_timedOut hmax budget error
  · intro σ w s hreading hresult budget
    apply poll_fst_congr
    · intro k
      rw [hreading, reading_ofSequences]
    · intro k
      rw [hresult, result_ofSequences]

end

end Waiting

end Nonblocking
