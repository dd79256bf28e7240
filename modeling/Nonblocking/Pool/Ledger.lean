import Nonblocking.Pool.Custody

/-! # A pool as a ledger

The same actions on a state that has no links, no cells and no counter: the free blocks are a stack,
and every block in use carries its own item, changed only through that block. -/
namespace Nonblocking.Pool

structure Ledger (α : Type u) where
  free : List Nat
  unwritten : List Nat
  written : List (Nat × α)
  released : List (Nat × α)
  forgotten : List Nat
  deriving DecidableEq, Repr

namespace Ledger

variable {α : Type u}

def initial (n : Nat) : Ledger α := ⟨List.range n, [], [], [], []⟩

def without (i : Nat) (entries : List (Nat × α)) : List (Nat × α) :=
  entries.filter fun entry => entry.1 != i

def overwrite (i : Nat) (item : α) (entries : List (Nat × α)) : List (Nat × α) :=
  entries.map fun entry => if entry.1 = i then (i, item) else entry

def carry (i : Nat) (source target : List (Nat × α)) : List (Nat × α) :=
  (source.filter fun entry => entry.1 == i) ++ target

def exchange (i j : Nat) (entries : List (Nat × α)) : List (Nat × α) :=
  match entries.lookup i, entries.lookup j with
  | some x, some y => overwrite j x (overwrite i y entries)
  | _, _ => entries

def perform (n : Nat) (g : Ledger α) : Action α → Reply α × Ledger α
  | .alloc =>
    match g.free with
    | [] => (.slot none, g)
    | i :: free => (.slot (some i), { g with free, unwritten := i :: g.unwritten })
  | .allocWith item =>
    match g.free with
    | [] => (.returned item, g)
    | i :: free => (.slot (some i), { g with free, written := (i, item) :: g.written })
  | .write i item =>
    (.nothing, { g with
      unwritten := g.unwritten.erase i
      written := (i, item) :: g.written })
  | .writeRaw _ _ => (.nothing, g)
  | .get i => (.item (g.written.lookup i), g)
  | .store i item => (.nothing, { g with written := overwrite i item g.written })
  | .swap i j => (.nothing, { g with written := exchange i j g.written })
  | .discard i => (.nothing, { g with free := i :: g.free, unwritten := g.unwritten.erase i })
  | .forget i =>
    (.nothing, { g with unwritten := g.unwritten.erase i, forgotten := i :: g.forgotten })
  | .drop i | .dealloc i =>
    (.nothing, { g with free := i :: g.free, written := without i g.written })
  | .intoIndex i =>
    (.nothing, { g with
      written := without i g.written
      released := carry i g.written g.released })
  | .fromIndex i =>
    (.item (g.released.lookup i), { g with
      released := without i g.released
      written := carry i g.released g.written })
  | .reset =>
    (.emitted [.poolReset n (n - g.free.length)],
      { g with free := List.range n, released := [], forgotten := [] })

def run (n : Nat) (g : Ledger α) : List (Action α) → List (Reply α) × Ledger α
  | [] => ([], g)
  | a :: rest =>
    let (reply, g) := g.perform n a
    let (replies, g) := g.run n rest
    (reply :: replies, g)

variable {entries source target : List (Nat × α)} {entry : Nat × α} {i : Nat}

theorem mem_without : entry ∈ without i entries ↔ entry ∈ entries ∧ entry.1 ≠ i := by
  simp [without]

theorem mem_carry :
    entry ∈ carry i source target ↔ (entry ∈ source ∧ entry.1 = i) ∨ entry ∈ target := by
  simp [carry]

theorem mem_overwrite {item : α} (h : entry ∈ overwrite i item entries) :
    entry = (i, item) ∨ (entry ∈ entries ∧ entry.1 ≠ i) := by
  obtain ⟨old, hold, he⟩ := List.mem_map.mp h
  by_cases hi : old.1 = i
  · rw [if_pos hi] at he
    exact Or.inl he.symm
  · rw [if_neg hi] at he
    subst he
    exact Or.inr ⟨hold, hi⟩

theorem mem_exchange {j : Nat} {x y : α} (hx : entries.lookup i = some x)
    (hy : entries.lookup j = some y) (h : entry ∈ exchange i j entries) :
    entry = (j, x) ∨ entry = (i, y) ∨ (entry ∈ entries ∧ entry.1 ≠ i ∧ entry.1 ≠ j) := by
  simp only [exchange, hx, hy] at h
  rcases mem_overwrite h with rfl | ⟨h, hj⟩
  · exact Or.inl rfl
  · rcases mem_overwrite h with rfl | ⟨h, hi⟩
    · exact Or.inr (Or.inl rfl)
    · exact Or.inr (Or.inr ⟨h, hi, hj⟩)

theorem keys_without (hn : (entries.map Prod.fst).Nodup) (i : Nat) :
    (without i entries).map Prod.fst = (entries.map Prod.fst).erase i := by
  rw [hn.erase_eq_filter, List.filter_map]
  rfl

theorem keys_carry (hn : (source.map Prod.fst).Nodup) (hi : i ∈ source.map Prod.fst)
    (target : List (Nat × α)) :
    (carry i source target).map Prod.fst = i :: target.map Prod.fst := by
  have hkeys : (source.filter fun entry => entry.1 == i).map Prod.fst = [i] := calc
    _ = (source.map Prod.fst).filter (· == i) := by
      rw [List.filter_map]
      rfl
    _ = List.replicate ((source.map Prod.fst).count i) i := List.filter_beq i
    _ = [i] := by
      rw [hn.count, if_pos hi]
      rfl
  rw [carry, List.map_append, hkeys, List.singleton_append]

theorem keys_overwrite (i : Nat) (item : α) (entries : List (Nat × α)) :
    (overwrite i item entries).map Prod.fst = entries.map Prod.fst := by
  rw [overwrite, List.map_map]
  refine List.map_congr_left fun entry _ => ?_
  by_cases hi : entry.1 = i
  · simp [hi]
  · simp [hi]

theorem keys_exchange (i j : Nat) (entries : List (Nat × α)) :
    (exchange i j entries).map Prod.fst = entries.map Prod.fst := by
  unfold exchange
  split
  · rw [keys_overwrite, keys_overwrite]
  · rfl

theorem lookup_of_agree {value : Nat → Option α}
    (h : ∀ entry ∈ entries, value entry.1 = some entry.2) (hi : i ∈ entries.map Prod.fst) :
    ∃ item, entries.lookup i = some item ∧ value i = some item := by
  cases hl : entries.lookup i with
  | none =>
    obtain ⟨entry, hentry, rfl⟩ := List.mem_map.mp hi
    have := List.lookup_eq_none_iff.mp hl entry hentry
    simp at this
  | some item =>
    obtain ⟨before, after, rfl, _⟩ := List.lookup_eq_some_iff.mp hl
    exact ⟨item, rfl, h (i, item) (by simp)⟩

end Ledger

end Nonblocking.Pool
