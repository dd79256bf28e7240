import Nonblocking.Proofs.Queue.Construction
import Nonblocking.Queue.Halves

/-! # What a half has seen holds until it acts

The producer alone takes room away and the consumer alone takes items away, so what a half is told
of its side can only get better until it acts itself, also in the middle of a push. All this follows
from the sightings of a run being true, one after the other, of the number of items in the queue. -/
namespace Nonblocking

variable {α : Type u} {ε : Type v} {n : Nat}

namespace Sighting

/-- Each sighting is true in its turn, when there are `k` items at first. -/
def AllTrue (n : Nat) : Nat → List (Sighting α) → Prop
  | _, [] => True
  | k, s :: rest => s.TrueOf n k ∧ AllTrue n (s.level k) rest

def levelAfter (k : Nat) (seen : List (Sighting α)) : Nat := seen.foldl level k

theorem allTrue_append (k : Nat) (u v : List (Sighting α)) :
    AllTrue n k (u ++ v) ↔ AllTrue n k u ∧ AllTrue n (levelAfter k u) v := by
  induction u generalizing k with
  | nil =>
    constructor
    · intro h
      exact ⟨trivial, h⟩
    · intro h
      exact h.2
  | cons s rest ih =>
    simp only [List.cons_append, AllTrue, ih, and_assoc]
    rfl

theorem levelAfter_append (k : Nat) (u v : List (Sighting α)) :
    levelAfter k (u ++ v) = levelAfter (levelAfter k u) v :=
  List.foldl_append

theorem pos_of_isTake {s : Sighting α} {k : Nat} (h : s.TrueOf n k) (ht : s.isTake = true) :
    0 < k := by
  unfold isTake at ht
  split at ht
  · simpa [TrueOf] using h
  · cases ht

/-- A pop brings an item only if there is one, so no count is cut off at zero. -/
theorem level_add {s : Sighting α} {k : Nat} (h : s.TrueOf n k) :
    s.level k + s.isTake.toNat = k + s.isAppend.toNat := by
  have hpos := pos_of_isTake h
  rw [level]
  cases ht : s.isTake with
  | false => rfl
  | true =>
    have := hpos ht
    simp only [Bool.toNat_true]
    omega

theorem level_le {s : Sighting α} {k : Nat} (hk : k ≤ n) (h : s.TrueOf n k) : s.level k ≤ n := by
  rw [level]
  cases s with
  | appended => exact Nat.le_trans (Nat.sub_le _ _) h
  | _ => exact Nat.le_trans (Nat.sub_le _ _) hk

theorem countP_cons_toNat (p : Sighting α → Bool) (s : Sighting α) (rest : List (Sighting α)) :
    (s :: rest).countP p = rest.countP p + (p s).toNat := by
  rw [List.countP_cons]
  cases p s <;> rfl

theorem levelAfter_add {u : List (Sighting α)} {k : Nat} (h : AllTrue n k u) :
    levelAfter k u + u.countP isTake = k + u.countP isAppend := by
  induction u generalizing k with
  | nil => rfl
  | cons s rest ih =>
    have hs := level_add h.1
    have hrest := ih h.2
    have hafter : levelAfter k (s :: rest) = levelAfter (s.level k) rest := rfl
    rw [countP_cons_toNat, countP_cons_toNat, hafter]
    omega

theorem trueOf_of_split {later u v : List (Sighting α)} {s : Sighting α} {k : Nat}
    (h : AllTrue n k later) (hsplit : later = u ++ s :: v) :
    s.TrueOf n (levelAfter k u) ∧
      levelAfter k u + u.countP isTake = k + u.countP isAppend := by
  rw [hsplit, allTrue_append] at h
  exact ⟨h.2.1, levelAfter_add h.1⟩

/-- There is room for `k` items, and it lasts until as many are appended. -/
structure PromisesRoom (k : Nat) (later : List (Sighting α)) : Prop where
  refused_late : ∀ u v, later = u ++ refused :: v → k ≤ u.countP isAppend
  full_late : ∀ u v, later = u ++ full true :: v → k ≤ u.countP isAppend
  room_ge : ∀ u l v, later = u ++ room l :: v → k ≤ l + u.countP isAppend

/-- There are `k` items, and they last until as many are popped. -/
structure PromisesItems (k : Nat) (later : List (Sighting α)) : Prop where
  none_late : ∀ u v, later = u ++ told .pop (.item none) :: v → k ≤ u.countP isTake
  peek_none_late : ∀ u v, later = u ++ told .peek (.item none) :: v → k ≤ u.countP isTake
  empty_late : ∀ u v, later = u ++ told .isEmpty (.flag true) :: v → k ≤ u.countP isTake
  length_ge : ∀ u l v, later = u ++ told .length (.number l) :: v → k ≤ l + u.countP isTake

theorem promisesRoom {later : List (Sighting α)} {k l : Nat} (h : AllTrue n l later)
    (hk : k ≤ n - l) : PromisesRoom k later := by
  constructor
  · intro u v hsplit
    obtain ⟨hfull, hlevel⟩ := trueOf_of_split h hsplit
    have : levelAfter l u = n := hfull
    omega
  · intro u v hsplit
    obtain ⟨hfull, hlevel⟩ := trueOf_of_split h hsplit
    have : levelAfter l u = n := hfull.mp rfl
    omega
  · intro u room v hsplit
    obtain ⟨hroom, hlevel⟩ := trueOf_of_split h hsplit
    have : room = n - levelAfter l u := hroom
    omega

theorem promisesItems {later : List (Sighting α)} {k l : Nat} (h : AllTrue n l later)
    (hk : k ≤ l) : PromisesItems k later := by
  constructor
  · intro u v hsplit
    obtain ⟨hnone, hlevel⟩ := trueOf_of_split h hsplit
    have : ¬0 < levelAfter l u := fun hpos => Bool.false_ne_true (hnone.mpr hpos)
    omega
  · intro u v hsplit
    obtain ⟨hnone, hlevel⟩ := trueOf_of_split h hsplit
    have : ¬0 < levelAfter l u := fun hpos => Bool.false_ne_true (hnone.mpr hpos)
    omega
  · intro u v hsplit
    obtain ⟨hempty, hlevel⟩ := trueOf_of_split h hsplit
    have : levelAfter l u = 0 := hempty.mp rfl
    omega
  · intro u length v hsplit
    obtain ⟨hlength, hlevel⟩ := trueOf_of_split h hsplit
    have : length = levelAfter l u := hlength
    omega

def Binds (later : List (Sighting α)) : Sighting α → Prop
  | room k => PromisesRoom k later
  | full false => PromisesRoom 1 later
  | told .length (.number k) => PromisesItems k later
  | told .isEmpty (.flag false) => PromisesItems 1 later
  | _ => True

def AllBind : List (Sighting α) → Prop
  | [] => True
  | s :: later => s.Binds later ∧ AllBind later

theorem binds {s : Sighting α} {later : List (Sighting α)} {k : Nat} (hk : k ≤ n)
    (hs : s.TrueOf n k) (hlater : AllTrue n (s.level k) later) : s.Binds later := by
  unfold Binds
  split
  · have hroom : _ = n - k := hs
    exact promisesRoom hlater (Nat.le_of_eq hroom)
  · have hnot : ¬k = n := fun hfull => Bool.false_ne_true (hs.mpr hfull)
    refine promisesRoom hlater ?_
    change 1 ≤ n - k
    omega
  · have hlength : _ = k := hs
    exact promisesItems hlater (Nat.le_of_eq hlength)
  · have hnot : ¬k = 0 := fun hempty => Bool.false_ne_true (hs.mpr hempty)
    refine promisesItems hlater ?_
    change 1 ≤ k
    omega
  · trivial

theorem allBind {seen : List (Sighting α)} {k : Nat} (hk : k ≤ n) (h : AllTrue n k seen) :
    AllBind seen := by
  induction seen generalizing k with
  | nil => trivial
  | cons s later ih => exact ⟨binds hk h.1 h.2, ih (level_le hk h.1) h.2⟩

/-- A push that was admitted, with all that the consumer sees until the push ends. -/
theorem admitted_true (ending : Sighting α) {seen : List (Sighting α)} {k : Nat} (hroom : k < n)
    (h : AllTrue n k seen) (hending : ending.TrueOf n (levelAfter k seen)) :
    AllTrue n k (admitted :: seen ++ [ending]) ∧
      levelAfter k (admitted :: seen ++ [ending]) = ending.level (levelAfter k seen) := by
  have hadmitted : (admitted : Sighting α).level k = k := rfl
  constructor
  · rw [List.cons_append, AllTrue, hadmitted, allTrue_append]
    exact ⟨hroom, h, hending, trivial⟩
  · rw [levelAfter_append]
    rfl

theorem told_true (f : Fifo α n) (action : ConsumerAction) :
    (told action (f.consume action).1).TrueOf n f.items.length ∧
      (told action (f.consume action).1).level f.items.length =
        (f.consume action).2.items.length := by
  cases action with
  | pop =>
    cases hitems : f.items with
    | nil => simp [Fifo.consume, hitems, TrueOf, level, isAppend, isTake]
    | cons item rest => simp [Fifo.consume, hitems, TrueOf, level, isAppend, isTake]
  | peek =>
    refine ⟨?_, rfl⟩
    cases hitems : f.items with
    | nil => simp [Fifo.consume, hitems, TrueOf]
    | cons item rest => simp [Fifo.consume, hitems, TrueOf]
  | length => exact ⟨rfl, rfl⟩
  | isEmpty =>
    refine ⟨?_, rfl⟩
    change f.items.isEmpty = true ↔ f.items.length = 0
    rw [List.isEmpty_iff, List.length_eq_zero_iff]

theorem talk_true (c : Construction α ε) (f : Fifo α n) :
    AllTrue n f.items.length (c.runOnList f).talk.sightings ∧
      levelAfter f.items.length (c.runOnList f).talk.sightings =
        (c.runOnList f).state.items.length := by
  induction c generalizing f with
  | done outcome => exact ⟨trivial, rfl⟩
  | ask action next ih =>
    obtain ⟨htold, hlevel⟩ := told_true f action
    obtain ⟨hrest, hafter⟩ := ih (f.consume action).1 (f.consume action).2
    rw [← hlevel] at hrest hafter
    exact ⟨⟨htold, hrest⟩, hafter⟩

end Sighting

open Sighting

namespace Queue

/-- All that is seen while a queue of `items` becomes `q` is true of the number of items, which goes
along. -/
structure SeesTruly (items : List α) (seen : List (Sighting α)) (q : Queue α n)
    (items' : List α) : Prop where
  holds : q.Holds items'
  allTrue : AllTrue n items.length seen
  level_eq : levelAfter items.length seen = items'.length

variable {q : Queue α n} {f : Fifo α n}

theorem seesTruly_refused (h : q.Holds f.items) (hfull : f.items.length = n) :
    SeesTruly f.items [.refused] q f.items :=
  ⟨h, ⟨hfull, trivial⟩, rfl⟩

theorem seesTruly_consume (h : q.Holds f.items) (action : ConsumerAction) :
    SeesTruly f.items (q.actHalf (.consume action : HalfAction α ε)).1
      (q.actHalf (.consume action : HalfAction α ε)).2 (f.consume action).2.items := by
  obtain ⟨hreply, hnext⟩ := h.consume action
  obtain ⟨htold, hlevel⟩ := told_true f action
  rw [← hreply] at htold hlevel
  exact ⟨hnext, ⟨htold, trivial⟩, hlevel⟩

theorem seesTruly_push (h : q.Holds f.items) (item : α) :
    ∃ items', SeesTruly f.items (q.actHalf (.push item : HalfAction α ε)).1
      (q.actHalf (.push item : HalfAction α ε)).2 items' := by
  by_cases hfull : f.items.length = n
  · rw [actHalf, h.push_full hfull item]
    exact ⟨f.items, seesTruly_refused h hfull⟩
  · have hroom : f.items.length < n := Nat.lt_of_le_of_ne f.length_le hfull
    have hanswer := h.push_fst item
    have hafter := h.push_snd item
    rw [decide_eq_true hroom] at hanswer
    rw [if_pos hroom] at hafter
    have hpush : q.push item = (true, (q.push item).2) := Prod.ext hanswer rfl
    have hlength : (f.items ++ [item]).length = f.items.length + 1 := List.length_append
    rw [actHalf, hpush]
    exact ⟨f.items ++ [item], hafter, ⟨hroom, hroom, trivial⟩, hlength.symm⟩

theorem seesTruly_pushWith (h : q.Holds f.items) (c : Construction α ε) :
    ∃ items', SeesTruly f.items (q.actHalf (.pushWith c)).1 (q.actHalf (.pushWith c)).2 items' := by
  by_cases hfull : f.items.length = n
  · rw [actHalf, h.pushWith_full hfull c.make]
    exact ⟨f.items, seesTruly_refused h hfull⟩
  · have hroom : f.items.length < n := Nat.lt_of_le_of_ne f.length_le hfull
    obtain ⟨htalk, hlevel⟩ := talk_true c f
    have hleft : levelAfter f.items.length (c.runOnList f).talk.sightings < n :=
      hlevel ▸ Nat.lt_of_le_of_lt (c.length_items_le f) hroom
    cases hc : (c.runOnList f).outcome with
    | ok item =>
      obtain ⟨hanswer, hafter⟩ := h.pushWith_done hroom hc
      obtain ⟨hseen, hcount⟩ := admitted_true .appended hroom htalk hleft
      have hpush : q.pushWith c.make = (.ok (some (c.runOnList f).talk), (q.pushWith c.make).2) :=
        Prod.ext hanswer rfl
      have hlength : ((c.runOnList f).state.items ++ [item]).length =
          (c.runOnList f).state.items.length + 1 := List.length_append
      rw [actHalf, hpush]
      exact ⟨_, hafter, hseen, by rw [hcount, hlevel, hlength]; rfl⟩
    | error e =>
      obtain ⟨hanswer, hafter⟩ := h.pushWith_failed hroom hc
      obtain ⟨hseen, hcount⟩ := admitted_true .abandoned hroom htalk trivial
      have hpush : q.pushWith c.make =
          (.error (e, (c.runOnList f).talk), (q.pushWith c.make).2) := Prod.ext hanswer rfl
      rw [actHalf, hpush]
      exact ⟨_, hafter, hseen, hcount.trans hlevel⟩

theorem seesTruly_act (h : q.Holds f.items) (a : HalfAction α ε) :
    ∃ items', SeesTruly f.items (q.actHalf a).1 (q.actHalf a).2 items' := by
  cases a with
  | consume action => exact ⟨_, seesTruly_consume h action⟩
  | push item => exact seesTruly_push h item
  | pushWith c => exact seesTruly_pushWith h c
  | isFull => exact ⟨f.items, h, ⟨h.isFull_iff.trans Iff.rfl, trivial⟩, rfl⟩
  | freeSlots => exact ⟨f.items, h, ⟨h.freeSlots_eq, trivial⟩, rfl⟩

theorem allTrue_sightings (h : q.Holds f.items) (actions : List (HalfAction α ε)) :
    AllTrue n f.items.length (q.sightings actions) := by
  induction actions generalizing q f with
  | nil => trivial
  | cons a rest ih =>
    obtain ⟨items', hholds, hseen, hlevel⟩ := seesTruly_act h a
    have hnext : (q.actHalf a).2.Holds (⟨items', hholds.length_le⟩ : Fifo α n).items := hholds
    have hrest := ih hnext
    rw [sightings, allTrue_append, hlevel]
    exact ⟨hseen, hrest⟩

/-- Any traffic may have gone before, and the halves may act in any order. Room that the producer
has seen lasts until it has appended as many items, and items that the consumer has seen last until
it has popped as many. -/
theorem snapshots_bind (before : List (QueueAction α ε)) (actions : List (HalfAction α ε)) :
    AllBind (((empty : Queue α n).traffic before).2.sightings actions) := by
  have hempty : (empty : Queue α n).Holds (Fifo.empty : Fifo α n).items := holds_empty
  obtain ⟨_, hholds⟩ := hempty.traffic before
  exact allBind hholds.length_le (allTrue_sightings hholds actions)

/-- The consumer takes an item in the middle of the push, which finds its own room nevertheless. -/
example : (empty : Queue Nat 2).sightings
      [.push 7, .freeSlots, .pushWith (.ask .pop fun _ => .done (.ok 8 : Except Empty Nat)),
        .freeSlots, .push 9, .push 10] =
    [.admitted, .appended, .room 1, .admitted, .told .pop (.item (some 7)), .appended, .room 1,
      .admitted, .appended, .refused] :=
  rfl

end Queue

end Nonblocking
