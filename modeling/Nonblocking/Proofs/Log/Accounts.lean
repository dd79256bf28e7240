import Nonblocking.Log.Account
import Nonblocking.Proofs.Log.Chronicle

/-! # Every entry is accounted for

Between its start and where it is now, a reader has passed each position once: the entry there was
delivered, given up in a resync, or skipped. A move is settled at the time it is made: later pushes
do not change what it is true of, and a clear finds no reader whose account it could upset. -/
namespace Nonblocking

variable {α : Type u} {n : Nat}

namespace Account

theorem stretchesFrom_append (p : Nat) (moves more : List (Move α)) :
    stretchesFrom p (moves ++ more) =
      stretchesFrom p moves ++ stretchesFrom (p + (moves.map Move.width).sum) more := by
  induction moves generalizing p with
  | nil => rfl
  | cons move rest ih =>
    simp only [List.cons_append, stretchesFrom, ih, List.map_cons, List.sum_cons, Nat.add_assoc]

/-- The stretches follow each other without gap and without overlap. -/
theorem positions_stretchesFrom (p : Nat) (moves : List (Move α)) :
    (stretchesFrom p moves).flatMap (fun stretch => List.range' stretch.1 stretch.2.width) =
      List.range' p (moves.map Move.width).sum := by
  induction moves generalizing p with
  | nil => rfl
  | cons move rest ih =>
    rw [stretchesFrom, List.flatMap_cons, ih, List.map_cons, List.sum_cons,
      List.range'_append_1]

theorem width_eq (move : Move α) :
    move.width = move.received.toList.length + move.resyncCount + move.skipCount := by
  cases move <;> simp [Move.width, Move.received, Move.resyncCount, Move.skipCount]

theorem deliveriesIn_cons (p : Nat) (move : Move α) (stretches : List (Nat × Move α)) :
    deliveriesIn ((p, move) :: stretches) =
      move.received.toList.map (p, ·) ++ deliveriesIn stretches := by
  cases h : move.received <;> simp [deliveriesIn, h]

theorem sum_width_eq (p : Nat) (moves : List (Move α)) :
    (moves.map Move.width).sum =
      (deliveriesIn (stretchesFrom p moves)).length + (moves.map Move.resyncCount).sum +
        (moves.map Move.skipCount).sum := by
  induction moves generalizing p with
  | nil => rfl
  | cons move rest ih =>
    have hrest := ih (p + move.width)
    have hmove := width_eq move
    rw [stretchesFrom, deliveriesIn_cons]
    simp only [List.map_cons, List.sum_cons, List.length_append, List.length_map]
    omega

theorem mem_of_mem_deliveriesIn {stretches : List (Nat × Move α)} {delivery : Nat × α}
    (h : delivery ∈ deliveriesIn stretches) :
    (delivery.1, Move.delivered delivery.2) ∈ stretches := by
  obtain ⟨⟨p, move⟩, hmem, hmove⟩ := List.mem_filterMap.mp h
  obtain ⟨entry, hentry, rfl⟩ := Option.map_eq_some_iff.mp hmove
  cases move with
  | delivered x =>
    cases hentry
    exact hmem
  | resynced count total events => cases hentry
  | skipped count events => cases hentry

theorem deliveriesIn_sublist (stretches : List (Nat × Move α)) :
    ((deliveriesIn stretches).map Prod.fst).Sublist
      (stretches.flatMap fun stretch => List.range' stretch.1 stretch.2.width) := by
  induction stretches with
  | nil => exact List.Sublist.refl _
  | cons stretch rest ih =>
    obtain ⟨p, move⟩ := stretch
    rw [deliveriesIn_cons, List.map_append, List.flatMap_cons]
    apply List.Sublist.append _ ih
    cases move with
    | delivered entry => exact List.Sublist.refl [p]
    | resynced count total events => exact List.nil_sublist _
    | skipped count events => exact List.nil_sublist _

/-- Entries are delivered in the order of their numbers, as the positions are passed in order. -/
theorem increasing_deliveriesIn (p : Nat) (moves : List (Move α)) :
    ((deliveriesIn (stretchesFrom p moves)).map Prod.fst).Pairwise (· < ·) := by
  have hsub := deliveriesIn_sublist (stretchesFrom p moves)
  rw [positions_stretchesFrom] at hsub
  exact List.Pairwise.sublist hsub List.pairwise_lt_range'

end Account

/-- What a move from position `p` on says about a log with these entries. -/
def Move.Sound (n : Nat) (entries : List α) (p : Nat) : Move α → Prop
  | .delivered entry => entries[p]? = some entry
  | .resynced count total events =>
    total ≤ entries.length ∧ (0 < count → p + count + n = total) ∧
      events = if count = 0 then [] else [.readerResynced count (p + count)]
  | .skipped count events => events = [.readerSkippedToLive count (p + count)]

theorem Move.Sound.append {entries : List α} {p : Nat} {move : Move α}
    (h : move.Sound n entries p) (item : α) : move.Sound n (entries ++ [item]) p := by
  cases move with
  | delivered entry =>
    have hp : p < entries.length := (List.getElem?_eq_some_iff.mp h).1
    exact (List.getElem?_append_left hp).trans h
  | resynced count total events =>
    obtain ⟨htotal, hcount, hevents⟩ := h
    refine ⟨?_, hcount, hevents⟩
    rw [List.length_append]
    exact Nat.le_add_right_of_le htotal
  | skipped count events => exact h

structure Settled (acc : Account α) (position n : Nat) (entries : List α) : Prop where
  position_eq : position = acc.start + (acc.moves.map Move.width).sum
  sound : ∀ stretch ∈ acc.stretches, stretch.2.Sound n entries stretch.1

namespace Settled

variable {acc : Account α} {position : Nat} {entries : List α}

theorem opened (position n : Nat) (entries : List α) :
    Settled ⟨position, []⟩ position n entries := by
  constructor
  · rfl
  · intro stretch h
    cases h

theorem append (h : Settled acc position n entries) (item : α) :
    Settled acc position n (entries ++ [item]) := by
  constructor
  · exact h.position_eq
  · intro stretch hs
    exact (h.sound stretch hs).append item

theorem note_none (h : Settled acc position n entries) :
    Settled (acc.note none) position n entries := by
  rw [Account.note, Option.toList_none, List.append_nil]
  exact h

theorem note_some (h : Settled acc position n entries) {move : Move α} {after : Nat}
    (hm : move.Sound n entries position) (hafter : after = position + move.width) :
    Settled (acc.note (some move)) after n entries := by
  constructor
  · simp [Account.note, hafter, h.position_eq, Nat.add_assoc]
  · intro stretch hs
    -- the stretches so far end where the reader is, and there the new one starts
    rw [Account.stretches, Account.note, Account.stretchesFrom_append, ← h.position_eq] at hs
    rcases List.mem_append.mp hs with hs | hs
    · exact h.sound stretch hs
    · cases List.mem_singleton.mp hs
      exact hm

theorem next {r : Reader} (h : Settled acc r.position n entries) :
    Settled (acc.note (Move.ofAnswer? (r.consultNext n entries).1))
      (r.consultNext n entries).2.position n entries := by
  unfold Reader.consultNext
  by_cases ho : 0 < r.lost n entries
  · rw [if_pos ho]
    exact h.note_none
  · rw [if_neg ho]
    cases he : entries[r.position]? with
    | none => exact h.note_none
    | some entry => exact h.note_some he rfl

theorem consult {r : Reader} (h : Settled acc r.position n entries)
    (hr : r.position ≤ entries.length) (action : ReaderAction) :
    Settled (acc.note (Move.ofReply? entries.length action (r.consult n entries action).1))
      (r.consult n entries action).2.position n entries := by
  cases action with
  | read =>
    have hnext := h.next
    cases hc : r.consultNext n entries with
    | mk answer moved =>
      rw [hc] at hnext
      simp only [Reader.consult, hc]
      -- the policy turns an error into another answer that brings nothing
      cases answer <;> cases r.policy <;> exact hnext
  | tryRead => exact h.next
  | resync =>
    by_cases ho : 0 < r.lost n entries
    · have hcount : r.position + r.lost n entries + n = entries.length := by
        simp only [Reader.lost] at ho ⊢
        omega
      have hend : entries.length - n = r.position + r.lost n entries := by omega
      simp only [Reader.consult, if_pos ho, Move.ofReply?]
      apply h.note_some _ hend
      refine ⟨Nat.le_refl _, fun _ => hcount, ?_⟩
      rw [if_neg (Nat.ne_of_gt ho), hend]
    · simp only [Reader.consult, if_neg ho, Move.ofReply?]
      apply h.note_some _ rfl
      exact ⟨Nat.le_refl _, fun hpos => absurd hpos (Nat.lt_irrefl 0), rfl⟩
  | skipToLive =>
    have hend : entries.length = r.position + (entries.drop r.position).length := by
      rw [List.length_drop]
      omega
    apply h.note_some _ hend
    rw [Move.Sound, ← hend]
  | hasOverflowed => exact h.note_none
  | lag => exact h.note_none
  | position => exact h.note_none

end Settled

def InOrder {κ : Type v} (n : Nat) (books : κ → Account α) (c : Chronicle α κ) : Prop :=
  ∀ key r, c.readers key = some r → Settled (books key) r.position n c.entries

section

variable {κ : Type v} [DecidableEq κ] {books : κ → Account α} {c : Chronicle α κ}

theorem InOrder.set (h : InOrder n books c) (key : κ) {r : Reader} {acc : Account α}
    (hacc : Settled acc r.position n c.entries) :
    InOrder n (setAccount books key acc)
      { c with readers := setReader c.readers key (some r) } := by
  intro other q hq
  by_cases he : other = key
  · subst he
    have hqr : r = q := by simpa [setReader] using hq
    rw [setAccount, if_pos rfl, ← hqr]
    exact hacc
  · rw [setAccount, if_neg he]
    apply h other q
    simpa [setReader, he] using hq

theorem InOrder.remove (h : InOrder n books c) (key : κ) :
    InOrder n books { c with readers := setReader c.readers key none } := by
  intro other q hq
  rcases eq_of_setReader hq with hq | hq
  · cases hq
  · exact h other q hq

omit [DecidableEq κ] in
theorem InOrder.push (h : InOrder n books c) (item : α) :
    InOrder n books { c with entries := c.entries ++ [item] } := by
  intro key r hr
  exact (h key r hr).append item

namespace Broadcast

variable {b : Broadcast α κ n}

theorem inOrder_step (hf : Follows b c) (h : InOrder n books c) {a : LogAction α κ}
    (ha : b.Permits a) : InOrder n (b.enter books a (b.perform a).1) (c.perform n a).2 := by
  cases a with
  | push item => exact h.push item
  | clear =>
    -- nobody is there whose entries would be gone
    intro key r hr
    have hnone : b.readers key = none := ha key
    rw [hf.readers_eq] at hnone
    rw [Chronicle.perform, hnone] at hr
    cases hr
  | attach key policy live =>
    have htotal : b.log.total = c.entries.length := hf.records.published_eq
    rw [enter, htotal]
    exact h.set key (Settled.opened _ n c.entries)
  | clone key copy =>
    obtain ⟨r, hr⟩ := Option.isSome_iff_exists.mp ha
    simp only [enter, hr, Chronicle.perform, ← hf.readers_eq]
    rw [hf.readers_eq]
    exact h.set copy (Settled.opened _ n c.entries)
  | detach key => exact h.remove key
  | ask key action =>
    obtain ⟨r, hr⟩ := Option.isSome_iff_exists.mp ha
    have hc : c.readers key = some r := hf.readers_eq ▸ hr
    have htotal : b.log.total = c.entries.length := hf.records.published_eq
    have hle := hf.position_le key r hc
    have hact := Reader.act_eq_consult hf.records hle action
    simp only [perform, hr, hact, enter, htotal, Chronicle.perform, hc]
    exact h.set key ((h key r hc).consult hle action)

theorem inOrder_run (hf : Follows b c) (h : InOrder n books c) {actions : List (LogAction α κ)}
    (hl : b.Legal actions) : InOrder n (b.audit books actions) (c.run n actions).2 := by
  induction actions generalizing b c books with
  | nil => exact h
  | cons a rest ih =>
    have hstep := inOrder_step hf h hl.1
    exact ih (follows_step hf hl.1).2 hstep hl.2

end Broadcast

end

structure Account.Balances (acc : Account α) (r : Reader) (log : Log α n) (entries : List α) :
    Prop where
  position_eq : r.position = acc.start + acc.deliveries.length + acc.resynced + acc.skipped
  lag_add : r.lag log + r.position = log.total
  lag_exact : log.total < 2 ^ 64 →
    (UInt64.ofNat log.total - UInt64.ofNat r.position).toNat = r.lag log
  total_eq : log.total = entries.length
  covered : (acc.stretches.flatMap fun stretch => List.range' stretch.1 stretch.2.width) =
    List.range' acc.start (r.position - acc.start)
  increasing : (acc.deliveries.map Prod.fst).Pairwise (· < ·)
  delivered : ∀ delivery ∈ acc.deliveries, entries[delivery.1]? = some delivery.2
  /-- The entry that takes its slot was already there. -/
  overwritten : ∀ p count total events, (p, Move.resynced count total events) ∈ acc.stretches →
    total ≤ entries.length ∧ ∀ k < count, p + k + n < total
  resync_events : ∀ p count total events, (p, Move.resynced count total events) ∈ acc.stretches →
    events = if count = 0 then [] else [.readerResynced count (p + count)]
  skip_events : ∀ p count events, (p, Move.skipped count events) ∈ acc.stretches →
    events = [.readerSkippedToLive count (p + count)]

theorem Settled.balances {acc : Account α} {r : Reader} {log : Log α n} {entries : List α}
    (h : Settled acc r.position n entries) (hlog : log.Records entries)
    (hr : r.position ≤ entries.length) : acc.Balances r log entries where
  position_eq := by
    have hsum := Account.sum_width_eq acc.start acc.moves
    have hposition := h.position_eq
    rw [Account.deliveries, Account.resynced, Account.skipped, Account.stretches]
    omega
  lag_add := by
    rw [Reader.lag, Log.total, hlog.published_eq]
    omega
  lag_exact := by
    intro hc
    rw [Log.total, hlog.published_eq] at hc ⊢
    rw [Reader.lag, hlog.published_eq]
    exact Reader.word_sub_exact hr hc
  total_eq := hlog.published_eq
  covered := by
    rw [Account.stretches, Account.positions_stretchesFrom, h.position_eq, Nat.add_sub_cancel_left]
  increasing := Account.increasing_deliveriesIn acc.start acc.moves
  delivered := by
    intro delivery hd
    exact h.sound _ (Account.mem_of_mem_deliveriesIn hd)
  overwritten := by
    intro p count total events hs
    obtain ⟨htotal, hcount, _⟩ := h.sound _ hs
    refine ⟨htotal, fun k hk => ?_⟩
    have hend := hcount (Nat.zero_lt_of_lt hk)
    omega
  resync_events := by
    intro p count total events hs
    obtain ⟨_, _, hevents⟩ := h.sound _ hs
    exact hevents
  skip_events := by
    intro p count events hs
    exact h.sound _ hs

namespace Broadcast

variable {κ : Type v} [DecidableEq κ]

/-- After any run, the account of every reader that is there balances: what was delivered to the
reader and what it gave up are all positions from where it started to where it is. -/
theorem run_balances_accounts {actions : List (LogAction α κ)}
    (hl : (initial : Broadcast α κ n).Legal actions) (key : κ) {r : Reader}
    (hr : ((initial : Broadcast α κ n).run actions).2.readers key = some r) :
    ((initial : Broadcast α κ n).audit (fun _ => ⟨0, []⟩) actions key).Balances r
      ((initial : Broadcast α κ n).run actions).2.log (pushedSinceClear actions) := by
  obtain ⟨_, hf⟩ := follows_run follows_initial hl
  have hbooks : InOrder n (fun _ => ⟨0, []⟩) (Chronicle.initial : Chronicle α κ) := by
    intro other q hq
    cases hq
  have horder := inOrder_run follows_initial hbooks hl
  have he : (Chronicle.initial.run n actions).2.entries = pushedSinceClear actions :=
    Chronicle.entries_run Chronicle.initial actions
  rw [hf.readers_eq] at hr
  rw [← he]
  exact (horder key r hr).balances hf.records (hf.position_le key r hr)

/-- A reader starts where another one is that was overtaken before, and is overtaken itself. -/
theorem balances_after_overtaking :
    (⟨2, [.delivered 3, .resynced 1 6 [.readerResynced 1 4], .delivered 5, .resynced 0 6 [],
      .skipped 1 [.readerSkippedToLive 1 6]]⟩ : Account Nat).Balances ⟨6, .failFast⟩
      ((initial : Broadcast Nat Bool 2).run
        [.attach true .failFast false, .push 1, .push 2, .push 3, .ask true .tryRead,
          .ask true .resync, .ask true .read, .clone true false, .ask false .read, .push 4,
          .push 5, .push 6, .ask false .tryRead, .ask false .resync, .ask false .tryRead,
          .ask false .resync, .ask false .skipToLive]).2.log [1, 2, 3, 4, 5, 6] := by
  have hl : (initial : Broadcast Nat Bool 2).Legal
      [.attach true .failFast false, .push 1, .push 2, .push 3, .ask true .tryRead,
        .ask true .resync, .ask true .read, .clone true false, .ask false .read, .push 4,
        .push 5, .push 6, .ask false .tryRead, .ask false .resync, .ask false .tryRead,
        .ask false .resync, .ask false .skipToLive] :=
    ⟨trivial, trivial, trivial, trivial, rfl, rfl, rfl, rfl, rfl, trivial, trivial, trivial, rfl,
      rfl, rfl, rfl, rfl, trivial⟩
  exact run_balances_accounts hl false rfl

end Broadcast

end Nonblocking
