import Nonblocking.Log.Reader

/-! # What a log records

`Records log entries` says that `entries` were pushed since the log was empty or cleared, oldest
first: both counters count them, and the newest `n` of them are in their slots. What else the slots
hold, a reader never gets to see: reading answers from the list alone. -/
namespace Nonblocking.Log

variable {α : Type u} {n : Nat}

structure Records (log : Log α n) (entries : List α) : Prop where
  reserved_eq : log.reserved = entries.length
  published_eq : log.published = entries.length
  slot_eq : ∀ p, p < entries.length → entries.length ≤ p + n → log.slot p = entries[p]?

theorem records_empty : Records (empty : Log α n) [] := ⟨rfl, rfl, by simp⟩

theorem records_clear (log : Log α n) : Records log.clear.value [] := ⟨rfl, rfl, by simp⟩

/-- Less than a lap apart, different positions are in different slots. -/
theorem mod_ne_of_lt {p q : Nat} (h : p < q) (hq : q < p + n) : p % n ≠ q % n := by
  intro he
  have h1 := Nat.div_add_mod p n
  have h2 := Nat.div_add_mod q n
  have h3 : n * (p / n) < n * (q / n) := by omega
  have h4 : p / n + 1 ≤ q / n := by
    rcases Nat.lt_or_ge (p / n) (q / n) with h | h
    · exact h
    · have := Nat.mul_le_mul_left n h
      omega
  have h5 := Nat.mul_le_mul_left n h4
  rw [Nat.mul_add, Nat.mul_one] at h5
  omega

theorem Records.push {log : Log α n} {entries : List α} (h : Records log entries) (item : α) :
    Records (log.push item) (entries ++ [item]) := by
  have hp := h.published_eq
  refine ⟨by simp [hp], by simp [hp], fun p hp1 hp2 => ?_⟩
  simp only [List.length_append, List.length_singleton] at hp1 hp2
  by_cases he : p = entries.length
  · subst he
    rw [← hp, slot_push_self log (by omega), hp]
    simp
  · rw [slot_push_of_ne log, List.getElem?_append_left (by omega)]
    · exact h.slot_eq p (by omega) (by omega)
    · rw [hp]
      exact (mod_ne_of_lt (by omega) (by omega)).symm

theorem Records.foldl_push {log : Log α n} {entries : List α} (h : Records log entries)
    (items : List α) : Records (items.foldl Log.push log) (entries ++ items) := by
  induction items generalizing log entries with
  | nil => rwa [List.foldl_nil, List.append_nil]
  | cons item rest ih =>
    have hrest := ih (h.push item)
    rwa [List.append_assoc] at hrest

end Nonblocking.Log

namespace Nonblocking.Reader

variable {α : Type u} {n : Nat} {log : Log α n} {entries : List α}

theorem overflow?_of_records (h : log.Records entries) (r : Reader) :
    r.overflow? log =
      if r.position + n < entries.length then some ⟨entries.length - n - r.position⟩ else none := by
  unfold overflow?
  rw [h.reserved_eq]
  by_cases hc : r.position + n < entries.length
  · rw [if_pos hc, if_pos (by omega)]
    congr 2
    omega
  · rw [if_neg hc, if_neg (by omega)]

theorem lag_of_records (h : log.Records entries) (r : Reader) :
    r.lag log = entries.length - r.position := by
  rw [lag, h.published_eq]

theorem tryRead_of_records (h : log.Records entries) (r : Reader)
    (hr : r.position ≤ entries.length) :
    r.tryRead log =
      if r.position + n < entries.length then
        (.error ⟨entries.length - n - r.position⟩, r)
      else
        match entries[r.position]? with
        | none => (.ok none, r)
        | some entry => (.ok (some entry), { r with position := r.position + 1 }) := by
  unfold tryRead
  rw [h.published_eq, overflow?_of_records h]
  by_cases he : r.position = entries.length
  · rw [if_pos he, if_neg (by omega)]
    simp [he]
  · rw [if_neg he]
    by_cases hc : r.position + n < entries.length
    · rw [if_pos hc, if_pos hc]
    · rw [if_neg hc, if_neg hc, h.slot_eq _ (by omega) (by omega)]
      have : r.position < entries.length := by omega
      simp [this]

theorem resync_of_records (h : log.Records entries) (r : Reader) :
    r.resync log =
      if r.position + n < entries.length then
        ⟨(entries.length - n - r.position, { r with position := entries.length - n }),
          [.readerResynced (entries.length - n - r.position) (entries.length - n)]⟩
      else ⟨(0, r), []⟩ := by
  unfold resync
  rw [overflow?_of_records h, h.reserved_eq]
  by_cases hc : r.position + n < entries.length
  · rw [if_pos hc, if_pos hc]
  · rw [if_neg hc, if_neg hc]

end Nonblocking.Reader
