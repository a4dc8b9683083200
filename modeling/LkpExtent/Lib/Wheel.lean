/-
  A time wheel: a row of buckets, the newest first.  Things are put into the newest
  bucket, and a turn adds an empty bucket and drops the oldest.

  * `Wheel.Aged`: a thing was put into the wheel so many turns ago, and not since;
  * `Aged.holds_iff`, `Aged.last_iff`: such a thing is in the wheel as long as there
    have been fewer turns than there are buckets, and the last of these turns drops it.
-/
import Mathlib.Data.Finset.Insert

namespace Lib

universe u

/-- The buckets, the newest first. -/
abbrev Wheel (α : Type u) := List (Finset α)

namespace Wheel
variable {α : Type u}

/-- Put a thing into the newest bucket. -/
def put [DecidableEq α] (a : α) : Wheel α → Wheel α
  | [] => []
  | newest :: older => insert a newest :: older

/-- Add an empty bucket and drop the oldest. -/
def turn : Wheel α → Wheel α
  | [] => []
  | newest :: older => ∅ :: (newest :: older).dropLast

/-- Some bucket contains the thing. -/
def Holds (w : Wheel α) (a : α) : Prop := ∃ bucket ∈ w, a ∈ bucket

/-- A turn drops the thing: only the oldest bucket contains it. -/
def Last (w : Wheel α) (a : α) : Prop := w.Holds a ∧ ∀ bucket ∈ w.dropLast, a ∉ bucket

/-- The thing was put into the wheel `n` turns ago, and not since. -/
structure Aged (w : Wheel α) (a : α) (n : ℕ) : Prop where
  newer : ∀ i bucket, i < n → w[i]? = some bucket → a ∉ bucket
  there : ∀ bucket, w[n]? = some bucket → a ∈ bucket

variable {w : Wheel α} {a b : α} {n : ℕ}

@[simp] theorem length_put [DecidableEq α] : (w.put a).length = w.length := by cases w <;> rfl

@[simp] theorem length_turn : w.turn.length = w.length := by cases w <;> simp [turn]

theorem turn_succ (n : ℕ) : w.turn[n + 1]? = w.dropLast[n]? := by cases w <;> rfl

theorem aged_put [DecidableEq α] (w : Wheel α) (a : α) : (w.put a).Aged a 0 := by
  refine ⟨fun i _ hi _ => absurd hi (Nat.not_lt_zero i), ?_⟩
  intro bucket hb
  cases w with
  | nil => cases hb
  | cons newest older =>
    simp only [put, List.getElem?_cons_zero, Option.some.injEq] at hb
    rw [← hb]
    exact Finset.mem_insert_self a newest

/-- Another thing is put into the wheel. -/
theorem Aged.put [DecidableEq α] (h : w.Aged a n) (hab : a ≠ b) : (w.put b).Aged a n := by
  cases w with
  | nil => exact h
  | cons newest older =>
    constructor
    · intro i bucket hi hb
      cases i with
      | zero =>
        simp only [Wheel.put, List.getElem?_cons_zero, Option.some.injEq] at hb
        rw [← hb, Finset.mem_insert, not_or]
        exact ⟨hab, h.newer 0 newest hi rfl⟩
      | succ i => exact h.newer (i + 1) bucket hi hb
    · intro bucket hb
      cases n with
      | zero =>
        simp only [Wheel.put, List.getElem?_cons_zero, Option.some.injEq] at hb
        rw [← hb]
        exact Finset.mem_insert_of_mem (h.there newest rfl)
      | succ n => exact h.there bucket hb

/-- Only what is put into the wheel is new in it. -/
theorem holds_put [DecidableEq α] (h : (w.put b).Holds a) : a = b ∨ w.Holds a := by
  obtain ⟨bucket, hb, ha⟩ := h
  cases w with
  | nil => cases hb
  | cons newest older =>
    rcases List.mem_cons.1 hb with rfl | hb
    · rcases Finset.mem_insert.1 ha with rfl | ha
      · exact .inl rfl
      · exact .inr ⟨newest, List.mem_cons_self, ha⟩
    · exact .inr ⟨bucket, List.mem_cons_of_mem _ hb, ha⟩

theorem holds_turn (h : w.turn.Holds a) : w.Holds a := by
  obtain ⟨bucket, hb, ha⟩ := h
  cases w with
  | nil => cases hb
  | cons newest older =>
    rcases List.mem_cons.1 hb with rfl | hb
    · exact absurd ha (Finset.notMem_empty a)
    · exact ⟨bucket, List.mem_of_mem_dropLast hb, ha⟩

/-- **A turn makes everything older by one.** -/
theorem Aged.turn (h : w.Aged a n) : w.turn.Aged a (n + 1) := by
  have hold : ∀ {i bucket}, w.turn[i + 1]? = some bucket → w[i]? = some bucket := by
    intro i bucket hb
    rw [turn_succ, List.getElem?_dropLast] at hb
    split_ifs at hb
    exact hb
  constructor
  · intro i bucket hi hb
    cases i with
    | zero =>
      cases w with
      | nil => cases hb
      | cons newest older =>
        simp only [Wheel.turn, List.getElem?_cons_zero, Option.some.injEq] at hb
        rw [← hb]
        exact Finset.notMem_empty a
    | succ i => exact h.newer i bucket (by omega) (hold hb)
  · intro bucket hb
    exact h.there bucket (hold hb)

/-- **A thing stays for as many turns as there are buckets.** -/
theorem Aged.holds_iff (h : w.Aged a n) : w.Holds a ↔ n < w.length := by
  constructor
  · rintro ⟨bucket, hb, ha⟩
    obtain ⟨i, hi⟩ := List.mem_iff_getElem?.1 hb
    have hlt := (List.getElem?_eq_some_iff.1 hi).1
    by_contra hn
    exact h.newer i bucket (by omega) hi ha
  · intro hn
    exact ⟨w[n], List.getElem_mem hn, h.there _ (List.getElem?_eq_getElem hn)⟩

/-- **The last of these turns drops it.** -/
theorem Aged.last_iff (h : w.Aged a n) : w.Last a ↔ n + 1 = w.length := by
  simp only [Last, h.holds_iff]
  constructor
  · rintro ⟨hn, hno⟩
    by_contra hne
    have hd : w.dropLast[n]? = some w[n] := by
      rw [List.getElem?_dropLast, if_pos (by omega), List.getElem?_eq_getElem hn]
    exact hno w[n] (List.mem_of_getElem? hd) (h.there _ (List.getElem?_eq_getElem hn))
  · intro hn
    refine ⟨by omega, ?_⟩
    intro bucket hb
    obtain ⟨i, hi⟩ := List.mem_iff_getElem?.1 hb
    rw [List.getElem?_dropLast] at hi
    split_ifs at hi with hlt
    exact h.newer i bucket (by omega) hi

end Wheel

end Lib
