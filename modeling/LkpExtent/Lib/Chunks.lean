/-
  A list cut into pieces of a fixed length, as a loop that reads a file through a
  buffer cuts it.

  * `chunks k l`: the pieces of length `k` of `l`, the last one as long as what is left;
  * `chunks_of_ne_nil`: what the loop does in one round;
  * `drop_induction`: the induction over its rounds.
-/
import Mathlib.Data.List.Basic
import Mathlib.Data.List.Flatten

namespace Lib

universe u
variable {α : Type u} {k : ℕ} {l : List α}

/-- At most `n` rounds of the loop. -/
def rounds (k : ℕ) : ℕ → List α → List (List α)
  | 0, _ => []
  | n + 1, l => if l.isEmpty then [] else l.take k :: rounds k n (l.drop k)

/-- Every round takes an element at least. -/
def chunks (k : ℕ) (l : List α) : List (List α) := rounds k l.length l

@[simp] theorem chunks_nil (k : ℕ) : chunks k ([] : List α) = [] := rfl

/-- More rounds do nothing more. -/
theorem rounds_eq (hk : 0 < k) {n : ℕ} (h : l.length ≤ n) : rounds k n l = chunks k l := by
  have haux : ∀ m n (l : List α), l.length ≤ m → l.length ≤ n → rounds k m l = rounds k n l := by
    intro m
    induction m with
    | zero =>
      intro n l hm _
      obtain rfl := List.eq_nil_of_length_eq_zero (Nat.le_zero.1 hm)
      cases n <;> rfl
    | succ m ih =>
      intro n l hm hn
      rcases l with _ | ⟨a, l⟩
      · cases n <;> rfl
      · obtain ⟨n, rfl⟩ : ∃ n', n = n' + 1 := Nat.exists_eq_succ_of_ne_zero (by simp at hn; omega)
        have hdrop : ((a :: l).drop k).length ≤ l.length := by simp; omega
        simp only [List.length_cons] at hm hn
        rw [rounds, rounds, ih n ((a :: l).drop k) (by omega) (by omega)]
  exact haux _ _ _ h (Nat.le_refl _)

/-- One round takes a piece and leaves the rest. -/
theorem chunks_of_ne_nil (hk : 0 < k) (h : l ≠ []) : chunks k l = l.take k :: chunks k (l.drop k) := by
  obtain ⟨a, l, rfl⟩ := List.exists_cons_of_ne_nil h
  have hdrop : ((a :: l).drop k).length ≤ l.length := by simp; omega
  rw [← rounds_eq hk hdrop]
  rfl

theorem length_chunks_of_ne_nil (hk : 0 < k) (h : l ≠ []) :
    (chunks k l).length = (chunks k (l.drop k)).length + 1 := by
  rw [chunks_of_ne_nil hk h, List.length_cons]

/-- The induction over the rounds. -/
theorem drop_induction {P : List α → Prop} (hk : 0 < k) (hnil : P [])
    (hround : ∀ l, l ≠ [] → P (l.drop k) → P l) (l : List α) : P l := by
  induction hn : l.length using Nat.strongRecOn generalizing l with
  | ind n ih =>
    by_cases hl : l = []
    · rw [hl]; exact hnil
    · have hpos : 0 < l.length := List.length_pos_iff.2 hl
      exact hround l hl (ih _ (by rw [List.length_drop]; omega) _ rfl)

theorem flatten_chunks (hk : 0 < k) (l : List α) : (chunks k l).flatten = l := by
  induction l using drop_induction hk with
  | hnil => simp
  | hround l hl ih => rw [chunks_of_ne_nil hk hl, List.flatten_cons, ih, List.take_append_drop]

theorem length_le_of_mem_chunks (hk : 0 < k) {c : List α} (h : c ∈ chunks k l) : c.length ≤ k := by
  induction l using drop_induction hk with
  | hnil => simp at h
  | hround l hl ih =>
    rw [chunks_of_ne_nil hk hl, List.mem_cons] at h
    rcases h with rfl | h
    · exact List.length_take_le _ _
    · exact ih h

/-- Every piece but the last is as long as it can be. -/
theorem length_of_mem_dropLast_chunks (hk : 0 < k) {c : List α} (h : c ∈ (chunks k l).dropLast) :
    c.length = k := by
  induction l using drop_induction hk with
  | hnil => simp at h
  | hround l hl ih =>
    rw [chunks_of_ne_nil hk hl] at h
    by_cases hr : l.drop k = []
    · rw [hr, chunks_nil, List.dropLast_singleton] at h
      cases h
    · have hne : chunks k (l.drop k) ≠ [] := by
        rw [chunks_of_ne_nil hk hr]
        exact List.cons_ne_nil _ _
      rw [List.dropLast_cons_of_ne_nil hne, List.mem_cons] at h
      rcases h with rfl | h
      · have : k < l.length := by
          by_contra hle
          exact hr (List.drop_of_length_le (by omega))
        rw [List.length_take]
        omega
      · exact ih h

theorem ne_nil_of_mem_chunks (hk : 0 < k) {c : List α} (h : c ∈ chunks k l) : c ≠ [] := by
  induction l using drop_induction hk with
  | hnil => simp at h
  | hround l hl ih =>
    rw [chunks_of_ne_nil hk hl, List.mem_cons] at h
    rcases h with rfl | h
    · intro hnil
      rw [List.take_eq_nil_iff] at hnil
      exact hnil.elim (by omega) hl
    · exact ih h

end Lib
