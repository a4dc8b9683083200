/-
  Assignments read from a list of lines, the last one for a key winning.

  * `assign`: the map that a reader builds, line after line;
  * `LastLine`: the last line for a key;  `assign_eq_some`, `assign_eq_none`: the map
    holds what the last line for a key says, and nothing else;
  * `assign_filter_iff`: when leaving out lines leaves the value of a key as it is.
-/
import Mathlib.Data.List.Induction
import Mathlib.Logic.Function.Basic

namespace Lib

universe u v w

variable {α : Type u} {κ : Type v} {υ : Type w}

section
variable [DecidableEq κ]

/-- What one line does to the map. -/
def assignLine (f : α → Option (κ × υ)) (m : κ → Option υ) (l : α) : κ → Option υ :=
  match f l with
  | some (k, v) => Function.update m k (some v)
  | none => m

/-- The map read from the lines `ls`, where `f` says what a line assigns if anything. -/
def assign (f : α → Option (κ × υ)) (ls : List α) : κ → Option υ :=
  ls.foldl (assignLine f) fun _ => none

end

/-- The line `l` assigns to `k`. -/
def AssignsTo (f : α → Option (κ × υ)) (k : κ) (l : α) : Prop := ∃ v, f l = some (k, v)

/-- The line `l` is the last one of `ls` that assigns to `k`. -/
def LastLine (f : α → Option (κ × υ)) (ls : List α) (k : κ) (l : α) : Prop :=
  AssignsTo f k l ∧ ∃ before after, ls = before ++ l :: after ∧ ∀ l' ∈ after, ¬ AssignsTo f k l'

variable {f g : α → Option (κ × υ)} {ls : List α} {k : κ} {v : υ} {l : α}

theorem LastLine.mem (h : LastLine f ls k l) : l ∈ ls := by
  obtain ⟨-, before, after, rfl, -⟩ := h
  simp

theorem lastLine_concat_of_assigns (h : AssignsTo f k l) : LastLine f (ls ++ [l]) k l :=
  ⟨h, ls, [], rfl, by simp⟩

theorem lastLine_concat_of_not {l' : α} (h : ¬ AssignsTo f k l') (hl : LastLine f ls k l) :
    LastLine f (ls ++ [l']) k l := by
  obtain ⟨ha, before, after, rfl, hafter⟩ := hl
  refine ⟨ha, before, after ++ [l'], by simp, ?_⟩
  intro l'' hmem
  rcases List.mem_append.1 hmem with hmem | hmem
  · exact hafter l'' hmem
  · rwa [List.mem_singleton.1 hmem]

/-- There is one last line for a key. -/
theorem LastLine.unique {l' : α} (h : LastLine f ls k l) (h' : LastLine f ls k l') : l = l' := by
  obtain ⟨ha, before, after, hls, hafter⟩ := h
  obtain ⟨ha', before', after', rfl, hafter'⟩ := h'
  rcases List.append_eq_append_iff.1 hls with ⟨as, rfl, has⟩ | ⟨cs, rfl, hcs⟩
  · rcases List.cons_eq_append_iff.1 has with ⟨rfl, heq⟩ | ⟨as', rfl, rfl⟩
    · cases heq; rfl
    · exact absurd ha (hafter' l (by simp))
  · rcases List.cons_eq_append_iff.1 hcs with ⟨rfl, heq⟩ | ⟨cs', rfl, rfl⟩
    · cases heq; rfl
    · exact absurd ha' (hafter l' (by simp))

variable [DecidableEq κ]

@[simp] theorem assign_nil : assign f [] = fun _ => none := rfl

theorem assign_concat : assign f (ls ++ [l]) = assignLine f (assign f ls) l := by
  rw [assign, List.foldl_append]; rfl

theorem assignLine_of_some {m : κ → Option υ} (h : f l = some (k, v)) : assignLine f m l k = some v := by
  simp [assignLine, h]

theorem assignLine_of_not {m : κ → Option υ} (h : ¬ AssignsTo f k l) : assignLine f m l k = m k := by
  rcases hl : f l with _ | ⟨k', v⟩
  · simp [assignLine, hl]
  · have hne : k ≠ k' := by
      rintro rfl
      exact h ⟨v, hl⟩
    simp [assignLine, hl, Function.update_of_ne hne]

/-- What the map holds for `k`, by the last line for `k`. -/
theorem assign_cases (f : α → Option (κ × υ)) (ls : List α) (k : κ) :
    (assign f ls k = none ∧ ∀ l ∈ ls, ¬ AssignsTo f k l) ∨
    ∃ l v, assign f ls k = some v ∧ f l = some (k, v) ∧ LastLine f ls k l := by
  induction ls using List.reverseRecOn with
  | nil => exact .inl ⟨rfl, by simp⟩
  | append_singleton ls l ih =>
    rw [assign_concat]
    by_cases hl : AssignsTo f k l
    · obtain ⟨v, hv⟩ := hl
      exact .inr ⟨l, v, assignLine_of_some hv, hv, lastLine_concat_of_assigns ⟨v, hv⟩⟩
    · rw [assignLine_of_not hl]
      rcases ih with ⟨hnone, hall⟩ | ⟨l', v, hsome, hv, hlast⟩
      · refine .inl ⟨hnone, ?_⟩
        intro l'' hmem
        rcases List.mem_append.1 hmem with hmem | hmem
        · exact hall l'' hmem
        · rwa [List.mem_singleton.1 hmem]
      · exact .inr ⟨l', v, hsome, hv, lastLine_concat_of_not hl hlast⟩

/-- **The last line for a key wins.** -/
theorem assign_eq_some : assign f ls k = some v ↔ ∃ l, f l = some (k, v) ∧ LastLine f ls k l := by
  rcases assign_cases f ls k with ⟨hnone, hall⟩ | ⟨l, v', hsome, hv', hlast⟩
  · rw [hnone]
    constructor
    · rintro ⟨⟩
    · rintro ⟨l, hv, hlast⟩
      exact absurd ⟨v, hv⟩ (hall l hlast.mem)
  · rw [hsome]
    constructor
    · rintro ⟨⟩
      exact ⟨l, hv', hlast⟩
    · rintro ⟨l', hv, hlast'⟩
      obtain rfl := hlast.unique hlast'
      rw [hv'] at hv
      cases hv; rfl

/-- **A key without a line is not in the map.** -/
theorem assign_eq_none : assign f ls k = none ↔ ∀ l ∈ ls, ¬ AssignsTo f k l := by
  rcases assign_cases f ls k with ⟨hnone, hall⟩ | ⟨l, v, hsome, hv, hlast⟩
  · exact iff_of_true hnone hall
  · refine iff_of_false (by rw [hsome]; exact nofun) ?_
    intro hall
    exact hall l hlast.mem ⟨v, hv⟩

/-- Lines that do not assign to `k`, before or after a change of the reader, do not
    matter for `k`. -/
theorem assign_congr_key (h : ∀ l ∈ ls, ∀ v, f l = some (k, v) ↔ g l = some (k, v)) :
    assign f ls k = assign g ls k := by
  induction ls using List.reverseRecOn with
  | nil => rfl
  | append_singleton ls l ih =>
    rw [assign_concat, assign_concat]
    have hl := h l (by simp)
    have hls : assign f ls k = assign g ls k := ih fun l' hmem => h l' (by simp [hmem])
    by_cases hf : AssignsTo f k l
    · obtain ⟨v, hv⟩ := hf
      rw [assignLine_of_some hv, assignLine_of_some ((hl v).1 hv)]
    · have hg : ¬ AssignsTo g k l := by
        rintro ⟨v, hv⟩
        exact hf ⟨v, (hl v).2 hv⟩
      rw [assignLine_of_not hf, assignLine_of_not hg, hls]

/-- Leaving lines out is reading nothing from them. -/
theorem assign_filter_eq (f : α → Option (κ × υ)) (p : α → Bool) (ls : List α) :
    assign f (ls.filter p) = assign (fun l => if p l then f l else none) ls := by
  induction ls using List.reverseRecOn with
  | nil => rfl
  | append_singleton ls l ih =>
    rw [List.filter_append, assign_concat, ← ih]
    cases hp : p l with
    | true =>
      rw [List.filter_cons_of_pos hp, List.filter_nil, assign_concat]
      simp [assignLine, hp]
    | false =>
      rw [List.filter_cons_of_neg (by simp [hp]), List.filter_nil, List.append_nil]
      simp [assignLine, hp]

theorem assign_filter {p : α → Bool} (h : ∀ l ∈ ls, p l = false → ¬ AssignsTo f k l) :
    assign f (ls.filter p) k = assign f ls k := by
  rw [assign_filter_eq]
  refine assign_congr_key ?_
  intro l hl v
  cases hp : p l with
  | true => simp
  | false => simpa using fun hv => h l hl hp ⟨v, hv⟩

/-- **Leaving out lines that give `k` the value `v`** leaves the map at `k` as it is just
    when the last line for `k` is left in, or the last one left in says `v` too. -/
theorem assign_filter_iff {p : α → Bool} (h : ∀ l ∈ ls, p l = false → AssignsTo f k l →
    f l = some (k, v)) :
    assign f (ls.filter p) k = assign f ls k ↔
      ((∃ l, p l = false ∧ LastLine f ls k l) → assign f (ls.filter p) k = some v) := by
  constructor
  · rintro heq ⟨l, hp, hlast⟩
    rw [heq]
    exact assign_eq_some.2 ⟨l, h l hlast.mem hp hlast.1, hlast⟩
  · intro himp
    rcases assign_cases f ls k with ⟨hnone, hall⟩ | ⟨l, v', hsome, hv', hlast⟩
    · exact assign_filter fun l hl _ => hall l hl
    · cases hp : p l with
      | false =>
        rw [h l hlast.mem hp hlast.1] at hv'
        cases hv'
        rw [himp ⟨l, hp, hlast⟩, hsome]
      | true =>
        obtain ⟨ha, before, after, rfl, hafter⟩ := hlast
        rw [hsome]
        refine assign_eq_some.2 ⟨l, hv', ha, before.filter p, after.filter p, ?_, ?_⟩
        · rw [List.filter_append, List.filter_cons_of_pos hp]
        · intro l' hmem
          exact hafter l' (List.mem_filter.1 hmem).1

end Lib
