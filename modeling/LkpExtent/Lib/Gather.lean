/-
  Gathering votes: a number of votes is expected, each is counted when it comes, and
  the last one completes the gathering.

  A vote is a success, or a failure with a text; failures are kept by the key of the
  voter, in the order of the keys.

  * `counts_acks`, `counts_ok`, `counts_info`: what votes add up to, in any order;
    `Bounded`: voters that are counted twice under one key are never too many;
  * `completions`: the moments at which the number of votes is the expected one;
    there is one at most, and it is the last vote if as many came as are expected.
-/
import Mathlib.Data.List.Induction
import Std.Data.TreeMap.Lemmas

namespace Lib

structure Vote (κ μ : Type) where
  key : κ
  fault : Option μ
  deriving DecidableEq

structure Gather (κ μ : Type) [Ord κ] where
  num : ℕ
  acks : ℕ
  ok : ℕ
  info : Std.TreeMap κ μ

namespace Gather
variable {κ μ : Type} [Ord κ] (g : Gather κ μ)

/-- A gathering of `num` votes begins. -/
def new (num : ℕ) : Gather κ μ := ⟨num, 0, 0, ∅⟩

/-- A vote is counted. -/
def count (v : Vote κ μ) : Gather κ μ :=
  match v.fault with
  | none => { g with acks := g.acks + 1, ok := g.ok + 1 }
  | some m => { g with acks := g.acks + 1, info := g.info.insert v.key m }

def counts (vs : List (Vote κ μ)) : Gather κ μ := vs.foldl count g

/-- The gatherings just completed by a vote, with the vote. -/
def completions : Gather κ μ → List (Vote κ μ) → List (Gather κ μ × Vote κ μ)
  | _, [] => []
  | g, v :: vs =>
    (if (g.count v).acks = (g.count v).num then [(g.count v, v)] else []) ++ completions (g.count v) vs

@[simp] theorem new_num (num : ℕ) : (new num : Gather κ μ).num = num := rfl
@[simp] theorem new_acks (num : ℕ) : (new num : Gather κ μ).acks = 0 := rfl
@[simp] theorem new_ok (num : ℕ) : (new num : Gather κ μ).ok = 0 := rfl

@[simp] theorem new_info [Std.TransOrd κ] (num : ℕ) (k : κ) : (new num : Gather κ μ).info[k]? = none :=
  Std.TreeMap.getElem?_emptyc

variable {g}

@[simp] theorem count_num (v : Vote κ μ) : (g.count v).num = g.num := by
  unfold count; split <;> rfl

@[simp] theorem count_acks (v : Vote κ μ) : (g.count v).acks = g.acks + 1 := by
  unfold count; split <;> rfl

theorem count_ok (v : Vote κ μ) : (g.count v).ok = g.ok + if v.fault.isNone then 1 else 0 := by
  unfold count; cases v.fault <;> rfl

/-- Of the votes counted, each is a success or is kept under its key. -/
def Bounded (g : Gather κ μ) : Prop := g.ok + g.info.size ≤ g.acks

theorem bounded_new (num : ℕ) : (new num : Gather κ μ).Bounded := by
  simp [Bounded, new]

theorem Bounded.count [Std.TransOrd κ] (h : g.Bounded) (v : Vote κ μ) : (g.count v).Bounded := by
  simp only [Bounded, Gather.count] at h ⊢
  cases v.fault with
  | none => simp only; omega
  | some m =>
    have hsize : (g.info.insert v.key m).size ≤ g.info.size + 1 := Std.TreeMap.size_insert_le
    simp only; omega

@[simp] theorem counts_nil : g.counts [] = g := rfl

@[simp] theorem counts_cons (v : Vote κ μ) (vs : List (Vote κ μ)) :
    g.counts (v :: vs) = (g.count v).counts vs := rfl

theorem counts_append (vs ws : List (Vote κ μ)) : g.counts (vs ++ ws) = (g.counts vs).counts ws :=
  List.foldl_append ..

@[simp] theorem counts_num (vs : List (Vote κ μ)) : (g.counts vs).num = g.num := by
  induction vs generalizing g with
  | nil => rfl
  | cons v vs ih => rw [counts_cons, ih, count_num]

@[simp] theorem counts_acks (vs : List (Vote κ μ)) : (g.counts vs).acks = g.acks + vs.length := by
  induction vs generalizing g with
  | nil => rfl
  | cons v vs ih => rw [counts_cons, ih, count_acks, List.length_cons]; omega

theorem counts_ok (vs : List (Vote κ μ)) :
    (g.counts vs).ok = g.ok + vs.countP fun v => v.fault.isNone := by
  induction vs generalizing g with
  | nil => rfl
  | cons v vs ih => rw [counts_cons, ih, count_ok, List.countP_cons]; omega

section
variable [Std.TransOrd κ] [Std.LawfulEqOrd κ]

theorem count_info_self (v : Vote κ μ) : (g.count v).info[v.key]? = v.fault.or g.info[v.key]? := by
  simp only [count]
  cases v.fault <;> simp

theorem count_info_of_ne (v : Vote κ μ) {k : κ} (h : k ≠ v.key) : (g.count v).info[k]? = g.info[k]? := by
  simp only [count]
  cases v.fault with
  | none => rfl
  | some m =>
    show (g.info.insert v.key m)[k]? = _
    rw [Std.TreeMap.getElem?_insert, if_neg (by rw [Std.compare_eq_iff_eq]; exact Ne.symm h)]

theorem mem_count_info (v : Vote κ μ) (k : κ) :
    k ∈ (g.count v).info ↔ k ∈ g.info ∨ (v.key = k ∧ v.fault ≠ none) := by
  unfold count
  rcases v with ⟨key, fault | m⟩
  · simp
  · simp [Std.TreeMap.mem_insert, or_comm]

/-- A text is kept under the keys of the failures. -/
theorem mem_counts_info (vs : List (Vote κ μ)) (k : κ) :
    k ∈ (g.counts vs).info ↔ k ∈ g.info ∨ ∃ v ∈ vs, v.key = k ∧ v.fault ≠ none := by
  induction vs generalizing g with
  | nil => simp
  | cons v vs ih =>
    rw [counts_cons, ih, mem_count_info, or_assoc]
    simp only [List.mem_cons, exists_eq_or_imp]

/-- The texts kept are those of the failures, when each voter votes once. -/
theorem counts_info {vs : List (Vote κ μ)} (hvs : (vs.map Vote.key).Nodup)
    (hg : ∀ v ∈ vs, g.info[v.key]? = none) {k : κ} {m : μ} :
    (g.counts vs).info[k]? = some m ↔ g.info[k]? = some m ∨ ⟨k, some m⟩ ∈ vs := by
  induction vs generalizing g with
  | nil => simp
  | cons v vs ih =>
    rw [List.map_cons, List.nodup_cons] at hvs
    have hrest : ∀ w ∈ vs, (g.count v).info[w.key]? = none := by
      intro w hw
      rw [count_info_of_ne v fun he => hvs.1 (he ▸ List.mem_map_of_mem hw)]
      exact hg w (List.mem_cons_of_mem v hw)
    have hv := hg v List.mem_cons_self
    rw [counts_cons, ih hvs.2 hrest, List.mem_cons]
    obtain ⟨key, fault⟩ := v
    by_cases hk : k = key
    · subst hk
      rw [count_info_self, hv, Option.or_none]
      simp only [Vote.mk.injEq, true_and, reduceCtorEq, false_or]
      rw [eq_comm (a := some m)]
    · rw [count_info_of_ne _ hk]
      simp [hk]

end

theorem completions_append (vs ws : List (Vote κ μ)) :
    completions g (vs ++ ws) = completions g vs ++ completions (g.counts vs) ws := by
  induction vs generalizing g with
  | nil => rfl
  | cons v vs ih => rw [List.cons_append, completions, completions, ih, List.append_assoc]; rfl

theorem completions_concat (vs : List (Vote κ μ)) (v : Vote κ μ) :
    completions g (vs ++ [v]) = completions g vs ++
      if g.acks + vs.length + 1 = g.num then [(g.counts (vs ++ [v]), v)] else [] := by
  rw [completions_append, completions, completions, List.append_nil, counts_append]
  simp

/-- **A gathering is completed at most once.** -/
theorem length_completions_le (vs : List (Vote κ μ)) :
    (completions g vs).length ≤ if g.acks + vs.length < g.num then 0 else 1 := by
  induction vs using List.reverseRecOn with
  | nil => simp [completions]
  | append_singleton vs v ih =>
    rw [completions_concat, List.length_append, List.length_append, List.length_singleton]
    split_ifs at ih ⊢ with h₁ h₂ h₃ <;> simp only [List.length_singleton, List.length_nil] <;> omega

/-- Nothing is completed before the expected number of votes. -/
theorem completions_of_lt {vs : List (Vote κ μ)} (h : g.acks + vs.length < g.num) :
    completions g vs = [] := by
  induction vs using List.reverseRecOn with
  | nil => rfl
  | append_singleton vs v ih =>
    rw [List.length_append, List.length_singleton] at h
    rw [completions_concat, ih (by omega), if_neg (by omega), List.append_nil]

/-- **The last expected vote completes the gathering**, and nothing before it does. -/
theorem completions_of_eq {vs : List (Vote κ μ)} (hne : vs ≠ []) (h : g.acks + vs.length = g.num) :
    completions g vs = [(g.counts vs, vs.getLast hne)] := by
  obtain ⟨ws, v, rfl⟩ := (List.eq_nil_or_concat vs).resolve_left hne
  rw [List.length_concat] at h
  simp only [List.concat_eq_append]
  rw [completions_concat, completions_of_lt (by omega), List.nil_append, if_pos (by omega)]
  simp

end Gather

end Lib
