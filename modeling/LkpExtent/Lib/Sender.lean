/-
  A sender that takes a list apart: whenever the last message is out it sends the next
  piece, after the last piece an end mark, and nothing after that.

  * `feed msg last pieces bs`: the messages sent, one for each completion;
  * `Sender`: what one completion does;
  * `Sender.runs`: what any number of completions sends;  `Sender.exists_runs`: they
    come to the end.
-/
import LkpExtent.Lib.Chunks
import LkpExtent.Lib.Runs

namespace Lib

universe u v w x y
variable {σ : Type u} {ε : Type v} {α : Type w} {β : Type x} {μ : Type y}

/-- The messages for the pieces that are left and for the end, one for each completion. -/
def feed (msg : List α → β → μ) (last : μ) : List (List α) → List β → List μ
  | piece :: pieces, b :: bs => msg piece b :: feed msg last pieces bs
  | [], _ :: _ => [last]
  | _, [] => []

variable {msg : List α → β → μ} {last : μ}

@[simp] theorem feed_nil (pieces : List (List α)) : feed msg last pieces [] = [] := by
  cases pieces <;> rfl

/-- The last completion sends the end mark. -/
theorem feed_of_eq {pieces : List (List α)} {bs : List β} (h : bs.length = pieces.length + 1) :
    feed msg last pieces bs = List.zipWith msg pieces bs ++ [last] := by
  induction pieces generalizing bs with
  | nil =>
    obtain ⟨b, rfl⟩ := List.length_eq_one_iff.1 h
    rfl
  | cons piece pieces ih =>
    obtain ⟨b, bs, rfl⟩ := List.exists_cons_of_length_eq_add_one h
    rw [feed, ih (by simpa using h)]
    rfl

/-- Fewer completions send pieces only. -/
theorem feed_of_le {pieces : List (List α)} {bs : List β} (h : bs.length ≤ pieces.length) :
    feed msg last pieces bs = List.zipWith msg pieces bs := by
  induction pieces generalizing bs with
  | nil =>
    obtain rfl := List.eq_nil_of_length_eq_zero (Nat.le_zero.1 h)
    rfl
  | cons piece pieces ih =>
    cases bs with
    | nil => rfl
    | cons b bs =>
      rw [feed, ih (by simpa using h)]
      rfl

/-- If the end mark is the last message sent, the completions came to the end. -/
theorem feed_end {pieces : List (List α)} {bs : List β} {first : μ} {ms : List μ} (hfirst : first ≠ last)
    (hmsg : ∀ piece b, msg piece b ≠ last) (hle : bs.length ≤ pieces.length + 1)
    (h : ms ++ [last] = first :: feed msg last pieces bs) :
    bs.length = pieces.length + 1 ∧ ms = first :: List.zipWith msg pieces bs := by
  rcases Nat.lt_or_eq_of_le hle with hlt | heq
  · -- the last message would be one of a piece
    rw [feed_of_le (Nat.le_of_lt_succ hlt)] at h
    have hmem : last ∈ first :: List.zipWith msg pieces bs := by rw [← h]; simp
    rcases List.mem_cons.1 hmem with hl | hl
    · exact absurd hl.symm hfirst
    · rw [← List.map_uncurry_zip_eq_zipWith] at hl
      obtain ⟨⟨piece, b⟩, -, hb⟩ := List.mem_map.1 hl
      exact absurd hb (hmsg piece b)
  · rw [feed_of_eq heq, ← List.cons_append] at h
    exact ⟨heq, (List.append_inj' h rfl).1⟩

/-- What a completion does to a sender with `rest` still to send. -/
structure Sender (step : σ → ε → Option σ) (completion : β → List ε) (sent : σ → List μ) (k : ℕ)
    (msg : List α → β → μ) (last : μ) (Sending : σ → List α → Prop) (Stopped : σ → Prop) : Prop where
  piece : ∀ {s rest}, Sending s rest → rest ≠ [] → ∀ b, ∃ t, Runs step s (completion b) t ∧
    Sending t (rest.drop k) ∧ sent t = sent s ++ [msg (rest.take k) b]
  finish : ∀ {s}, Sending s [] → ∀ b, ∃ t, Runs step s (completion b) t ∧ Stopped t ∧
    sent t = sent s ++ [last]
  stop : ∀ {s}, Stopped s → ∀ b es t, ¬ Runs step s (completion b ++ es) t

namespace Sender
variable {step : σ → ε → Option σ} {completion : β → List ε} {sent : σ → List μ} {k : ℕ}
  {Sending : σ → List α → Prop} {Stopped : σ → Prop} {s t : σ} {rest : List α} {bs : List β}

/-- **Every completion but the last sends a piece**, and there is none after the end. -/
theorem runs (hS : Sender step completion sent k msg last Sending Stopped) (hk : 0 < k)
    (h : Sending s rest) (hruns : Runs step s (bs.flatMap completion) t) :
    sent t = sent s ++ feed msg last (chunks k rest) bs ∧ bs.length ≤ (chunks k rest).length + 1 := by
  induction bs generalizing s rest with
  | nil =>
    rw [hruns.nil_inv, feed_nil, List.append_nil]
    exact ⟨rfl, Nat.zero_le _⟩
  | cons b bs ih =>
    rw [List.flatMap_cons] at hruns
    obtain ⟨u, hu, hrest⟩ := hruns.split
    by_cases hr : rest = []
    · subst hr
      obtain ⟨v, hv, hstopped, hsent⟩ := hS.finish h b
      obtain rfl := hv.det hu
      cases bs with
      | nil =>
        rw [hrest.nil_inv, hsent]
        exact ⟨rfl, Nat.le_refl _⟩
      | cons b' bs => exact absurd hrest (hS.stop hstopped b' _ t)
    · obtain ⟨v, hv, hsending, hsent⟩ := hS.piece h hr b
      obtain rfl := hv.det hu
      obtain ⟨hs, hlen⟩ := ih hsending hrest
      rw [length_chunks_of_ne_nil hk hr, List.length_cons]
      refine ⟨?_, Nat.add_le_add_right hlen 1⟩
      rw [hs, hsent, chunks_of_ne_nil hk hr, feed, List.append_assoc, List.singleton_append]

/-- **The completions come to the end.** -/
theorem exists_runs (hS : Sender step completion sent k msg last Sending Stopped) (hk : 0 < k)
    (h : Sending s rest) (hlen : bs.length = (chunks k rest).length + 1) :
    ∃ t, Runs step s (bs.flatMap completion) t := by
  induction bs generalizing s rest with
  | nil => simp at hlen
  | cons b bs ih =>
    rw [List.flatMap_cons]
    by_cases hr : rest = []
    · subst hr
      obtain ⟨t, ht, -⟩ := hS.finish h b
      obtain rfl : bs = [] := by simpa using hlen
      exact ⟨t, by simpa using ht⟩
    · obtain ⟨u, hu, hsending, -⟩ := hS.piece h hr b
      rw [length_chunks_of_ne_nil hk hr, List.length_cons] at hlen
      obtain ⟨t, ht⟩ := ih hsending (Nat.add_right_cancel hlen)
      exact ⟨t, hu.append ht⟩

end Sender

end Lib
