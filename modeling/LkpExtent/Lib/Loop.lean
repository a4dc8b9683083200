/-
  Loops that are left from inside their body.

  A turn goes on with a new state, ends the loop with a result, or fails.  The number
  of turns is bounded by a measure of the state.

  * `loop_eq`: where every turn lowers the measure, the bound is never met;
  * `loop_inv`: what every turn preserves holds of the result;
  * `loop_congr`: two loops agree if one turn of the first does what the second does.
-/
import Mathlib.Data.Option.Basic
import Mathlib.Data.Nat.Init

namespace Lib

universe u v
variable {σ : Type u} {ρ : Type v}

/-- At most `n` turns of the loop. -/
def loopN (turn : σ → Option (σ ⊕ ρ)) : ℕ → σ → Option ρ
  | 0, _ => none
  | n + 1, s => (turn s).bind fun r => r.elim (loopN turn n) some

/-- The loop, bounded by the measure of its first state. -/
def loop (turn : σ → Option (σ ⊕ ρ)) (measure : σ → ℕ) (s : σ) : Option ρ :=
  loopN turn (measure s + 1) s

/-- Every turn that goes on lowers the measure. -/
def Lowers (turn : σ → Option (σ ⊕ ρ)) (measure : σ → ℕ) : Prop :=
  ∀ s s', turn s = some (.inl s') → measure s' < measure s

variable {turn turn' : σ → Option (σ ⊕ ρ)} {measure : σ → ℕ}

theorem loopN_congr (h : Lowers turn measure) {m n : ℕ} {s : σ} (hm : measure s < m) (hn : measure s < n) :
    loopN turn m s = loopN turn n s := by
  induction m generalizing n s with
  | zero => omega
  | succ m ih =>
    cases n with
    | zero => omega
    | succ n =>
      rw [loopN, loopN]
      refine Option.bind_congr fun r hr => ?_
      cases r with
      | inr r => rfl
      | inl s' =>
        have := h s s' hr
        exact ih (by omega) (by omega)

/-- **The loop is its first turn and then the loop.** -/
theorem loop_eq (h : Lowers turn measure) (s : σ) :
    loop turn measure s = (turn s).bind fun r => r.elim (loop turn measure) some := by
  rw [loop, loopN]
  refine Option.bind_congr fun r hr => ?_
  cases r with
  | inr r => rfl
  | inl s' =>
    have := h s s' hr
    exact loopN_congr h (by omega) (by omega)

theorem loop_next (h : Lowers turn measure) {s s' : σ} (ht : turn s = some (.inl s')) :
    loop turn measure s = loop turn measure s' := by
  rw [loop_eq h, ht]; rfl

theorem loop_leave (h : Lowers turn measure) {s : σ} {r : ρ} (ht : turn s = some (.inr r)) :
    loop turn measure s = some r := by
  rw [loop_eq h, ht]; rfl

/-- What every turn preserves holds of the result. -/
theorem loop_inv {I : σ → Prop} {Q : ρ → Prop} (hnext : ∀ s s', I s → turn s = some (.inl s') → I s')
    (hleave : ∀ s r, I s → turn s = some (.inr r) → Q r) {s : σ} {r : ρ} (hs : I s)
    (h : loop turn measure s = some r) : Q r := by
  have hN : ∀ n s, I s → loopN turn n s = some r → Q r := by
    intro n
    induction n with
    | zero => intro s _ h; cases h
    | succ n ih =>
      intro s hs h
      obtain ⟨out, hout, h⟩ := Option.bind_eq_some_iff.1 h
      cases out with
      | inl s' => exact ih s' (hnext s s' hs hout) h
      | inr r' => cases h; exact hleave s r hs hout
  exact hN _ s hs h

/-- Two loops agree if one turn of the first, and then the second, is the second. -/
theorem loop_congr (h : Lowers turn measure)
    (hturn : ∀ s, ((turn s).bind fun r => r.elim (loop turn' measure) some) = loop turn' measure s) (s : σ) :
    loop turn measure s = loop turn' measure s := by
  induction hn : measure s using Nat.strongRecOn generalizing s with
  | ind n ih =>
    rw [loop_eq h, ← hturn s]
    refine Option.bind_congr fun r hr => ?_
    cases r with
    | inr r => rfl
    | inl s' => exact ih _ (hn ▸ h s s' hr) s' rfl

end Lib
