/-
  A sender that is driven by the completions of its output.

  The items of a transfer are sent one by one on a channel that reports when its
  pending output has been written completely.  Each report that comes while the
  callback is set queues one call of it, and a call sends the next item or, if none
  is left, an end mark, and clears the callback.  What else is written on the
  channel is reported in the same way, so that calls can be queued that no item
  of the transfer has caused.

  * `Pump`, `Move`: the sender and its moves;
  * `Pumped`: the invariant, which says how many end marks the queued calls will make;
  * `runs_pumped`: it holds along the runs of any machine that moves a pump;
  * `Pumped.sent_eq`: every item has been sent and then one end mark iff the first call
    that found no item was the only one queued.
-/
import LkpExtent.Lib.Runs
import Mathlib.Data.List.Infix

namespace Lib

universe w

/-- A sender of items of a type `α`. -/
structure Pump (α : Type w) where
  callback : Bool
  /-- whether output is pending -/
  output : Bool
  /-- how many calls of the callback are queued -/
  queued : ℕ
  /-- the items not sent yet -/
  left : List α
  /-- the items sent, and `none` for an end mark -/
  sent : List (Option α)

namespace Pump

universe u v
variable {α : Type w} {p q : Pump α} {l : List α} {b : Bool}

/-- The moves of a sender; `true` marks the calls of the callback. -/
inductive Move : Pump α → Bool → Pump α → Prop
  | other {p : Pump α} (o : Bool) : (p.output = true → o = true) → Move p false { p with output := o }
  | written {p : Pump α} : p.output = true → Move p false { p with
      output := false, queued := if p.callback then p.queued + 1 else p.queued }
  | item {p : Pump α} {a : α} {l : List α} : 0 < p.queued → p.left = a :: l → Move p true { p with
      queued := p.queued - 1, left := l, sent := p.sent ++ [some a], output := true }
  | finish {p : Pump α} : 0 < p.queued → p.left = [] → Move p true { p with
      queued := p.queued - 1, callback := false, sent := p.sent ++ [none], output := true }

/-- If the next call is the first one that finds no item, no other one is queued. -/
def Sole (p : Pump α) : Prop := p.callback = true → p.left = [] → p.queued = 1

/-- Nothing is pending or queued. -/
def Settled (p : Pump α) : Prop := p.output = false ∧ p.queued = 0

/-- A transfer of `l`; `sole` says whether the first call that found no item was the
    only one queued. -/
structure Pumped (l : List α) (sole : Prop) (p : Pump α) : Prop where
  sending : p.callback = true →
    sole ∧ (p.output = true ∨ 0 < p.queued) ∧ ∃ done, p.sent = done.map some ∧ done ++ p.left = l
  ended : p.callback = false →
    p.left = [] ∧ ∃ n, p.sent = l.map some ++ List.replicate (n + 1) none ∧ (n + p.queued = 0 ↔ sole)

theorem Pumped.congr {S T : Prop} (h : Pumped l S p) (hST : S ↔ T) : Pumped l T p := by
  rwa [← propext hST]

/-- What a move does to a transfer. -/
theorem Pumped.move {S : Prop} (h : Pumped l S p) (hm : Move p b q) :
    Pumped l (S ∧ (b = true → p.Sole)) q := by
  cases hm with
  | other o ho =>
    constructor
    · intro hcb
      obtain ⟨hS, hout, hdone⟩ := h.sending hcb
      exact ⟨⟨hS, nofun⟩, hout.imp_left ho, hdone⟩
    · intro hcb
      obtain ⟨hleft, n, hsent, hn⟩ := h.ended hcb
      exact ⟨hleft, n, hsent, hn.trans ⟨fun hS => ⟨hS, nofun⟩, And.left⟩⟩
  | written hout =>
    constructor
    · intro hcb
      obtain ⟨hS, -, hdone⟩ := h.sending hcb
      refine ⟨⟨hS, nofun⟩, Or.inr ?_, hdone⟩
      simp only at hcb
      simp [hcb]
    · intro hcb
      obtain ⟨hleft, n, hsent, hn⟩ := h.ended hcb
      refine ⟨hleft, n, hsent, ?_⟩
      simp only at hcb
      simpa [hcb] using hn
  | @item a _ hq hl =>
    have hcb : p.callback = true := by
      by_contra hno
      rw [(h.ended (by simpa using hno)).1] at hl
      cases hl
    obtain ⟨hS, -, done, hsent, hdone⟩ := h.sending hcb
    refine ⟨fun _ => ⟨⟨hS, ?_⟩, Or.inl rfl, done ++ [a], ?_, ?_⟩, ?_⟩
    · intro _ _ hnil
      rw [hl] at hnil; cases hnil
    · rw [List.map_append, hsent]; rfl
    · rw [← hdone, hl, List.append_assoc, List.singleton_append]
    · intro hno
      rw [hcb] at hno; cases hno
  | finish hq hl =>
    refine ⟨nofun, fun _ => ⟨hl, ?_⟩⟩
    by_cases hcb : p.callback = true
    · obtain ⟨hS, -, done, hsent, hdone⟩ := h.sending hcb
      rw [hl, List.append_nil] at hdone
      subst hdone
      refine ⟨0, by rw [hsent]; rfl, ?_⟩
      simp only [Sole, hS, hcb, hl, forall_const, true_and]
      omega
    · rw [Bool.not_eq_true] at hcb
      obtain ⟨-, n, hsent, hn⟩ := h.ended hcb
      refine ⟨n + 1, ?_, ?_⟩
      · rw [hsent, List.append_assoc, ← List.replicate_succ' ]
      · rw [show n + 1 + (p.queued - 1) = n + p.queued by omega, hn]
        simp [Sole, hcb]

/-- **Every item, and how many end marks.**  When nothing is pending any more, every
    item has been sent and then one end mark, or more if the first call that found no
    item was not the only one queued. -/
theorem Pumped.sent_eq {S : Prop} (h : Pumped l S p) (hp : p.Settled) :
    ∃ n, p.sent = l.map some ++ List.replicate n none ∧ (n = 1 ↔ S) := by
  have hcb : p.callback = false := by
    by_contra hno
    rcases (h.sending (by simpa using hno)).2.1 with hout | hq
    · rw [hp.1] at hout; cases hout
    · rw [hp.2] at hq; cases hq
  obtain ⟨-, n, hsent, hn⟩ := h.ended hcb
  refine ⟨n + 1, hsent, ?_⟩
  rw [← hn, hp.2]
  omega

/-- In between, the items and the end mark are sent in order. -/
theorem Pumped.sent_prefix {S : Prop} (h : Pumped l S p) (hS : S) : p.sent <+: l.map some ++ [none] := by
  by_cases hcb : p.callback = true
  · obtain ⟨-, -, done, hsent, hdone⟩ := h.sending hcb
    rw [hsent, ← hdone, List.map_append, List.append_assoc]
    exact List.prefix_append _ _
  · obtain ⟨-, n, hsent, hn⟩ := h.ended (by simpa using hcb)
    obtain rfl : n = 0 := by
      have := hn.2 hS
      omega
    rw [hsent]
    exact List.prefix_refl _

/-! ## Runs of a machine that moves a pump -/

section
variable {σ : Type u} {ε : Type v} {step : σ → ε → Option σ} {s t : σ} {es : List ε}
  {view : σ → Pump α} {isCall : ε → Bool} {H : σ → ε → Prop}

/-- Before each call of the callback, it is the only one queued if it is the first one
    that finds no item. -/
def SoleCall (view : σ → Pump α) (isCall : ε → Bool) (s : σ) (e : ε) : Prop :=
  isCall e = true → (view s).Sole

theorem runs_pumped (h : Runs step s es t) (h₀ : Pumped l True (view s)) (hH : EachStep step s es H)
    (hmove : ∀ u e v, H u e → step u e = some v → Move (view u) (isCall e) (view v)) :
    Pumped l (EachStep step s es (SoleCall view isCall)) (view t) := by
  induction h with
  | nil => exact h₀.congr ⟨fun _ => .nil, fun _ => trivial⟩
  | @snoc es u v e hu he ih =>
    refine ((ih hH.prefix_of).move (hmove u e v (hH es e [] u rfl hu) he)).congr ?_
    rw [EachStep.snoc_iff]
    refine and_congr_right fun _ => ⟨?_, fun hs => hs u hu⟩
    intro hs w hw
    rwa [hw.det hu]

end

end Pump

end Lib
