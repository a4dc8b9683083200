/-
  Items sent over a stream: each is encoded, the stream is cut anywhere, and an incremental
  decoder takes them off again.

  * `Carries`: what the receiver has buffered and what is on its way are the encodings of
    the items that have not been received;
  * `Carries.send`, `Carries.read`: whatever a read brings, the receiver finds a beginning
    of these items, and neither an error nor anything else;
  * `foldlM_runs`: a loop over items as a run of another machine;
  * `Runs.simulates`: a machine whose every step is a run of another one.
-/
import LkpExtent.Lib.Decoder
import LkpExtent.Lib.Runs
import Mathlib.Logic.Function.Basic

namespace Lib

universe u v w x
variable {α : Type w} {μ : Type u} {ε : Type v} {ν : Type x}

/-- What the receiver has buffered and what is on its way to it are the encodings of `items`. -/
def Carries (enc : ν → List α) (buf flight : List α) (items : List ν) : Prop :=
  buf ++ flight = (items.map enc).flatten

/-- The decoder finds the item wherever the input starts with its encoding. -/
def Framed (D : Decoder α μ ε) (enc : ν → List α) (val : ν → μ) (m : ν) : Prop :=
  ∀ ys, D.head (enc m ++ ys) = .item (val m) (enc m).length

section
variable {D : Decoder α μ ε} {enc : ν → List α} {val : ν → μ} {buf flight chunk : List α} {items : List ν}

theorem Carries.nil : Carries enc [] [] [] := rfl

theorem Carries.send (h : Carries enc buf flight items) (ms : List ν) :
    Carries enc buf (flight ++ (ms.map enc).flatten) (items ++ ms) := by
  rw [Carries, ← List.append_assoc, show buf ++ flight = _ from h, List.map_append, List.flatten_append]

/-- The oldest item, once its encoding is buffered. -/
theorem Carries.uncons {m : ν} (h : Carries enc (enc m ++ buf) flight (m :: items)) :
    Carries enc buf flight items := by
  rw [Carries, List.map_cons, List.flatten_cons, List.append_assoc] at h
  exact List.append_cancel_left h

/-- Of many channels, one has its oldest item taken out of the buffer. -/
theorem Carries.pop {κ : Type*} [DecidableEq κ] {bufs flights : κ → List α} {queues : κ → List ν} {k : κ} {m : ν}
    {rest : List ν} (h : ∀ c, Carries enc (Function.update bufs k (enc m ++ buf) c) (flights c) (queues c))
    (hq : queues k = m :: rest) (c : κ) :
    Carries enc (Function.update bufs k buf c) (flights c) (Function.update queues k rest c) := by
  have hc := h c
  by_cases hck : c = k
  · subst hck
    rw [Function.update_self, hq] at hc
    rw [Function.update_self, Function.update_self]
    exact hc.uncons
  · rw [Function.update_of_ne hck] at hc
    rwa [Function.update_of_ne hck, Function.update_of_ne hck]

/-- **Of a beginning of a stream**, the decoder finds a beginning of the items, and what is left
    is not a whole item. -/
theorem Carries.decode (h : Carries enc buf flight items) (hf : ∀ m ∈ items, Framed D enc val m) :
    ∃ got rest tail, items = got ++ rest ∧ buf = (got.map enc).flatten ++ tail ∧
      D.decode buf = ⟨got.map val, none, tail⟩ ∧ D.head tail = .more := by
  induction items generalizing buf with
  | nil =>
    obtain ⟨rfl, -⟩ := List.append_eq_nil_iff.1 (show buf ++ flight = [] from h)
    exact ⟨[], [], [], rfl, rfl, Decoder.decode_nil, D.nil⟩
  | cons m ms ih =>
    have hm : D.head (buf ++ flight) = .item (val m) (enc m).length := by
      rw [show buf ++ flight = _ from h]
      exact hf m List.mem_cons_self _
    cases hd : D.head buf with
    | more => exact ⟨[], m :: ms, buf, rfl, rfl, Decoder.decode_more hd, hd⟩
    | bad e =>
      rw [D.bad_stable flight hd] at hm
      cases hm
    | item v n =>
      rw [D.item_stable flight hd] at hm
      cases hm
      -- the first item is in the buffer
      obtain ⟨-, hle⟩ := D.consumes hd
      have hbuf : buf = enc m ++ buf.drop (enc m).length := by
        have htake : buf.take (enc m).length = enc m := by
          have happend : (buf ++ flight).take (enc m).length = buf.take (enc m).length :=
            List.take_append_of_le_length hle
          rw [← happend, show buf ++ flight = _ from h, List.map_cons, List.flatten_cons, List.take_left]
        rw [← congrArg (· ++ buf.drop (enc m).length) htake, List.take_append_drop]
      have hrest : Carries enc (buf.drop (enc m).length) flight ms := Carries.uncons (m := m) (by rwa [← hbuf])
      obtain ⟨got, rest, tail, rfl, hgot, hdecode, htail⟩ := ih hrest fun m' hm' => hf m' (List.mem_cons_of_mem _ hm')
      refine ⟨m :: got, rest, tail, rfl, ?_, ?_, htail⟩
      · rw [List.map_cons, List.flatten_cons, List.append_assoc, ← hgot, ← hbuf]
      · rw [Decoder.decode_item hd, hdecode, List.map_cons]

end

/-! ## Machines that simulate each other -/

section
variable {σ : Type u} {τ : Type v} {η : Type w} {θ : Type x} {step : σ → η → Option σ} {step' : τ → θ → Option τ}

/-- What a state has from its successors it has from the end of a loop. -/
theorem foldlM_back {β : Type*} {f : σ → β → Option σ} {F : σ → Prop} (hF : ∀ s b s', f s b = some s' → F s' → F s)
    {bs : List β} {s s' : σ} (h : bs.foldlM f s = some s') (hF' : F s') : F s := by
  induction bs generalizing s with
  | nil => cases h; exact hF'
  | cons b bs ih =>
    rw [List.foldlM_cons] at h
    obtain ⟨s₁, h₁, h⟩ := Option.bind_eq_some_iff.1 h
    exact hF s b s₁ h₁ (ih h)

/-- **A loop over items is a run** of a machine that does a step for each of them, as long as
    `F` holds, which a state has from its successors. -/
theorem foldlM_runs {β : Type*} {f : σ → β → Option σ} {I : List β → σ → τ → Prop} {F : σ → Prop}
    (hF : ∀ s b s', f s b = some s' → F s' → F s)
    (hf : ∀ b bs s s' y, F s' → I (b :: bs) s y → f s b = some s' → ∃ e y', step' y e = some y' ∧ I bs s' y') :
    ∀ {bs : List β} {s s' : σ} {y : τ}, I bs s y → bs.foldlM f s = some s' → F s' →
      ∃ es y', Runs step' y es y' ∧ I [] s' y' := by
  intro bs
  induction bs with
  | nil =>
    intro s s' y hI h _
    cases h
    exact ⟨[], y, .nil, hI⟩
  | cons b bs ih =>
    intro s s' y hI h hF'
    rw [List.foldlM_cons] at h
    obtain ⟨s₁, h₁, h⟩ := Option.bind_eq_some_iff.1 h
    obtain ⟨e, y₁, he, hI₁⟩ := hf b bs s s₁ y (foldlM_back hF h hF') hI h₁
    obtain ⟨es, y', hrun, hI'⟩ := ih hI₁ h hF'
    exact ⟨[e] ++ es, y', (Runs.single he).append hrun, hI'⟩

/-- What a state has from its successors it has from the end of a run. -/
theorem Runs.back {F : σ → Prop} (hF : ∀ s e s', step s e = some s' → F s' → F s) {s t : σ} {es : List η}
    (h : Runs step s es t) (ht : F t) : F s := by
  induction h with
  | nil => exact ht
  | snoc _ he ih => exact ih (hF _ _ _ he ht)

/-- **Forward simulation**: every step of one machine is a run of the other, as long as `F`
    holds, which a state has from its successors. -/
theorem Runs.simulates {I : σ → τ → Prop} {F : σ → Prop} (hF : ∀ s e s', step s e = some s' → F s' → F s)
    (hstep : ∀ s e s' y, F s' → I s y → step s e = some s' → ∃ es y', Runs step' y es y' ∧ I s' y')
    {s t : σ} {y : τ} {es : List η} (h : Runs step s es t) (hI : I s y) (ht : F t) :
    ∃ es' y', Runs step' y es' y' ∧ I t y' := by
  induction h with
  | nil => exact ⟨[], y, .nil, hI⟩
  | @snoc es t u e _ he ih =>
    obtain ⟨es₁, y₁, h₁, hI₁⟩ := ih (hF t e u he ht)
    obtain ⟨es₂, y₂, h₂, hI₂⟩ := hstep t e u y₁ ht hI₁ he
    exact ⟨es₁ ++ es₂, y₂, h₁.append h₂, hI₂⟩

end

end Lib
