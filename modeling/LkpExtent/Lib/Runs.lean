/-
  Runs of a state machine given by a partial step function.

  A machine is a function `step : σ → ε → Option σ`: the event `e` can happen in
  state `s` iff `step s e` is defined.  Whatever the environment decides is part
  of the event, so a run is a list of events.

  * `Runs step s es t`: the events `es` lead from `s` to `t`;
  * `EachStep step s es P`: every step of the run of `es` from `s` satisfies `P`,
    a property of the state before the step and of the event;
  * `Runs.inv`: what every step meeting `P` preserves holds at the end of a run
    all of whose steps meet `P`;
  * `Runs.eachStep_iff`, `Runs.eachState_iff`: a property of the steps, or of the
    states, that agrees with another property of the steps wherever an invariant
    holds, the invariant lasting while they do, agrees with it on whole runs;
  * `exists_run_of_measure`: steps that make a measure smaller lead to the end;
  * `outputs f`: what the steps of a run put out, in order;
  * `runEvents`, `checkSteps`: a run and a property of its steps, computed.
-/
import Mathlib.Data.List.Induction

namespace Lib

universe u v
variable {σ : Type u} {ε : Type v}

/-- The events `es` lead from `s` to `t`. -/
inductive Runs (step : σ → ε → Option σ) (s : σ) : List ε → σ → Prop
  | nil : Runs step s [] s
  | snoc {es : List ε} {t u : σ} {e : ε} :
      Runs step s es t → step t e = some u → Runs step s (es ++ [e]) u

/-- `P` holds of every step of the run of `es` from `s`. -/
def EachStep (step : σ → ε → Option σ) (s : σ) (es : List ε) (P : σ → ε → Prop) : Prop :=
  ∀ es₁ e es₂ t, es = es₁ ++ e :: es₂ → Runs step s es₁ t → P t e

/-- `P` holds of every state of the run of `es` from `s`, the first and the last included. -/
def EachState (step : σ → ε → Option σ) (s : σ) (es : List ε) (P : σ → Prop) : Prop :=
  ∀ es₁ es₂ t, es = es₁ ++ es₂ → Runs step s es₁ t → P t

/-- The run of `es` from `s`, computed. -/
def runEvents (step : σ → ε → Option σ) (s : σ) : List ε → Option σ
  | [] => some s
  | e :: es => (step s e).bind fun t => runEvents step t es

variable {step : σ → ε → Option σ} {s t u : σ} {es es' : List ε} {e : ε} {P Q : σ → ε → Prop}

namespace Runs

theorem nil_inv (h : Runs step s [] t) : t = s := by
  generalize hl : ([] : List ε) = l at h
  cases h with
  | nil => rfl
  | snoc => simp at hl

theorem snoc_inv (h : Runs step s (es ++ [e]) u) : ∃ t, Runs step s es t ∧ step t e = some u := by
  generalize hl : es ++ [e] = l at h
  cases h with
  | nil => simp at hl
  | snoc h he =>
    obtain ⟨rfl, hee⟩ := List.append_inj' hl rfl
    cases hee
    exact ⟨_, h, he⟩

theorem single (h : step s e = some t) : Runs step s [e] t := Runs.snoc .nil h

theorem append (h : Runs step s es t) (h' : Runs step t es' u) : Runs step s (es ++ es') u := by
  induction h' with
  | nil => simpa using h
  | snoc _ he ih => rw [← List.append_assoc]; exact .snoc ih he

theorem split {es₁ es₂ : List ε} (h : Runs step s (es₁ ++ es₂) u) :
    ∃ t, Runs step s es₁ t ∧ Runs step t es₂ u := by
  induction es₂ using List.reverseRecOn generalizing u with
  | nil => rw [List.append_nil] at h; exact ⟨u, h, .nil⟩
  | append_singleton es₂ e ih =>
    rw [← List.append_assoc] at h
    obtain ⟨v, hv, he⟩ := snoc_inv h
    obtain ⟨t, h₁, h₂⟩ := ih hv
    exact ⟨t, h₁, .snoc h₂ he⟩

theorem cons_inv (h : Runs step s (e :: es) u) : ∃ t, step s e = some t ∧ Runs step t es u := by
  obtain ⟨t, h₁, h₂⟩ := split (show Runs step s ([e] ++ es) u from h)
  obtain ⟨v, hv, he⟩ := snoc_inv (show Runs step s ([] ++ [e]) t from h₁)
  rw [nil_inv hv] at he
  exact ⟨t, he, h₂⟩

/-- A run is determined by its events. -/
theorem det (h : Runs step s es t) (h' : Runs step s es u) : t = u := by
  induction h generalizing u with
  | nil => exact (nil_inv h').symm
  | snoc _ he ih =>
    obtain ⟨v, hv, he'⟩ := snoc_inv h'
    rw [ih hv, he'] at he
    exact (Option.some.inj he).symm

theorem of_runEvents (h : runEvents step s es = some t) : Runs step s es t := by
  induction es generalizing s with
  | nil => cases h; exact .nil
  | cons e es ih =>
    obtain ⟨u, hu, h⟩ := Option.bind_eq_some_iff.1 h
    exact append (single hu) (ih h)

/-- **The invariant rule.**  What every step meeting `P` preserves holds after a
    run whose steps all meet `P`. -/
theorem inv {I : σ → Prop} (h : Runs step s es t) (h₀ : I s)
    (hstep : ∀ u e v, I u → P u e → step u e = some v → I v) (hP : EachStep step s es P) : I t := by
  induction h with
  | nil => exact h₀
  | @snoc es t u e h he ih =>
    have hpre : EachStep step s es P := fun es₁ e' es₂ v hes hv =>
      hP es₁ e' (es₂ ++ [e]) v (by rw [hes]; simp) hv
    exact hstep t e u (ih hpre) (hP es e [] t rfl h) he

/-- The invariant rule without a condition on the steps. -/
theorem inv' {I : σ → Prop} (h : Runs step s es t) (h₀ : I s)
    (hstep : ∀ u e v, I u → step u e = some v → I v) : I t :=
  h.inv (P := fun _ _ => True) h₀ (fun u e v hu _ he => hstep u e v hu he) fun _ _ _ _ _ _ => trivial

end Runs

namespace EachStep

theorem imp (h : EachStep step s es P) (hPQ : ∀ t e, P t e → Q t e) : EachStep step s es Q :=
  fun es₁ e es₂ t hes ht => hPQ t e (h es₁ e es₂ t hes ht)

theorem and (hP : EachStep step s es P) (hQ : EachStep step s es Q) :
    EachStep step s es fun t e => P t e ∧ Q t e :=
  fun es₁ e es₂ t hes ht => ⟨hP es₁ e es₂ t hes ht, hQ es₁ e es₂ t hes ht⟩

theorem prefix_of (h : EachStep step s (es ++ es') P) : EachStep step s es P :=
  fun es₁ e es₂ t hes ht => h es₁ e (es₂ ++ es') t (by rw [hes]; simp) ht

/-- The steps that come after the run of `es`. -/
theorem after (h : EachStep step s (es ++ es') P) (ht : Runs step s es t) : EachStep step t es' P :=
  fun es₁ e es₂ u hes hu => h (es ++ es₁) e es₂ u (by rw [hes, List.append_assoc]) (ht.append hu)

theorem snoc_iff : EachStep step s (es ++ [e]) P ↔
    EachStep step s es P ∧ ∀ t, Runs step s es t → P t e := by
  constructor
  · exact fun h => ⟨h.prefix_of, fun t ht => h es e [] t rfl ht⟩
  · rintro ⟨h, hl⟩ es₁ e' es₂ t hes ht
    induction es₂ using List.reverseRecOn with
    | nil =>
      obtain ⟨rfl, he⟩ := List.append_inj' hes rfl
      cases he; exact hl t ht
    | append_singleton es₂ e₂ _ =>
      rw [← List.cons_append, ← List.append_assoc] at hes
      obtain ⟨hes, -⟩ := List.append_inj' hes rfl
      exact h es₁ e' es₂ t hes ht

/-- Every step starts in a state with the invariant. -/
theorem inv {I : σ → Prop} (hP : EachStep step s es P) (h₀ : I s)
    (hstep : ∀ u e v, I u → P u e → step u e = some v → I v) : EachStep step s es fun u _ => I u := by
  intro es₁ e es₂ u hes hu
  refine hu.inv h₀ hstep fun es₃ e' es₄ v hes₁ hv => hP es₃ e' (es₄ ++ e :: es₂) v ?_ hv
  rw [hes, hes₁, List.append_assoc, List.cons_append]

theorem nil : EachStep step s [] P := fun es₁ e es₂ t hes _ => by simp at hes

end EachStep

namespace EachState
variable {S : σ → Prop}

theorem nil_iff : EachState step s [] S ↔ S s := by
  constructor
  · exact fun h => h [] [] s rfl .nil
  · intro h es₁ es₂ t hes ht
    obtain ⟨rfl, -⟩ := List.append_eq_nil_iff.1 hes.symm
    rwa [Runs.nil_inv ht]

theorem snoc_iff (hu : Runs step s (es ++ [e]) u) :
    EachState step s (es ++ [e]) S ↔ EachState step s es S ∧ S u := by
  constructor
  · exact fun h => ⟨fun es₁ es₂ t hes ht => h es₁ (es₂ ++ [e]) t (by rw [hes]; simp) ht,
      h (es ++ [e]) [] u (by simp) hu⟩
  · rintro ⟨h, hS⟩ es₁ es₂ t hes ht
    rcases List.eq_nil_or_concat es₂ with rfl | ⟨es₂, e₂, rfl⟩
    · rw [List.append_nil] at hes
      subst hes
      rwa [ht.det hu]
    · rw [List.concat_eq_append, ← List.append_assoc] at hes
      exact h es₁ es₂ t (List.append_inj' hes rfl).1 ht

end EachState

/-- What holds of the states holds of the first one and after every step. -/
theorem eachState_iff_eachStep {S : σ → Prop} : EachState step s es S ↔
    S s ∧ EachStep step s es fun t e => ∀ u, step t e = some u → S u := by
  constructor
  · intro h
    refine ⟨h [] es s rfl .nil, ?_⟩
    intro es₁ e es₂ t hes ht u hu
    exact h (es₁ ++ [e]) es₂ u (by rw [hes, List.append_assoc]; rfl) (ht.snoc hu)
  · rintro ⟨hs, h⟩ es₁ es₂ t hes ht
    cases ht with
    | nil => exact hs
    | @snoc es₁ u _ e hu he => exact h es₁ e es₂ u (by rw [hes, List.append_assoc]; rfl) hu t he

/-! ## Progress -/

theorem EachState.cons {S : σ → Prop} (hs : S s) (he : step s e = some t) (h : EachState step t es S) :
    EachState step s (e :: es) S := by
  intro es₁ es₂ u hes hu
  cases es₁ with
  | nil => rwa [hu.nil_inv]
  | cons e' es₁ =>
    obtain ⟨rfl, hrest⟩ := List.cons.inj hes
    obtain ⟨v, hv, hu⟩ := hu.cons_inv
    obtain rfl := Option.some.inj (he.symm.trans hv)
    exact h es₁ es₂ u hrest hu

/-- **The progress rule.**  If in every state with the invariant that is not done some step meeting
    `A` keeps the invariant and makes `μ` smaller, then a run of such steps leads to one that is. -/
theorem exists_run_of_measure {I D : σ → Prop} {A : ε → Prop} (μ : σ → ℕ)
    (hstep : ∀ u, I u → ¬ D u → ∃ e v, step u e = some v ∧ A e ∧ I v ∧ μ v < μ u) (hs : I s) :
    ∃ es t, Runs step s es t ∧ (∀ e ∈ es, A e) ∧ EachState step s es I ∧ D t := by
  induction hn : μ s using Nat.strongRecOn generalizing s with
  | ind n ih =>
    by_cases hD : D s
    · exact ⟨[], s, .nil, nofun, EachState.nil_iff.2 hs, hD⟩
    · obtain ⟨e, u, he, hA, hu, hlt⟩ := hstep s hs hD
      obtain ⟨es, t, hrun, hall, hstate, ht⟩ := ih (μ u) (hn ▸ hlt) hu rfl
      exact ⟨e :: es, t, (Runs.single he).append hrun, List.forall_mem_cons.2 ⟨hA, hall⟩, hstate.cons hs he, ht⟩

/-! ## Properties that agree under an invariant -/

section
variable {I S : σ → Prop} {H : σ → ε → Prop}

/-- **Two properties of steps that agree under an invariant agree on runs.**  The
    invariant has to last while the first one does. -/
theorem Runs.eachStep_iff (h : Runs step s es t) (h₀ : I s) (hH : EachStep step s es H)
    (hstep : ∀ u e v, I u → H u e → P u e → step u e = some v → I v)
    (hiff : ∀ u e v, I u → H u e → step u e = some v → (P u e ↔ Q u e)) :
    EachStep step s es P ↔ EachStep step s es Q := by
  induction h with
  | nil => exact ⟨fun _ => .nil, fun _ => .nil⟩
  | @snoc es t u e h he ih =>
    have hH' := hH.prefix_of
    have hI : EachStep step s es P → I t := fun hP => h.inv h₀
      (P := fun u e => H u e ∧ P u e) (fun u e v hu hPe hv => hstep u e v hu hPe.1 hPe.2 hv) (hH'.and hP)
    have hlast : EachStep step s es P → (P t e ↔ Q t e) := fun hP =>
      hiff t e u (hI hP) (hH es e [] t rfl h) he
    rw [EachStep.snoc_iff, EachStep.snoc_iff]
    constructor
    · rintro ⟨hP, hl⟩
      exact ⟨(ih hH').1 hP, fun v hv => by rw [hv.det h]; exact (hlast hP).1 (hl t h)⟩
    · rintro ⟨hQ, hl⟩
      have hP := (ih hH').2 hQ
      exact ⟨hP, fun v hv => by rw [hv.det h]; exact (hlast hP).2 (hl t h)⟩

/-- **A property of states and one of steps.**  `S` holds in every state of a run iff
    `Q` holds of every step: while `Q` holds an invariant lasts that gives `S`, and
    a state after a step without `Q` is without `S`. -/
theorem Runs.eachState_iff (h : Runs step s es t) (h₀ : I s) (hH : EachStep step s es H)
    (hS : ∀ u, I u → S u) (hstep : ∀ u e v, I u → H u e → Q u e → step u e = some v → I v)
    (hback : ∀ u e v, I u → H u e → step u e = some v → S v → Q u e) :
    EachState step s es S ↔ EachStep step s es Q := by
  induction h with
  | nil => exact ⟨fun _ => .nil, fun _ => EachState.nil_iff.2 (hS s h₀)⟩
  | @snoc es t u e h he ih =>
    have hH' := hH.prefix_of
    have hHt := hH es e [] t rfl h
    have hI : EachStep step s es Q → I t := fun hQ => h.inv h₀
      (P := fun u e => H u e ∧ Q u e) (fun u e v hu hQe hv => hstep u e v hu hQe.1 hQe.2 hv) (hH'.and hQ)
    rw [EachState.snoc_iff (h.snoc he), EachStep.snoc_iff]
    constructor
    · rintro ⟨hSs, hSu⟩
      have hQ := (ih hH').1 hSs
      exact ⟨hQ, fun v hv => by rw [hv.det h]; exact hback t e u (hI hQ) hHt he hSu⟩
    · rintro ⟨hQ, hl⟩
      exact ⟨(ih hH').2 hQ, hS u (hstep t e u (hI hQ) hHt (hl t h) he)⟩

end

/-! ## Outputs -/

section
universe w
variable {β : Type w}

/-- The outputs of the steps of the run of `es` from `s`; a step puts out a list. -/
def outputs (step : σ → ε → Option σ) (f : σ → ε → List β) (s : σ) : List ε → List β
  | [] => []
  | e :: es => f s e ++ (step s e).elim [] fun t => outputs step f t es

theorem outputs_snoc {f : σ → ε → List β} (h : Runs step s es t) (e : ε) :
    outputs step f s (es ++ [e]) = outputs step f s es ++ f t e := by
  induction es generalizing s with
  | nil =>
    rw [Runs.nil_inv h]
    rcases hs : step s e with - | u <;> simp [outputs, hs]
  | cons e₁ es ih =>
    obtain ⟨u, hu, hrest⟩ := h.cons_inv
    simp only [List.cons_append, outputs, hu, Option.elim_some, ih hrest, List.append_assoc]

end

/-! ## Computed runs -/

/-- A property of the steps of the run of `es` from `s`, computed. -/
def checkSteps (step : σ → ε → Option σ) (P : σ → ε → Prop) [∀ s e, Decidable (P s e)] (s : σ) :
    List ε → Bool
  | [] => true
  | e :: es => P s e && ((step s e).all fun t => checkSteps step P t es)

/-- A property of the states of the run of `es` from `s`, computed. -/
def checkStates (step : σ → ε → Option σ) (S : σ → Prop) [DecidablePred S] (s : σ) : List ε → Bool
  | [] => S s
  | e :: es => S s && ((step s e).all fun t => checkStates step S t es)

theorem Runs.exists_of_run {S : σ → Prop} [DecidablePred S]
    (h : (runEvents step s es).any (fun t => S t) = true) : ∃ t, Runs step s es t ∧ S t := by
  obtain ⟨t, ht, hS⟩ := (Option.any_eq_true _ _).1 h
  exact ⟨t, .of_runEvents ht, of_decide_eq_true hS⟩

theorem EachStep.of_checkSteps [∀ s e, Decidable (P s e)] (h : checkSteps step P s es = true) :
    EachStep step s es P := by
  induction es generalizing s with
  | nil => exact .nil
  | cons e es ih =>
    obtain ⟨hp, hrest⟩ := (Bool.and_eq_true _ _).mp h
    intro es₁ e' es₂ t hes ht
    cases es₁ with
    | nil =>
      obtain ⟨rfl, -⟩ := List.cons.inj hes
      rw [Runs.nil_inv ht]
      exact of_decide_eq_true hp
    | cons e₁ es₁ =>
      obtain ⟨rfl, rfl⟩ := List.cons.inj hes
      obtain ⟨u, hu, ht⟩ := ht.cons_inv
      rw [hu, Option.all_some] at hrest
      exact ih hrest es₁ e' es₂ t rfl ht

theorem EachState.of_checkStates {S : σ → Prop} [DecidablePred S] (h : checkStates step S s es = true) :
    EachState step s es S := by
  induction es generalizing s with
  | nil => exact EachState.nil_iff.2 (of_decide_eq_true h)
  | cons e es ih =>
    obtain ⟨hS, hrest⟩ := (Bool.and_eq_true _ _).mp h
    intro es₁ es₂ t hes ht
    cases es₁ with
    | nil =>
      rw [Runs.nil_inv ht]
      exact of_decide_eq_true hS
    | cons e₁ es₁ =>
      obtain ⟨rfl, rfl⟩ := List.cons.inj hes
      obtain ⟨u, hu, ht⟩ := ht.cons_inv
      rw [hu, Option.all_some] at hrest
      exact ih hrest es₁ es₂ t rfl ht

end Lib
