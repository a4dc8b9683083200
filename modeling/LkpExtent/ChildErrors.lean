/-
  LkpExtent formalization — a `fork` that fails, and a `waitpid` that reaps nothing.

  * `forkFailure_iff`: an UPDATE or RUN whose `fork` fails always leaves `childNum` one
    too high, so that a run is free of this iff no `fork` fails in it;
  * `refused_of_forkFailure`: with no child, every later UPDATE and RUN is refused until a
    test case comes to its end;
  * `returns_iff`: at every moment the loop of `handleChildExit` is at most one call of
    `waitpid` more than there were exited children from its end, iff no child runs or is
    stopped when it starts, and none is forked, by the main thread, while it runs;
  * `spins`: while one does the loop calls `waitpid` for ever.
-/
import LkpExtent.ChildProcess

namespace LkpExtent

open Lib

namespace LkpClient
variable {c d : LkpClient} {es : List ClientEvent}

/-! ## A fork that fails -/

/-- The answer to a command whose fork fails. -/
def forkError (message : Command) : Message :=
  .commandACK {
    command := message.command, nodeId := message.nodeId, status := false
    ackMessage := "ERROR 11: Fork Error!" }

/-- If the fork fails the command is answered with status false, `childNum` is as before,
    and the next UPDATE or RUN is not refused. -/
def ForkFailureClean (c : LkpClient) (e : ClientEvent) : Prop :=
  ∀ m env d, e = .message (.command m) env → c.forksFor m = true → env.forks = false → c.step e = some d →
    (c.conn.connected = true → d.sent = c.sent ++ [forkError m]) ∧ d.childNum = c.childNum ∧
      ∀ next : Command, next.command = .UPDATE ∨ next.command = .RUN → d.forksFor next = true

/-- If the client forks, the fork succeeds. -/
def NoForkFails (c : LkpClient) : ClientEvent → Prop
  | .message (.command m) env => c.forksFor m = true → env.forks = true
  | _ => True

instance (c : LkpClient) (e : ClientEvent) : Decidable (NoForkFails c e) :=
  match e with
  | .message (.command _) _ => inferInstanceAs (Decidable (_ → _))
  | .message (.commandACK _) _ => isTrue trivial
  | .message (.heartBeat _) _ => isTrue trivial
  | .message (.file _) _ => isTrue trivial
  | .message (.pushACK _) _ => isTrue trivial
  | .message (.ret _) _ => isTrue trivial
  | .up => isTrue trivial
  | .down => isTrue trivial
  | .written => isTrue trivial
  | .writeComplete _ => isTrue trivial
  | .timer => isTrue trivial
  | .childExit => isTrue trivial

/-- **A fork that fails is answered, and counted as a child.** -/
theorem step_forkFails {m : Command} {env : ClientEnv} (hf : c.forksFor m = true) (henv : env.forks = false)
    (hs : c.step (.message (.command m) env) = some d) :
    (c.conn.connected = true → d.sent = c.sent ++ [forkError m]) ∧ d.childNum = c.childNum + 1 := by
  have h : c.onCommandMsg m env = .ok d := (step_eq_some.1 hs).2
  rw [onCommandMsg_forks hf] at h
  refine ⟨?_, (ClientProcess.childNum_forkChild h :)⟩
  intro hup
  simp only [forkChild, henv, Bool.false_eq_true, if_false, sendToServer, if_pos hup] at h
  split_ifs at h
  cases h; rfl

/-- **A failing fork leaves the client unusable**: a run from any state keeps clear of it
    iff no fork fails. -/
theorem forkFailure_iff (h : Runs step c es d) :
    EachStep step c es ForkFailureClean ↔ EachStep step c es NoForkFails := by
  refine h.eachStep_iff (I := fun _ => True) (H := fun _ _ => True) trivial (fun _ _ _ _ _ _ => trivial)
    (fun _ _ _ _ _ _ _ => trivial) ?_
  rintro u e v - - hs
  constructor
  · intro hclean
    cases e with
    | message m env =>
      cases m with
      | command m =>
        intro hf
        by_contra henv
        have henv : env.forks = false := by simpa using henv
        have hsame := (hclean m env v rfl hf henv hs).2.1
        have hmore := (step_forkFails hf henv hs).2
        omega
      | _ => trivial
    | _ => trivial
  · rintro hno m env d rfl hf henv -
    have hforks : env.forks = true := hno hf
    rw [henv] at hforks
    cases hforks

/-- An UPDATE, its end, and a RUN. -/
def twoForks : List ClientEvent :=
  [.message (.command { command := .UPDATE }) {}, .childExit, .message (.command { command := .RUN }) {}]

theorem forkFailure_twoForks : EachStep step (.joined []) twoForks ForkFailureClean := by
  obtain ⟨d, hd, -⟩ : ∃ d, Runs step (.joined []) twoForks d ∧ d.childNum = 1 :=
    Runs.exists_of_run (by decide +kernel)
  exact (forkFailure_iff hd).2 (.of_checkSteps (by decide +kernel))

/-- The fork of an UPDATE fails, and with no child the client would refuse a RUN. -/
theorem forkFailure_update : ¬ ∀ (c : LkpClient) (es : List ClientEvent) (d : LkpClient),
    (∀ e ∈ es, ∃ m env, e = .message (.command m) env ∧ (m.command = .UPDATE ∨ m.command = .RUN)) →
    Runs step c es d → EachStep step c es ForkFailureClean := by
  intro h
  let update : ClientEvent := .message (.command { command := .UPDATE }) { forks := false }
  obtain ⟨d, hd, hbusy⟩ : ∃ d, Runs step (.joined []) [update] d ∧
      d.forksFor { command := .RUN } = false :=
    Runs.exists_of_run (by decide +kernel)
  have hcommands : ∀ e ∈ [update], ∃ m env,
      e = .message (.command m) env ∧ (m.command = .UPDATE ∨ m.command = .RUN) := by
    rintro e he
    rw [List.mem_singleton] at he
    exact ⟨_, _, he, .inl rfl⟩
  obtain ⟨u, hs, hu⟩ := hd.cons_inv
  rw [← Runs.nil_inv hu] at hs
  have hclean := h _ _ d hcommands hd [] update [] _ rfl .nil
  have hfree := (hclean _ _ d rfl rfl rfl hs).2.2 { command := .RUN } (.inr rfl)
  rw [hbusy] at hfree
  cases hfree

end LkpClient

namespace ClientProcess
variable {x y z : ClientProcess}

/-- With no child a failing fork leaves the process stuck. -/
theorem stuck_of_forkFailure {m : Command} {env : ClientEnv} (hrun : x.running = 0) (hpend : x.pending = false)
    (hf : x.client.forksFor m = true) (henv : env.forks = false) (hs : x.step (.command m env) = some y)
    (hcount : y.step .count = some z) : Stuck z := by
  simp only [step, hf, if_true] at hs
  split_ifs at hs with hidle
  cases hs
  have hcopy : x.copy = none := idle_copy ((Bool.and_eq_true _ _).mp hidle).1
  simp only [step, fork, henv, Bool.false_eq_true, if_false] at hcount
  split_ifs at hcount
  obtain ⟨client, hclient, rfl⟩ := Option.map_eq_some_iff.1 hcount
  have hnum := childNum_forkChild (toOption_eq_some.1 hclient)
  exact ⟨hnum ▸ Nat.succ_pos _, rfl, hrun, hcopy, hpend⟩

/-- **With no child, every UPDATE and RUN after a failing fork is refused**, as long as no
    test case comes to its end. -/
theorem refused_of_forkFailure {m next : Command} {env env' : ClientEnv} {es : List ProcessEvent}
    {u v : ClientProcess} (hrun : x.running = 0) (hpend : x.pending = false)
    (hf : x.client.forksFor m = true) (henv : env.forks = false) (hs : x.step (.command m env) = some y)
    (hcount : y.step .count = some z) (hafter : Runs step z es u) (hno : ∀ e ∈ es, NoCopy e)
    (hnext : next.command = .UPDATE ∨ next.command = .RUN) (hlast : u.step (.command next env') = some v) :
    u.client.sendToServer (u.client.stillRunning next) = .ok v.client :=
  (refused_of_stuck (stuck_of_forkFailure hrun hpend hf henv hs hcount) hafter hno hnext hlast).2

/-! ## The loop of `handleChildExit` -/

/-- A call of `waitpid` in the loop on the thread. -/
def isWaitpid (t : Thread) : ProcessEvent → Bool
  | .waitpid t' _ => t' = t
  | _ => false

/-- The event forks a child, for a command or in `system`. -/
def forksIn (x : ClientProcess) : ProcessEvent → Bool
  | .command m env => x.client.forksFor m && env.forks
  | .plain e => (x.copyAfter e).isSome
  | _ => false

/-- A step of the process, with the calls that the loop on the thread has made. -/
def loopStep (t : Thread) (x : ClientProcess × ℕ) (e : ProcessEvent) : Option (ClientProcess × ℕ) :=
  (x.1.step e).map fun y => (y, x.2 + if isWaitpid t e then 1 else 0)

/-- If nothing else happens the loop calls `waitpid` at most `n` times in all, and is left
    after the last of these calls. -/
def EndsWithin (t : Thread) (n : ℕ) (x : ClientProcess × ℕ) : Prop :=
  ∀ es y, Runs (loopStep t) x es y → (∀ e ∈ es, isWaitpid t e = true) →
    y.2 ≤ n ∧ (y.2 = n → y.1.handling t = false)

/-- While the loop runs no child is forked. -/
def NoFork (t : Thread) (x : ClientProcess × ℕ) (e : ProcessEvent) : Prop :=
  x.1.handling t = true → x.1.forksIn e = false

instance (t : Thread) (x : ClientProcess × ℕ) (e : ProcessEvent) : Decidable (NoFork t x e) :=
  inferInstanceAs (Decidable (_ → _))

variable {t : Thread} {e : ProcessEvent} {n : ℕ}

/-- While the handler runs it can always call `waitpid`, which is all that ends it. -/
theorem exists_waitpid (h : x.handling t = true) : ∃ copy y, x.step (.waitpid t copy) = some y := by
  by_cases hz : 0 < x.zombies
  · by_cases hcopy : x.copy = some .exited
    · exact ⟨true, _, by simp [step, h, waited, hz, reap, hcopy]; rfl⟩
    · have hexited : 0 < x.exited := by simpa [zombies, hcopy] using hz
      exact ⟨false, _, by simp [step, h, waited, hz, reap, hexited]; rfl⟩
  · by_cases ha : 0 < x.alive
    · exact ⟨false, x, by simp [step, h, waited, hz, ha]⟩
    · exact ⟨false, _, by simp [step, h, waited, hz, ha]; rfl⟩

/-- Only its start and its calls of `waitpid` concern the handler on a thread. -/
theorem handling_step (hsig : e ≠ .signal t) (hwait : isWaitpid t e = false) (hs : x.step e = some y) :
    y.handling t = x.handling t := by
  cases step_moves hs with
  | @signal t' hpend =>
    have hne : t ≠ t' := fun h => hsig (by rw [h])
    exact Function.update_of_ne hne _ _
  | reap _ hreap => rw [(reap_eq hreap).1]
  | @leave t' _ _ _ _ =>
    have hne : t ≠ t' := fun h => by simp [isWaitpid, h] at hwait
    exact Function.update_of_ne hne _ _
  | _ => rfl

/-- A child that is forked runs, and the handlers go on. -/
theorem alive_of_forksIn (hf : x.forksIn e = true) (hs : x.step e = some y) :
    0 < y.alive ∧ y.handling = x.handling := by
  cases step_moves hs with
  | fork _ hforks =>
    simp only [forksIn, hforks, Bool.true_and] at hf
    exact ⟨by simp [alive, fork, hf], rfl⟩
  | command _ hno _ =>
    rw [forksIn, hno] at hf
    cases hf
  | plain _ _ _ =>
    simp only [forksIn, copyAfter] at hf
    split_ifs at hf with hcopy
    · exact ⟨by simp [alive, copyAfter, hcopy], rfl⟩
    · cases hf
  | _ => cases hf

/-- With no child running, and none forked, there are no more that have exited. -/
theorem children_step (halive : x.alive = 0) (hf : x.forksIn e = false) (hs : x.step e = some y) :
    y.alive = 0 ∧ y.zombies ≤ x.zombies := by
  cases step_moves hs with
  | @fork m env _ hforks =>
    have henv : env.forks = false := by simpa [forksIn, hforks] using hf
    have hrun : (x.fork m env).running = x.running := if_neg (by rw [henv]; exact Bool.false_ne_true)
    exact ⟨(congrArg (· + _) hrun).trans halive, le_rfl⟩
  | @plain e _ hidle _ _ =>
    have hnone : x.copyAfter e = none := by simpa [forksIn] using hf
    simp only [alive, zombies, hnone, idle_copy hidle] at halive ⊢
    exact ⟨halive, le_rfl⟩
  | exit hrun =>
    rw [alive] at halive
    omega
  | copyExit hcopy => simp [alive, hcopy] at halive
  | systemReturns _ =>
    simp only [alive, zombies] at halive ⊢
    simp
    omega
  | reap _ hreap =>
    obtain ⟨-, hz, ha⟩ := reap_eq hreap
    exact ⟨ha.trans halive, by omega⟩
  | _ => exact ⟨halive, le_rfl⟩

/-- What is left of the loop while no child runs, out of `n + 1` calls. -/
inductive Reaping (t : Thread) (n : ℕ) (x : ClientProcess × ℕ) : Prop
  | loop (hhandling : x.1.handling t = true) (halive : x.1.alive = 0) (hcalls : x.2 + x.1.zombies ≤ n) :
      Reaping t n x
  | done (hhandling : x.1.handling t = false) (hcalls : x.2 ≤ n + 1) : Reaping t n x

theorem Reaping.step {x y : ClientProcess × ℕ} (h : Reaping t n x) (hsig : e ≠ .signal t) (hQ : NoFork t x e)
    (hs : loopStep t x e = some y) : Reaping t n y := by
  obtain ⟨z, hz, rfl⟩ := Option.map_eq_some_iff.1 hs
  cases hwait : isWaitpid t e with
  | false =>
    have hsame := handling_step hsig hwait hz
    cases h with
    | loop hhandling halive hcalls =>
      obtain ⟨halive', hzombies⟩ := children_step halive (hQ hhandling) hz
      exact .loop (hsame.trans hhandling) halive' (by simp only [Bool.false_eq_true, if_false]; omega)
    | done hhandling hcalls => exact .done (hsame.trans hhandling) hcalls
  | true =>
    cases e with
    | waitpid t' copy =>
      obtain rfl : t' = t := of_decide_eq_true hwait
      have hwaits : x.1.handling t' = true := (Option.ite_none_right_eq_some.1 hz).1
      cases h with
      | loop hhandling halive hcalls =>
        cases step_moves hz with
        | reap _ hreap =>
          obtain ⟨heq, hzombies, ha⟩ := reap_eq hreap
          have hsame : z.handling t' = true := by rw [heq]; exact hhandling
          exact .loop hsame (ha.trans halive) (by simp only [if_true]; omega)
        | spin _ hpos => omega
        | leave _ hnone _ => exact .done (Function.update_self ..) (by simp only [if_true]; omega)
      | done hhandling hcalls =>
        rw [hwaits] at hhandling
        cases hhandling
    | _ => cases hwait

/-- **With no child running, the loop comes to its end.** -/
theorem Reaping.endsWithin {x : ClientProcess × ℕ} (h : Reaping t n x) : EndsWithin t (n + 1) x := by
  intro es y hrun hall
  have hy : Reaping t n y := hrun.inv (P := fun _ e => isWaitpid t e = true) h
    (fun u e v hu he hv => hu.step (fun h => by rw [h] at he; cases he)
      (fun _ => by
        cases e with
        | waitpid t' copy => rfl
        | _ => cases he) hv)
    fun es₁ e es₂ u hes _ => hall e (by rw [hes]; simp)
  cases hy with
  | loop _ _ hcalls => exact ⟨by omega, by omega⟩
  | done hhandling hcalls => exact ⟨hcalls, fun _ => hhandling⟩

/-- **While a child runs or is stopped the loop calls `waitpid` for ever.** -/
theorem spins {x : ClientProcess × ℕ} (h : x.1.handling t = true) (halive : 0 < x.1.alive) (n : ℕ) :
    ∃ es y, Runs (loopStep t) x es y ∧ (∀ e ∈ es, isWaitpid t e = true) ∧ y.2 = x.2 + n ∧
      y.1.handling t = true ∧ 0 < y.1.alive := by
  induction n with
  | zero => exact ⟨[], x, .nil, nofun, rfl, h, halive⟩
  | succ n ih =>
    obtain ⟨es, y, hy, hall, hcalls, hhandling, hrun⟩ := ih
    obtain ⟨copy, z, hz⟩ := exists_waitpid hhandling
    have hwait : isWaitpid t (.waitpid t copy) = true := decide_eq_true rfl
    have hnext : z.handling t = true ∧ 0 < z.alive := by
      cases step_moves hz with
      | reap _ hreap =>
        obtain ⟨heq, -, ha⟩ := reap_eq hreap
        exact ⟨by rw [heq]; exact hhandling, by omega⟩
      | spin _ _ => exact ⟨hhandling, hrun⟩
      | leave _ _ hno => omega
    refine ⟨es ++ [.waitpid t copy], (z, y.2 + 1), hy.snoc ?_, ?_, ?_, hnext⟩
    · rw [loopStep, hz, hwait]; rfl
    · rintro e he
      rcases List.mem_append.1 he with he | he
      · exact hall e he
      · rw [List.mem_singleton.1 he, hwait]
    · show y.2 + 1 = _
      omega

/-- The loop ends only if no child runs or is stopped. -/
theorem alive_of_endsWithin {x : ClientProcess × ℕ} (h : EndsWithin t n x) (hhandling : x.1.handling t = true) :
    x.1.alive = 0 := by
  by_contra halive
  -- one call more than allowed
  obtain ⟨es, y, hy, hall, hcalls, -, -⟩ := spins hhandling (Nat.pos_of_ne_zero halive) (n + 1)
  have := (h es y hy hall).1
  omega

theorem signal_started (hs : x.step (.signal t) = some y) :
    y.handling t = true ∧ y.alive = x.alive ∧ y.zombies = x.zombies := by
  simp only [step] at hs
  split_ifs at hs
  cases hs
  exact ⟨Function.update_self .., rfl, rfl⟩

/-- **The signal handler returns**: in a run up to its next start it is at any moment within one
    call more than there were exited children iff no child runs or is stopped when it
    starts, and none is forked while it runs. -/
theorem returns_iff (hs : x.step (.signal t) = some y) {es : List ProcessEvent} {z : ClientProcess × ℕ}
    (h : Runs (loopStep t) (y, 0) es z) (honce : ∀ e ∈ es, e ≠ .signal t) :
    EachState (loopStep t) (y, 0) es (EndsWithin t (x.zombies + 1)) ↔
      x.alive = 0 ∧ EachStep (loopStep t) (y, 0) es (NoFork t) := by
  obtain ⟨hhandling, halive, hzombies⟩ := signal_started hs
  have hsig : EachStep (loopStep t) (y, 0) es fun _ e => e ≠ .signal t :=
    fun es₁ e es₂ u hes _ => honce e (by rw [hes]; simp)
  have hiff : x.alive = 0 → (EachState (loopStep t) (y, 0) es (EndsWithin t (x.zombies + 1)) ↔
      EachStep (loopStep t) (y, 0) es (NoFork t)) := by
    intro hnone
    refine h.eachState_iff (I := Reaping t x.zombies) (.loop hhandling (halive.trans hnone) ?_) hsig
      (fun u hu => hu.endsWithin) (fun u e v hu he hQ hv => hu.step he hQ hv) ?_
    · show 0 + y.zombies ≤ x.zombies
      omega
    · intro u e v _ _ hv hends hu
      by_contra hforks
      obtain ⟨w, hw, rfl⟩ := Option.map_eq_some_iff.1 hv
      obtain ⟨hpos, hsame⟩ := alive_of_forksIn (by simpa using hforks) hw
      have := alive_of_endsWithin hends (show w.handling t = true by rw [hsame]; exact hu)
      have : w.alive = 0 := this
      omega
  constructor
  · intro hends
    have hnone : x.alive = 0 := halive.symm.trans (alive_of_endsWithin (hends [] es (y, 0) rfl .nil) hhandling)
    exact ⟨hnone, (hiff hnone).1 hends⟩
  · rintro ⟨hnone, hQ⟩
    exact (hiff hnone).2 hQ

/-- A child is forked and counted. -/
def oneChild : List ProcessEvent := [.command { command := .UPDATE } {}, .count]

/-- After its end the handler returns in the thread of the log, while the main one goes on. -/
theorem returns_oneChild : ∃ x y z, Runs step (start (.joined [])) (oneChild ++ [.exit]) x ∧
    x.step (.signal .log) = some y ∧ x.zombies = 1 ∧
    Runs (loopStep .log) (y, 0) [.waitpid .log false, .plain .timer, .waitpid .log false] z ∧
    z.1.handling .log = false ∧
    EachState (loopStep .log) (y, 0) [.waitpid .log false, .plain .timer, .waitpid .log false]
      (EndsWithin .log 2) := by
  obtain ⟨x, hx, halive, hzombies, y, hy, hQ, z, hz, hdone⟩ :
      ∃ x, Runs step (start (.joined [])) (oneChild ++ [.exit]) x ∧ x.alive = 0 ∧ x.zombies = 1 ∧
        ∃ y ∈ x.step (.signal .log),
          checkSteps (loopStep .log) (NoFork .log) (y, 0) [.waitpid .log false, .plain .timer, .waitpid .log false] = true ∧
          ∃ z ∈ runEvents (loopStep .log) (y, 0) [.waitpid .log false, .plain .timer, .waitpid .log false],
            z.1.handling .log = false :=
    Runs.exists_of_run (by decide +kernel)
  have hends := (returns_iff hy (.of_runEvents hz) (by simp)).2 ⟨halive, .of_checkSteps hQ⟩
  rw [hzombies] at hends
  exact ⟨x, y, z, hx, hy, hzombies, .of_runEvents hz, hdone, hends⟩

/-- When it stops the handler does not return. -/
theorem returns_stopped : ¬ ∀ (c : LkpClient) (es : List ProcessEvent) (t : Thread) (x y : ClientProcess),
    c.childNum = 0 → Runs step (start c) es x → x.step (.signal t) = some y →
    EndsWithin t (x.zombies + 1) (y, 0) := by
  intro h
  obtain ⟨x, hx, y, hy, halive, hhandling⟩ :
      ∃ x, Runs step (start (.joined [])) (oneChild ++ [.stop]) x ∧
        ∃ y ∈ x.step (.signal .main), 0 < y.alive ∧ y.handling .main = true :=
    Runs.exists_of_run (by decide +kernel)
  have := alive_of_endsWithin (h (.joined []) _ .main x y rfl hx hy) hhandling
  have : y.alive = 0 := this
  omega

end ClientProcess

end LkpExtent
