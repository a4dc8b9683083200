/-
  LkpExtent formalization — the client and its child processes.

  The process has two threads, the main one and that of the log, and SIGCHLD is blocked in
  neither of them, but in the main one while it is in `system`.  It comes when a child
  ends, stops or continues, be it one that a command has forked or that of `system`, and
  `handleChildExit` of `lkp_extent.cc` runs in either thread between any two steps of the
  other one.  Here the handler of an UPDATE or RUN is cut where `fork` returns in the
  parent, before `childNum++`, and the signal handler into its calls of `waitpid`.

  * `forkStep_count`: without a signal between them the two parts are `onCommandMsg`;
  * `tracked_iff`: `childNum` is the number of the children of commands that run, and commands
    are refused because of them only, iff whenever a signal handler starts, no counted child
    runs, and one that is about to be counted does;
  * `refused_of_stuck`: a counter that is too high stays so until a SIGCHLD of `system` comes.
-/
import LkpExtent.Lib.Runs
import LkpExtent.ClientSteps

namespace LkpExtent

open Lib

namespace LkpClient
variable {c d : LkpClient}

/-- The command makes the client fork. -/
def forksFor (c : LkpClient) (message : Command) : Bool :=
  c.childNum < 1 && (message.command = .UPDATE || message.command = .RUN)

/-- The answer to a command that comes too early. -/
def stillRunning (c : LkpClient) (message : Command) : Message :=
  .commandACK {
    command := message.command, nodeId := message.nodeId, status := false
    ackMessage := "ERROR 10: Command " ++ c.lastCmdString ++ " is still running!" }

/-- The handler of a command for which the client forks. -/
theorem onCommandMsg_forks {m : Command} {env : ClientEnv} (hf : c.forksFor m = true) :
    c.onCommandMsg m env =
      { c with lastCmdString := lkpEnumToCmds m.command c.lastCmdString }.forkChild
        { command := m.command, nodeId := m.nodeId } env := by
  simp only [forksFor, Bool.and_eq_true, Bool.or_eq_true, decide_eq_true_eq] at hf
  obtain ⟨hfree, hm⟩ := hf
  have hnot : ¬ c.childNum ≥ 1 := by omega
  rcases hm with hm | hm
  · simp only [onCommandMsg, if_neg hnot, hm]
  · simp only [onCommandMsg, if_neg hnot, hm]

/-! ## What leaves `childNum` unchanged -/

theorem childNum_sendToServer {message : Message} (h : c.sendToServer message = .ok d) :
    d.childNum = c.childNum := by
  simp only [sendToServer] at h
  split_ifs at h
  · cases h; rfl
  · cases h; rfl

theorem childNum_onResult {message : Command} {env : ClientEnv} (h : c.onResult message env = .ok d) :
    d.childNum = c.childNum := by
  simp only [onResult] at h
  split at h
  · exact (childNum_sendToServer h :)
  · exact (childNum_sendToServer h :)

theorem childNum_onCommandMsg {message : Command} {env : ClientEnv} (h : c.onCommandMsg message env = .ok d)
    (hno : c.forksFor message = false) : d.childNum = c.childNum := by
  simp only [onCommandMsg] at h
  split_ifs at h with hbusy
  · exact (childNum_sendToServer h :)
  · have hfree : c.childNum < 1 := by omega
    split at h
    · rename_i hm
      simp [forksFor, hfree, hm] at hno
    · rename_i hm
      simp [forksFor, hfree, hm] at hno
    · exact (childNum_onResult h :)
    · exact (childNum_sendToServer h :)
    · cases h; rfl
    · cases h; rfl

theorem childNum_onFileMsg {message : File} {env : ClientEnv} (h : c.onFileMsg message env = .ok d) :
    d.childNum = c.childNum := by
  by_cases hend : message.fileType = .END
  · obtain ⟨c₁, c₂, _, _, h₁, -, h₂, hd⟩ := onFileMsg_end h hend
    rw [hd]
    exact (childNum_sendToServer h₂).trans (congrArg childNum (fcloseTestcase_eq h₁) :)
  · simp only [onFileMsg] at h
    rw [if_neg hend] at h
    split_ifs at h
    · have hopen : (c.openTestcase message).childNum = c.childNum := by rw [openTestcase]
      exact (congrArg childNum (fwriteTestcase_eq h) :).trans hopen
    · exact (congrArg childNum (fwriteTestcase_eq h) :)

theorem childNum_onWriteComplete {stack : Bytes} (h : c.onWriteComplete stack = .ok d) :
    d.childNum = c.childNum := by
  simp only [onWriteComplete] at h
  split at h
  · cases h
  · split at h
    · exact (childNum_sendToServer h :)
    · exact (childNum_sendToServer h :)

end LkpClient

/-- Neither a command nor the end of a child. -/
def ClientEvent.isPlain : ClientEvent → Bool
  | .message (.command _) _ | .childExit => false
  | _ => true

/-- **Only commands and the ends of children change `childNum`.** -/
theorem LkpClient.childNum_step {c d : LkpClient} {e : ClientEvent} (hs : c.step e = some d)
    (he : e.isPlain = true) : d.childNum = c.childNum := by
  have h := (step_eq_some.1 hs).2
  cases e with
  | up => cases h; rfl
  | down => cases h; rfl
  | message m env =>
    cases m with
    | command m => cases he
    | file m => exact childNum_onFileMsg h
    | _ => cases h
  | written => cases h; rfl
  | writeComplete stack =>
    have h : { c with conn := c.conn.dequeue }.onWriteComplete stack = .ok d := h
    exact (childNum_onWriteComplete h :)
  | timer =>
    have h : c.onTimer = .ok d := h
    simp only [onTimer] at h
    split_ifs at h
    exact childNum_sendToServer h
  | childExit => cases he

/-! ## What `system` runs -/

/-- The event makes the client call `system`. -/
def LkpClient.callsSystem (c : LkpClient) (e : ClientEvent) : Bool :=
  (c.step e).any fun d => c.shell.length < d.shell.length

/-- Whether `fork` succeeds in the event. -/
def ClientEvent.forks : ClientEvent → Bool
  | .message _ env => env.forks
  | _ => true

/-- The END of a test case. -/
def ClientEvent.endsTestcase : ClientEvent → Bool
  | .message (.file m) _ => m.fileType = .END
  | _ => false

namespace LkpClient
variable {c d : LkpClient} {e : ClientEvent}

theorem shell_sendToServer {message : Message} (h : c.sendToServer message = .ok d) : d.shell = c.shell := by
  simp only [sendToServer] at h
  split_ifs at h
  · cases h; rfl
  · cases h; rfl

/-- Only the END of a test case runs a command. -/
theorem callsSystem_eq_false (hplain : e.isPlain = true) (hend : e.endsTestcase = false) :
    c.callsSystem e = false := by
  have hshell : ∀ d, c.step e = some d → d.shell = c.shell := by
    intro d hs
    have h := (step_eq_some.1 hs).2
    cases e with
    | up => cases h; rfl
    | down => cases h; rfl
    | message m env =>
      cases m with
      | command m => cases hplain
      | file m =>
        have h : c.onFileMsg m env = .ok d := h
        simp only [onFileMsg] at h
        rw [if_neg (of_decide_eq_false hend)] at h
        split_ifs at h
        · exact (congrArg shell (fwriteTestcase_eq h) :).trans (by rw [openTestcase])
        · exact (congrArg shell (fwriteTestcase_eq h) :)
      | _ => cases h
    | written => cases h; rfl
    | writeComplete stack =>
      have h : { c with conn := c.conn.dequeue }.onWriteComplete stack = .ok d := h
      simp only [onWriteComplete] at h
      split at h
      · cases h
      · split at h
        · exact (shell_sendToServer h :)
        · exact (shell_sendToServer h :)
    | timer =>
      have h : c.onTimer = .ok d := h
      simp only [onTimer] at h
      split_ifs at h
      exact shell_sendToServer h
    | childExit => cases hplain
  rw [callsSystem, Bool.eq_false_iff]
  intro hany
  obtain ⟨d, hd, hlt⟩ := (Option.any_eq_true _ _).1 hany
  rw [hshell d hd] at hlt
  exact absurd hlt (by simp)

end LkpClient

/-! ## The process -/

inductive Thread where
  | main
  | log
  deriving DecidableEq

/-- The child of a `system` that has not returned. -/
inductive SystemChild where
  | running
  | exited
  /-- by `handleChildExit`, on the other thread -/
  | reaped
  deriving DecidableEq

/-- The process of the client. -/
structure ClientProcess where
  client : LkpClient
  /-- the answer of the handler in which `fork` has returned, before `childNum++` -/
  forked : Option (CommandACK × ClientEnv) := none
  /-- how many children of commands run or are stopped -/
  running : ℕ := 0
  /-- how many children of commands have exited and are not reaped -/
  exited : ℕ := 0
  /-- the child of the `system` that the main thread is in -/
  copy : Option SystemChild := none
  /-- a SIGCHLD is pending -/
  pending : Bool := false
  /-- `handleChildExit` runs on the thread -/
  handling : Thread → Bool := fun _ => false

inductive ProcessEvent where
  /-- a command, up to `fork` if the client forks for it -/
  | command (m : Command) (env : ClientEnv)
  /-- from `childNum++` to the end of the handler -/
  | count
  /-- another event, up to `fork` in `system` if it calls this -/
  | plain (e : ClientEvent)
  /-- a child of a command exits -/
  | exit
  /-- the child of `system` exits -/
  | copyExit
  /-- a child stops or continues -/
  | stop
  /-- `system` returns, with its child reaped -/
  | systemReturns
  /-- `handleChildExit` starts -/
  | signal (t : Thread)
  /-- `waitpid(-1, &childStatus, WNOHANG)` in its loop; if several children have exited it is
      the child of `system` that is reaped, or another one -/
  | waitpid (t : Thread) (copy : Bool)

/-- SIGCHLD comes, though no child of a command ends. -/
def ProcessEvent.raises : ProcessEvent → Bool
  | .copyExit | .stop => true
  | _ => false

/-- What `waitpid` returns. -/
inductive Waited where
  | pid
  | zero
  | error
  deriving DecidableEq

namespace ClientProcess
variable (x : ClientProcess)

/-- The main thread is between two handlers. -/
def idle : Bool := x.forked.isNone && x.copy.isNone && !x.handling .main

/-- The handler of an UPDATE or RUN, up to `fork`. -/
def fork (message : Command) (env : ClientEnv) : ClientProcess :=
  let ACK : CommandACK := { command := message.command, nodeId := message.nodeId }
  { x with
    client := { x.client with lastCmdString := lkpEnumToCmds message.command x.client.lastCmdString }
    forked := some (ACK, env)
    running := if env.forks then x.running + 1 else x.running }

/-- The child of the `system` that an event calls, if this can fork. -/
def copyAfter (e : ClientEvent) : Option SystemChild :=
  if x.client.callsSystem e && e.forks then some .running else none

/-- How many children run or are stopped. -/
def alive : ℕ := x.running + if x.copy = some .running then 1 else 0

/-- How many children have exited and are not reaped. -/
def zombies : ℕ := x.exited + if x.copy = some .exited then 1 else 0

def waited : Waited := if 0 < x.zombies then .pid else if 0 < x.alive then .zero else .error

/-- A child is reaped. -/
def reap (copy : Bool) : Option ClientProcess :=
  if copy then if x.copy = some .exited then some { x with copy := some .reaped } else none
  else if 0 < x.exited then some { x with exited := x.exited - 1 } else none

def step : ProcessEvent → Option ClientProcess
  | .command m env =>
    if x.idle && x.client.conn.isUp then
      if x.client.forksFor m then some (x.fork m env)
      else (x.client.onCommandMsg m env).toOption.map fun client => { x with client }
    else none
  | .count =>
    match x.forked with
    | some (ACK, env) =>
      if x.handling .main then none
      else (x.client.forkChild ACK env).toOption.map fun client => { x with client, forked := none }
    | none => none
  | .plain e =>
    if x.idle && e.isPlain then
      (x.client.step e).map fun client => { x with client, copy := x.copyAfter e }
    else none
  | .exit =>
    if 0 < x.running then
      some { x with running := x.running - 1, exited := x.exited + 1, pending := true }
    else none
  | .copyExit =>
    if x.copy = some .running then some { x with copy := some .exited, pending := true } else none
  | .stop => if 0 < x.alive then some { x with pending := true } else none
  | .systemReturns =>
    if x.copy = some .exited ∨ x.copy = some .reaped then some { x with copy := none } else none
  | .signal t =>
    if x.pending && !x.handling t && (t = .log || x.copy.isNone) then
      some { x with
        client := x.client.handleChildExit
        pending := false
        handling := Function.update x.handling t true }
    else none
  | .waitpid t copy =>
    if x.handling t then
      match x.waited with
      | .pid => x.reap copy
      | .zero => some x
      | .error => some { x with handling := Function.update x.handling t false }
    else none

variable {x} {y : ClientProcess} {e : ProcessEvent} {es : List ProcessEvent}

/-- **Without a signal between them the parts of the handler are the handler.** -/
theorem forkStep_count {message : Command} {env : ClientEnv} (hf : x.client.forksFor message = true)
    (hidle : x.idle = true) : (x.fork message env).step .count =
      (x.client.onCommandMsg message env).toOption.map fun client =>
        { x with client, running := (x.fork message env).running } := by
  obtain ⟨client, forked, running, exited, copy, pending, handling⟩ := x
  simp only [idle, Bool.and_eq_true, Option.isNone_iff_eq_none, Bool.not_eq_true'] at hidle
  obtain ⟨⟨rfl, rfl⟩, hmain⟩ := hidle
  rw [LkpClient.onCommandMsg_forks hf]
  simp only [step, fork, hmain]
  rfl

/-! ## What a step does -/

/-- Where a step leads. -/
inductive Moves (x : ClientProcess) : ProcessEvent → ClientProcess → Prop
  | fork {m : Command} {env : ClientEnv} (hidle : x.idle = true) (hf : x.client.forksFor m = true) :
      Moves x (.command m env) (x.fork m env)
  | command {m : Command} {env : ClientEnv} {c : LkpClient} (hidle : x.idle = true)
      (hno : x.client.forksFor m = false) (hc : x.client.onCommandMsg m env = .ok c) :
      Moves x (.command m env) { x with client := c }
  | count {ACK : CommandACK} {env : ClientEnv} {c : LkpClient} (hforked : x.forked = some (ACK, env))
      (hc : x.client.forkChild ACK env = .ok c) : Moves x .count { x with client := c, forked := none }
  | plain {e : ClientEvent} {c : LkpClient} (hidle : x.idle = true) (he : e.isPlain = true)
      (hc : x.client.step e = some c) : Moves x (.plain e) { x with client := c, copy := x.copyAfter e }
  | exit (hrun : 0 < x.running) :
      Moves x .exit { x with running := x.running - 1, exited := x.exited + 1, pending := true }
  | copyExit (hcopy : x.copy = some .running) : Moves x .copyExit { x with copy := some .exited, pending := true }
  | stop (halive : 0 < x.alive) : Moves x .stop { x with pending := true }
  | systemReturns (hcopy : x.copy = some .exited ∨ x.copy = some .reaped) :
      Moves x .systemReturns { x with copy := none }
  | signal {t : Thread} (hpend : x.pending = true) :
      Moves x (.signal t) { x with
        client := x.client.handleChildExit
        pending := false
        handling := Function.update x.handling t true }
  | reap {t : Thread} {copy : Bool} {y : ClientProcess} (ht : x.handling t = true) (hreap : x.reap copy = some y) :
      Moves x (.waitpid t copy) y
  | spin {t : Thread} {copy : Bool} (ht : x.handling t = true) (halive : 0 < x.alive) : Moves x (.waitpid t copy) x
  | leave {t : Thread} {copy : Bool} (ht : x.handling t = true) (hzombies : x.zombies = 0) (halive : x.alive = 0) :
      Moves x (.waitpid t copy) { x with handling := Function.update x.handling t false }

theorem step_moves (hs : x.step e = some y) : Moves x e y := by
  cases e with
  | command m env =>
    simp only [step] at hs
    split_ifs at hs with hidle hf
    · cases hs
      exact .fork ((Bool.and_eq_true _ _).mp hidle).1 hf
    · obtain ⟨c, hc, rfl⟩ := Option.map_eq_some_iff.1 hs
      exact .command ((Bool.and_eq_true _ _).mp hidle).1 (Bool.eq_false_iff.2 hf) (toOption_eq_some.1 hc)
  | count =>
    simp only [step] at hs
    split at hs
    · rename_i hforked
      split_ifs at hs
      obtain ⟨c, hc, rfl⟩ := Option.map_eq_some_iff.1 hs
      exact .count hforked (toOption_eq_some.1 hc)
    · cases hs
  | plain e =>
    obtain ⟨he, hs⟩ := Option.ite_none_right_eq_some.1 hs
    obtain ⟨c, hc, rfl⟩ := Option.map_eq_some_iff.1 hs
    rw [Bool.and_eq_true] at he
    exact .plain he.1 he.2 hc
  | exit =>
    obtain ⟨hrun, hs⟩ := Option.ite_none_right_eq_some.1 hs
    cases hs
    exact .exit hrun
  | copyExit =>
    obtain ⟨hcopy, hs⟩ := Option.ite_none_right_eq_some.1 hs
    cases hs
    exact .copyExit hcopy
  | stop =>
    obtain ⟨halive, hs⟩ := Option.ite_none_right_eq_some.1 hs
    cases hs
    exact .stop halive
  | systemReturns =>
    obtain ⟨hcopy, hs⟩ := Option.ite_none_right_eq_some.1 hs
    cases hs
    exact .systemReturns hcopy
  | signal t =>
    obtain ⟨hpend, hs⟩ := Option.ite_none_right_eq_some.1 hs
    cases hs
    rw [Bool.and_eq_true, Bool.and_eq_true] at hpend
    exact .signal hpend.1.1
  | waitpid t copy =>
    obtain ⟨ht, hs⟩ := Option.ite_none_right_eq_some.1 hs
    by_cases hz : 0 < x.zombies
    · rw [waited, if_pos hz] at hs
      exact .reap ht hs
    · by_cases ha : 0 < x.alive
      · rw [waited, if_neg hz, if_pos ha] at hs
        cases hs
        exact .spin ht ha
      · rw [waited, if_neg hz, if_neg ha] at hs
        cases hs
        exact .leave ht (by omega) (by omega)

theorem idle_forked (h : x.idle = true) : x.forked = none := by
  simp only [idle, Bool.and_eq_true, Option.isNone_iff_eq_none] at h
  exact h.1.1

theorem idle_copy (h : x.idle = true) : x.copy = none := by
  simp only [idle, Bool.and_eq_true, Option.isNone_iff_eq_none] at h
  exact h.1.2

/-- A child that is reaped is one less of those that have exited. -/
theorem reap_eq {copy : Bool} (h : x.reap copy = some y) :
    y = { x with exited := y.exited, copy := y.copy } ∧ y.zombies + 1 = x.zombies ∧ y.alive = x.alive := by
  simp only [reap] at h
  split_ifs at h with hcopy hexited hexited
  · cases h
    simp [zombies, alive, hexited]
  · cases h
    refine ⟨rfl, ?_, rfl⟩
    simp only [zombies]
    omega

theorem childNum_forkChild {c d : LkpClient} {ACK : CommandACK} {env : ClientEnv}
    (h : c.forkChild ACK env = .ok d) : d.childNum = c.childNum + 1 := by
  simp only [LkpClient.forkChild] at h
  split_ifs at h
  · exact (LkpClient.childNum_sendToServer h :)
  · exact (LkpClient.childNum_sendToServer h :)

/-- What a step can do to the counter and to the children of commands. -/
inductive Turn (x : ClientProcess) : ProcessEvent → ClientProcess → Prop
  /-- nothing: another command, another event, a call of `waitpid`, or a signal for another reason -/
  | other {e : ProcessEvent} {y : ClientProcess} (he : ∀ m env, e = .command m env → x.client.forksFor m = false)
      (hsig : ∀ t, e ≠ .signal t) (hnum : y.client.childNum = x.client.childNum) (hforked : y.forked = x.forked)
      (hrun : y.running = x.running) (hpend : y.pending = (x.pending || e.raises)) : Turn x e y
  | fork {m : Command} {env : ClientEnv} (hfree : x.client.childNum = 0) (hidle : x.idle = true)
      (hm : m.command = .UPDATE ∨ m.command = .RUN) : Turn x (.command m env) (x.fork m env)
  | count {y : ClientProcess} (hsome : x.forked.isSome = true) (hnum : y.client.childNum = x.client.childNum + 1)
      (hforked : y.forked = none) (hrun : y.running = x.running) (hpend : y.pending = x.pending) : Turn x .count y
  | exit (hrun : 0 < x.running) :
      Turn x .exit { x with running := x.running - 1, exited := x.exited + 1, pending := true }
  | signal {t : Thread} (hpend : x.pending = true) :
      Turn x (.signal t) { x with
        client := x.client.handleChildExit
        pending := false
        handling := Function.update x.handling t true }

/-- **Every step of the process is a turn.** -/
theorem step_turn (hs : x.step e = some y) : Turn x e y := by
  cases step_moves hs with
  | fork hidle hf =>
    simp only [LkpClient.forksFor, Bool.and_eq_true, Bool.or_eq_true, decide_eq_true_eq] at hf
    exact .fork (by omega) hidle hf.2
  | command _ hno hc =>
    refine .other ?_ nofun (LkpClient.childNum_onCommandMsg hc hno) rfl rfl (Bool.or_false _).symm
    intro m env he
    cases he
    exact hno
  | count hforked hc => exact .count (by rw [hforked]; rfl) (childNum_forkChild hc) rfl rfl rfl
  | plain _ he hc => exact .other nofun nofun (LkpClient.childNum_step hc he) rfl rfl (Bool.or_false _).symm
  | exit hrun => exact .exit hrun
  | copyExit _ | stop _ => exact .other nofun nofun rfl rfl rfl (Bool.or_true _).symm
  | signal hpend => exact .signal hpend
  | reap _ hreap =>
    rw [(reap_eq hreap).1]
    exact .other nofun nofun rfl rfl rfl (Bool.or_false _).symm
  | systemReturns _ | spin _ _ | leave _ _ _ => exact .other nofun nofun rfl rfl rfl (Bool.or_false _).symm

/-! ## The counter and the children -/

/-- `childNum`, with the child that is about to be counted. -/
def counted (x : ClientProcess) : ℕ := x.client.childNum + if x.forked.isSome then 1 else 0

/-- While no SIGCHLD is pending the counter is the number of the children of commands that run. -/
def Tracked (x : ClientProcess) : Prop := x.pending = false → x.counted = x.running

/-- One child of a command at most runs. -/
def AtMostOne (x : ClientProcess) : Prop := x.running ≤ 1

/-- While no SIGCHLD is pending an UPDATE or RUN is refused if a child runs, and makes
    the client fork if none does. -/
def RefusedExactly (x : ClientProcess) (e : ProcessEvent) : Prop :=
  ∀ m env y, e = .command m env → m.command = .UPDATE ∨ m.command = .RUN → x.pending = false →
    x.step e = some y →
    if 0 < x.running then
      x.client.sendToServer (x.client.stillRunning m) = .ok y.client ∧ y.running = x.running
    else y.running = x.running + 1 ∧ y.client.sent = x.client.sent

/-- Every fork for a command succeeds. -/
def ForkSucceeds : ProcessEvent → Prop
  | .command _ env => env.forks = true
  | _ => True

instance (e : ProcessEvent) : Decidable (ForkSucceeds e) :=
  match e with
  | .command _ _ => inferInstanceAs (Decidable (_ = _))
  | .count | .plain _ | .exit | .copyExit | .stop | .systemReturns | .signal _ | .waitpid _ _ =>
    inferInstanceAs (Decidable True)

/-- When a signal handler starts no counted child runs, and a child that has been forked and
    is not counted yet does. -/
def SignalInTime (x : ClientProcess) (e : ProcessEvent) : Prop :=
  match e with
  | .signal _ => x.running = if x.forked.isSome then 1 else 0
  | _ => True

instance (x : ClientProcess) (e : ProcessEvent) : Decidable (SignalInTime x e) :=
  match e with
  | .signal _ => inferInstanceAs (Decidable (_ = _))
  | .command _ _ | .count | .plain _ | .exit | .copyExit | .stop | .systemReturns | .waitpid _ _ =>
    inferInstanceAs (Decidable True)

/-- There is one child of a command at most: it runs, or it has ended and its signal is pending;
    and it is counted. -/
def Kept (x : ClientProcess) : Prop :=
  ∃ ended, (0 < ended → x.pending = true) ∧ x.counted = x.running + ended ∧ x.running + ended ≤ 1

theorem Kept.tracked (h : Kept x) : Tracked x := by
  obtain ⟨ended, hpending, hcount, -⟩ := h
  intro hp
  rcases Nat.eq_zero_or_pos ended with rfl | hended
  · exact hcount
  · rw [hpending hended] at hp
    cases hp

theorem Kept.atMostOne (h : Kept x) : AtMostOne x := by
  obtain ⟨ended, -, -, hone⟩ := h
  exact (Nat.le_add_right _ _).trans hone

theorem Kept.step (h : Kept x) (hf : ForkSucceeds e) (hQ : SignalInTime x e) (hs : x.step e = some y) :
    Kept y := by
  obtain ⟨ended, hpending, hcount, hone⟩ := h
  simp only [counted] at hcount
  cases step_turn hs with
  | other _ _ hnum hforked hrun hpend =>
    exact ⟨ended, fun h => by rw [hpend, hpending h, Bool.true_or], by rw [counted, hnum, hforked, hrun, hcount], by rw [hrun]; exact hone⟩
  | @fork m env hfree hidle _ =>
    rw [hfree, idle_forked hidle] at hcount
    have hrun : (x.fork m env).running = x.running + 1 := if_pos hf
    have hnum : (x.fork m env).counted = x.client.childNum + 1 := rfl
    simp at hcount
    exact ⟨0, nofun, by rw [hnum, hrun]; omega, by rw [hrun]; omega⟩
  | count hsome hnum hforked hrun hpend =>
    rw [hsome, if_pos rfl] at hcount
    refine ⟨ended, fun h => hpend.trans (hpending h), ?_, by rw [hrun]; exact hone⟩
    rw [counted, hnum, hforked, hrun]
    simpa using hcount
  | exit hrun =>
    refine ⟨ended + 1, fun _ => rfl, ?_, ?_⟩
    · simp only [counted, hcount]
      omega
    · simp only
      omega
  | signal hpend =>
    -- what has ended is counted out; one that is not counted yet runs
    have hQ : x.running = if x.forked.isSome then 1 else 0 := hQ
    refine ⟨0, nofun, ?_, ?_⟩
    · simp only [counted, LkpClient.handleChildExit]
      split_ifs at hQ hcount ⊢
      · omega
      · omega
    · simp only
      omega

/-- An UPDATE or RUN is refused, or the client forks for it. -/
theorem command_cases {m : Command} {env : ClientEnv} (hm : m.command = .UPDATE ∨ m.command = .RUN)
    (hs : x.step (.command m env) = some y) : x.idle = true ∧
    ((0 < x.client.childNum ∧ x.client.sendToServer (x.client.stillRunning m) = .ok y.client ∧
      y.running = x.running) ∨
    (x.client.childNum = 0 ∧ y = x.fork m env)) := by
  cases step_moves hs with
  | fork hidle hf =>
    simp only [LkpClient.forksFor, Bool.and_eq_true, decide_eq_true_eq] at hf
    exact ⟨hidle, .inr ⟨by omega, rfl⟩⟩
  | command hidle hno hc =>
    have hbusy : x.client.childNum ≥ 1 := by
      by_contra hfree
      have hlt : x.client.childNum < 1 := by omega
      have hforks : x.client.forksFor m = true := by simp [LkpClient.forksFor, hlt, hm]
      rw [hforks] at hno
      cases hno
    simp only [LkpClient.onCommandMsg, if_pos hbusy] at hc
    exact ⟨hidle, .inl ⟨hbusy, hc, rfl⟩⟩

theorem Kept.refusedExactly (h : Kept x) (hf : ForkSucceeds e) : RefusedExactly x e := by
  rintro m env y rfl hm hpend hs
  have hcount := h.tracked hpend
  obtain ⟨hidle, hcases⟩ := command_cases hm hs
  rw [counted, idle_forked hidle] at hcount
  simp only [Option.isSome_none, Bool.false_eq_true, if_false, add_zero] at hcount
  rcases hcases with ⟨hbusy, hsend, hrun⟩ | ⟨hfree, rfl⟩
  · rw [if_pos (hcount ▸ hbusy)]
    exact ⟨hsend, hrun⟩
  · rw [if_neg (by omega)]
    exact ⟨if_pos hf, rfl⟩

/-- A counter that the handler has made wrong shows at once. -/
theorem signalInTime_of_tracked (h : Kept x) (hs : x.step e = some y) (ht : Tracked y) : SignalInTime x e := by
  cases e with
  | signal t =>
    cases step_turn hs with
    | other _ hsig _ _ _ _ => exact absurd rfl (hsig t)
    | signal hpend =>
      obtain ⟨ended, -, hcount, hone⟩ := h
      have htracked : (x.client.childNum - 1) + (if x.forked.isSome then 1 else 0) = x.running := ht rfl
      show x.running = if x.forked.isSome then 1 else 0
      simp only [counted] at hcount
      split_ifs at htracked hcount ⊢
      · omega
      · omega
  | _ => trivial

/-- The client when it starts, with no child. -/
def start (c : LkpClient) : ClientProcess := { client := c }

theorem kept_start {c : LkpClient} (hc : c.childNum = 0) : Kept (start c) :=
  ⟨0, nofun, hc, Nat.zero_le 1⟩

/-- **The client tracks its running child** in a run iff, whenever a signal handler starts in
    either thread, no counted child runs, and a child that is not counted yet does. -/
theorem tracked_iff {c : LkpClient} (hc : c.childNum = 0) (h : Runs step (start c) es y)
    (hforks : EachStep step (start c) es fun _ e => ForkSucceeds e) :
    (EachState step (start c) es (fun x => Tracked x ∧ AtMostOne x) ∧
      EachStep step (start c) es RefusedExactly) ↔ EachStep step (start c) es SignalInTime := by
  have hiff : EachState step (start c) es (fun x => Tracked x ∧ AtMostOne x) ↔
      EachStep step (start c) es SignalInTime :=
    h.eachState_iff (I := Kept) (kept_start hc) hforks
      (fun u hu => ⟨hu.tracked, hu.atMostOne⟩)
      (fun u e v hu hf hQ hv => hu.step hf hQ hv)
      (fun u e v hu _ hv ht => signalInTime_of_tracked hu hv ht.1)
  rw [← hiff, and_iff_left_iff_imp]
  intro hP
  have hkept : EachStep step (start c) es fun x _ => Kept x :=
    (hforks.and (hiff.1 hP)).inv (kept_start hc) fun u e v hu hPe hv => hu.step hPe.1 hPe.2 hv
  exact (hkept.and hforks).imp fun x e h => h.1.refusedExactly h.2

/-- A RUN is refused while the child of an UPDATE runs, and accepted after its end, whose
    signal is handled in the thread of the log. -/
def oneAfterAnother : List ProcessEvent :=
  [.command { command := .UPDATE } {}, .count, .command { command := .RUN } {}, .exit, .signal .log,
    .waitpid .log false, .command { command := .RUN } {}, .count, .waitpid .log false]

theorem tracked_oneAfterAnother :
    EachState step (start (.joined [])) oneAfterAnother (fun x => Tracked x ∧ AtMostOne x) ∧
      EachStep step (start (.joined [])) oneAfterAnother RefusedExactly := by
  obtain ⟨y, hy, -⟩ : ∃ y, Runs step (start (.joined [])) oneAfterAnother y ∧
      y.client.sent.length = 3 ∧ y.running = 1 :=
    Runs.exists_of_run (by decide +kernel)
  exact (tracked_iff rfl hy (.of_checkSteps (by decide +kernel))).2 (.of_checkSteps (by decide +kernel))

/-- The child ends at once, its signal is handled before it is counted, and with no
    child the next RUN is refused. -/
theorem tracked_lost : ¬ ∀ (c : LkpClient) (es : List ProcessEvent) (y : ClientProcess), c.childNum = 0 →
    Runs step (start c) es y → EachStep step (start c) es (fun _ e => ForkSucceeds e) →
    EachState step (start c) es (fun x => Tracked x ∧ AtMostOne x) ∧ EachStep step (start c) es RefusedExactly := by
  intro h
  let before : List ProcessEvent :=
    [.command { command := .UPDATE } {}, .exit, .signal .main, .waitpid .main false, .waitpid .main false, .count]
  let next : ProcessEvent := .command { command := .RUN } {}
  obtain ⟨x, hx, hrun, hpend, y, hy, hno⟩ : ∃ x, Runs step (start (.joined [])) before x ∧ x.running = 0 ∧
      x.pending = false ∧ ∃ y ∈ x.step next, y.running = 0 :=
    Runs.exists_of_run (by decide +kernel)
  obtain ⟨-, hrefused⟩ := h (.joined []) (before ++ [next]) y rfl (hx.snoc hy) (.of_checkSteps (by decide +kernel))
  have hforks := hrefused before next [] x rfl hx _ _ y rfl (.inr rfl) hpend hy
  rw [if_neg (by omega), hno, hrun] at hforks
  exact absurd hforks.1 (by decide)

/-! ## A child that was never counted out -/

/-- No child is left that could lower the counter. -/
structure Stuck (x : ClientProcess) : Prop where
  counter : 0 < x.client.childNum
  forked : x.forked = none
  running : x.running = 0
  copy : x.copy = none
  pending : x.pending = false

/-- The event is no END of a test case, behind which `system` would come. -/
def NoCopy : ProcessEvent → Prop
  | .plain e => e.endsTestcase = false
  | _ => True

/-- With no child no signal comes and no `system` is called. -/
theorem noSignal_step (hrun : x.running = 0) (hcopy : x.copy = none) (hno : NoCopy e) (hs : x.step e = some y) :
    y.copy = none ∧ (x.pending = false → y.pending = false) := by
  cases step_moves hs with
  | fork | command | count => exact ⟨hcopy, id⟩
  | plain _ he _ => exact ⟨by rw [copyAfter, LkpClient.callsSystem_eq_false he hno]; rfl, id⟩
  | exit hpos => omega
  | copyExit hcopy' =>
    rw [hcopy] at hcopy'
    cases hcopy'
  | stop halive => simp [alive, hrun, hcopy] at halive
  | systemReturns _ => exact ⟨rfl, id⟩
  | signal _ => exact ⟨hcopy, fun _ => rfl⟩
  | reap _ hreap =>
    simp only [reap, hcopy] at hreap
    split_ifs at hreap with _ hsome
    · cases hsome
    · cases hreap
      exact ⟨rfl, id⟩
  | spin | leave => exact ⟨hcopy, id⟩

theorem Stuck.step (h : Stuck x) (hno : NoCopy e) (hs : x.step e = some y) : Stuck y := by
  obtain ⟨hcopy, hpending⟩ := noSignal_step h.running h.copy hno hs
  cases step_turn hs with
  | other _ _ hnum hforked hrun _ =>
    exact ⟨hnum ▸ h.counter, hforked.trans h.forked, hrun.trans h.running, hcopy, hpending h.pending⟩
  | fork hfree _ _ =>
    have := h.counter
    omega
  | count hsome _ _ _ _ =>
    rw [h.forked] at hsome
    cases hsome
  | exit hrun =>
    have := h.running
    omega
  | signal hpend =>
    rw [h.pending] at hpend
    cases hpend

/-- **A client that is stuck refuses every UPDATE and RUN**, as long as no test case comes
    to its end. -/
theorem refused_of_stuck (h : Stuck x) (hrun : Runs step x es y) (hno : ∀ e ∈ es, NoCopy e) {m : Command}
    {env : ClientEnv} {z : ClientProcess} (hm : m.command = .UPDATE ∨ m.command = .RUN)
    (hs : y.step (.command m env) = some z) :
    y.running = 0 ∧ y.client.sendToServer (y.client.stillRunning m) = .ok z.client := by
  have hy : Stuck y := hrun.inv (P := fun _ e => NoCopy e) h (fun _ _ _ hu hP hv => hu.step hP hv)
    fun es₁ e es₂ t hes _ => hno e (by rw [hes]; simp)
  obtain ⟨-, hcases⟩ := command_cases hm hs
  rcases hcases with ⟨-, hsend, -⟩ | ⟨hfree, -⟩
  · exact ⟨hy.running, hsend⟩
  · have := hy.counter
    omega

end ClientProcess

end LkpExtent
