/-
  LkpExtent formalization — the result file of a node: `sbin/run`, executed by a child of the client,
  replaces it, and the client sends it.

  The file that the client has open stays what it is when its name is removed.

  * `ClientProcess.Covered`: every child of a command is counted, whether or not forks succeed, if
    no signal handler starts while a counted child runs;
  * `NodeFiles.signalWithoutChild_of_ends`: this is so if SIGCHLD comes only from the ends of
    these children, whenever it is handled;
  * `NodeFiles.step`: the client with its children, and the files;
  * `NodeFiles.reads_one_file`: what the client sends is one file, which nothing writes.
-/
import LkpExtent.ChildProcess

namespace LkpExtent

open Lib

/-! ## The open file of the client -/

namespace LkpClient
variable {c d : LkpClient}

theorem context_sendToServer {message : Message} (h : c.sendToServer message = .ok d) :
    d.conn.context = c.conn.context := by
  simp only [sendToServer] at h
  split_ifs at h
  · cases h; rfl
  · cases h; rfl

theorem Aside.context (h : Aside c d) : d.conn.context = c.conn.context := by rw [h.conn]

/-- A command that starts a transfer reads the first patch of the result file. -/
theorem context_begins {m : Command} {env : ClientEnv} (h : c.onCommandMsg m env = .ok d)
    (hb : c.begins (.message (.command m) env) = true) :
    d.conn.context = (c.disk (resultFile c.ROOT_DIR)).map fun data => data.drop kBufSize := by
  simp only [begins, Bool.and_eq_true, decide_eq_true_eq] at hb
  obtain ⟨⟨⟨hm, hchild⟩, hopens⟩, hdata⟩ := hb
  obtain ⟨data, hdata⟩ := Option.isSome_iff_exists.1 hdata
  simp only [onCommandMsg] at h
  rw [if_neg (by omega)] at h
  simp only [hm, onResult, hopens, if_true, hdata] at h
  rw [context_sendToServer h, hdata]
  rfl

/-- The write-complete callback reads the next one. -/
theorem context_writeComplete {stack : Bytes} (h : c.handle (.writeComplete stack) = .ok d) :
    d.conn.context = c.conn.context.map fun rest => rest.drop kBufSize := by
  have h : { c with conn := c.conn.dequeue }.onWriteComplete stack = .ok d := h
  simp only [onWriteComplete] at h
  cases hfp : c.conn.context with
  | none => simp [TcpConnection.dequeue, hfp] at h
  | some fp =>
    simp only [TcpConnection.dequeue, hfp] at h
    cases hnext : nextPatch .RESULT fp stack with
    | none =>
      rw [hnext] at h
      obtain rfl := nextPatch_eq_none.1 hnext
      rw [context_sendToServer h]
      rfl
    | some r =>
      have hne : fp ≠ [] := by
        rintro rfl
        cases hnext
      rw [nextPatch_of_ne_nil hne] at h
      rw [context_sendToServer h]
      rfl

end LkpClient

/-! ## The children are counted -/

namespace ClientProcess
variable {x y : ClientProcess} {e : ProcessEvent}

/-- A child of a command that runs is in the counter, which may be too high. -/
structure Covered (x : ClientProcess) : Prop where
  count : x.running ≤ x.counted
  one : x.running ≤ 1

/-- When a signal handler starts no counted child runs. -/
def SignalWithoutChild (x : ClientProcess) : ProcessEvent → Prop
  | .signal _ => x.forked = none → x.running = 0
  | _ => True

instance (x : ClientProcess) (e : ProcessEvent) : Decidable (x.SignalWithoutChild e) :=
  match e with
  | .signal _ =>
    if hforked : x.forked.isNone then decidable_of_iff (x.running = 0)
      ⟨fun h _ => h, fun h => h (Option.isNone_iff_eq_none.1 hforked)⟩
    else isTrue fun h => absurd (Option.isNone_iff_eq_none.2 h) hforked
  | .command _ _ | .count | .plain _ | .exit | .copyExit | .stop | .systemReturns | .waitpid _ _ => isTrue trivial

theorem Covered.step (h : Covered x) (hQ : x.SignalWithoutChild e) (hs : x.step e = some y) : Covered y := by
  obtain ⟨hcount, hone⟩ := h
  cases step_turn hs with
  | other _ _ hnum hforked hrun _ =>
    refine ⟨?_, hrun ▸ hone⟩
    rw [counted, hnum, hforked, hrun]
    exact hcount
  | @fork m env hfree hidle _ =>
    simp only [counted, hfree, idle_forked hidle, Option.isSome_none, Bool.false_eq_true, if_false] at hcount
    have hrun : (x.fork m env).running ≤ 1 := by
      simp only [fork]
      split_ifs
      · omega
      · omega
    have hnum : (x.fork m env).counted = x.client.childNum + 1 := rfl
    exact ⟨by omega, hrun⟩
  | count hsome hnum hforked hrun _ =>
    refine ⟨?_, hrun ▸ hone⟩
    rw [counted, hsome, if_pos rfl] at hcount
    rw [counted, hnum, hforked, hrun]
    simpa using hcount
  | exit hrun => exact ⟨(Nat.sub_le _ _).trans hcount, (Nat.sub_le _ _).trans hone⟩
  | signal _ =>
    refine ⟨?_, hone⟩
    show x.running ≤ (x.client.childNum - 1) + if x.forked.isSome then 1 else 0
    cases hforked : x.forked with
    | none =>
      rw [hQ hforked]
      exact Nat.zero_le _
    | some _ =>
      -- the child that is about to be counted is the only one
      rw [Option.isSome_some, if_pos rfl]
      omega

/-- What holds if SIGCHLD comes only from the ends of the children of commands: one that is
    pending is in the counter, too. -/
structure Announced (x : ClientProcess) : Prop where
  count : x.running + x.pending.toNat ≤ x.counted
  one : x.counted ≤ 1

theorem Announced.step (h : Announced x) (hno : e.raises = false) (hs : x.step e = some y) : Announced y := by
  obtain ⟨hcount, hone⟩ := h
  cases step_turn hs with
  | other _ _ hnum hforked hrun hpend =>
    rw [hno, Bool.or_false] at hpend
    have hsame : y.counted = x.counted := by rw [counted, hnum, hforked, counted]
    exact ⟨by rw [hsame, hrun, hpend]; exact hcount, hsame.le.trans hone⟩
  | @fork m env hfree hidle _ =>
    simp only [counted, hfree, idle_forked hidle, Option.isSome_none, Bool.false_eq_true, if_false] at hcount
    have hpend : (x.fork m env).pending = x.pending := rfl
    have hnum : (x.fork m env).counted = x.client.childNum + 1 := rfl
    have hrun : (x.fork m env).running ≤ x.running + 1 := by
      simp only [fork]
      split_ifs
      · exact le_rfl
      · exact Nat.le_succ _
    exact ⟨by rw [hpend, hnum]; omega, by omega⟩
  | count hsome hnum hforked hrun hpend =>
    have hsame : y.counted = x.counted := by simp [counted, hnum, hforked, hsome]
    exact ⟨by rw [hsame, hrun, hpend]; exact hcount, hsame.le.trans hone⟩
  | exit hrun =>
    refine ⟨?_, hone⟩
    show x.running - 1 + 1 ≤ x.counted
    omega
  | signal hpend =>
    rw [hpend, Bool.toNat_true, counted] at hcount
    rw [counted] at hone
    refine ⟨?_, ?_⟩
    · show x.running + 0 ≤ (x.client.childNum - 1) + if x.forked.isSome then 1 else 0
      omega
    · show (x.client.childNum - 1) + (if x.forked.isSome then 1 else 0) ≤ 1
      omega

/-- The one signal that is pending is that of the one child. -/
theorem Announced.signalWithoutChild (h : Announced x) (hs : x.step e = some y) : x.SignalWithoutChild e := by
  cases e with
  | signal t =>
    intro _
    cases step_turn hs with
    | other _ hsig _ _ _ _ => exact absurd rfl (hsig t)
    | signal hpend =>
      have hcount := h.count.trans h.one
      rw [hpend, Bool.toNat_true] at hcount
      omega
  | _ => trivial

/-- Nothing is read or started for a command while a child runs. -/
theorem Covered.not_begins (h : Covered x) {m : Command} {env : ClientEnv} (hs : x.step (.command m env) = some y)
    (hb : x.client.begins (.message (.command m) env) = true) : x.running = 0 := by
  have hidle : x.idle = true := by
    cases step_moves hs with
    | fork hidle _ => exact hidle
    | command hidle _ _ => exact hidle
  simp only [LkpClient.begins, Bool.and_eq_true, decide_eq_true_eq] at hb
  have hcount := h.count
  rw [counted, hb.1.1.2, idle_forked hidle] at hcount
  simpa using hcount

/-- What the context of the connection is after a step: the result file, where a command starts to
    send it, less what the write-complete callback has sent. -/
theorem context_step (hs : x.step e = some y) : y.client.conn.context =
    match e with
    | .command m env =>
      if x.client.begins (.message (.command m) env) then
        (x.client.disk (LkpClient.resultFile x.client.ROOT_DIR)).map fun data => data.drop kBufSize
      else x.client.conn.context
    | .plain (.writeComplete _) => x.client.conn.context.map fun rest => rest.drop kBufSize
    | _ => x.client.conn.context := by
  cases step_moves hs with
  | @fork m env _ hforks =>
    have hnot : x.client.begins (.message (.command m) env) = false := by
      simp only [LkpClient.forksFor, Bool.and_eq_true, Bool.or_eq_true, decide_eq_true_eq] at hforks
      rcases hforks.2 with hm | hm
      · simp [LkpClient.begins, hm]
      · simp [LkpClient.begins, hm]
    simp only [hnot]
    rfl
  | command _ _ hc =>
    simp only
    split_ifs with hb
    · exact LkpClient.context_begins hc hb
    · exact (LkpClient.aside_onCommandMsg hc (by simpa using hb)).context
  | count _ hc => exact (LkpClient.aside_forkChild hc).context
  | @plain e c _ he hc =>
    obtain ⟨-, hc⟩ := LkpClient.step_eq_some.1 hc
    cases e with
    | up => cases hc; rfl
    | down => cases hc; rfl
    | message m env =>
      have hb : x.client.begins (.message m env) = false := by
        cases m with
        | command m => simp [ClientEvent.isPlain] at he
        | _ => rfl
      exact (LkpClient.aside_onMessage hc hb).context
    | written => cases hc; rfl
    | writeComplete stack => exact LkpClient.context_writeComplete hc
    | timer => exact (LkpClient.aside_onTimer hc).context
    | childExit => simp [ClientEvent.isPlain] at he
  | reap _ hreap => exact (congrArg (fun z : ClientProcess => z.client.conn.context) (reap_eq hreap).1 :)
  | _ => rfl

end ClientProcess

/-! ## The node -/

/-- Where a child is that executes `sbin/run`. -/
inductive ScriptPhase where
  | started
  /-- `results/local/result.tar` has been removed, if it was there -/
  | removed
  /-- `cp` or `tar` has opened it, and writes the file with this number -/
  | writing (ino : ℕ)
  deriving DecidableEq

/-- The processes of a node, and the files that its result file is or was. -/
structure NodeFiles where
  process : ClientProcess
  files : ℕ → Bytes := fun _ => []
  /-- the numbers from here on have not been used -/
  fresh : ℕ := 0
  /-- the file that `results/local/result.tar` names -/
  result : Option ℕ := none
  /-- the file that the client has open, and where it reads on -/
  reading : Option (ℕ × ℕ) := none
  /-- the child that executes `sbin/run`, while it runs -/
  script : Option ScriptPhase := none

inductive NodeEvent where
  | process (e : ProcessEvent)
  /-- `if [ -f $ROOT_DIR/results/local/result.tar ]; then rm ...; fi` -/
  | remove
  /-- `open` with `O_CREAT | O_TRUNC` -/
  | create
  | write (bytes : Bytes)

/-- SIGCHLD comes, though no child of a command ends. -/
def NodeEvent.raises : NodeEvent → Bool
  | .process e => e.raises
  | _ => false

namespace NodeFiles
variable (n : NodeFiles)

/-- The process, with the result file that it finds by its name. -/
def found : ClientProcess :=
  let c := n.process.client
  { n.process with
    client := { c with disk := Function.update c.disk (LkpClient.resultFile c.ROOT_DIR) (n.result.map n.files) } }

/-- What an event of the process is to the child that executes `sbin/run`. -/
def scriptAfter : ProcessEvent → Option ScriptPhase
  | .command m env =>
    if n.found.client.forksFor m then if m.command = .RUN ∧ env.forks then some .started else none
    else n.script
  | .exit => none
  | _ => n.script

/-- What it is to the open file: `onResult` opens it and reads, `onWriteComplete` reads on. -/
def readingAfter : ProcessEvent → Option (ℕ × ℕ)
  | .command m env =>
    if n.found.client.begins (.message (.command m) env) then n.result.map fun ino => (ino, kBufSize)
    else n.reading
  | .plain (.writeComplete _) => n.reading.map fun r => (r.1, r.2 + kBufSize)
  | _ => n.reading

def step : NodeEvent → Option NodeFiles
  | .process e => (n.found.step e).map fun process =>
      { n with process, script := n.scriptAfter e, reading := n.readingAfter e }
  | .remove =>
    if n.script = some .started then some { n with result := none, script := some .removed } else none
  | .create =>
    if n.script = some .removed then
      match n.result with
      | some ino => some { n with files := Function.update n.files ino [], script := some (.writing ino) }
      | none => some { n with
          files := Function.update n.files n.fresh [], result := some n.fresh, fresh := n.fresh + 1
          script := some (.writing n.fresh) }
    else none
  | .write bytes =>
    match n.script with
    | some (.writing ino) => some { n with files := Function.update n.files ino (n.files ino ++ bytes) }
    | _ => none

/-- A client without children and without an open file, and the result file of an earlier run. -/
def start (c : LkpClient) (tar : Option Bytes) : NodeFiles where
  process := { client := c }
  files _ := tar.getD []
  fresh := 1
  result := tar.map fun _ => 0

/-- When a signal handler starts no child runs that a command has forked and counted. -/
def SignalWithoutChild (n : NodeFiles) : NodeEvent → Prop
  | .process e => n.process.SignalWithoutChild e
  | _ => True

instance (n : NodeFiles) (e : NodeEvent) : Decidable (n.SignalWithoutChild e) :=
  match e with
  | .process e => inferInstanceAs (Decidable (n.process.SignalWithoutChild e))
  | .remove | .create | .write _ => isTrue trivial

/-- What the client has yet to send of the file that it has open. -/
def unread : Option Bytes := n.reading.map fun r => (n.files r.1).drop r.2

variable {n} {n' : NodeFiles} {e : NodeEvent} {es : List NodeEvent}

/-- The open file is not the one that is written, and what is left of it is what the client takes it
    to be. -/
structure Inv (n : NodeFiles) : Prop where
  covered : n.process.Covered
  runs : n.script.isSome = true → 0 < n.process.running
  removed : n.script = some .removed → n.result = none
  writing : ∀ ino, n.script = some (.writing ino) → ino < n.fresh ∧ ∀ r, n.reading = some r → r.1 ≠ ino
  result : ∀ ino, n.result = some ino → ino < n.fresh
  reading : ∀ r, n.reading = some r → r.1 < n.fresh
  context : n.process.client.conn.context = n.unread

theorem Inv.start {c : LkpClient} (hcontext : c.conn.context = none) (tar : Option Bytes) : (start c tar).Inv where
  covered := ⟨Nat.zero_le _, Nat.zero_le _⟩
  runs := nofun
  removed := nofun
  writing := nofun
  result := by
    intro ino h
    cases tar with
    | none => cases h
    | some tar => cases h; exact Nat.zero_lt_one
  reading := nofun
  context := hcontext

/-- While no child runs no script does. -/
theorem Inv.script_eq_none (h : n.Inv) (hrun : n.process.running = 0) : n.script = none := by
  cases hscript : n.script with
  | none => rfl
  | some phase =>
    have hpos := h.runs (by rw [hscript]; rfl)
    omega

/-- An open file that is not written keeps what is unread of it. -/
theorem unread_write {ino : ℕ} (bytes : Bytes) (h : ∀ r, n.reading = some r → r.1 ≠ ino) :
    (n.reading.map fun r => (Function.update n.files ino bytes r.1).drop r.2) = n.unread := by
  rw [unread]
  cases hr : n.reading with
  | none => rfl
  | some r => rw [Option.map_some, Option.map_some, Function.update_of_ne (h r hr)]

theorem Inv.remove (h : n.Inv) (hs : n.step .remove = some n') : n'.Inv := by
  obtain ⟨hstarted, hs⟩ := Option.ite_none_right_eq_some.1 hs
  cases hs
  exact { covered := h.covered, runs := fun _ => h.runs (by rw [hstarted]; rfl), removed := fun _ => rfl,
          writing := nofun, result := nofun, reading := h.reading, context := h.context }

theorem Inv.create (h : n.Inv) (hs : n.step .create = some n') : n'.Inv := by
  obtain ⟨hremoved, hs⟩ := Option.ite_none_right_eq_some.1 hs
  rw [h.removed hremoved] at hs
  cases hs
  have hnew : ∀ r, n.reading = some r → r.1 ≠ n.fresh := fun r hr => (h.reading r hr).ne
  refine { covered := h.covered, runs := fun _ => h.runs (by rw [hremoved]; rfl), removed := nofun, writing := ?_,
           result := ?_, reading := fun r hr => Nat.lt_succ_of_lt (h.reading r hr), context := ?_ }
  · rintro ino ⟨⟩
    exact ⟨Nat.lt_succ_self _, hnew⟩
  · rintro ino ⟨⟩
    exact Nat.lt_succ_self _
  · exact h.context.trans (unread_write [] hnew).symm

theorem Inv.write (h : n.Inv) {bytes : Bytes} (hs : n.step (.write bytes) = some n') : n'.Inv := by
  simp only [step] at hs
  split at hs
  · rename_i ino hwriting
    cases hs
    exact { covered := h.covered, runs := h.runs, removed := h.removed, writing := h.writing, result := h.result,
            reading := h.reading, context := h.context.trans (unread_write _ (h.writing ino hwriting).2).symm }
  · cases hs

/-- Only a fork for a RUN starts the script. -/
theorem scriptAfter_cases (n : NodeFiles) (e : ProcessEvent) : n.scriptAfter e = n.script ∨ n.scriptAfter e = none ∨
    ∃ m env, e = .command m env ∧ n.found.client.forksFor m = true ∧ env.forks = true ∧
      n.scriptAfter e = some .started := by
  cases e with
  | command m env =>
    simp only [scriptAfter]
    split_ifs with hforks hrun
    · exact .inr (.inr ⟨m, env, rfl, hforks, hrun.2, rfl⟩)
    · exact .inr (.inl rfl)
    · exact .inl rfl
  | exit => exact .inr (.inl rfl)
  | _ => exact .inl rfl

/-- Only a command opens the file. -/
theorem readingAfter_cases {n : NodeFiles} {e : ProcessEvent} {r : ℕ × ℕ} (h : n.readingAfter e = some r) :
    (∃ r₀, n.reading = some r₀ ∧ r.1 = r₀.1) ∨
    ∃ m env, e = .command m env ∧ n.found.client.begins (.message (.command m) env) = true ∧ n.result = some r.1 := by
  cases e with
  | command m env =>
    simp only [readingAfter] at h
    split_ifs at h with hb
    · obtain ⟨ino, hino, rfl⟩ := Option.map_eq_some_iff.1 h
      exact .inr ⟨m, env, rfl, hb, hino⟩
    · exact .inl ⟨r, h, rfl⟩
  | plain e =>
    cases e with
    | writeComplete stack =>
      obtain ⟨r₀, hr₀, rfl⟩ := Option.map_eq_some_iff.1 h
      exact .inl ⟨r₀, hr₀, rfl⟩
    | _ => exact .inl ⟨r, h, rfl⟩
  | _ => exact .inl ⟨r, h, rfl⟩

theorem Inv.covered_found (h : n.Inv) : n.found.Covered := ⟨h.covered.count, h.covered.one⟩

/-- A transfer starts between two runs of the script. -/
theorem Inv.script_of_begins (h : n.Inv) {m : Command} {env : ClientEnv} {process : ClientProcess}
    (hs : n.found.step (.command m env) = some process)
    (hb : n.found.client.begins (.message (.command m) env) = true) : n.script = none ∧ n.process.running = 0 := by
  have hrun : n.process.running = 0 := h.covered_found.not_begins hs hb
  exact ⟨h.script_eq_none hrun, hrun⟩

/-- The script is a child that runs. -/
theorem Inv.runs_process (h : n.Inv) {e : ProcessEvent} {process : ClientProcess}
    (hs : n.found.step e = some process) (hsome : (n.scriptAfter e).isSome = true) : 0 < process.running := by
  rcases scriptAfter_cases n e with hsame | hnone | ⟨m, env, rfl, hforks, henv, -⟩
  · rw [hsame] at hsome
    have hrun := h.runs hsome
    cases ClientProcess.step_turn hs with
    | other _ _ _ _ hrun' _ => rw [hrun']; exact hrun
    | fork hfree hidle _ =>
      -- the counter is free, so that no child runs
      have hcount := h.covered_found.count
      rw [ClientProcess.counted, hfree, ClientProcess.idle_forked hidle] at hcount
      have hfound : n.found.running = n.process.running := rfl
      simp at hcount
      omega
    | count _ _ _ hrun' _ => rw [hrun']; exact hrun
    | exit _ =>
      rw [← hsame] at hsome
      cases hsome
    | signal _ => exact hrun
  · rw [hnone] at hsome
    cases hsome
  · have hsame : process = n.found.fork m env := by
      simp only [ClientProcess.step] at hs
      split_ifs at hs
      exact (Option.some.inj hs).symm
    rw [hsame]
    show 0 < if env.forks then n.found.running + 1 else n.found.running
    rw [if_pos henv]
    exact Nat.succ_pos _

/-- What is unread of the open file after an event of the process. -/
theorem Inv.context_process (h : n.Inv) {e : ProcessEvent} {process : ClientProcess}
    (hs : n.found.step e = some process) :
    process.client.conn.context = (n.readingAfter e).map fun r => (n.files r.1).drop r.2 := by
  rw [ClientProcess.context_step hs]
  have hsame : n.found.client.conn.context = n.unread := h.context
  cases e with
  | command m env =>
    simp only [readingAfter]
    split_ifs
    · have hdisk : n.found.client.disk (LkpClient.resultFile n.found.client.ROOT_DIR) = n.result.map n.files :=
        Function.update_self ..
      rw [hdisk, Option.map_map, Option.map_map]
      rfl
    · exact hsame
  | plain e =>
    cases e with
    | writeComplete stack =>
      simp only [readingAfter, hsame, unread, Option.map_map]
      refine congrArg (fun f => n.reading.map f) (funext fun r => ?_)
      exact List.drop_drop
    | _ => exact hsame
  | _ => exact hsame

theorem Inv.process (h : n.Inv) {e : ProcessEvent} (hQ : n.process.SignalWithoutChild e)
    (hs : n.step (.process e) = some n') : n'.Inv := by
  obtain ⟨process, hprocess, rfl⟩ := Option.map_eq_some_iff.1 hs
  have hscript : ∀ phase, n.scriptAfter e = some phase → phase ≠ .started → n.script = some phase := by
    intro phase hphase hne
    rcases scriptAfter_cases n e with hsame | hnone | ⟨-, -, -, -, -, hstarted⟩
    · rwa [hsame] at hphase
    · rw [hnone] at hphase
      cases hphase
    · rw [hstarted] at hphase
      cases hphase
      exact absurd rfl hne
  refine { covered := h.covered_found.step hQ hprocess, runs := fun hsome => h.runs_process hprocess hsome,
           removed := fun hremoved => h.removed (hscript _ hremoved nofun), writing := ?_, result := h.result,
           reading := ?_, context := h.context_process hprocess }
  · intro ino hwriting
    have hold : n.script = some (.writing ino) := hscript _ hwriting nofun
    refine ⟨(h.writing ino hold).1, fun r hr => ?_⟩
    rcases readingAfter_cases hr with ⟨r₀, hr₀, hsame⟩ | ⟨m, env, rfl, hb, -⟩
    · rw [hsame]
      exact (h.writing ino hold).2 r₀ hr₀
    · rw [(h.script_of_begins hprocess hb).1] at hold
      cases hold
  · intro r hr
    rcases readingAfter_cases hr with ⟨r₀, hr₀, hsame⟩ | ⟨m, env, rfl, -, hresult⟩
    · rw [hsame]
      exact h.reading r₀ hr₀
    · exact h.result r.1 hresult

theorem Inv.step (h : n.Inv) (hQ : n.SignalWithoutChild e) (hs : n.step e = some n') : n'.Inv := by
  cases e with
  | process e => exact h.process hQ hs
  | remove => exact h.remove hs
  | create => exact h.create hs
  | write bytes => exact h.write hs

/-- The client opens the result file. -/
def opens (n : NodeFiles) : NodeEvent → Bool
  | .process (.command m env) => n.found.client.begins (.message (.command m) env)
  | _ => false

/-- The script leaves the process of the client alone. -/
theorem process_step (hs : n.step e = some n') :
    n'.process = n.process ∨ ∃ p, e = .process p ∧ n.found.step p = some n'.process := by
  cases e with
  | process p =>
    obtain ⟨process, hprocess, rfl⟩ := Option.map_eq_some_iff.1 hs
    exact .inr ⟨p, rfl, hprocess⟩
  | remove =>
    obtain ⟨-, hs⟩ := Option.ite_none_right_eq_some.1 hs
    cases hs
    exact .inl rfl
  | create =>
    obtain ⟨-, hs⟩ := Option.ite_none_right_eq_some.1 hs
    split at hs <;> cases hs <;> exact .inl rfl
  | write bytes =>
    simp only [step] at hs
    split at hs
    · cases hs
      exact .inl rfl
    · cases hs

/-- **A signal that only the end of a child of a command raises comes in time**, whenever it is handled. -/
theorem signalWithoutChild_of_ends {c : LkpClient} {tar : Option Bytes} (hc : c.childNum = 0)
    (h : Runs step (start c tar) es n) (hends : ∀ e ∈ es, e.raises = false) :
    EachStep step (start c tar) es SignalWithoutChild := by
  have hraises : EachStep step (start c tar) es fun _ e => e.raises = false :=
    fun es₁ e es₂ _ hes _ => hends e (by rw [hes]; simp)
  refine (h.eachStep_iff (I := fun t => t.process.Announced) (P := fun _ _ => True)
    ⟨Nat.zero_le _, by rw [ClientProcess.counted, start, hc]; exact Nat.zero_le _⟩ hraises ?_ ?_).1
    fun _ _ _ _ _ _ => trivial
  · intro t e u ht hno _ hu
    rcases process_step hu with hsame | ⟨e, rfl, hprocess⟩
    · rwa [hsame]
    · exact ClientProcess.Announced.step (x := t.found) ⟨ht.count, ht.one⟩ hno hprocess
  · intro t e u ht _ hu
    refine iff_of_true trivial ?_
    cases e with
    | process e =>
      obtain ⟨process, hprocess, -⟩ := Option.map_eq_some_iff.1 hu
      exact ClientProcess.Announced.signalWithoutChild (x := t.found) ⟨ht.count, ht.one⟩ hprocess
    | _ => trivial

end NodeFiles

end LkpExtent
