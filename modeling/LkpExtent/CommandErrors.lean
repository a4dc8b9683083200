/-
  LkpExtent formalization — commands that cannot be carried out.

  * `onCommandMsg_unknown`: a command for an ID that is not in the pool.  The Return
    prepared for it is not sent: the server waits for an answer of nobody, or, for a
    PUSH whose file opens, uses the connection it did not find;
  * `cutPush_unanswered`: a push left at a file that does not open.  The nodes before
    it have their first patch, and all of their answers complete nothing;
  * `wholePush_of_opens`, `not_wholePush`: a push has its whole effect if the file opens
    for every target, and never if not.
-/
import LkpExtent.Aggregation

namespace LkpExtent

open Lib

namespace LkpServer
variable {s t : LkpServer}

/-- While no command is given and no node answers, nothing is counted and no Return
    is sent. -/
theorem runs_quiet {es : List ServerEvent} (h : Runs step s es t)
    (hno : ∀ e ∈ es, isCommand e = false) (hans : answers es = []) : Quiet s t := by
  induction h with
  | nil => exact .refl s
  | @snoc es t u e h he ih =>
    rw [answers_snoc, List.append_eq_nil_iff] at hans
    have hlast : answer? e = none := by
      cases ha : answer? e with
      | none => rfl
      | some a => rw [ha] at hans; cases hans.2
    exact (ih (fun e' he' => hno e' (by simp [he'])) hans.1).trans
      (step_quiet he (hno e (by simp)) hlast)

/-! ## Unknown nodes -/

/-- The Return that is prepared when the ID is not in the pool. -/
def unknownReturn (s : LkpServer) (message : Command) : Return where
  command := message.command
  clientNum := u32 s.clientPool.size
  clientOkNum := 0
  nodeInfo := [⟨message.nodeId, "ERROR 1: This ID doesn't exist!"⟩]

/-- The command is refused cleanly: nothing is undefined, and all that is sent is one
    Return that names the ID. -/
def CleanRefusal (s : LkpServer) (message : Command) (env : Env) : Prop :=
  ∃ t cli r, s.onCommandMsg message env = .ok t ∧ t.sent = s.sent ++ [(cli, .ret r)] ∧
    r.clientOkNum = 0 ∧ r.nodeInfo = (s.unknownReturn message).nodeInfo

/-- **What a command for an unknown node does.** -/
theorem onCommandMsg_unknown {message : Command} (env : Env) (hcommand : message.command.Answered)
    (hall : message.sendToAll = false)
    (hunknown : s.clientPool.getConn (intOfU32 message.nodeId) = none) :
    (message.command = .PUSH ∧ env.opens (intOfU32 message.nodeId) = true ∧
      s.onCommandMsg message env = .error .nullConn) ∨
    ∃ t, s.onCommandMsg message env = .ok t ∧ t.sent = s.sent ∧ t.tally = Gather.new 1 := by
  by_cases hpush : message.command = .PUSH
  · have hnone : (s.resetCounters.setClientNum 1).clientPool.getConn (intOfU32 message.nodeId) = none := hunknown
    simp only [onCommandMsg]
    rw [hpush]
    simp only [pushToClient]
    rw [if_pos hall]
    by_cases hopen : env.opens (intOfU32 message.nodeId) = true
    · refine .inl ⟨trivial, hopen, ?_⟩
      rw [if_pos hopen, hnone]
    · rw [if_neg hopen]
      exact .inr ⟨_, rfl, rfl, rfl⟩
  · have hnone : s.resetCounters.clientPool.getConn (intOfU32 message.nodeId) = none := hunknown
    rw [onCommandMsg_forward env hcommand hpush, forward, if_pos hall, hnone]
    exact .inr ⟨_, rfl, rfl, rfl⟩

/-- **A command for an unknown node is never refused cleanly.** -/
theorem unknown_not_refused {message : Command} {env : Env} (hcommand : message.command.Answered)
    (hall : message.sendToAll = false)
    (hunknown : s.clientPool.getConn (intOfU32 message.nodeId) = none) : ¬ CleanRefusal s message env := by
  rintro ⟨t, cli, r, ht, hsent, -, -⟩
  rcases onCommandMsg_unknown env hcommand hall hunknown with ⟨-, -, herr⟩ | ⟨t', ht', hsent', -⟩
  · rw [herr] at ht; cases ht
  · rw [ht'] at ht
    cases ht
    rw [hsent'] at hsent
    simpa using congrArg List.length hsent

/-- And the CLI waits: no Return is sent as long as no node answers. -/
theorem unknown_unanswered {cli : ConnId} {message : Command} {env : Env} {es : List ServerEvent}
    {s₀ : LkpServer} (hcommand : message.command.Answered) (hall : message.sendToAll = false)
    (hunknown : s.clientPool.getConn (intOfU32 message.nodeId) = none)
    (hsend : s.step (.message cli (.command message) env) = some s₀) (hrun : Runs step s₀ es t)
    (hno : ∀ e ∈ es, isCommand e = false) (hans : answers es = []) : t.returns = s.returns := by
  have hstep : s.onCommandMsg message env = .ok s₀ := (step_eq_some.1 hsend).2
  rcases onCommandMsg_unknown env hcommand hall hunknown with ⟨-, -, herr⟩ | ⟨t', ht', hsent, -⟩
  · rw [herr] at hstep; cases hstep
  · rw [ht'] at hstep
    cases hstep
    rw [(runs_quiet hrun hno hans).returns, returns, hsent]
    rfl

def runSeven : Command := { command := .RUN, nodeId := 7 }

def pushSeven : Command := { command := .PUSH, nodeId := 7, testcase := "job" }

/-- With a CLI, and node 0 in the pool. -/
theorem unknown_not_refused_runSeven : ∃ s, Runs step (start "/lkp" 3) [.up 9 "127.0.0.1", .up 1 "10.0.0.1"] s ∧
    s.SessionOpen 9 ∧ s.clientPool.getConn 0 = some 1 ∧ ¬ CleanRefusal s runSeven {} := by
  obtain ⟨s, hs, hopen, hnode, hunknown⟩ : ∃ s,
      Runs step (start "/lkp" 3) [.up 9 "127.0.0.1", .up 1 "10.0.0.1"] s ∧ s.SessionOpen 9 ∧
      s.clientPool.getConn 0 = some 1 ∧ s.clientPool.getConn (intOfU32 runSeven.nodeId) = none :=
    Runs.exists_of_run (by decide +kernel)
  exact ⟨s, hs, hopen, hnode, unknown_not_refused (.inr (.inl rfl)) rfl hunknown⟩

/-- With a CLI and no node: a RUN is not answered, a PUSH goes to a null connection. -/
theorem unknown_seven : ∃ s, Runs step (start "/lkp" 3) [.up 9 "127.0.0.1"] s ∧ s.SessionOpen 9 ∧
    ¬ CleanRefusal s runSeven {} ∧ ¬ CleanRefusal s pushSeven {} := by
  obtain ⟨s, hs, hopen, hsent, hrun, hpush⟩ : ∃ s, Runs step (start "/lkp" 3) [.up 9 "127.0.0.1"] s ∧
      s.SessionOpen 9 ∧ s.sent = [] ∧ ((s.onCommandMsg runSeven {}).toOption.map fun t => t.sent) = some [] ∧
      ((s.onCommandMsg pushSeven {}).toOption.map fun t => t.sent) = none :=
    Runs.exists_of_run (by decide +kernel)
  refine ⟨s, hs, hopen, ?_, ?_⟩
  · rintro ⟨t, cli, r, ht, hret, -, -⟩
    rw [ht] at hrun
    rw [hsent] at hret
    simp [Except.toOption, hret] at hrun
  · rintro ⟨t, cli, r, ht, -, -, -⟩
    rw [ht] at hpush
    cases hpush

/-! ## Files that do not open -/

/-- The targets that got one of the messages `ms`. -/
def receivers (s : LkpServer) (message : Command) (ms : List (ConnId × Message)) : List (ℤ × ConnId) :=
  (s.targets message).filter fun it => it.2 ∈ ms.map Prod.fst

/-- A push that sends `ms` is whole: all targets get the file, or none gets anything of
    it, and the CLI gets one Return once all that were sent the file have answered. -/
structure WholePush (s s₀ : LkpServer) (cli : ConnId) (message : Command) (ms : List (ConnId × Message)) :
    Prop where
  sent : s₀.sent = s.sent ++ ms
  whole : (∀ it ∈ s.targets message, ∃ f, (it.2, .file f) ∈ ms) ∨ ∀ c f, (c, .file f) ∉ ms
  returned : ∀ es t (outcome : ℤ → Bool × String), Runs step s₀ es t →
    EachState step s₀ es (fun u => u.SessionOpen cli) → (∀ e ∈ es, isCommand e = false) →
    (answers es).Perm ((s.receivers message ms).map fun it =>
      (it.2, answerMessage .PUSH it.1 (outcome it.1))) →
    ∃ r, r.command = .PUSH ∧ t.returns = s.returns ++ [(cli, r)]

theorem mem_tells {u : LkpServer} {tell : ℤ → Message} {its : List (ℤ × ConnId)} {m : ConnId × Message}
    (h : m ∈ u.tells tell its) : ∃ it ∈ its, m = (it.2, tell it.1) := by
  simp only [tells] at h
  obtain ⟨it, hit, rfl⟩ := List.mem_map.1 h
  exact ⟨it, (List.mem_filter.1 hit).1, rfl⟩

/-- What the step of a push with present targets does. -/
theorem pushed_step {cli : ConnId} {message : Command} {env : Env} (hpush : message.command = .PUSH)
    (htargets : message.sendToAll = true ∨ s.targets message ≠ [])
    (hsend : s.step (.message cli (.command message) env) = some t) : Pushed s t message env := by
  have hstep : s.onCommandMsg message env = .ok t := (step_eq_some.1 hsend).2
  simp only [onCommandMsg] at hstep
  rw [hpush] at hstep
  exact pushed_pushToClient htargets hstep

theorem Pushed.returns {message : Command} {env : Env} (h : Pushed s t message env) :
    t.returns = s.returns := by
  rw [LkpServer.returns, LkpServer.returns, h.sent, List.filterMap_append, List.append_right_eq_self,
    List.filterMap_eq_nil_iff]
  intro m hm
  obtain ⟨it, -, rfl⟩ := mem_tells hm
  rfl

/-- The session of the CLI stays open over its command. -/
theorem Pushed.sessionOpen {cli : ConnId} {message : Command} {env : Env} (h : Pushed s t message env)
    (hm : t.members = s.members) (hopen : s.SessionOpen cli) : t.SessionOpen cli :=
  ⟨(congrArg Members.cmd hm).trans hopen.1, (h.connected cli).trans hopen.2⟩

/-- **A push without the file for some target is not whole.** -/
theorem not_wholePush {root : String} {serverTimeControl : ℕ} {es₀ : List ServerEvent} {s₀ : LkpServer}
    {cli : ConnId} {message : Command} {env : Env} (hreach : Runs step (start root serverTimeControl) es₀ s)
    (hpush : message.command = .PUSH) (htargets : message.sendToAll = true ∨ s.targets message ≠ [])
    (hopen : s.SessionOpen cli) (hsend : s.step (.message cli (.command message) env) = some s₀)
    (hfail : ∃ it ∈ s.targets message, env.opens it.1 = false) (ms : List (ConnId × Message)) :
    ¬ WholePush s s₀ cli message ms := by
  rintro ⟨hsent, hwhole, hreturned⟩
  have hb := base_of_runs hreach
  have hpushed := pushed_step hpush htargets hsend
  have hm : s₀.members = s.members := members_onCommandMsg (step_eq_some.1 hsend).2
  obtain rfl : ms = s.tells (fun id => .file (pushPatch message env id)) (s.opened message env) :=
    List.append_cancel_left (hsent.symm.trans hpushed.sent)
  rcases hwhole with hall | hnone
  · -- the target whose file does not open is not among those told
    obtain ⟨it, hit, hfit⟩ := hfail
    obtain ⟨f, hf⟩ := hall it hit
    obtain ⟨it', hit', he⟩ := mem_tells hf
    have hconn : it.2 = it'.2 := congrArg Prod.fst he
    obtain rfl : it = it' := by
      refine List.inj_on_of_nodup_map (targets_conns_nodup hb message) hit ?_ hconn
      exact (List.takeWhile_prefix _).subset hit'
    rw [List.mem_takeWhile_imp hit'] at hfit
    cases hfit
  · -- nobody was sent anything, and no Return either
    have hnil : s.tells (fun id => .file (pushPatch message env id)) (s.opened message env) = [] := by
      refine List.eq_nil_iff_forall_not_mem.2 ?_
      intro m hm
      obtain ⟨it, -, rfl⟩ := mem_tells hm
      exact hnone _ _ hm
    obtain ⟨r, -, hr⟩ := hreturned [] s₀ (fun _ => (true, "")) .nil
      (EachState.nil_iff.2 (hpushed.sessionOpen hm hopen)) (by simp) (by rw [hnil]; simp [receivers, answers])
    rw [hpushed.returns] at hr
    simpa using congrArg List.length hr

/-- The targets up to a file that does not open are fewer than the targets. -/
theorem length_opened_lt {message : Command} {env : Env}
    (hfail : ∃ it ∈ s.targets message, env.opens it.1 = false) :
    (s.opened message env).length < (s.targets message).length := by
  have hle : (s.opened message env).length ≤ (s.targets message).length :=
    (List.takeWhile_prefix _).length_le
  refine lt_of_le_of_ne hle ?_
  intro heq
  obtain ⟨it, hit, hfit⟩ := hfail
  have hall := List.takeWhile_eq_self_iff.1 ((List.takeWhile_prefix _).eq_of_length heq)
  rw [hall it hit] at hfit
  cases hfit

/-- **A push left at a file that does not open is never answered**, not even when all
    the nodes that were sent the file have answered: their number is not the one that
    the server waits for. -/
theorem cutPush_unanswered {cli : ConnId} {message : Command} {env : Env} {es : List ServerEvent}
    {s₀ : LkpServer} (hpush : message.command = .PUSH)
    (htargets : message.sendToAll = true ∨ s.targets message ≠ [])
    (hsend : s.step (.message cli (.command message) env) = some s₀)
    (hfail : ∃ it ∈ s.targets message, env.opens it.1 = false) (hrun : Runs step s₀ es t)
    (hopen : EachState step s₀ es fun u => u.SessionOpen cli) (hno : ∀ e ∈ es, isCommand e = false)
    (hkind : ∀ a ∈ answers es, commandOf a.2 = .PUSH)
    (hfew : (answers es).length ≤ (s.opened message env).length) : t.returns = s.returns := by
  have hpushed := pushed_step hpush htargets hsend
  obtain ⟨vs, hvs, -, -, hret⟩ := runs_answers hrun hopen hno hkind
  have hlt := length_opened_lt hfail
  have hnum := length_targets htargets
  have hvlen := hvs.length_eq
  rw [hret, hpushed.returns, hpushed.tally, Gather.completions_of_lt, List.map_nil, List.append_nil]
  rw [Gather.new_acks, Gather.new_num]
  omega

/-- A push whose file opens for all its targets, all of them connected, is whole. -/
theorem wholePush_of_opens {cli : ConnId} {message : Command} {env : Env} {s₀ : LkpServer}
    (hpush : message.command = .PUSH) (hne : s.targets message ≠ [])
    (hup : ∀ it ∈ s.targets message, (s.conns it.2).connected = true)
    (hopens : ∀ it ∈ s.targets message, env.opens it.1 = true)
    (hsend : s.step (.message cli (.command message) env) = some s₀) :
    WholePush s s₀ cli message
      ((s.targets message).map fun it => (it.2, .file (pushPatch message env it.1))) := by
  have hpushed := pushed_step hpush (.inr hne) hsend
  have hall : s.opened message env = s.targets message := List.takeWhile_eq_self_iff.2 hopens
  have hsent := hpushed.sent
  rw [hall, tells_connected hup] at hsent
  refine ⟨hsent, .inl fun it hit => ⟨_, List.mem_map_of_mem hit⟩, ?_⟩
  intro es t outcome hrun hopen hno hans
  have hreceivers : s.receivers message
      ((s.targets message).map fun it => (it.2, .file (pushPatch message env it.1))) = s.targets message := by
    refine List.filter_eq_self.2 fun it hit => ?_
    rw [List.map_map]
    exact decide_eq_true (List.mem_map_of_mem (f := Prod.snd) hit)
  rw [hreceivers] at hans
  have hkind : ∀ a ∈ answers es, commandOf a.2 = .PUSH := by
    intro a ha
    obtain ⟨it, -, rfl⟩ := List.mem_map.1 (hans.mem_iff.1 ha)
    exact commandOf_answerMessage .PUSH it.1 (outcome it.1)
  have htally : s₀.tally = Gather.new (s.targets message).length := by
    rw [hpushed.tally, length_targets (.inr hne)]
  have hlen : (answers es).length = (s.targets message).length := by
    rw [hans.length_eq, List.length_map]
  rw [← hpushed.returns]
  exact ⟨_, rfl, returns_of_all hrun hopen hno hkind htally hlen (List.length_pos_iff.2 hne)⟩

/-- **A push that cannot open its file** has no partial effect iff that does not happen:
    every file opens for the targets. -/
theorem wholePush_iff {root : String} {serverTimeControl : ℕ} {es₀ : List ServerEvent} {s₀ : LkpServer}
    {cli : ConnId} {message : Command} {env : Env} (hreach : Runs step (start root serverTimeControl) es₀ s)
    (hpush : message.command = .PUSH) (htargets : message.sendToAll = true ∨ s.targets message ≠ [])
    (hopen : s.SessionOpen cli) (hsend : s.step (.message cli (.command message) env) = some s₀) :
    ((∃ it ∈ s.targets message, env.opens it.1 = false) → ∃ ms, WholePush s s₀ cli message ms) ↔
      ∀ it ∈ s.targets message, env.opens it.1 = true := by
  constructor
  · intro himp it hit
    by_contra hopens
    have hfail : ∃ it ∈ s.targets message, env.opens it.1 = false := ⟨it, hit, by simpa using hopens⟩
    obtain ⟨ms, hms⟩ := himp hfail
    exact not_wholePush hreach hpush htargets hopen hsend hfail ms hms
  · rintro hopens ⟨it, hit, hfit⟩
    rw [hopens it hit] at hfit
    cases hfit

def pushTo (nodeID : UInt32) : Command := { command := .PUSH, nodeId := nodeID, testcase := "job" }

/-- The file does not open for the only target. -/
theorem wholePush_iff_unicast : ∃ s s₀, Runs step (start "/lkp" 3) twoNodes s ∧
    s.step (.message 9 (.command (pushTo 1)) { opens := fun _ => false }) = some s₀ ∧
    ¬ ∃ ms, WholePush s s₀ 9 (pushTo 1) ms := by
  obtain ⟨s, hs, hopen, htargets, s₀, hs₀, -⟩ : ∃ s, Runs step (start "/lkp" 3) twoNodes s ∧
      s.SessionOpen 9 ∧ s.targets (pushTo 1) = [(1, 2)] ∧
      ∃ s₀ ∈ s.step (.message 9 (.command (pushTo 1)) { opens := fun _ => false }), s₀.sent = [] :=
    Runs.exists_of_run (by decide +kernel)
  have hiff := wholePush_iff hs rfl (.inr (by rw [htargets]; exact nofun)) hopen hs₀
  refine ⟨s, s₀, hs, hs₀, ?_⟩
  intro hwhole
  cases hiff.1 (fun _ => hwhole) (1, 2) (by rw [htargets]; simp)

def pushEvery : Command := { command := .PUSH, sendToAll := true, testcase := "job" }

/-- The file opens for the first of two nodes only: that node has its first patch, the
    other one nothing. -/
theorem cutPush_twoNodes : ∃ s s₀ f, Runs step (start "/lkp" 3) twoNodes s ∧
    s.step (.message 9 (.command pushEvery) { opens := fun id => id = 0 }) = some s₀ ∧
    s₀.sent = [(1, .file f)] ∧ s₀.clientNum = 2 ∧ ¬ ∃ ms, WholePush s s₀ 9 pushEvery ms := by
  obtain ⟨s, hs, hopen, htargets, s₀, hs₀, hnum, hsent⟩ : ∃ s, Runs step (start "/lkp" 3) twoNodes s ∧
      s.SessionOpen 9 ∧ s.targets pushEvery = [(0, 1), (1, 2)] ∧
      ∃ s₀ ∈ s.step (.message 9 (.command pushEvery) { opens := fun id => id = 0 }), s₀.clientNum = 2 ∧
        s₀.sent = [(1, .file (pushPatch pushEvery {} 0))] :=
    Runs.exists_of_run (by decide +kernel)
  refine ⟨s, s₀, _, hs, hs₀, hsent, hnum, ?_⟩
  rintro ⟨ms, hms⟩
  have hfail : ∃ it ∈ s.targets pushEvery, decide (it.1 = 0) = false :=
    ⟨(1, 2), by rw [htargets]; simp, rfl⟩
  exact not_wholePush hs rfl (.inl rfl) hopen hs₀ hfail ms hms

end LkpServer

end LkpExtent
