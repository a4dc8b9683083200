/-
  LkpExtent formalization — the counters of the server gather the answers to a command.

  * `tally`: the counters and the messages of the nodes, as a `Gather`;
  * `returns`, `announced`: of the messages sent, the Returns, and the commands and
    first patches;
  * `step_quiet`: an event that is neither a command nor an answer changes none of
    them;  `step_answer`: an answer is counted, and the Return is sent if it is the
    last one;
  * `runs_answers`: what the answers of a whole run amount to.
-/
import LkpExtent.Lib.Gather
import LkpExtent.Lib.Runs
import LkpExtent.Members

namespace LkpExtent

open Lib

/-- The message of an event if it is an answer, with its connection. -/
def answer? : ServerEvent → Option (ConnId × Message)
  | .message c (.commandACK m) _ => some (c, .commandACK m)
  | .message c (.pushACK m) _ => some (c, .pushACK m)
  | .message c (.file m) _ => if m.fileType = .END then some (c, .file m) else none
  | _ => none

def isCommand : ServerEvent → Bool
  | .message _ (.command _) _ => true
  | _ => false

theorem eq_message_of_answer {e : ServerEvent} {a : ConnId × Message} (h : answer? e = some a) :
    ∃ env, e = .message a.1 a.2 env := by
  cases e with
  | message c m env =>
    refine ⟨env, ?_⟩
    cases m with
    | commandACK m => cases h; rfl
    | pushACK m => cases h; rfl
    | file m =>
      simp only [answer?] at h
      split_ifs at h
      cases h; rfl
    | _ => cases h
  | _ => cases h

/-- The command that the Return names when this answer is the last one. -/
def commandOf : Message → CommandID
  | .commandACK m => m.command
  | .pushACK _ => .PUSH
  | .file _ => .RESULT
  | _ => .UPDATE

/-- What an ACK says of its node. -/
def ackVote (status : Bool) (nodeID : UInt32) (ackMessage : String) : Vote ℤ String :=
  ⟨intOfU32 nodeID, if status then none else some ackMessage⟩

/-- What an answer says of its node; the END of a file succeeds or fails with the
    server's check of the file. -/
def VotesAs : Message → Vote ℤ String → Prop
  | .commandACK m, v => v = ackVote m.status m.nodeId m.ackMessage
  | .pushACK m, v => v = ackVote m.status m.nodeId m.ackMessage
  | .file m, v => v.key = intOfU32 m.nodeId ∧ (v.fault = none ∨ v.fault = some "file is not completed")
  | _, _ => False

/-- A node is told of a command: the command itself, or the first patch of a push. -/
def isAnnouncement : Message → Bool
  | .command _ => true
  | .file m => m.firstPatch
  | _ => false

/-- The Return made of gathered answers. -/
def retOf (g : Gather ℤ String) (command : CommandID) : Return where
  command
  clientNum := u32 g.num
  clientOkNum := u32 g.ok
  nodeInfo := g.info.toList.map fun info => ⟨u32 info.1, info.2⟩

namespace LkpServer
variable {s t : LkpServer}

def tally (s : LkpServer) : Gather ℤ String := ⟨s.clientNum, s.ackTimes, s.clientOKNum, s.clientPool.nodeInfo⟩

/-- The Returns sent. -/
def returns (s : LkpServer) : List (ConnId × Return) := s.sent.filterMap fun
  | (c, .ret r) => some (c, r)
  | _ => none

/-- The commands and first patches sent. -/
def announced (s : LkpServer) : List (ConnId × Message) := s.sent.filter fun m => isAnnouncement m.2

theorem returnOf_eq (command : CommandID) : s.returnOf command = retOf s.tally command := rfl

/-! ## What is sent -/

@[simp] theorem tally_send (conn : ConnId) (message : Message) : (s.send conn message).tally = s.tally := rfl

@[simp] theorem returns_send_ret (conn : ConnId) (r : Return) :
    (s.send conn (.ret r)).returns = s.returns ++ [(conn, r)] := by
  simp [returns, send]

@[simp] theorem returns_send_command (conn : ConnId) (m : Command) :
    (s.send conn (.command m)).returns = s.returns := by
  simp [returns, send]

@[simp] theorem returns_send_file (conn : ConnId) (m : File) :
    (s.send conn (.file m)).returns = s.returns := by
  simp [returns, send]

theorem announced_send (conn : ConnId) (message : Message) : (s.send conn message).announced =
    s.announced ++ if isAnnouncement message then [(conn, message)] else [] := by
  simp only [announced, send, List.filter_append, List.filter_singleton]
  cases isAnnouncement message <;> rfl

theorem connected_setConn {conn : ConnId} {c : TcpConnection Entry} (h : c.state = (s.conns conn).state)
    (d : ConnId) : ((s.setConn conn c).conns d).connected = (s.conns d).connected := by
  by_cases hd : d = conn
  · subst hd; rw [setConn_conns, TcpConnection.connected, h]; rfl
  · rw [setConn_conns_of_ne hd]

@[simp] theorem connected_send (conn : ConnId) (message : Message) (d : ConnId) :
    ((s.send conn message).conns d).connected = (s.conns d).connected :=
  connected_setConn (c := (s.conns conn).send) rfl d

/-! ## What leaves the answers unchanged -/

/-- No answer is counted, no Return and no announcement is sent. -/
structure Quiet (s t : LkpServer) : Prop where
  tally : t.tally = s.tally
  returns : t.returns = s.returns
  announced : t.announced = s.announced

theorem Quiet.refl (s : LkpServer) : Quiet s s := ⟨rfl, rfl, rfl⟩

theorem Quiet.trans {u : LkpServer} (h : Quiet s t) (h' : Quiet t u) : Quiet s u :=
  ⟨h'.tally.trans h.tally, h'.returns.trans h.returns, h'.announced.trans h.announced⟩

theorem quiet_setConn (conn : ConnId) (c : TcpConnection Entry) : Quiet s (s.setConn conn c) :=
  ⟨rfl, rfl, rfl⟩

theorem quiet_send_file {conn : ConnId} {m : File} (h : m.firstPatch = false) :
    Quiet s (s.send conn (.file m)) :=
  ⟨rfl, returns_send_file conn m, by rw [announced_send]; simp [isAnnouncement, h]⟩

theorem quiet_sendToClient_file {conn : Option ConnId} {m : File} (h : m.firstPatch = false) :
    Quiet s (s.sendToClient (.file m) conn) := by
  simp only [sendToClient]
  cases conn with
  | none => exact .refl s
  | some conn =>
    simp only
    split_ifs
    · exact quiet_send_file h
    · exact .refl s

theorem quiet_insertEntry {entry : Entry} (h : s.insertEntry entry = .ok t) : Quiet s t := by
  obtain ⟨back, rest, -, rfl⟩ := insertEntry_ok h
  exact ⟨rfl, rfl, rfl⟩

theorem add_nodeInfo (p : LkpClientPool) (conn : ConnId) : (p.add conn).2.nodeInfo = p.nodeInfo := by
  simp only [LkpClientPool.add]
  cases p.idleNodeID.toList.head? <;> rfl

theorem del_nodeInfo (p : LkpClientPool) (nodeID : ℤ) : (p.del nodeID).2.nodeInfo = p.nodeInfo := by
  simp only [LkpClientPool.del]
  split_ifs <;> rfl

theorem quiet_clientPool {p : LkpClientPool} (h : p.nodeInfo = s.clientPool.nodeInfo) :
    Quiet s { s with clientPool := p } := by
  refine ⟨?_, rfl, rfl⟩
  simp only [LkpServer.tally, h]

theorem quiet_onConnection {conn : ConnId} (h : s.onConnection conn = .ok t) : Quiet s t := by
  simp only [onConnection] at h
  split_ifs at h
  · cases h; exact ⟨rfl, rfl, rfl⟩
  · split at h <;> cases h
    exact quiet_setConn _ _
  · rcases hadd : s.clientPool.add conn with ⟨nodeID, clientPool⟩
    rw [hadd] at h
    obtain ⟨u, hu, h⟩ := bind_ok h
    cases h
    have hp : clientPool.nodeInfo = s.clientPool.nodeInfo := by
      rw [← add_nodeInfo s.clientPool conn, hadd]
    exact ((quiet_clientPool hp).trans (quiet_insertEntry hu)).trans (quiet_setConn _ _)
  · cases h; exact ⟨rfl, rfl, rfl⟩
  · split at h
    · cases h
    · split_ifs at h
      cases h
      exact quiet_clientPool (del_nodeInfo _ _)

theorem quiet_onHeartBeat {conn : ConnId} (h : s.onHeartBeat conn = .ok t) : Quiet s t := by
  simp only [onHeartBeat] at h
  split at h
  · cases h
  · split_ifs at h
    · exact quiet_insertEntry h
    · cases h; exact .refl s

theorem quiet_destroy (entry : Entry) : Quiet s (s.destroy entry) := by
  simp only [destroy]
  split_ifs
  · exact (quiet_setConn _ _).trans (quiet_clientPool (del_nodeInfo _ _))
  · exact .refl s

theorem quiet_onTimer (order : List Entry) : Quiet s (s.onTimer order) := by
  simp only [onTimer]
  have h₀ : Quiet s s.pushBucket := ⟨rfl, rfl, rfl⟩
  generalize s.pushBucket = u at h₀
  induction order generalizing u with
  | nil => exact h₀
  | cons entry order ih => exact ih _ (h₀.trans (quiet_destroy entry))

theorem quiet_fcloseOutput {conn : ConnId} (h : s.fcloseOutput conn = .ok t) : Quiet s t := by
  simp only [fcloseOutput] at h
  split at h
  · split_ifs at h; cases h; exact ⟨rfl, rfl, rfl⟩
  · cases h

theorem quiet_fwriteOutput {conn : ConnId} {message : File} {env : Env}
    (h : s.fwriteOutput conn message env = .ok t) : Quiet s t := by
  simp only [fwriteOutput] at h
  split at h
  · split_ifs at h; cases h; exact ⟨rfl, rfl, rfl⟩
  · cases h

theorem quiet_onFileMsg {conn : ConnId} {message : File} {env : Env} (hne : message.fileType ≠ .END)
    (h : s.onFileMsg conn message env = .ok t) : Quiet s t := by
  simp only [onFileMsg] at h
  rw [if_neg hne] at h
  have hopen : Quiet s ((s.announce conn message).openOutput conn) := ⟨rfl, rfl, rfl⟩
  split_ifs at h
  · exact hopen.trans (quiet_fwriteOutput h)
  · cases h; exact ⟨rfl, rfl, rfl⟩
  · exact quiet_fwriteOutput h

theorem nextPatch_firstPatch {fileType : FileType} {fp stack rest : Bytes} {m : File}
    (h : nextPatch fileType fp stack = some (m, rest)) : m.firstPatch = false := by
  by_cases hfp : fp = []
  · rw [nextPatch_eq_none.2 hfp] at h; cases h
  · rw [nextPatch_of_ne_nil hfp] at h
    cases h; rfl

theorem quiet_onWriteComplete {conn : ConnId} {stack : Bytes} (h : s.onWriteComplete conn stack = .ok t) :
    Quiet s t := by
  simp only [onWriteComplete] at h
  split at h
  · split at h
    · rename_i hp
      cases h
      refine Quiet.trans ?_ (quiet_sendToClient_file (nextPatch_firstPatch hp))
      exact ⟨rfl, rfl, rfl⟩
    · cases h
      refine Quiet.trans ?_ (quiet_sendToClient_file rfl)
      exact ⟨rfl, rfl, rfl⟩
  · cases h

/-- **An event that is neither a command nor an answer is quiet.** -/
theorem step_quiet {e : ServerEvent} (hs : s.step e = some t) (hc : isCommand e = false)
    (ha : answer? e = none) : Quiet s t := by
  obtain ⟨-, h⟩ := step_eq_some.1 hs
  cases e with
  | up c ip => exact (quiet_setConn _ _).trans (quiet_onConnection h)
  | down c => exact (quiet_setConn _ _).trans (quiet_onConnection h)
  | message c m env =>
    cases m with
    | command m => cases hc
    | file m =>
      refine quiet_onFileMsg ?_ h
      intro hend
      simp [answer?, hend] at ha
    | commandACK m => cases ha
    | heartBeat m => exact quiet_onHeartBeat h
    | pushACK m => cases ha
    | ret m => cases h; exact quiet_setConn _ _
  | written c => cases h; exact quiet_setConn _ _
  | writeComplete c stack => exact (quiet_setConn _ _).trans (quiet_onWriteComplete h)
  | timer order => cases h; exact quiet_onTimer order

/-! ## What an answer does -/

/-- The session of this CLI is open. -/
def SessionOpen (s : LkpServer) (cli : ConnId) : Prop :=
  s.CmdConnection = some cli ∧ (s.conns cli).connected = true

instance (s : LkpServer) (cli : ConnId) : Decidable (s.SessionOpen cli) := inferInstanceAs (Decidable (_ ∧ _))

theorem replyIfComplete_eq {cli : ConnId} (h : s.SessionOpen cli) (command : CommandID) :
    s.replyIfComplete command =
      .ok (if s.ackTimes = s.clientNum then s.send cli (.ret (retOf s.tally command)) else s) := by
  simp only [replyIfComplete]
  split_ifs
  · simp only [sendToCmdClient]
    rw [h.1]
    simp only [h.2, if_true, returnOf_eq]
  · rfl

theorem tally_replyIfComplete {command : CommandID} (h : s.replyIfComplete command = .ok t) :
    t.tally = s.tally := by
  simp only [replyIfComplete] at h
  split_ifs at h
  · simp only [sendToCmdClient] at h
    split at h
    · cases h
      split_ifs <;> rfl
    · cases h
  · cases h; rfl

/-- An answer has been counted, and nothing has been sent. -/
structure Counts (s u : LkpServer) (m : Message) (v : Vote ℤ String) : Prop where
  votes : VotesAs m v
  tally : u.tally = s.tally.count v
  sent : u.sent = s.sent
  cmd : u.CmdConnection = s.CmdConnection
  conns : u.conns = s.conns

theorem tally_countAnswer (status : Bool) (nodeID : UInt32) (ackMessage : String) :
    (s.countAnswer status nodeID ackMessage).tally = s.tally.count (ackVote status nodeID ackMessage) := by
  cases status <;> rfl

theorem countAnswer_frame (status : Bool) (nodeID : UInt32) (ackMessage : String) :
    (s.countAnswer status nodeID ackMessage).CmdConnection = s.CmdConnection ∧
      (s.countAnswer status nodeID ackMessage).conns = s.conns ∧
      (s.countAnswer status nodeID ackMessage).sent = s.sent := by
  cases status <;> exact ⟨rfl, rfl, rfl⟩

theorem counts_ack {m : Message} {status : Bool} {nodeID : UInt32} {ackMessage : String}
    (hv : VotesAs m (ackVote status nodeID ackMessage)) :
    Counts s (s.countAnswer status nodeID ackMessage) m (ackVote status nodeID ackMessage) := by
  obtain ⟨hcmd, hconns, hsent⟩ := countAnswer_frame (s := s) status nodeID ackMessage
  exact ⟨hv, tally_countAnswer _ _ _, hsent, hcmd, hconns⟩

/-- What the check of a received file adds to the answer counted before. -/
theorem tally_checkComplete (conn : ConnId) (message : File) (env : Env) :
    ∃ v, VotesAs (.file message) v ∧ ∀ g : Gather ℤ String, s.tally = { g with acks := g.acks + 1 } →
      (s.checkComplete conn message env).tally = g.count v := by
  simp only [checkComplete]
  split_ifs
  · refine ⟨⟨intOfU32 message.nodeId, some "file is not completed"⟩, ⟨rfl, .inr rfl⟩, ?_⟩
    intro g hg
    show { s.tally with info := s.tally.info.insert (intOfU32 message.nodeId) "file is not completed" } = _
    rw [hg]; rfl
  · refine ⟨⟨intOfU32 message.nodeId, none⟩, ⟨rfl, .inl rfl⟩, ?_⟩
    intro g hg
    show { s.tally with ok := s.tally.ok + 1 } = _
    rw [hg]; rfl

theorem checkComplete_frame (conn : ConnId) (message : File) (env : Env) :
    (s.checkComplete conn message env).CmdConnection = s.CmdConnection ∧
      (s.checkComplete conn message env).conns = s.conns ∧
      (s.checkComplete conn message env).sent = s.sent := by
  simp only [checkComplete]
  split_ifs <;> exact ⟨rfl, rfl, rfl⟩

theorem counts_end {conn : ConnId} {message : File} {env : Env} (hend : message.fileType = .END)
    (h : s.onFileMsg conn message env = .ok t) :
    ∃ u v, Counts s u (.file message) v ∧ u.replyIfComplete .RESULT = .ok t := by
  simp only [onFileMsg] at h
  rw [if_pos hend] at h
  obtain ⟨u, hu, h⟩ := bind_ok h
  have hcmd : u.CmdConnection = s.CmdConnection ∧ u.conns = s.conns ∧ u.sent = s.sent := by
    simp only [fcloseOutput] at hu
    split at hu
    · split_ifs at hu; cases hu; exact ⟨rfl, rfl, rfl⟩
    · cases hu
  obtain ⟨v, hv, hcheck⟩ := tally_checkComplete (s := u) conn message env
  obtain ⟨hc, hconns, hsent⟩ := checkComplete_frame (s := u) conn message env
  exact ⟨_, v, ⟨hv, hcheck s.tally (quiet_fcloseOutput hu).tally, hsent.trans hcmd.2.2, hc.trans hcmd.1,
    hconns.trans hcmd.2.1⟩, h⟩

/-- **An answer is counted**, and then the Return is sent if it is the last one. -/
theorem step_counts {e : ServerEvent} {c : ConnId} {m : Message} (hs : s.step e = some t)
    (ha : answer? e = some (c, m)) :
    ∃ u v, Counts s u m v ∧ u.replyIfComplete (commandOf m) = .ok t := by
  obtain ⟨-, h⟩ := step_eq_some.1 hs
  cases e with
  | message d message env =>
    cases message with
    | commandACK a => cases ha; exact ⟨_, _, counts_ack rfl, h⟩
    | pushACK a => cases ha; exact ⟨_, _, counts_ack rfl, h⟩
    | file f =>
      by_cases hend : f.fileType = .END
      · rw [answer?, if_pos hend] at ha
        cases ha
        exact counts_end hend h
      · rw [answer?, if_neg hend] at ha; cases ha
    | command _ => cases ha
    | heartBeat _ => cases ha
    | ret _ => cases ha
  | _ => cases ha

theorem Counts.returns {u : LkpServer} {m : Message} {v : Vote ℤ String} (h : Counts s u m v) :
    u.returns = s.returns := by rw [LkpServer.returns, h.sent]; rfl

theorem Counts.announced {u : LkpServer} {m : Message} {v : Vote ℤ String} (h : Counts s u m v) :
    u.announced = s.announced := by rw [LkpServer.announced, h.sent]; rfl

theorem Counts.last_iff {u : LkpServer} {m : Message} {v : Vote ℤ String} (h : Counts s u m v) :
    u.ackTimes = u.clientNum ↔ s.tally.acks + 1 = s.tally.num := by
  rw [show u.ackTimes = u.tally.acks from rfl, show u.clientNum = u.tally.num from rfl, h.tally,
    Gather.count_acks, Gather.count_num]

/-- The server once an answer has been handled during the session of `cli`. -/
structure Counted (s t : LkpServer) (cli : ConnId) (m : Message) (v : Vote ℤ String) : Prop where
  votes : VotesAs m v
  tally : t.tally = s.tally.count v
  announced : t.announced = s.announced
  returns : t.returns = s.returns ++
    if s.tally.acks + 1 = s.tally.num then [(cli, retOf t.tally (commandOf m))] else []

theorem step_answer {e : ServerEvent} {cli c : ConnId} {m : Message} (hs : s.step e = some t)
    (ha : answer? e = some (c, m)) (hopen : s.SessionOpen cli) : ∃ v, Counted s t cli m v := by
  obtain ⟨u, v, hu, h⟩ := step_counts hs ha
  have hopenu : u.SessionOpen cli := ⟨hu.cmd.trans hopen.1, by rw [hu.conns]; exact hopen.2⟩
  rw [replyIfComplete_eq hopenu] at h
  cases h
  refine ⟨v, hu.votes, ?_, ?_, ?_⟩
  · split_ifs
    · exact hu.tally
    · exact hu.tally
  · split_ifs
    · rw [announced_send, hu.announced]; simp [isAnnouncement]
    · exact hu.announced
  · by_cases hlast : s.tally.acks + 1 = s.tally.num
    · rw [if_pos (hu.last_iff.2 hlast), if_pos hlast, returns_send_ret, hu.returns, tally_send]
    · rw [if_neg (mt hu.last_iff.1 hlast), if_neg hlast, hu.returns, List.append_nil]

/-! ## What the answers of a run amount to -/

/-- The answers handled in a run. -/
def answers (es : List ServerEvent) : List (ConnId × Message) := es.filterMap answer?

theorem answers_snoc (es : List ServerEvent) (e : ServerEvent) :
    answers (es ++ [e]) = answers es ++ (answer? e).toList := by
  simp only [answers]
  rw [List.filterMap_append]
  cases h : answer? e <;> simp [h]

/-- **The answers of a run**: each is counted once, the Returns are those of the
    completed gatherings, and no node is told of a command. -/
theorem runs_answers {es : List ServerEvent} {cli : ConnId} {command : CommandID} (h : Runs step s es t)
    (hopen : EachState step s es (fun u => u.SessionOpen cli)) (hcmd : ∀ e ∈ es, isCommand e = false)
    (hans : ∀ a ∈ answers es, commandOf a.2 = command) :
    ∃ vs, List.Forall₂ (fun a v => VotesAs a.2 v) (answers es) vs ∧ t.tally = s.tally.counts vs ∧
      t.announced = s.announced ∧
      t.returns = s.returns ++ (s.tally.completions vs).map fun p => (cli, retOf p.1 command) := by
  induction h with
  | nil => exact ⟨[], .nil, rfl, rfl, by simp [Gather.completions]⟩
  | @snoc es t u e h he ih =>
    rw [EachState.snoc_iff (h.snoc he)] at hopen
    have hopent := hopen.1 es [] t (by simp) h
    have hce := hcmd e (by simp)
    rw [answers_snoc] at hans ⊢
    obtain ⟨vs, hvs, htally, hann, hret⟩ := ih hopen.1 (fun e' he' => hcmd e' (by simp [he']))
      fun a ha => hans a (by simp [ha])
    cases hae : answer? e with
    | none =>
      have hq := step_quiet he hce hae
      rw [Option.toList_none, List.append_nil]
      exact ⟨vs, hvs, hq.tally.trans htally, hq.announced.trans hann, hq.returns.trans hret⟩
    | some a =>
      obtain ⟨v, hv⟩ := step_answer he hae hopent
      rw [hae, Option.toList_some] at hans
      have hcom := hans a (by simp)
      rw [Option.toList_some]
      refine ⟨vs ++ [v], List.rel_append hvs (.cons hv.votes .nil), ?_, hv.announced.trans hann, ?_⟩
      · rw [hv.tally, htally, Gather.counts_append]; rfl
      · rw [hv.returns, hret, Gather.completions_concat, List.map_append, ← List.append_assoc, htally, hcom,
          Gather.counts_acks, Gather.counts_num, hv.tally, htally]
        congr 1
        rw [Gather.counts_append]
        split_ifs <;> rfl

end LkpServer

end LkpExtent
