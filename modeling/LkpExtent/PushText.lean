/-
  LkpExtent formalization — one undisturbed push of a test case to a node.

  The mirror of the transfer of a result file: the server sends, and the client writes
  `patch_len` bytes from the content on.

  * `Pushing`, `LkpClient.Receiving`: the server and the client between two messages;
  * `Pushes`: a push, from the PUSH command to the END message;
  * `pushText`: a file without NUL arrives, and is acknowledged once.
-/
import LkpExtent.Members
import LkpExtent.NodeAnswers
import LkpExtent.Transfer

namespace LkpExtent

open Lib

/-! ## The server -/

namespace LkpServer
variable {s t : LkpServer} {conn : ConnId} {rest : Bytes}

/-- The server has sent a message of a push to the connection; `rest` is not read yet. -/
structure Pushing (conn : ConnId) (s : LkpServer) (rest : Bytes) : Prop where
  connected : (s.conns conn).connected = true
  callback : (s.conns conn).writeCompleteCallback = true
  output : (s.conns conn).output = true
  queued : (s.conns conn).queued = 0
  file : s.fpMap conn = some (some rest)

/-- The output of the connection is written, and the callback runs. -/
def completion (conn : ConnId) (stack : Bytes) : List ServerEvent := [.written conn, .writeComplete conn stack]

/-- A message sent to a connection that is up. -/
theorem sendToClient_up {u : LkpServer} {c : TcpConnection Entry} {file : Option (Option Bytes)}
    (hc : u.conns conn = c) (hup : c.connected = true) (hf : u.fpMap conn = file) (hs : u.sent = s.sent)
    (message : Message) :
    (u.sendToClient message (some conn)).conns conn = { c with output := true } ∧
      (u.sendToClient message (some conn)).fpMap conn = file ∧
      (u.sendToClient message (some conn)).sent = s.sent ++ [(conn, message)] := by
  subst hc
  have hsend : u.sendToClient message (some conn) = u.send conn message := if_pos hup
  rw [hsend, ← hs]
  exact ⟨setConn_conns _ _, hf, rfl⟩

theorem Pushing.written (h : Pushing conn s rest) :
    s.step (.written conn) = some (s.setConn conn (s.conns conn).written) := by
  have hup : (s.conns conn).isUp = true := (s.conns conn).isUp_of_connected h.connected
  simp [step, enabled, handle, hup, h.output, Except.toOption]

/-- A completion runs the callback, once the output has been taken off the connection. -/
theorem Pushing.completion (h : Pushing conn s rest) (stack : Bytes) :
    ∃ u : LkpServer, u.conns conn = { s.conns conn with output := false, queued := 0 } ∧
      u.fpMap = s.fpMap ∧ u.sent = s.sent ∧
      ∀ t, u.onWriteComplete conn stack = .ok t → Runs step s (LkpServer.completion conn stack) t := by
  let v := s.setConn conn (s.conns conn).written
  have hv : v.conns conn = { s.conns conn with output := false, queued := 1 } := by
    show Function.update s.conns conn (s.conns conn).written conn = _
    rw [Function.update_self, TcpConnection.written, if_pos h.callback, h.queued]
  refine ⟨v.setConn conn (v.conns conn).dequeue, ?_, rfl, rfl, ?_⟩
  · rw [setConn_conns, hv]
    rfl
  · intro t ht
    have hstep : v.step (.writeComplete conn stack) = some t := by
      refine step_eq_some.2 ⟨?_, ht⟩
      simp only [enabled, hv]
      decide
    exact Runs.append (.single h.written) (.single hstep)

/-- The callback sends the next chunk. -/
theorem onWriteComplete_chunk (hup : (s.conns conn).connected = true) (hf : s.fpMap conn = some (some rest))
    (hr : rest ≠ []) (stack : Bytes) : ∃ t, s.onWriteComplete conn stack = .ok t ∧
      t.conns conn = { s.conns conn with output := true } ∧
      t.fpMap conn = some (some (rest.drop kBufSize)) ∧
      t.sent = s.sent ++ [(conn, .file (patchOf .TESTCASE (rest.take kBufSize) stack))] := by
  simp only [onWriteComplete, touch, hf, Function.update_self, Option.getD_some, nextPatch_of_ne_nil hr]
  refine ⟨_, rfl, sendToClient_up (c := s.conns conn) ?_ hup ?_ ?_ _⟩
  · rfl
  · exact Function.update_self ..
  · rfl

/-- At the end of the file the callback is cleared and the END sent. -/
theorem onWriteComplete_end (hup : (s.conns conn).connected = true) (hf : s.fpMap conn = some (some []))
    (stack : Bytes) : ∃ t, s.onWriteComplete conn stack = .ok t ∧
      t.conns conn = { s.conns conn with writeCompleteCallback := false, output := true } ∧
      t.fpMap conn = some (some []) ∧ t.sent = s.sent ++ [(conn, .file endFile)] := by
  simp only [onWriteComplete, touch, hf, Function.update_self, Option.getD_some, nextPatch_nil]
  refine ⟨_, rfl, sendToClient_up (c := { s.conns conn with writeCompleteCallback := false }) ?_ hup ?_ ?_ _⟩
  · exact setConn_conns _ _
  · exact Function.update_self ..
  · rfl

theorem Pushing.chunk (h : Pushing conn s rest) (hr : rest ≠ []) (stack : Bytes) :
    ∃ t, Runs step s (LkpServer.completion conn stack) t ∧ Pushing conn t (rest.drop kBufSize) ∧
      t.sent = s.sent ++ [(conn, .file (patchOf .TESTCASE (rest.take kBufSize) stack))] := by
  obtain ⟨u, hu, hf, hs, hruns⟩ := h.completion stack
  have hup : (u.conns conn).connected = true := by rw [hu]; exact h.connected
  obtain ⟨t, ht, hconn, hfile, hsent⟩ := onWriteComplete_chunk hup (hf ▸ h.file) hr stack
  refine ⟨t, hruns t ht, ⟨?_, ?_, ?_, ?_, hfile⟩, by rw [hsent, hs]⟩
  · rw [hconn, hu]; exact h.connected
  · rw [hconn, hu]; exact h.callback
  · rw [hconn]
  · rw [hconn, hu]

theorem Pushing.finish (h : Pushing conn s []) (stack : Bytes) :
    ∃ t, Runs step s (LkpServer.completion conn stack) t ∧
      ((t.conns conn).writeCompleteCallback = false ∧ (t.conns conn).queued = 0) ∧
      t.sent = s.sent ++ [(conn, .file endFile)] := by
  obtain ⟨u, hu, hf, hs, hruns⟩ := h.completion stack
  have hup : (u.conns conn).connected = true := by rw [hu]; exact h.connected
  obtain ⟨t, ht, hconn, -, hsent⟩ := onWriteComplete_end hup (hf ▸ h.file) stack
  refine ⟨t, hruns t ht, ⟨?_, ?_⟩, by rw [hsent, hs]⟩
  · rw [hconn]
  · rw [hconn, hu]

theorem not_runs_completion (hcb : (s.conns conn).writeCompleteCallback = false) (hq : (s.conns conn).queued = 0)
    (stack : Bytes) (es : List ServerEvent) : ¬ Runs step s (LkpServer.completion conn stack ++ es) t := by
  intro h
  obtain ⟨s₁, h₁, h⟩ := h.cons_inv
  obtain ⟨s₂, h₂, -⟩ := h.cons_inv
  obtain ⟨-, h₁⟩ := step_eq_some.1 h₁
  obtain rfl : s.setConn conn (s.conns conn).written = s₁ := Except.ok.inj h₁
  have hen := (step_eq_some.1 h₂).1
  simp [enabled, setConn_conns, TcpConnection.written, hcb, hq] at hen

/-- The server is a sender. -/
theorem sender (conn : ConnId) : Sender step (completion conn) sent kBufSize
    (fun chunk stack => (conn, .file (patchOf .TESTCASE chunk stack))) (conn, .file endFile) (Pushing conn)
    fun s => (s.conns conn).writeCompleteCallback = false ∧ (s.conns conn).queued = 0 where
  piece h hr stack := h.chunk hr stack
  finish h stack := h.finish stack
  stop h stack es _ := not_runs_completion h.1 h.2 stack es

/-- A PUSH to one node sends the first patch. -/
theorem pushing_start {cli : ConnId} {m : Command} {env : Env} (hcli : (s.conns cli).isUp = true)
    (hm : m.command = .PUSH) (hone : m.sendToAll = false) (hopens : env.opens (intOfU32 m.nodeId) = true)
    (hconn : s.clientPool.getConn (intOfU32 m.nodeId) = some conn) (hup : (s.conns conn).connected = true)
    (hq : (s.conns conn).queued = 0) :
    ∃ t, s.step (.message cli (.command m) env) = some t ∧ Pushing conn t (env.testcase.drop kBufSize) ∧
      t.sent = s.sent ++ [(conn, .file (pushPatch m env (intOfU32 m.nodeId)))] := by
  have hstart : s.onCommandMsg m env =
      .ok ((s.resetCounters.setClientNum 1).startPush m env (intOfU32 m.nodeId) conn) := by
    simp only [onCommandMsg, hm, pushToClient, hone, if_true, hopens]
    rw [show (s.resetCounters.setClientNum 1).clientPool.getConn (intOfU32 m.nodeId) = some conn from hconn]
  obtain ⟨hc, hf, hs⟩ : (((s.resetCounters.setClientNum 1).startPush m env (intOfU32 m.nodeId) conn).conns conn =
      { s.conns conn with writeCompleteCallback := true, output := true }) ∧
      ((s.resetCounters.setClientNum 1).startPush m env (intOfU32 m.nodeId) conn).fpMap conn =
        some (some (env.testcase.drop kBufSize)) ∧
      ((s.resetCounters.setClientNum 1).startPush m env (intOfU32 m.nodeId) conn).sent =
        s.sent ++ [(conn, .file (pushPatch m env (intOfU32 m.nodeId)))] := by
    simp only [startPush]
    refine sendToClient_up (c := { s.conns conn with writeCompleteCallback := true }) ?_ hup ?_ ?_ _
    · exact setConn_conns _ _
    · exact Function.update_self ..
    · rfl
  refine ⟨_, step_eq_some.2 ⟨hcli, hstart⟩, ⟨?_, ?_, ?_, ?_, hf⟩, hs⟩
  · rw [hc]; exact hup
  · rw [hc]
  · rw [hc]
  · rw [hc]; exact hq

end LkpServer

/-! ## The client -/

namespace LkpClient
variable {c d : LkpClient} {path : String} {size id : ℤ} {data : Bytes}

/-- The handling of the messages of a push. -/
def deliveries (files : List File) (envs : List ClientEnv) : List ClientEvent :=
  List.zipWith (fun f env => .message (.file f) env) files envs

/-- What lies in memory, as it is given for the server. -/
def memory (envs : List ClientEnv) : List Env := envs.map fun env => { beyond := env.beyond }

/-- The test case at `path` is being received; `data` is what has come of it, and
    `sent` what it had sent before. -/
structure Receiving (c : LkpClient) (path : String) (size id : ℤ) (data : Bytes) (sent : List Message) : Prop where
  connection : c.connection = true
  connected : c.conn.connected = true
  name : c.fileName = path
  announced : c.fileSize = size
  node : c.nodeID = id
  stream : ∃ fp, c.fp = some fp ∧ fp.Holds c.disk path data
  quiet : c.sent = sent

theorem step_file {f : File} {env : ClientEnv} (hup : c.conn.connected = true)
    (h : c.onFileMsg f env = .ok d) : c.step (.message (.file f) env) = some d :=
  step_eq_some.2 ⟨c.conn.isUp_of_connected hup, h⟩

/-- A write to a stream that holds what has come before. -/
theorem fwriteTestcase_ok {old : Bytes} {fp : FILE} (f : File) (env : ClientEnv) (hstream : c.fp = some fp)
    (hholds : fp.Holds c.disk path old) :
    ∃ d, c.fwriteTestcase f env = .ok d ∧ d = { c with disk := d.disk, fp := d.fp } ∧
      ∃ fp, d.fp = some fp ∧ fp.Holds d.disk path (old ++ cBytes f.content env.beyond f.patchLen.toNat) := by
  simp only [fwriteTestcase, hstream, hholds.isOpen, if_true]
  exact ⟨_, rfl, rfl, _, rfl, hholds.fwrite _ _⟩

/-- Where a client stores a test case. -/
def testcasePath (c : LkpClient) (fileName : String) : String := c.ROOT_DIR ++ "/testcases/" ++ fileName

/-- What the first patch leaves, before its content is written. -/
structure Opened (c d : LkpClient) (f : File) : Prop where
  connection : d.connection = c.connection
  conn : d.conn = c.conn
  name : d.fileName = c.testcasePath f.fileName
  announced : d.fileSize = intOfU32 f.fileSize
  node : d.nodeID = intOfU32 f.nodeId
  stream : d.fp = some { path := c.testcasePath f.fileName }
  disk : d.disk = c.disk.truncate (c.testcasePath f.fileName)
  quiet : d.sent = c.sent

theorem opened_openTestcase (c : LkpClient) (f : File) : Opened c (c.openTestcase f) f := by
  rw [openTestcase]
  exact ⟨rfl, rfl, rfl, rfl, rfl, rfl, rfl, rfl⟩

theorem receiving_first {f : File} {env : ClientEnv} (hconn : c.connection = true)
    (hup : c.conn.connected = true) (hend : f.fileType ≠ .END) (hfirst : f.firstPatch = true)
    (hreceives : env.receives = true) :
    ∃ d, c.step (.message (.file f) env) = some d ∧
      d.Receiving (c.testcasePath f.fileName) (intOfU32 f.fileSize) (intOfU32 f.nodeId)
        (cBytes f.content env.beyond f.patchLen.toNat) c.sent := by
  have hstep : c.onFileMsg f env = (c.openTestcase f).fwriteTestcase f env := by
    rw [onFileMsg, if_neg hend, if_pos hfirst, if_pos hreceives]
  have hopen := opened_openTestcase c f
  generalize c.openTestcase f = c₁ at hstep hopen
  obtain ⟨d, hd, heq, hstream⟩ := fwriteTestcase_ok f env hopen.stream (hopen.disk ▸ FILE.holds_truncate c.disk _)
  refine ⟨d, step_file hup (hstep.trans hd), ?_⟩
  rw [heq] at hstream ⊢
  exact ⟨hopen.connection.trans hconn, by rw [← hup, ← hopen.conn], hopen.name, hopen.announced, hopen.node,
    hstream, hopen.quiet⟩

theorem Receiving.patch {sent : List Message} (h : c.Receiving path size id data sent) {f : File}
    (hend : f.fileType ≠ .END) (hfirst : f.firstPatch = false) (env : ClientEnv) :
    ∃ d, c.step (.message (.file f) env) = some d ∧
      d.Receiving path size id (data ++ cBytes f.content env.beyond f.patchLen.toNat) sent := by
  obtain ⟨fp, hfp, hholds⟩ := h.stream
  obtain ⟨d, hd, heq, hstream⟩ := fwriteTestcase_ok f env hfp hholds
  refine ⟨d, step_file h.connected ?_, ?_⟩
  · rw [onFileMsg, if_neg hend, if_neg (by simp [hfirst]), hd]
  · rw [heq] at *
    exact ⟨h.connection, h.connected, h.name, h.announced, h.node, hstream, h.quiet⟩

theorem Receiving.runs {sent : List Message} (h : c.Receiving path size id data sent) {files : List File}
    {envs : List ClientEnv} (hlen : envs.length = files.length) (hend : ∀ f ∈ files, f.fileType ≠ .END)
    (hfirst : ∀ f ∈ files, f.firstPatch = false) :
    ∃ d, Runs step c (deliveries files envs) d ∧
      d.Receiving path size id (data ++ receivedBytes files (memory envs)) sent := by
  induction files generalizing c data envs with
  | nil =>
    obtain rfl := List.eq_nil_of_length_eq_zero hlen
    exact ⟨c, .nil, by simpa [receivedBytes] using h⟩
  | cons f files ih =>
    obtain ⟨env, envs, rfl⟩ := List.exists_cons_of_length_eq_add_one hlen
    rw [List.forall_mem_cons] at hend hfirst
    obtain ⟨c₁, h₁, hrec⟩ := h.patch hend.1 hfirst.1 env
    obtain ⟨d, hd, hrec⟩ := ih hrec (by simpa using hlen) hend.2 hfirst.2
    exact ⟨d, Runs.append (.single h₁) hd, by simpa [receivedBytes, memory] using hrec⟩

theorem sendToServer_up (hconn : c.connection = true) (hup : c.conn.connected = true) (message : Message) :
    c.sendToServer message = .ok { c with conn := c.conn.send, sent := c.sent ++ [message] } := by
  rw [sendToServer, if_pos hconn, if_pos hup]

/-- The END: a file of the announced size is acknowledged, with the node ID. -/
theorem Receiving.finish {sent : List Message} (h : c.Receiving path size id data sent)
    (hsize : toInt32 data.length = size) (env : ClientEnv) :
    ∃ d, c.step (.message (.file endFile) env) = some d ∧ d.disk path = some data ∧
      d.sent = sent ++ [.pushACK { status := true, ackMessage := "push recv success", nodeId := u32 id }] := by
  obtain ⟨fp, hfp, hholds⟩ := h.stream
  let c₁ := { c with disk := c.disk.write fp fp.buffer, fp := some fp.fclose }
  have hclose : c.fcloseTestcase = .ok c₁ := by
    simp only [fcloseTestcase, hfp, hholds.isOpen, if_true, c₁]
  have hstored : c₁.disk path = some data := hholds.fclose
  have hrecv : ¬ toInt32 (c₁.disk.stSize c₁.fileName env.uninit) ≠ c₁.fileSize := by
    rw [show c₁.fileName = path from h.name, show c₁.fileSize = size from h.announced, Disk.stSize, hstored, not_not]
    exact hsize
  let c₂ : LkpClient := { c₁ with
    conn := c₁.conn.send
    sent := c₁.sent ++ [.pushACK { status := true, ackMessage := "push recv success", nodeId := u32 c₁.nodeID }] }
  have hsend : c₁.sendToServer
      (.pushACK { status := true, ackMessage := "push recv success", nodeId := u32 c₁.nodeID }) = .ok c₂ :=
    sendToServer_up (c := c₁) h.connection h.connected _
  have hmsg : c.onFileMsg endFile env = .ok (c₂.system c₂.copyToJobs) := by
    rw [onFileMsg, if_pos (show endFile.fileType = .END from rfl), hclose]
    refine (if_neg hrecv).trans ?_
    rw [hsend]
    rfl
  refine ⟨_, step_file h.connected hmsg, hstored, ?_⟩
  show c.sent ++ [.pushACK { status := true, ackMessage := "push recv success", nodeId := u32 c.nodeID }] = _
  rw [h.quiet, h.node]

/-- A client that is connected receives the messages of a push. -/
def Receives (c : LkpClient) (files : List File) (d : LkpClient) : Prop :=
  ∃ envs, envs.length = files.length ∧ (∀ env ∈ envs, env.receives = true) ∧ Runs step c (deliveries files envs) d

end LkpClient

/-! ## A push -/

namespace LkpServer
variable {s : LkpServer} {cli conn : ConnId} {m : Command} {env : Env} {bufs : List Bytes} {files : List File}

/-- A PUSH to one node that is connected and in no transfer, of a file that opens. -/
structure PushTo (s : LkpServer) (cli : ConnId) (m : Command) (env : Env) (conn : ConnId) : Prop where
  cli : (s.conns cli).isUp = true
  command : m.command = .PUSH
  unicast : m.sendToAll = false
  opens : env.opens (intOfU32 m.nodeId) = true
  node : s.clientPool.getConn (intOfU32 m.nodeId) = some conn
  connected : (s.conns conn).connected = true
  idle : (s.conns conn).queued = 0

/-- An undisturbed push: the server handles the command and then one completion for
    each write until it has sent the END. -/
def Pushes (s : LkpServer) (cli : ConnId) (m : Command) (env : Env) (conn : ConnId) (bufs : List Bytes)
    (files : List File) : Prop :=
  ∃ t, Runs step s (.message cli (.command m) env :: bufs.flatMap (completion conn)) t ∧
    t.sent = s.sent ++ (files ++ [endFile]).map fun f => (conn, .file f)

/-- The messages of a push, without the END. -/
def pushFiles (m : Command) (env : Env) (bufs : List Bytes) : List File :=
  pushPatch m env (intOfU32 m.nodeId) :: chunkPatches .TESTCASE (chunks kBufSize (env.testcase.drop kBufSize)) bufs

theorem feed_push (conn : ConnId) (chunks bufs : List Bytes) :
    feed (fun chunk stack => (conn, Message.file (patchOf .TESTCASE chunk stack))) (conn, .file endFile) chunks bufs =
      (feed (patchOf .TESTCASE) endFile chunks bufs).map fun f => (conn, .file f) := by
  rw [← patches_eq_feed, map_patches]

/-- The messages of a push are those of its file. -/
theorem PushTo.files_eq (h : PushTo s cli m env conn) (hp : Pushes s cli m env conn bufs files) :
    bufs.length = (chunks kBufSize (env.testcase.drop kBufSize)).length + 1 ∧ files = pushFiles m env bufs := by
  obtain ⟨t, hruns, hsent⟩ := hp
  obtain ⟨u, hu, hpushing, hfirst⟩ :=
    pushing_start h.cli h.command h.unicast h.opens h.node h.connected h.idle
  obtain ⟨v, hv, hruns⟩ := hruns.cons_inv
  obtain rfl := Option.some.inj (hu.symm.trans hv)
  obtain ⟨hs, hle⟩ := (sender conn).runs kBufSize_pos hpushing hruns
  have heq : files ++ [endFile] = pushPatch m env (intOfU32 m.nodeId) ::
      feed (patchOf .TESTCASE) endFile (chunks kBufSize (env.testcase.drop kBufSize)) bufs := by
    rw [hsent, hfirst, feed_push, List.append_assoc, List.append_cancel_left_eq, List.singleton_append] at hs
    refine List.map_injective_iff.2 ?_ hs
    intro f g hfg
    exact Message.file.inj (Prod.mk.inj hfg).2
  refine feed_end ?_ ?_ hle heq
  · intro he
    cases congrArg File.fileType he
  · intro chunk stack he
    cases congrArg File.fileType he

/-- Whatever lies behind the buffers, the push comes to its end. -/
theorem PushTo.exists_pushes (h : PushTo s cli m env conn)
    (hlen : bufs.length = (chunks kBufSize (env.testcase.drop kBufSize)).length + 1) :
    ∃ files, Pushes s cli m env conn bufs files := by
  obtain ⟨u, hu, hpushing, hfirst⟩ :=
    pushing_start h.cli h.command h.unicast h.opens h.node h.connected h.idle
  obtain ⟨t, ht⟩ := (sender conn).exists_runs kBufSize_pos hpushing hlen
  obtain ⟨hs, -⟩ := (sender conn).runs kBufSize_pos hpushing ht
  refine ⟨pushFiles m env bufs, t, Runs.append (.single hu) ht, ?_⟩
  rw [hs, hfirst, feed_push, feed_of_eq hlen, List.append_assoc, List.singleton_append, pushFiles, chunkPatches]
  rfl

theorem receivedBytes_pushFiles (envs : List Env) : receivedBytes (pushFiles m env bufs) envs =
    receivedBytes (chunkPatches .TESTCASE (piecesOf env.testcase) (env.stack (intOfU32 m.nodeId) :: bufs)) envs := by
  rw [piecesOf, chunkPatches, List.zipWith_cons_cons, pushFiles]
  cases envs with
  | nil => rw [receivedBytes_nil, receivedBytes_nil]
  | cons e envs => rw [receivedBytes, receivedBytes, pushPatch, patchOf, List.length_take]; rfl

/-- The announced lengths of the messages are those of the pieces. -/
theorem patchLen_pushFiles (hlen : bufs.length = (chunks kBufSize (env.testcase.drop kBufSize)).length + 1) :
    (pushFiles m env bufs).map File.patchLen = (piecesOf env.testcase).map fun piece => u32 (piece.length : ℕ) := by
  have hzip : ∀ (pieces bufs : List Bytes), pieces.length ≤ bufs.length →
      (chunkPatches .TESTCASE pieces bufs).map File.patchLen = pieces.map fun piece => u32 (piece.length : ℕ) := by
    intro pieces
    induction pieces with
    | nil => intros; rfl
    | cons piece pieces ih =>
      intro bufs hle
      obtain ⟨buf, bufs, rfl⟩ := List.exists_cons_of_length_pos (Nat.zero_lt_of_lt hle)
      rw [chunkPatches, List.zipWith_cons_cons, List.map_cons, List.map_cons, ← ih bufs (by simpa using hle)]
      rfl
  rw [pushFiles, piecesOf, List.map_cons, List.map_cons, hzip _ _ (by omega), List.length_take]
  rfl

end LkpServer

section
variable {s : LkpServer} {c : LkpClient} {cli conn : ConnId} {m : Command} {env : Env} {bufs : List Bytes}

theorem mem_of_mem_piecesOf {data piece : Bytes} (h : piece ∈ piecesOf data) {b : UInt8} (hb : b ∈ piece) :
    b ∈ data := by
  rw [← flatten_piecesOf data]
  exact List.mem_flatten.2 ⟨piece, h, hb⟩

/-- **The client's side of a push** of a text: what is written is the text, and it is
    acknowledged. -/
theorem LkpClient.exists_deliveries (hconn : c.connection = true) (hup : c.conn.connected = true)
    (htext : 0 ∉ env.testcase) (hlen : bufs.length = (chunks kBufSize (env.testcase.drop kBufSize)).length + 1)
    {envs : List ClientEnv} (henvs : envs.length = (LkpServer.pushFiles m env bufs).length)
    (hr : ∀ e ∈ envs, e.receives = true) (last : ClientEnv) :
    ∃ d, Runs step c (deliveries (LkpServer.pushFiles m env bufs ++ [endFile]) (envs ++ [last])) d ∧
      d.disk (c.testcasePath m.testcase) = some env.testcase ∧
      d.sent = c.sent ++
        [.pushACK { status := true, ackMessage := "push recv success", nodeId := m.nodeId }] := by
  -- the bytes written are those of the file
  have hpieces : (LkpServer.pushFiles m env bufs).length = (piecesOf env.testcase).length := by
    have := congrArg List.length (LkpServer.patchLen_pushFiles (m := m) hlen)
    rwa [List.length_map, List.length_map] at this
  have hbytes : receivedBytes (LkpServer.pushFiles m env bufs) (memory envs) = env.testcase := by
    rw [LkpServer.receivedBytes_pushFiles, receivedBytes_of_no_nul (length_piecesOf_le hlen _) ?_
      (fun _ => length_le_of_mem_piecesOf), flatten_piecesOf]
    · intro piece hpiece hnul
      exact htext (mem_of_mem_piecesOf hpiece (List.mem_of_mem_dropLast hnul))
    · rw [memory, List.length_map, henvs, hpieces]
  obtain ⟨e, envs, rfl⟩ := List.exists_cons_of_length_eq_add_one henvs
  rw [List.forall_mem_cons] at hr
  have hend : ∀ f ∈ chunkPatches .TESTCASE (chunks kBufSize (env.testcase.drop kBufSize)) bufs,
      f.fileType ≠ .END ∧ f.firstPatch = false := by
    intro f hf
    obtain ⟨_, -, _, -, rfl⟩ := mem_chunkPatches hf
    exact ⟨by simp [patchOf], rfl⟩
  obtain ⟨c₁, h₁, hrec⟩ := receiving_first (f := LkpServer.pushPatch m env (intOfU32 m.nodeId)) hconn hup
    (by simp [LkpServer.pushPatch]) rfl hr.1
  obtain ⟨c₂, h₂, hrec⟩ := hrec.runs (Nat.add_right_cancel henvs) (fun f hf => (hend f hf).1)
    (fun f hf => (hend f hf).2)
  have hdata : cBytes (LkpServer.pushPatch m env (intOfU32 m.nodeId)).content e.beyond
        (LkpServer.pushPatch m env (intOfU32 m.nodeId)).patchLen.toNat ++
      receivedBytes (chunkPatches .TESTCASE (chunks kBufSize (env.testcase.drop kBufSize)) bufs) (memory envs) =
      env.testcase := by
    rw [LkpServer.pushFiles, memory, List.map_cons, receivedBytes] at hbytes
    exact hbytes
  rw [hdata] at hrec
  have hsize : toInt32 env.testcase.length =
      intOfU32 (LkpServer.pushPatch m env (intOfU32 m.nodeId)).fileSize := by
    rw [LkpServer.pushPatch, intOfU32_u32, toInt32_toInt32]
  obtain ⟨d, hd, hstored, hsent⟩ := hrec.finish hsize last
  refine ⟨d, ?_, hstored, ?_⟩
  · rw [deliveries, List.zipWith_append henvs.symm, LkpServer.pushFiles, List.zipWith_cons_cons]
    exact ((Runs.single h₁).append h₂).append (.single hd)
  · rw [hsent, LkpServer.pushPatch, u32_intOfU32, u32_intOfU32]

/-- The pieces before the last are full, and there is no empty one unless the file is. -/
theorem length_piecesOf {data : Bytes} :
    (∀ piece ∈ (piecesOf data).dropLast, piece.length = kBufSize) ∧
      (data ≠ [] → ∀ piece ∈ piecesOf data, piece ≠ []) := by
  by_cases hd : data = []
  · subst hd
    exact ⟨by simp [piecesOf], fun h => absurd rfl h⟩
  · rw [piecesOf, ← chunks_of_ne_nil kBufSize_pos hd]
    exact ⟨fun _ h => length_of_mem_dropLast_chunks kBufSize_pos h, fun _ _ h => ne_nil_of_mem_chunks kBufSize_pos h⟩

/-- **A text arrives.**  Whatever lies behind the buffers of the server, a push of a file
    without NUL comes to its end; all its chunks but the last are full, and none is
    empty unless the file is; and the client that receives it stores the file and
    acknowledges it once, with the node ID of the command. -/
theorem pushText (h : LkpServer.PushTo s cli m env conn) (hconn : c.connection = true)
    (hup : c.conn.connected = true) (htext : 0 ∉ env.testcase) :
    (bufs.length = (piecesOf env.testcase).length → ∃ files, s.Pushes cli m env conn bufs files) ∧
    ∀ files, s.Pushes cli m env conn bufs files →
      (∀ f ∈ files.dropLast, f.patchLen.toNat = kBufSize) ∧
      (env.testcase ≠ [] → ∀ f ∈ files, f.patchLen.toNat ≠ 0) ∧
      (∃ d, c.Receives (files ++ [endFile]) d) ∧
      ∀ d, c.Receives (files ++ [endFile]) d →
        d.disk (c.testcasePath m.testcase) = some env.testcase ∧
        d.sent = c.sent ++
          [.pushACK { status := true, ackMessage := "push recv success", nodeId := m.nodeId }] := by
  refine ⟨fun hlen => h.exists_pushes hlen, ?_⟩
  intro files hfiles
  obtain ⟨hlen, rfl⟩ := h.files_eq hfiles
  obtain ⟨hfull, hne⟩ := @length_piecesOf env.testcase
  have hpatch := LkpServer.patchLen_pushFiles (m := m) hlen
  have hnat : ∀ piece ∈ piecesOf env.testcase, (u32 (piece.length : ℕ)).toNat = piece.length := by
    intro piece hpiece
    have hk : kBufSize = 65536 := rfl
    have := length_le_of_mem_piecesOf hpiece
    exact toNat_u32_of_lt (by omega)
  refine ⟨?_, ?_, ?_, ?_⟩
  · intro f hf
    have hmem : f.patchLen ∈ ((LkpServer.pushFiles m env bufs).map File.patchLen).dropLast := by
      rw [← List.map_dropLast]
      exact List.mem_map_of_mem hf
    rw [hpatch, ← List.map_dropLast] at hmem
    obtain ⟨piece, hpiece, he⟩ := List.mem_map.1 hmem
    rw [← he, hnat piece (List.mem_of_mem_dropLast hpiece), hfull piece hpiece]
  · intro hdata f hf
    have hmem : f.patchLen ∈ (LkpServer.pushFiles m env bufs).map File.patchLen := List.mem_map_of_mem hf
    rw [hpatch] at hmem
    obtain ⟨piece, hpiece, he⟩ := List.mem_map.1 hmem
    rw [← he, hnat piece hpiece]
    exact fun hzero => hne hdata piece hpiece (List.eq_nil_of_length_eq_zero hzero)
  · let envs : List ClientEnv := List.replicate (LkpServer.pushFiles m env bufs).length {}
    have hr : ∀ e ∈ envs, e.receives = true := by
      intro e he
      rw [List.eq_of_mem_replicate he]
    obtain ⟨d, hd, -⟩ := LkpClient.exists_deliveries hconn hup htext hlen List.length_replicate hr {}
    refine ⟨d, envs ++ [({} : ClientEnv)], ?_, ?_, hd⟩
    · rw [List.length_append, List.length_append, List.length_replicate]
      rfl
    · intro e he
      rcases List.mem_append.1 he with he | he
      · exact hr e he
      · rw [List.mem_singleton.1 he]
  · rintro d ⟨envs, henvs, hr, hd⟩
    rcases List.eq_nil_or_concat envs with rfl | ⟨envs, last, rfl⟩
    · simp at henvs
    rw [List.concat_eq_append] at henvs hr hd
    rw [List.length_append, List.length_append] at henvs
    obtain ⟨d', hd', hstored, hsent⟩ := LkpClient.exists_deliveries hconn hup htext hlen
      (Nat.add_right_cancel henvs) (fun e he => hr e (List.mem_append_left _ he)) last
    obtain rfl := hd.det hd'
    exact ⟨hstored, hsent⟩

/-- Three bytes, with other text behind them in the buffer. -/
def pushHi : Env := { testcase := [104, 105, 10], stack := fun _ => [120, 121, 0, 122] }

theorem pushText_hi : ∃ s files d,
    Runs LkpServer.step (.start "/lkp" 3) [.up 1 "10.0.0.1", .up 9 "127.0.0.1"] s ∧
    s.Pushes 9 { command := .PUSH, testcase := "job" } pushHi 1 [[]] files ∧
    (LkpClient.joined []).Receives (files ++ [endFile]) d ∧
    d.disk ((LkpClient.joined []).testcasePath "job") = some [104, 105, 10] ∧
    d.sent = [.pushACK { status := true, ackMessage := "push recv success", nodeId := 0 }] := by
  obtain ⟨s, hs, hcli, hnode, hup, hidle⟩ : ∃ s, Runs LkpServer.step (.start "/lkp" 3)
      [.up 1 "10.0.0.1", .up 9 "127.0.0.1"] s ∧ (s.conns 9).isUp = true ∧
      s.clientPool.getConn (intOfU32 0) = some 1 ∧ (s.conns 1).connected = true ∧ (s.conns 1).queued = 0 :=
    Runs.exists_of_run (by decide +kernel)
  have hpush : LkpServer.PushTo s 9 { command := .PUSH, testcase := "job" } pushHi 1 :=
    ⟨hcli, rfl, rfl, rfl, hnode, hup, hidle⟩
  obtain ⟨hexists, hall⟩ := @pushText s (.joined []) 9 1 _ pushHi [[]] hpush rfl rfl (by decide)
  obtain ⟨files, hfiles⟩ := hexists (by decide +kernel)
  obtain ⟨-, -, ⟨d, hd⟩, harrives⟩ := hall files hfiles
  obtain ⟨hstored, hsent⟩ := harrives d hd
  exact ⟨s, files, d, hs, hfiles, hd, hstored, hsent⟩

end

end LkpExtent
