/-
  LkpExtent formalization — a PUSH on its way: the transfers to all targets at once, among
  everything else that happens.

  * `Feeding`: the server in the middle of a push on a connection;
  * `OnWay`: the files on their way to a node, and what the server has not read yet;
  * `Getting`: how far a push has got on one connection;
  * `System.pushing_step`, `System.pushing_runs`: every push goes on, from any step to the next.
-/
import LkpExtent.PushText
import LkpExtent.Reports
import LkpExtent.TransferTables

namespace LkpExtent

open Lib

/-! ## The server -/

namespace LkpServer
variable {s t : LkpServer} {c d : ConnId} {e : ServerEvent}

/-! ### The output of a connection to which nothing is sent -/

theorem output_setConn {x : TcpConnection Entry} (h : d = c → x.output = (s.conns c).output) :
    ((s.setConn d x).conns c).output = (s.conns c).output := by
  by_cases hd : d = c
  · subst hd
    rw [setConn_conns]
    exact h rfl
  · rw [setConn_conns_of_ne (Ne.symm hd)]

theorem output_shutdown (d : ConnId) :
    ((s.setConn d (s.conns d).shutdown).conns c).output = (s.conns c).output := by
  refine output_setConn fun hd => ?_
  rw [hd, TcpConnection.shutdown]
  split_ifs <;> rfl

theorem output_send (hd : d ≠ c) (m : Message) : ((s.send d m).conns c).output = (s.conns c).output :=
  output_setConn fun h => absurd h hd

theorem output_sendToClient (hd : d ≠ c) (m : Message) :
    ((s.sendToClient m (some d)).conns c).output = (s.conns c).output := by
  simp only [sendToClient]
  split_ifs
  · exact output_send hd m
  · rfl

theorem output_replyIfComplete {command : CommandID} (hcli : s.CmdConnection ≠ some c)
    (h : s.replyIfComplete command = .ok t) : (t.conns c).output = (s.conns c).output := by
  simp only [replyIfComplete] at h
  split_ifs at h
  · simp only [sendToCmdClient] at h
    split at h
    · rename_i cli hcmd
      have hne : cli ≠ c := by
        rintro rfl
        exact hcli hcmd
      cases h
      split_ifs
      · exact output_send hne _
      · rfl
    · cases h
  · cases h; rfl

theorem output_answer {u : LkpServer} {m : Message} {v : Vote ℤ String} {command : CommandID} (hu : Counts s u m v)
    (hcli : s.CmdConnection ≠ some c) (h : u.replyIfComplete command = .ok t) :
    (t.conns c).output = (s.conns c).output := by
  rw [output_replyIfComplete (by rw [hu.cmd]; exact hcli) h, hu.conns]

theorem output_onConnection (h : s.onConnection d = .ok t) : (t.conns c).output = (s.conns c).output := by
  simp only [onConnection] at h
  split_ifs at h
  · cases h; rfl
  · split at h <;> cases h
    exact output_shutdown _
  · obtain ⟨u, hu, h⟩ := bind_ok h
    obtain ⟨back, rest, -, rfl⟩ := insertEntry_ok hu
    cases h
    exact output_setConn fun hd => by rw [hd]
  · cases h; rfl
  · split at h
    · cases h
    · split_ifs at h
      cases h; rfl

theorem output_onHeartBeat (h : s.onHeartBeat d = .ok t) : (t.conns c).output = (s.conns c).output := by
  simp only [onHeartBeat] at h
  split at h
  · cases h
  · split_ifs at h
    · obtain ⟨back, rest, -, rfl⟩ := insertEntry_ok h
      rfl
    · cases h; rfl

theorem output_patch {message : File} {env : Env} (hne : message.fileType ≠ .END)
    (h : s.onFileMsg d message env = .ok t) : (t.conns c).output = (s.conns c).output := by
  have hwrite : ∀ {u : LkpServer}, u.fwriteOutput d message env = .ok t →
      (t.conns c).output = (u.conns c).output := by
    intro u hu
    obtain ⟨fp, -, rfl⟩ := fwriteOutput_eq hu
    rfl
  simp only [onFileMsg] at h
  rw [if_neg hne] at h
  split_ifs at h
  · exact (hwrite h :)
  · cases h; rfl
  · exact hwrite h

theorem output_onTimer (order : List Entry) : ((s.onTimer order).conns c).output = (s.conns c).output := by
  have hdestroy : ∀ (u : LkpServer) (entry : Entry), ((u.destroy entry).conns c).output = (u.conns c).output := by
    intro u entry
    simp only [destroy]
    split_ifs
    · exact output_shutdown entry.weakConn
    · rfl
  have hfold : ∀ u : LkpServer, ((order.foldl destroy u).conns c).output = (u.conns c).output := by
    intro u
    induction order generalizing u with
    | nil => rfl
    | cons entry order ih => rw [List.foldl_cons, ih, hdestroy]
  exact hfold s.pushBucket

theorem output_onWriteComplete {stack : Bytes} (hd : d ≠ c) (h : s.onWriteComplete d stack = .ok t) :
    (t.conns c).output = (s.conns c).output := by
  simp only [onWriteComplete] at h
  split at h
  · split at h
    · cases h
      exact output_sendToClient hd _
    · cases h
      rw [output_sendToClient hd]
      exact output_setConn fun h => absurd h hd
  · cases h

/-- The output of a node's connection changes by a command, by being written, and by the callback. -/
theorem output_step (hs : s.step e = some t) (hcommand : isCommand e = false) (hcall : isCall c e = false)
    (hwritten : e ≠ .written c) (hcli : s.CmdConnection ≠ some c) : (t.conns c).output = (s.conns c).output := by
  have h := (step_eq_some.1 hs).2
  cases e with
  | up d ip =>
    rw [output_onConnection h]
    exact output_setConn fun hd => by rw [hd]
  | down d =>
    rw [output_onConnection h]
    exact output_setConn fun hd => by rw [hd]
  | message d m env =>
    cases m with
    | command m => cases hcommand
    | file m =>
      by_cases hend : m.fileType = .END
      · obtain ⟨u, v, hu, hreply⟩ := counts_end hend h
        exact output_answer hu hcli hreply
      · exact output_patch hend h
    | commandACK m => exact output_answer (m := .commandACK m) (counts_ack rfl) hcli h
    | heartBeat m => exact output_onHeartBeat h
    | pushACK m => exact output_answer (m := .pushACK m) (counts_ack rfl) hcli h
    | ret m => cases h; exact output_shutdown d
  | written d =>
    cases h
    exact output_setConn fun hd => absurd (by rw [hd]) hwritten
  | writeComplete d stack =>
    have hd : d ≠ c := by simpa [isCall] using hcall
    rw [output_onWriteComplete hd h]
    exact output_setConn fun h => absurd h hd
  | timer order => cases h; exact output_onTimer order

/-! ### A push on a connection -/

variable {rest data : Bytes} {files : List File}

/-- The server is in the middle of a push on the connection; `rest` is not read yet. -/
structure Feeding (s : LkpServer) (c : ConnId) (rest : Bytes) : Prop where
  callback : (s.conns c).writeCompleteCallback = true
  pending : (s.conns c).queued = 0 ∧ (s.conns c).output = true ∨ (s.conns c).queued = 1 ∧ (s.conns c).output = false
  file : s.fpMap c = some (some rest)

/-- Everything but the callback leaves a push as it is. -/
theorem Feeding.step (h : s.Feeding c rest) (hs : s.step e = some t) (hcommand : isCommand e = false)
    (hcall : isCall c e = false) (hcli : s.CmdConnection ≠ some c) : t.Feeding c rest := by
  by_cases hwritten : e = .written c
  · subst hwritten
    obtain ⟨hen, hh⟩ := step_eq_some.1 hs
    have hh : Except.ok (s.setConn c (s.conns c).written) = .ok t := hh
    cases hh
    obtain ⟨-, houtput⟩ := (Bool.and_eq_true _ _).mp hen
    -- nothing is queued while output is pending
    have hqueued : (s.conns c).queued = 0 := by
      rcases h.pending with ⟨hq, -⟩ | ⟨-, hno⟩
      · exact hq
      · rw [hno] at houtput; cases houtput
    refine ⟨?_, .inr ?_, h.file⟩
    · rw [setConn_conns]
      exact h.callback
    · rw [setConn_conns, TcpConnection.written, h.callback, hqueued]
      exact ⟨rfl, rfl⟩
  · have hbegins := begins_of_not_command (c := c) (s := s) hcommand
    have ha := (aside_step hs hbegins hwritten hcall).alike
    have houtput := output_step hs hcommand hcall hwritten hcli
    refine ⟨ha.callback.trans h.callback, ?_, (fpMap_step hs hbegins hcall).trans h.file⟩
    rw [ha.queued, houtput]
    exact h.pending

/-- A call of the callback sends the next chunk, or the END. -/
theorem Feeding.call (h : s.Feeding c rest) (hup : (s.conns c).connected = true) {stack : Bytes}
    (hs : s.step (.writeComplete c stack) = some t) :
    (rest ≠ [] ∧ t.Feeding c (rest.drop kBufSize) ∧
      t.sent = s.sent ++ [(c, .file (patchOf .TESTCASE (rest.take kBufSize) stack))]) ∨
    (rest = [] ∧ t.Resting c ∧ t.sent = s.sent ++ [(c, .file endFile)]) := by
  obtain ⟨hen, hh⟩ := step_eq_some.1 hs
  have hone : (s.conns c).queued = 1 := by
    rcases h.pending with ⟨hq, -⟩ | ⟨hq, -⟩
    · rw [enabled, hq] at hen; cases hen
    · exact hq
  have hh : (s.setConn c (s.conns c).dequeue).onWriteComplete c stack = .ok t := hh
  generalize hu : s.setConn c (s.conns c).dequeue = u at hh
  have hconn : u.conns c = (s.conns c).dequeue := by rw [← hu, setConn_conns]
  have hup' : (u.conns c).connected = true := by rw [hconn]; exact hup
  have hsent : u.sent = s.sent := by rw [← hu]; rfl
  have hfile : u.fpMap c = some (some rest) := by rw [← hu]; exact h.file
  by_cases hnil : rest = []
  · subst hnil
    obtain ⟨t', ht', hc, -, hs'⟩ := onWriteComplete_end hup' hfile stack
    cases hh.symm.trans ht'
    refine .inr ⟨rfl, ⟨by rw [hc], ?_⟩, hs'.trans (by rw [hsent])⟩
    rw [hc, hconn, TcpConnection.dequeue, hone]
  · obtain ⟨t', ht', hc, hfile', hs'⟩ := onWriteComplete_chunk hup' hfile hnil stack
    cases hh.symm.trans ht'
    refine .inl ⟨hnil, ⟨?_, .inl ?_, hfile'⟩, hs'.trans (by rw [hsent])⟩
    · rw [hc, hconn]
      exact h.callback
    · rw [hc, hconn, TcpConnection.dequeue, hone]
      exact ⟨rfl, rfl⟩

theorem queued_setConn {x : TcpConnection Entry} (hx : x.queued = (s.conns d).queued) :
    ((s.setConn d x).conns c).queued = (s.conns c).queued := by
  by_cases hd : d = c
  · subst hd
    rw [setConn_conns, hx]
  · rw [setConn_conns_of_ne (Ne.symm hd)]

theorem queued_startPush {message : Command} {env : Env} {nodeID : ℤ} :
    ((s.startPush message env nodeID d).conns c).queued = (s.conns c).queued := by
  have hsend : ∀ (u : LkpServer) (m : Message), ((u.sendToClient m (some d)).conns c).queued = (u.conns c).queued := by
    intro u m
    simp only [sendToClient]
    split_ifs
    · exact queued_setConn (x := (u.conns d).send) rfl
    · rfl
  simp only [startPush]
  rw [hsend]
  exact queued_setConn rfl

theorem queued_pushAll {message : Command} {env : Env} (its : List (ℤ × ConnId)) :
    ((pushAll message env its s).conns c).queued = (s.conns c).queued := by
  induction its generalizing s with
  | nil => rfl
  | cons it its ih => exact ih.trans queued_startPush

/-- A PUSH begins to feed its targets. -/
theorem feeding_push {cli : ConnId} {m : Command} {env : Env} {it : ℤ × ConnId} (hb : s.members.Base)
    (hm : m.command = .PUSH) (hup : (s.conns it.2).connected = true) (hpush : it ∈ s.pushed m env)
    (hr : s.Resting it.2) (hs : s.step (.message cli (.command m) env) = some t) :
    t.Feeding it.2 (env.testcase.drop kBufSize) := by
  have hstarted := started_step hb hm hup hpush hs
  obtain ⟨n, rfl⟩ := step_push hm hs
  refine ⟨hstarted.callback, .inl ⟨(queued_pushAll _).trans hr.queued, hstarted.output⟩, ?_⟩
  rw [fpMap_pushAll]
  exact if_pos (List.any_eq_true.2 ⟨it, hpush, decide_eq_true rfl⟩)

end LkpServer

/-! ## What is on its way -/

/-- Whatever lies in memory behind it, the message makes the node write `piece`. -/
structure Says (f : File) (piece : Bytes) : Prop where
  fileType : f.fileType = .TESTCASE
  bytes : ∀ beyond, cBytes f.content beyond f.patchLen.toNat = piece

theorem says_of_text {f : File} {piece stack : Bytes} (htype : f.fileType = .TESTCASE)
    (hcontent : f.content = cString (piece ++ stack)) (hlen : f.patchLen = u32 (piece.length : ℕ))
    (hle : piece.length ≤ kBufSize) (htext : 0 ∉ piece) : Says f piece := by
  have hk : kBufSize = 65536 := rfl
  refine ⟨htype, fun beyond => ?_⟩
  rw [hcontent, hlen, toNat_u32_of_lt (by omega)]
  exact cBytes_cString (fun h => htext (List.mem_of_mem_dropLast h)) stack beyond

section
variable {s t : LkpServer} {c : ConnId} {files : List File} {data : Bytes}

/-- The files are on their way to the node, and the server sends the rest: the node is to get
    `data` of it, and then an END. -/
inductive OnWay (s : LkpServer) (c : ConnId) : List File → Bytes → Prop
  | unread {rest : Bytes} : s.Feeding c rest → OnWay s c [] rest
  | ended : s.Resting c → OnWay s c [endFile] []
  | piece {f : File} {piece rest : Bytes} {files : List File} : Says f piece → f.firstPatch = false →
      OnWay s c files rest → OnWay s c (f :: files) (piece ++ rest)

theorem OnWay.mono (h : OnWay s c files data) (hfeeding : ∀ rest, s.Feeding c rest → t.Feeding c rest)
    (hresting : s.Resting c → t.Resting c) : OnWay t c files data := by
  induction h with
  | unread hf => exact .unread (hfeeding _ hf)
  | ended hr => exact .ended (hresting hr)
  | piece hwrites hfirst _ ih => exact .piece hwrites hfirst ih

/-- A call of the callback puts one more file on its way; of a text, the node is to get the same as
    before. -/
theorem OnWay.call (h : OnWay s c files data) (htext : 0 ∉ data) (hup : (s.conns c).connected = true) {stack : Bytes}
    (hs : s.step (.writeComplete c stack) = some t) :
    ∃ f, t.sent = s.sent ++ [(c, .file f)] ∧ OnWay t c (files ++ [f]) data := by
  induction h with
  | @unread rest hf =>
    rcases hf.call hup hs with ⟨-, hfeeding, hsent⟩ | ⟨rfl, hresting, hsent⟩
    · refine ⟨_, hsent, ?_⟩
      have hwrites : Says (patchOf .TESTCASE (rest.take kBufSize) stack) (rest.take kBufSize) :=
        says_of_text rfl rfl rfl (List.length_take_le _ _) fun hmem => htext (List.mem_of_mem_take hmem)
      have hway := OnWay.piece hwrites rfl (.unread hfeeding)
      rw [List.take_append_drop] at hway
      exact hway
    · exact ⟨_, hsent, .ended hresting⟩
  | ended hr =>
    have hcall := hr.not_call hs
    rw [LkpServer.isCall, decide_eq_false_iff_not] at hcall
    exact absurd rfl hcall
  | piece hwrites hfirst _ ih =>
    obtain ⟨f, hsent, hway⟩ := ih fun hmem => htext (List.mem_append_right _ hmem)
    exact ⟨f, hsent, .piece hwrites hfirst hway⟩

end

/-! ## A node -/

namespace LkpClient
variable {c d : LkpClient} {path : String} {size id : ℤ} {data piece : Bytes} {f : File} {env : ClientEnv}

/-- What concerns test cases is the same. -/
structure SameFiles (c d : LkpClient) : Prop where
  root : d.ROOT_DIR = c.ROOT_DIR
  name : d.fileName = c.fileName
  announced : d.fileSize = c.fileSize
  node : d.nodeID = c.nodeID
  stream : d.fp = c.fp
  disk : d.disk = c.disk

theorem SameFiles.refl (c : LkpClient) : SameFiles c c := ⟨rfl, rfl, rfl, rfl, rfl, rfl⟩

theorem sameFiles_sendToServer {message : Message} (h : c.sendToServer message = .ok d) : SameFiles c d := by
  simp only [sendToServer] at h
  split_ifs at h
  · cases h; exact ⟨rfl, rfl, rfl, rfl, rfl, rfl⟩
  · cases h; exact .refl c

/-- Only messages concern test cases. -/
theorem sameFiles_step {e : ClientEvent} (hs : c.step e = some d) (he : e.isMessage = false) : SameFiles c d := by
  have h := (step_eq_some.1 hs).2
  cases e with
  | up | down | written | childExit => cases h; exact ⟨rfl, rfl, rfl, rfl, rfl, rfl⟩
  | message m env => cases he
  | writeComplete stack =>
    have h : { c with conn := c.conn.dequeue }.onWriteComplete stack = .ok d := h
    simp only [onWriteComplete] at h
    split at h
    · cases h
    · split at h
      · obtain ⟨h₁, h₂, h₃, h₄, h₅, h₆⟩ := sameFiles_sendToServer h
        exact ⟨h₁, h₂, h₃, h₄, h₅, h₆⟩
      · obtain ⟨h₁, h₂, h₃, h₄, h₅, h₆⟩ := sameFiles_sendToServer h
        exact ⟨h₁, h₂, h₃, h₄, h₅, h₆⟩
  | timer =>
    have h : c.onTimer = .ok d := h
    simp only [onTimer] at h
    split_ifs at h
    exact sameFiles_sendToServer h

/-- A test case is being written at `path`, and `data` is there. -/
structure Writing (c : LkpClient) (path : String) (size id : ℤ) (data : Bytes) : Prop where
  name : c.fileName = path
  announced : c.fileSize = size
  node : c.nodeID = id
  stream : ∃ fp, c.fp = some fp ∧ fp.Holds c.disk path data

theorem Writing.same (h : c.Writing path size id data) (hsame : SameFiles c d) : d.Writing path size id data :=
  ⟨hsame.name.trans h.name, hsame.announced.trans h.announced, hsame.node.trans h.node,
    by rw [hsame.stream, hsame.disk]; exact h.stream⟩

theorem Receiving.writing {sent : List Message} (h : c.Receiving path size id data sent) :
    c.Writing path size id data := ⟨h.name, h.announced, h.node, h.stream⟩

theorem Writing.receiving (h : c.Writing path size id data) (hr : c.Resting) (hup : c.conn.isUp = true) :
    c.Receiving path size id data c.sent :=
  ⟨(hr.linked hup).1, (hr.linked hup).2, h.name, h.announced, h.node, h.stream, rfl⟩

/-- A node that handles a file is not in the middle of a result either. -/
theorem Resting.file (h : c.Resting) (hs : c.step (.message (.file f) env) = some d) : d.Resting := by
  have hh : c.onMessage (.file f) env = .ok d := (step_eq_some.1 hs).2
  exact h.aside (aside_onMessage hh rfl)

/-- The first patch. -/
theorem Resting.first (h : c.Resting) (hs : c.step (.message (.file f) env) = some d) (hwrites : Says f piece)
    (hfirst : f.firstPatch = true) : d.sent = c.sent ∧
      d.Writing (c.testcasePath f.fileName) (intOfU32 f.fileSize) (intOfU32 f.nodeId) piece := by
  obtain ⟨hen, hh⟩ := step_eq_some.1 hs
  have hend : f.fileType ≠ .END := by
    rw [hwrites.fileType]
    exact nofun
  have hreceives : env.receives = true := by
    by_contra hno
    have hh : c.onFileMsg f env = .ok d := hh
    rw [onFileMsg, if_neg hend, if_pos hfirst, if_neg hno] at hh
    cases hh
  obtain ⟨hconn, hup⟩ := h.linked hen
  obtain ⟨d', hd', hrec⟩ := receiving_first hconn hup hend hfirst hreceives
  cases hs.symm.trans hd'
  rw [hwrites.bytes] at hrec
  exact ⟨hrec.quiet, hrec.writing⟩

/-- A further patch. -/
theorem Writing.patch (h : c.Writing path size id data) (hr : c.Resting) (hs : c.step (.message (.file f) env) = some d)
    (hwrites : Says f piece) (hfirst : f.firstPatch = false) :
    d.sent = c.sent ∧ d.Writing path size id (data ++ piece) := by
  have hend : f.fileType ≠ .END := by
    rw [hwrites.fileType]
    exact nofun
  obtain ⟨d', hd', hrec⟩ := (h.receiving hr (step_eq_some.1 hs).1).patch hend hfirst env
  cases hs.symm.trans hd'
  rw [hwrites.bytes] at hrec
  exact ⟨hrec.quiet, hrec.writing⟩

/-- The END. -/
theorem Writing.finish (h : c.Writing path size id data) (hr : c.Resting) (hsize : toInt32 data.length = size)
    (hs : c.step (.message (.file endFile) env) = some d) : d.disk path = some data ∧
      d.sent = c.sent ++ [.pushACK { status := true, ackMessage := "push recv success", nodeId := u32 id }] := by
  obtain ⟨d', hd', hdisk, hsent⟩ := (h.receiving hr (step_eq_some.1 hs).1).finish hsize env
  cases hs.symm.trans hd'
  exact ⟨hdisk, hsent⟩

end LkpClient

/-! ## One connection -/

/-- How a node answers a push that has come to its end. -/
def pushedACK (id : ℤ) : Message :=
  .pushACK { status := true, ackMessage := "push recv success", nodeId := u32 id }

/-- How far the push of `data` has got on a connection, seen from the server `s` and the node `n`:
    which tasks are on their way, what is on its way back, and which answers have been handled. -/
inductive Getting (path : String) (data : Bytes) (id : ℤ) (s : LkpServer) (c : ConnId) (n : LkpClient) :
    List Message → List Message → List Message → Prop
  | opening {f : File} {piece rest : Bytes} {files : List File} : Says f piece → f.firstPatch = true →
      n.testcasePath f.fileName = path → intOfU32 f.fileSize = toInt32 data.length → intOfU32 f.nodeId = id →
      OnWay s c files rest → piece ++ rest = data → Getting path data id s c n (.file f :: files.map .file) [] []
  | writing {got rest : Bytes} {files : List File} : n.Writing path (toInt32 data.length) id got →
      OnWay s c files rest → got ++ rest = data → Getting path data id s c n (files.map .file) [] []
  | answered : s.Resting c → n.disk path = some data → Getting path data id s c n [] [pushedACK id] []
  | heard : s.Resting c → n.disk path = some data → Getting path data id s c n [] [] [pushedACK id]

section
variable {path : String} {data : Bytes} {id : ℤ} {s t : LkpServer} {c : ConnId} {n n' : LkpClient} {m : Message}
  {tasks reports handled : List Message}

/-- The server does something else. -/
theorem Getting.server (h : Getting path data id s c n tasks reports handled)
    (hfeeding : ∀ rest, s.Feeding c rest → t.Feeding c rest) (hresting : s.Resting c → t.Resting c) :
    Getting path data id t c n tasks reports handled := by
  cases h with
  | opening hwrites hfirst hpath hsize hid hway hdata =>
    exact .opening hwrites hfirst hpath hsize hid (hway.mono hfeeding hresting) hdata
  | writing hw hway hdata => exact .writing hw (hway.mono hfeeding hresting) hdata
  | answered hr hdisk => exact .answered (hresting hr) hdisk
  | heard hr hdisk => exact .heard (hresting hr) hdisk

/-- The server sends one more file. -/
theorem Getting.call (h : Getting path data id s c n tasks reports handled) (htext : 0 ∉ data)
    (hup : (s.conns c).connected = true) {stack : Bytes} (hs : s.step (.writeComplete c stack) = some t) :
    ∃ f, t.sent = s.sent ++ [(c, .file f)] ∧ Getting path data id t c n (tasks ++ [.file f]) reports handled := by
  have hcall : ¬ s.Resting c := by
    intro hr
    have hno := hr.not_call hs
    rw [LkpServer.isCall, decide_eq_false_iff_not] at hno
    exact absurd rfl hno
  cases h with
  | opening hwrites hfirst hpath hsize hid hway hdata =>
    obtain ⟨f, hsent, hway⟩ := hway.call (fun h => htext (hdata ▸ List.mem_append_right _ h)) hup hs
    refine ⟨f, hsent, ?_⟩
    have hget := Getting.opening hwrites hfirst hpath hsize hid hway hdata
    rwa [List.map_append] at hget
  | writing hw hway hdata =>
    obtain ⟨f, hsent, hway⟩ := hway.call (fun h => htext (hdata ▸ List.mem_append_right _ h)) hup hs
    refine ⟨f, hsent, ?_⟩
    have hget := Getting.writing hw hway hdata
    rwa [List.map_append] at hget
  | answered hr => exact absurd hr hcall
  | heard hr => exact absurd hr hcall

/-- The node does something else. -/
theorem Getting.node (h : Getting path data id s c n tasks reports handled) (hsame : LkpClient.SameFiles n n') :
    Getting path data id s c n' tasks reports handled := by
  cases h with
  | opening hwrites hfirst hpath hsize hid hway hdata =>
    refine .opening hwrites hfirst ?_ hsize hid hway hdata
    rw [LkpClient.testcasePath, hsame.root]
    exact hpath
  | writing hw hway hdata => exact .writing (hw.same hsame) hway hdata
  | answered hr hdisk => exact .answered hr (by rw [hsame.disk]; exact hdisk)
  | heard hr hdisk => exact .heard hr (by rw [hsame.disk]; exact hdisk)

/-- The node handles what arrives: a file, and at the END it answers. -/
theorem Getting.receive (h : Getting path data id s c n (m :: tasks) reports handled) (hn : n.Resting)
    {env : ClientEnv} (hs : n.step (.message m env) = some n') :
    n'.Resting ∧ ∃ ms, n'.sent = n.sent ++ ms ∧ (∀ m ∈ ms, m.isHeartBeat = false) ∧
      Getting path data id s c n' tasks (reports ++ ms) handled := by
  generalize hl : m :: tasks = l at h
  cases h with
  | opening hwrites hfirst hpath hsize hid hway hdata =>
    cases hl
    obtain ⟨hsent, hw⟩ := hn.first hs hwrites hfirst
    rw [hpath, hsize, hid] at hw
    exact ⟨hn.file hs, [], by rw [hsent, List.append_nil], nofun, .writing hw hway hdata⟩
  | writing hw hway hdata =>
    cases hway with
    | unread => cases hl
    | ended hr =>
      cases hl
      rw [List.append_nil] at hdata
      subst hdata
      obtain ⟨hdisk, hsent⟩ := hw.finish hn rfl hs
      exact ⟨hn.file hs, _, hsent, by simp [Message.isHeartBeat], .answered hr hdisk⟩
    | piece hwrites hfirst hway =>
      cases hl
      obtain ⟨hsent, hw⟩ := hw.patch hn hs hwrites hfirst
      rw [← List.append_assoc] at hdata
      exact ⟨hn.file hs, [], by rw [hsent, List.append_nil], nofun, .writing hw hway hdata⟩
  | answered => cases hl
  | heard => cases hl

/-- What is on its way back is the answer. -/
theorem Getting.report (h : Getting path data id s c n tasks (m :: reports) handled) :
    m = pushedACK id ∧ handled = [] ∧ Getting path data id s c n tasks reports [pushedACK id] := by
  cases h with
  | answered hr hdisk => exact ⟨rfl, rfl, .heard hr hdisk⟩

theorem Getting.answer (h : Getting path data id s c n tasks reports handled) :
    handled = [] ∨ handled = [pushedACK id] := by
  cases h with
  | heard => exact .inr rfl
  | _ => exact .inl rfl

/-- The answer has been handled once nothing is under way any more, and not before; the node has
    the file then. -/
theorem Getting.settles (h : Getting path data id s c n tasks reports handled) :
    (s.Resting c ∧ tasks = [] ∧ reports = [] → handled = [pushedACK id] ∧ n.disk path = some data) ∧
      (¬ (s.Resting c ∧ tasks = [] ∧ reports = []) → handled = []) := by
  cases h with
  | opening => exact ⟨fun h => absurd h.2.1 (List.cons_ne_nil _ _), fun _ => rfl⟩
  | writing _ hway _ =>
    refine ⟨fun h => ?_, fun _ => rfl⟩
    obtain ⟨hr, htasks, -⟩ := h
    cases hway with
    | unread hf =>
      have hcallback := hf.callback
      rw [hr.callback] at hcallback
      cases hcallback
    | ended => cases htasks
    | piece => cases htasks
  | answered => exact ⟨fun h => absurd h.2.2 (List.cons_ne_nil _ _), fun _ => rfl⟩
  | heard hr hdisk => exact ⟨fun _ => ⟨rfl, hdisk⟩, fun h => absurd ⟨hr, rfl, rfl⟩ h⟩

end

namespace System
variable {path : String} {data : Bytes} {evs : List ServerEvent} {y z : System} {it : ℤ × ConnId} {conn : ConnId}
  {m : Message} {rest : List Message} {e : ServerEvent} {t : LkpServer}

/-- The push of `data` to the target goes on. -/
structure Gets (path : String) (data : Bytes) (evs : List ServerEvent) (y : System) (it : ℤ × ConnId) : Prop where
  remote : y.server.Remote it.2
  node : (y.node it.2).Resting
  getting : Getting path data it.1 y.server it.2 (y.node it.2) (y.tasks it.2) (y.reports it.2)
    (LkpServer.answersOn it.2 evs)

/-- The connection of a target is not the session of the CLI. -/
theorem Gets.not_cmd (h : Gets path data evs y it) (hk : y.server.Knows) : y.server.CmdConnection ≠ some it.2 :=
  fun hcmd => h.remote.2 (hk.cmd it.2 hcmd).2

/-- The server handles an event that is no message. -/
theorem Gets.serverSends (h : Gets path data evs y it) (hk : y.server.Knows) (htext : 0 ∉ data)
    (hup : (y.server.conns it.2).connected = true) (ht : y.server.step e = some t) (hmessage : e.isMessage = false) :
    Gets path data (evs ++ [e]) (y.serverSends t) it := by
  have hanswer : answer? e = none := by
    cases e with
    | message d m env => cases hmessage
    | _ => rfl
  have hcommand : isCommand e = false := by
    cases e with
    | message d m env => cases hmessage
    | _ => rfl
  refine ⟨h.remote.step ht, h.node, ?_⟩
  rw [LkpServer.answersOn_of_none evs hanswer]
  cases hcall : LkpServer.isCall it.2 e with
  | true =>
    obtain ⟨stack, rfl⟩ := LkpServer.exists_call hcall
    obtain ⟨f, hsent, hget⟩ := h.getting.call htext hup ht
    have htasks : (y.serverSends t).tasks it.2 = y.tasks it.2 ++ [.file f] := by
      simp only [tasks, System.serverSends]
      rw [hsent, List.drop_left, List.filter_append]
      simp [Message.isTask]
    rw [htasks]
    exact hget
  | false =>
    rw [tasks_serverSends ht hcommand hcall]
    exact h.getting.server (fun rest hf => hf.step ht hcommand hcall (h.not_cmd hk))
      fun hr => hr.step ht (LkpServer.begins_of_not_command hcommand)

/-- The server handles what arrives. -/
theorem Gets.deliver (h : Gets path data evs y it) (hk : y.server.Knows) (hq : y.toServer conn = m :: rest) {env : Env}
    (ht : y.server.step (.message conn m env) = some t) (hcommand : isCommand (.message conn m env) = false) :
    Gets path data (evs ++ [.message conn m env]) ((y.popServer conn rest).serverSends t) it := by
  refine ⟨h.remote.step ht, h.node, ?_⟩
  rw [tasks_serverSends (y := y.popServer conn rest) ht hcommand rfl]
  have hget := h.getting.server (t := t) (fun rest hf => hf.step ht hcommand rfl (h.not_cmd hk))
    fun hr => hr.step ht (LkpServer.begins_of_not_command hcommand)
  show Getting path data it.1 t it.2 (y.node it.2) (y.tasks it.2)
    ((Function.update y.toServer conn rest it.2).filter fun m => !m.isHeartBeat) _
  by_cases hc : conn = it.2
  · subst hc
    rw [reports, hq] at hget
    rw [Function.update_self]
    by_cases hbeat : m.isHeartBeat = true
    · have hanswer : answer? (.message it.2 m env) = none := by
        cases m with
        | heartBeat b => rfl
        | _ => cases hbeat
      rw [List.filter_cons_of_neg (by simpa using hbeat)] at hget
      rw [LkpServer.answersOn_of_none evs hanswer]
      exact hget
    · rw [List.filter_cons_of_pos (by simpa using hbeat)] at hget
      obtain ⟨rfl, hdone, hget⟩ := hget.report
      rw [LkpServer.answersOn_snoc, hdone]
      simpa [answer?, pushedACK] using hget
  · rw [Function.update_of_ne (Ne.symm hc), LkpServer.answersOn_of_ne evs hc]
    exact hget

/-- A node handles an event that is no message. -/
theorem Gets.nodeSends (h : Gets path data evs y it) {e : ClientEvent} {d : LkpClient}
    (hd : (y.node conn).step e = some d) (he : e.isMessage = false) : Gets path data evs (y.nodeSends conn d) it := by
  by_cases hc : it.2 = conn
  · subst hc
    obtain ⟨hrest, ms, hsent, hms⟩ := h.node.step hd he
    have hnone : (ms.filter fun m => !m.isHeartBeat) = [] := by
      rw [List.filter_eq_nil_iff]
      intro m hm
      rw [hms m hm]
      exact Bool.false_ne_true
    have hreports : (y.nodeSends it.2 d).reports it.2 = y.reports it.2 := by
      rw [reports_nodeSends hsent, hnone, List.append_nil]
    have hnode : (y.nodeSends it.2 d).node it.2 = d := Function.update_self ..
    refine ⟨h.remote, by rw [hnode]; exact hrest, ?_⟩
    rw [hreports, hnode]
    exact h.getting.node (LkpClient.sameFiles_step hd he)
  · have hnode : (y.nodeSends conn d).node it.2 = y.node it.2 := Function.update_of_ne hc ..
    have hreports : (y.nodeSends conn d).reports it.2 = y.reports it.2 := by
      simp only [reports, System.nodeSends, Function.update_of_ne hc]
    refine ⟨h.remote, by rw [hnode]; exact h.node, ?_⟩
    rw [hreports, hnode]
    exact h.getting

/-- A node handles what arrives. -/
theorem Gets.receive (h : Gets path data evs y it) (hq : y.toNode conn = m :: rest) {env : ClientEnv} {d : LkpClient}
    (hd : (y.node conn).step (.message m env) = some d) :
    Gets path data evs ((y.popNode conn rest).nodeSends conn d) it := by
  by_cases hc : it.2 = conn
  · subst hc
    have hget := h.getting
    rw [tasks, hq, List.filter_cons_of_pos (LkpClient.isTask_of_step hd)] at hget
    obtain ⟨hrest, ms, hsent, hms, hget⟩ := hget.receive h.node hd
    have hnode : ((y.popNode it.2 rest).nodeSends it.2 d).node it.2 = d := Function.update_self ..
    have htasks : ((y.popNode it.2 rest).nodeSends it.2 d).tasks it.2 = rest.filter Message.isTask := by
      simp only [tasks, System.nodeSends, System.popNode, Function.update_self]
    have hall : (ms.filter fun m => !m.isHeartBeat) = ms :=
      List.filter_eq_self.2 fun m hm => by rw [hms m hm]; rfl
    have hreports : ((y.popNode it.2 rest).nodeSends it.2 d).reports it.2 = y.reports it.2 ++ ms := by
      rw [reports_nodeSends (y := y.popNode it.2 rest) hsent, hall]
      rfl
    refine ⟨h.remote, by rw [hnode]; exact hrest, ?_⟩
    rw [hnode, htasks, hreports]
    exact hget
  · have hnode : ((y.popNode conn rest).nodeSends conn d).node it.2 = y.node it.2 := Function.update_of_ne hc ..
    have htasks : ((y.popNode conn rest).nodeSends conn d).tasks it.2 = y.tasks it.2 := by
      simp only [tasks, System.nodeSends, System.popNode, Function.update_of_ne hc]
    have hreports : ((y.popNode conn rest).nodeSends conn d).reports it.2 = y.reports it.2 := by
      simp only [reports, System.nodeSends, System.popNode, Function.update_of_ne hc]
    refine ⟨h.remote, by rw [hnode]; exact h.node, ?_⟩
    rw [hnode, htasks, hreports]
    exact h.getting

/-! ## A run -/

/-- Nothing is under way on a connection that is no target. -/
def Idle (evs : List ServerEvent) (y : System) (c : ConnId) : Prop :=
  Follows (fun _ => none) (fun _ _ _ => True) evs y c

/-- The pushes to the targets go on, and nothing else is under way. -/
structure Pushing (path : ConnId → String) (data : Bytes) (its : List (ℤ × ConnId)) (evs : List ServerEvent)
    (y : System) : Prop where
  suited : y.Suited
  idle : ∀ c, c ∉ its.map Prod.snd → Idle evs y c
  gets : ∀ it ∈ its, Gets (path it.2) data evs y it

section
variable {path : ConnId → String} {its : List (ℤ × ConnId)} {cli : ConnId} {es : List SystemEvent}

/-- **A step that is no command keeps the pushes going**, as long as the targets stay connected. -/
theorem pushing_step {e : SystemEvent} (h : y.Pushing path data its evs) (htext : 0 ∉ data)
    (hup : ∀ it ∈ its, (y.server.conns it.2).connected = true) (hs : y.step e = some z)
    (hcommand : e.isCommand = false) :
    ∃ evs', (evs' = [] ∧ z.server = y.server ∨
        ∃ e', evs' = [e'] ∧ y.server.step e' = some z.server ∧ isCommand e' = false) ∧
      z.Pushing path data its (evs ++ evs') := by
  have hsuited := h.suited.step hs
  have hk := h.suited.knows
  cases steps_of_step hs with
  | @server e t he ht =>
    have hno : isCommand e = false := by
      cases e with
      | message c m env => cases he
      | _ => rfl
    exact ⟨[e], .inr ⟨e, rfl, ht, hno⟩, hsuited, fun c hc => (h.idle c hc).serverSends ht he,
      fun it hit => (h.gets it hit).serverSends hk htext (hup it hit) ht he⟩
  | command ht => cases hcommand
  | @deliver conn env m rest t hq ht =>
    have hno : isCommand (.message conn m env) = false := by
      have hreport := h.suited.toServer conn m (by rw [hq]; exact List.mem_cons_self)
      cases m with
      | command k => cases hreport
      | _ => rfl
    exact ⟨[_], .inr ⟨_, rfl, ht, hno⟩, hsuited, fun c hc => (h.idle c hc).deliver hq ht hno,
      fun it hit => (h.gets it hit).deliver hk hq ht hno⟩
  | node he hd =>
    refine ⟨[], .inl ⟨rfl, rfl⟩, ?_⟩
    rw [List.append_nil]
    exact ⟨hsuited, fun c hc => (h.idle c hc).nodeSends hd he, fun it hit => (h.gets it hit).nodeSends hd he⟩
  | receive hq hd =>
    refine ⟨[], .inl ⟨rfl, rfl⟩, ?_⟩
    rw [List.append_nil]
    exact ⟨hsuited, fun c hc => (h.idle c hc).receive hq hd nofun fun _ _ => trivial,
      fun it hit => (h.gets it hit).receive hq hd⟩

/-- **A run without commands keeps the pushes going**, as long as the targets stay connected. -/
theorem pushing_runs (h : y.Pushing path data its []) (htext : 0 ∉ data) (hrun : Runs step y es z)
    (hup : EachState step y es fun u => ∀ it ∈ its, (u.server.conns it.2).connected = true)
    (hopen : EachState step y es fun u => u.server.SessionOpen cli) (halone : ∀ e ∈ es, e.isCommand = false) :
    ∃ evs, Runs LkpServer.step y.server evs z.server ∧
      EachState LkpServer.step y.server evs (fun u => u.SessionOpen cli) ∧ (∀ e ∈ evs, isCommand e = false) ∧
      z.Pushing path data its evs := by
  induction hrun with
  | nil => exact ⟨[], .nil, EachState.nil_iff.2 (hopen [] [] y rfl .nil), nofun, h⟩
  | @snoc es u v e hu hs ih =>
    have hopen := (EachState.snoc_iff (hu.snoc hs)).1 hopen
    have hup := (EachState.snoc_iff (hu.snoc hs)).1 hup
    obtain ⟨evs, hrun, hstate, hno, hpushing⟩ := ih hup.1 hopen.1 fun e he => halone e (by simp [he])
    obtain ⟨evs', hevs, hpushing'⟩ := pushing_step hpushing htext (hup.1 es [] u (List.append_nil es).symm hu) hs
      (halone e (by simp))
    rcases hevs with ⟨rfl, hserver⟩ | ⟨e', rfl, hserver, he'⟩
    · rw [List.append_nil] at hpushing'
      exact ⟨evs, hserver ▸ hrun, hstate, hno, hpushing'⟩
    · have hrun' := hrun.snoc hserver
      refine ⟨_, hrun', (EachState.snoc_iff hrun').2 ⟨hstate, hopen.2⟩, ?_, hpushing'⟩
      intro e he
      rcases List.mem_append.1 he with he | he
      · exact hno e he
      · rw [List.mem_singleton.1 he]
        exact he'

end

/-! ## The PUSH -/

section
variable {cli : ConnId} {message : Command} {env : Env}

theorem says_pushPatch (htext : 0 ∉ env.testcase) (id : ℤ) :
    Says (LkpServer.pushPatch message env id) (env.testcase.take kBufSize) :=
  says_of_text rfl rfl (by rw [List.length_take]; rfl) (List.length_take_le _ _) fun h => htext (List.mem_of_mem_take h)

/-- The pushes begin. -/
theorem pushing_start (hsuited : y.Suited) (hint : y.server.clientPool.nodeCount ≤ 2 ^ 31)
    (hcommand : message.command = .PUSH) (htext : 0 ∉ env.testcase)
    (hcalm : ∀ c, y.server.members.phase c ≠ .gone → y.Calm c)
    (hup : ∀ it ∈ y.server.targets message, (y.server.conns it.2).connected = true)
    (hopens : ∀ it ∈ y.server.targets message, env.opens it.1 = true) (hne : y.server.targets message ≠ [])
    (hs : y.step (.command cli message env) = some z) :
    LkpServer.Begun y.server z.server message env ∧
      z.Pushing (fun c => (y.node c).testcasePath message.testcase) env.testcase (y.server.targets message) [] := by
  have hsuited' := hsuited.step hs
  obtain ⟨t, ht, rfl⟩ : ∃ t, y.server.step (.message cli (.command message) env) = some t ∧ z = y.serverSends t := by
    cases steps_of_step hs with
    | command ht => exact ⟨_, ht, rfl⟩
  have hb := hsuited.knows.base
  have hbegun : LkpServer.Begun y.server t message env :=
    LkpServer.begun_onCommandMsg (.inr (.inr (.inr hcommand))) hopens (.inr hne) (LkpServer.step_eq_some.1 ht).2
  have hpushed : y.server.pushed message env = y.server.targets message := List.takeWhile_eq_self_iff.2 hopens
  have hann : announcement message env = fun id => .file (LkpServer.pushPatch message env id) := by
    ext id
    exact if_pos hcommand
  have hsent : t.sent.drop y.server.sent.length =
      (y.server.targets message).map fun it => (it.2, .file (LkpServer.pushPatch message env it.1)) := by
    rw [hbegun.sent, List.drop_left, LkpServer.tells_connected hup, hann]
  have htasks : ∀ c, y.tasks c = [] → (y.serverSends t).tasks c =
      (((y.server.targets message).find? fun it => it.2 = c).map
        fun it => Message.file (LkpServer.pushPatch message env it.1)).toList := by
    intro c hnone
    simp only [tasks, System.serverSends]
    rw [hsent, sentTo_targets (LkpServer.targets_conns_nodup hb message), List.filter_append,
      show (y.toNode c).filter Message.isTask = [] from hnone, List.nil_append, List.filter_eq_self]
    intro m hm
    rw [Option.mem_toList] at hm
    obtain ⟨it, -, rfl⟩ := Option.map_eq_some_iff.1 hm
    rfl
  refine ⟨hbegun, hsuited', fun c hc => ?_, fun it hit => ?_⟩
  · have hbegins : LkpServer.begins c y.server (.message cli (.command message) env) = false := by
      rw [LkpServer.begins, hpushed, Bool.and_eq_false_iff, List.any_eq_false]
      refine .inr fun it hit hconn => hc ?_
      rw [← of_decide_eq_true hconn]
      exact List.mem_map_of_mem hit
    by_cases hgone : y.server.members.phase c = .gone
    · exact .gone (LkpServer.gone_step ht hgone) rfl rfl
    · obtain ⟨hserver, hnode, hnone, hreports⟩ := hcalm c hgone
      have hfind : (y.server.targets message).find? (fun it => it.2 = c) = none := by
        rw [List.find?_eq_none]
        intro it hit hconn
        refine hc ?_
        rw [← of_decide_eq_true hconn]
        exact List.mem_map_of_mem hit
      refine .on (hserver.step ht hbegins) hnode ?_
      rw [htasks c hnone, hfind, show (y.serverSends t).reports c = [] from hreports]
      exact .still
  · have hphase := (LkpServer.isUp_iff _).1 (TcpConnection.isUp_of_connected _ (hup it hit))
    obtain ⟨hserver, hnode, hnone, hreports⟩ := hcalm it.2 (by
      rw [show y.server.members.phase it.2 = (y.server.conns it.2).state.phase from rfl, hphase]
      intro h
      cases h)
    obtain ⟨h₀, hlt⟩ := LkpServer.targets_range hb hint message it hit
    have hfeeding : t.Feeding it.2 (env.testcase.drop kBufSize) :=
      LkpServer.feeding_push hb hcommand (hup it hit) (hpushed ▸ hit) hserver ht
    have hremote : y.server.Remote it.2 :=
      LkpServer.Pooled.remote hb ⟨it.1, LkpServer.mem_targets hit⟩
    refine ⟨hremote.step ht, hnode, ?_⟩
    rw [htasks it.2 hnone, find_target (LkpServer.targets_conns_nodup hb message) hit,
      show (y.serverSends t).reports it.2 = [] from hreports]
    have hsize : intOfU32 (LkpServer.pushPatch message env it.1).fileSize = toInt32 env.testcase.length := by
      rw [LkpServer.pushPatch, intOfU32_u32, toInt32_toInt32]
    have hid : intOfU32 (LkpServer.pushPatch message env it.1).nodeId = it.1 :=
      LkpServer.intOfU32_u32_of_range h₀ hlt
    have hget := Getting.opening (says_pushPatch htext it.1) rfl
      (show (y.node it.2).testcasePath message.testcase = _ from rfl) hsize hid (.unread hfeeding)
      (List.take_append_drop kBufSize env.testcase)
    exact hget

end

end System

end LkpExtent
