/-
  LkpExtent formalization — what the steps of the client send.

  * `step_result`, `step_chunk`, `step_end`: the messages of a transfer;
  * `Aside`: everything else sends other messages at most;
  * `sends_step`: the messages that a step can add.
-/
import LkpExtent.Client

namespace LkpExtent

open Lib

/-- What a message is to a transfer: the length of a chunk, or the end mark. -/
def Message.item? : Message → Option (Option UInt32)
  | .file f => some (if f.fileType = .END then none else some f.patchLen)
  | _ => none

theorem item?_endFile : (Message.file endFile).item? = some none := rfl

theorem item?_patchOf {fileType : FileType} (h : fileType ≠ .END) (chunk stack : Bytes) :
    (Message.file (patchOf fileType chunk stack)).item? = some (some (u32 chunk.length)) := by
  simp [Message.item?, patchOf, h]

namespace LkpClient
variable {c d : LkpClient}

/-! ## The messages of a transfer -/

theorem step_eq_some {e : ClientEvent} {d : LkpClient} :
    c.step e = some d ↔ c.enabled e ∧ c.handle e = .ok d := by
  simp only [step]
  cases c.enabled e <;> cases c.handle e <;> simp [Except.toOption]

/-- A RESULT command that finds a result file. -/
theorem step_result {m : Command} {env : ClientEnv} {data : Bytes} (hm : m.command = .RESULT)
    (hconn : c.connection = true) (hup : c.conn.connected = true) (hchild : c.childNum = 0)
    (hopens : env.opens = true) (hdata : c.disk (resultFile c.ROOT_DIR) = some data) :
    c.step (.message (.command m) env) = some { c with
      lastCmdString := "RESULT"
      nodeID := intOfU32 m.nodeId
      conn := { c.conn with
        context := some (data.drop kBufSize), writeCompleteCallback := true, output := true }
      sent := c.sent ++ [.file (resultPatch (toInt32 data.length) data env.stack)] } := by
  have hen : c.conn.isUp = true := c.conn.isUp_of_connected hup
  have hup' : c.conn.state = .kConnected := by simpa [TcpConnection.connected] using hup
  simp [step, enabled, handle, onMessage, onCommandMsg, onResult, sendToServer, lkpEnumToCmds,
    TcpConnection.connected, TcpConnection.send, Disk.stSize, Except.toOption, *]

/-- A call of the callback that reads a chunk. -/
theorem step_chunk {fp stack : Bytes} (hq : 0 < c.conn.queued) (hconn : c.connection = true)
    (hup : c.conn.connected = true) (hctx : c.conn.context = some fp) (hfp : fp ≠ []) :
    c.step (.writeComplete stack) = some { c with
      conn := { c.conn with
        queued := c.conn.queued - 1, context := some (fp.drop kBufSize), output := true }
      sent := c.sent ++ [.file (patchOf .RESULT (fp.take kBufSize) stack)] } := by
  have hup' : c.conn.state = .kConnected := by simpa [TcpConnection.connected] using hup
  simp [step, enabled, handle, onWriteComplete, sendToServer, nextPatch_of_ne_nil hfp,
    TcpConnection.connected, TcpConnection.send, TcpConnection.dequeue, Except.toOption, *]

/-- A call of the callback that finds the end of the file. -/
theorem step_end {stack : Bytes} (hq : 0 < c.conn.queued) (hconn : c.connection = true)
    (hup : c.conn.connected = true) (hctx : c.conn.context = some []) :
    c.step (.writeComplete stack) = some { c with
      conn := { c.conn with
        queued := c.conn.queued - 1, writeCompleteCallback := false, output := true }
      sent := c.sent ++ [.file endFile] } := by
  have hup' : c.conn.state = .kConnected := by simpa [TcpConnection.connected] using hup
  simp [step, enabled, handle, onWriteComplete, sendToServer, nextPatch_nil,
    TcpConnection.connected, TcpConnection.send, TcpConnection.dequeue, Except.toOption, *]

/-! ## Everything else -/

/-- The items sent so far. -/
def items (c : LkpClient) : List (Option UInt32) := c.sent.filterMap Message.item?

/-- `d` comes from `c` by sending other messages at most. -/
structure Aside (c d : LkpClient) : Prop where
  connection : d.connection = c.connection
  conn : d.conn = { c.conn with output := d.conn.output }
  output : c.conn.output = true → d.conn.output = true
  sent : ∃ ms, d.sent = c.sent ++ ms ∧ ∀ m ∈ ms, m.item? = none

theorem aside_of_eq (hc : d.connection = c.connection) (hconn : d.conn = c.conn) (hs : d.sent = c.sent) :
    Aside c d :=
  ⟨hc, by rw [hconn], fun ho => by rw [hconn]; exact ho, [], by rw [hs, List.append_nil], nofun⟩

theorem Aside.refl (c : LkpClient) : Aside c c := aside_of_eq rfl rfl rfl

theorem Aside.trans {e : LkpClient} (h : Aside c d) (h' : Aside d e) : Aside c e := by
  obtain ⟨ms, hs, hms⟩ := h.sent
  obtain ⟨ms', hs', hms'⟩ := h'.sent
  refine ⟨h'.connection.trans h.connection, ?_, fun ho => h'.output (h.output ho), ms ++ ms', ?_, ?_⟩
  · rw [h'.conn, h.conn]
  · rw [hs', hs, List.append_assoc]
  · intro m hm
    rcases List.mem_append.1 hm with hm | hm
    · exact hms m hm
    · exact hms' m hm

theorem Aside.items (h : Aside c d) : d.items = c.items := by
  obtain ⟨ms, hs, hms⟩ := h.sent
  rw [LkpClient.items, hs, List.filterMap_append, List.filterMap_eq_nil_iff.2 hms, List.append_nil,
    LkpClient.items]

theorem aside_sendToServer {message : Message} (hm : message.item? = none)
    (h : c.sendToServer message = .ok d) : Aside c d := by
  simp only [sendToServer] at h
  split_ifs at h
  · cases h
    exact ⟨rfl, rfl, fun _ => rfl, [message], rfl, by simpa using hm⟩
  · cases h; exact .refl c

/-- Closing the stream changes the stream and its file only. -/
theorem fcloseTestcase_eq (h : c.fcloseTestcase = .ok d) : d = { c with disk := d.disk, fp := d.fp } := by
  simp only [fcloseTestcase] at h
  split at h
  · split_ifs at h
    cases h; rfl
  · cases h

/-- And so does writing. -/
theorem fwriteTestcase_eq {message : File} {env : ClientEnv} (h : c.fwriteTestcase message env = .ok d) :
    d = { c with disk := d.disk, fp := d.fp } := by
  simp only [fwriteTestcase] at h
  split at h
  · split_ifs at h
    cases h; rfl
  · cases h

theorem aside_fcloseTestcase (h : c.fcloseTestcase = .ok d) : Aside c d := by
  have heq := fcloseTestcase_eq h
  exact aside_of_eq (congrArg connection heq :) (congrArg conn heq :) (congrArg sent heq :)

theorem aside_fwriteTestcase {message : File} {env : ClientEnv}
    (h : c.fwriteTestcase message env = .ok d) : Aside c d := by
  have heq := fwriteTestcase_eq h
  exact aside_of_eq (congrArg connection heq :) (congrArg conn heq :) (congrArg sent heq :)

theorem aside_openTestcase (message : File) : Aside c (c.openTestcase message) := by
  simp only [openTestcase]
  exact aside_of_eq rfl rfl rfl

/-- The END of a test case: its stream is closed, and the one answer says whether the size
    is right; if it is, the copy comes after the answer. -/
theorem onFileMsg_end {message : File} {env : ClientEnv} (h : c.onFileMsg message env = .ok d)
    (hend : message.fileType = .END) :
    ∃ (c₁ c₂ : LkpClient) (status : Bool) (ackMessage : String), c.fcloseTestcase = .ok c₁ ∧
      (status = true ↔ toInt32 (c₁.disk.stSize c₁.fileName env.uninit) = c₁.fileSize) ∧
      c₁.sendToServer (.pushACK { status, ackMessage, nodeId := u32 c₁.nodeID }) = .ok c₂ ∧
      d = { c₂ with shell := d.shell } := by
  simp only [onFileMsg] at h
  rw [if_pos hend] at h
  obtain ⟨c₁, h₁, h⟩ := bind_ok h
  split_ifs at h with hsize
  · exact ⟨c₁, d, false, _, h₁, iff_of_false Bool.false_ne_true hsize, h, rfl⟩
  · obtain ⟨c₂, h₂, h⟩ := bind_ok h
    cases h
    exact ⟨c₁, c₂, true, _, h₁, iff_of_true rfl (not_not.1 hsize), h₂, rfl⟩

theorem aside_onFileMsg {message : File} {env : ClientEnv} (h : c.onFileMsg message env = .ok d) :
    Aside c d := by
  by_cases hend : message.fileType = .END
  · obtain ⟨c₁, c₂, _, _, h₁, -, h₂, hd⟩ := onFileMsg_end h hend
    rw [hd]
    exact ((aside_fcloseTestcase h₁).trans (aside_sendToServer rfl h₂)).trans (aside_of_eq rfl rfl rfl)
  · simp only [onFileMsg] at h
    rw [if_neg hend] at h
    split_ifs at h
    · exact (aside_openTestcase message).trans (aside_fwriteTestcase h)
    · exact aside_fwriteTestcase h

/-- A command that starts a transfer. -/
def begins (c : LkpClient) : ClientEvent → Bool
  | .message (.command m) env =>
    m.command = .RESULT && c.childNum = 0 && env.opens && (c.disk (resultFile c.ROOT_DIR)).isSome
  | _ => false

theorem aside_forkChild {ACK : CommandACK} {env : ClientEnv} (h : c.forkChild ACK env = .ok d) :
    Aside c d := by
  unfold forkChild at h
  have hc : Aside c { c with childNum := c.childNum + 1 } := aside_of_eq rfl rfl rfl
  refine hc.trans ?_
  simp only at h
  split_ifs at h <;> exact aside_sendToServer rfl h

theorem aside_onResult {message : Command} {env : ClientEnv} (h : c.onResult message env = .ok d)
    (hfile : (if env.opens then c.disk (resultFile c.ROOT_DIR) else none) = none) : Aside c d := by
  simp only [onResult] at h
  simp only [hfile] at h
  have hc : Aside c { c with nodeID := intOfU32 message.nodeId } := aside_of_eq rfl rfl rfl
  exact hc.trans (aside_sendToServer rfl h)

theorem aside_onCommandMsg {message : Command} {env : ClientEnv} (h : c.onCommandMsg message env = .ok d)
    (hb : c.begins (.message (.command message) env) = false) : Aside c d := by
  simp only [onCommandMsg] at h
  split_ifs at h with hchild
  · exact aside_sendToServer rfl h
  · have hc : Aside c { c with lastCmdString := lkpEnumToCmds message.command c.lastCmdString } :=
      aside_of_eq rfl rfl rfl
    refine hc.trans ?_
    have hnone : c.childNum = 0 := by omega
    split at h
    · exact aside_forkChild h
    · exact aside_forkChild h
    · rename_i hm
      refine aside_onResult h ?_
      simp only [begins, hm, hnone, decide_true, Bool.true_and, Bool.and_eq_false_iff] at hb
      rcases hb with ho | hd
      · rw [ho]; rfl
      · rw [Option.isSome_eq_false_iff, Option.isNone_iff_eq_none] at hd
        rw [hd, ite_self]
    · exact aside_sendToServer rfl h
    · cases h; exact aside_of_eq rfl rfl rfl
    · cases h; exact aside_of_eq rfl rfl rfl

theorem aside_onTimer (h : c.onTimer = .ok d) : Aside c d := by
  simp only [onTimer] at h
  split_ifs at h
  exact aside_sendToServer rfl h

theorem aside_onMessage {message : Message} {env : ClientEnv} (h : c.onMessage message env = .ok d)
    (hb : c.begins (.message message env) = false) : Aside c d := by
  cases message with
  | command m => exact aside_onCommandMsg h hb
  | file m => exact aside_onFileMsg h
  | commandACK m => cases h
  | pushACK m => cases h
  | heartBeat m => cases h
  | ret m => cases h

/-! ## What a step can send -/

/-- If the message is a `File`, it names no node, and a first patch announces a result. -/
def Anonymous (m : Message) : Prop :=
  ∀ f, m = .file f → f.nodeId = 0 ∧ (f.firstPatch = true → f.fileName = "result.tar")

/-- `d` has sent more than `c`, and all of this is anonymous. -/
def Sends (c d : LkpClient) : Prop := ∃ ms, d.sent = c.sent ++ ms ∧ ∀ m ∈ ms, Anonymous m

theorem Aside.sends (h : Aside c d) : Sends c d := by
  obtain ⟨ms, hs, hms⟩ := h.sent
  refine ⟨ms, hs, ?_⟩
  rintro m hm f rfl
  have := hms _ hm
  cases this

theorem sends_of_eq (h : d.sent = c.sent) : Sends c d := ⟨[], by rw [h, List.append_nil], nofun⟩

theorem sends_sendToServer {f : File} (hid : f.nodeId = 0)
    (hname : f.firstPatch = true → f.fileName = "result.tar") (h : c.sendToServer (.file f) = .ok d) :
    Sends c d := by
  simp only [sendToServer] at h
  split_ifs at h
  · cases h
    refine ⟨[.file f], rfl, ?_⟩
    rintro m hm g rfl
    cases List.mem_singleton.1 hm
    exact ⟨hid, hname⟩
  · cases h; exact sends_of_eq rfl

theorem sends_onResult {message : Command} {env : ClientEnv} (h : c.onResult message env = .ok d) :
    Sends c d := by
  cases hfile : if env.opens then c.disk (resultFile c.ROOT_DIR) else none with
  | none => exact (aside_onResult h hfile).sends
  | some data =>
    simp only [onResult] at h
    simp only [hfile] at h
    obtain ⟨ms, hs, hms⟩ := sends_sendToServer rfl (fun _ => rfl) h
    exact ⟨ms, hs, hms⟩

theorem sends_onMessage {message : Message} {env : ClientEnv} (h : c.onMessage message env = .ok d) :
    Sends c d := by
  cases hb : c.begins (.message message env) with
  | false => exact (aside_onMessage h hb).sends
  | true =>
    cases message with
    | command m =>
      simp only [begins, Bool.and_eq_true, decide_eq_true_eq] at hb
      obtain ⟨⟨⟨hm, hchild⟩, -⟩, -⟩ := hb
      have h : c.onCommandMsg m env = .ok d := h
      simp only [onCommandMsg] at h
      simp only [hm] at h
      rw [if_neg (by omega)] at h
      obtain ⟨ms, hs, hms⟩ := sends_onResult h
      exact ⟨ms, hs, hms⟩
    | file m => cases hb
    | commandACK m => cases hb
    | pushACK m => cases hb
    | heartBeat m => cases hb
    | ret m => cases hb

theorem sends_onWriteComplete {stack : Bytes} (h : c.onWriteComplete stack = .ok d) : Sends c d := by
  simp only [onWriteComplete] at h
  split at h
  · cases h
  · rename_i fp _
    by_cases hfp : fp = []
    · subst hfp
      obtain ⟨ms, hs, hms⟩ := sends_sendToServer rfl (fun h => by cases h) h
      exact ⟨ms, hs, hms⟩
    · rw [nextPatch_of_ne_nil hfp] at h
      obtain ⟨ms, hs, hms⟩ := sends_sendToServer rfl (fun h => by cases h) h
      exact ⟨ms, hs, hms⟩

/-- **The client never names the node in a `File` message.** -/
theorem sends_step {e : ClientEvent} (hs : c.step e = some d) : Sends c d := by
  obtain ⟨-, h⟩ := step_eq_some.1 hs
  cases e with
  | up => cases h; exact sends_of_eq rfl
  | down => cases h; exact sends_of_eq rfl
  | message m env => exact sends_onMessage h
  | written => cases h; exact sends_of_eq rfl
  | writeComplete stack =>
    obtain ⟨ms, hs, hms⟩ := sends_onWriteComplete h
    exact ⟨ms, hs, hms⟩
  | timer => exact (aside_onTimer h).sends
  | childExit => cases h; exact sends_of_eq rfl

end LkpClient

end LkpExtent
