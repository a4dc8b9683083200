/-
  LkpExtent formalization — what a node answers to a command or a test case.

  * `Keeps`: everything but a command, a first patch or an END sends no answer and
    keeps the node ID;
  * `echoedBy_command`, `echoedBy_file`: a node answers once, with the ID that it was
    given.
-/
import LkpExtent.Lib.Runs
import LkpExtent.ClientSteps

namespace LkpExtent

open Lib

/-- The two answers that are counted by their status. -/
def Message.isAck : Message → Bool
  | .commandACK _ | .pushACK _ => true
  | _ => false

/-- Neither a command nor the beginning or the end of a test case. -/
def ClientEvent.keepsTestcase : ClientEvent → Bool
  | .message (.command _) _ => false
  | .message (.file f) _ => f.fileType ≠ .END && !f.firstPatch
  | _ => true

namespace LkpClient
variable {c d : LkpClient}

/-! ## The node ID of the test case -/

/-- `d` has the node ID of `c` and has sent no answer since. -/
structure Keeps (c d : LkpClient) : Prop where
  nodeID : d.nodeID = c.nodeID
  sent : ∃ ms, d.sent = c.sent ++ ms ∧ ∀ m ∈ ms, m.isAck = false

theorem keeps_of_eq (hid : d.nodeID = c.nodeID) (hs : d.sent = c.sent) : Keeps c d :=
  ⟨hid, [], by rw [hs, List.append_nil], nofun⟩

theorem Keeps.trans {e : LkpClient} (h : Keeps c d) (h' : Keeps d e) : Keeps c e := by
  obtain ⟨ms, hs, hms⟩ := h.sent
  obtain ⟨ms', hs', hms'⟩ := h'.sent
  refine ⟨h'.nodeID.trans h.nodeID, ms ++ ms', by rw [hs', hs, List.append_assoc], ?_⟩
  intro m hm
  rcases List.mem_append.1 hm with hm | hm
  · exact hms m hm
  · exact hms' m hm

theorem sendToServer_sent {message : Message} (h : c.sendToServer message = .ok d) :
    d.nodeID = c.nodeID ∧ (c.conn.connected = true → d.sent = c.sent ++ [message]) ∧
      (d.sent = c.sent ++ [message] ∨ d.sent = c.sent) := by
  simp only [sendToServer] at h
  split_ifs at h with _ hup
  · cases h
    exact ⟨rfl, fun _ => rfl, Or.inl rfl⟩
  · cases h
    exact ⟨rfl, fun hup' => absurd hup' hup, Or.inr rfl⟩

theorem keeps_sendToServer {message : Message} (hm : message.isAck = false)
    (h : c.sendToServer message = .ok d) : Keeps c d := by
  obtain ⟨hid, -, hs | hs⟩ := sendToServer_sent h
  · refine ⟨hid, [message], hs, ?_⟩
    intro m hmem
    rwa [List.mem_singleton.1 hmem]
  · exact keeps_of_eq hid hs

theorem keeps_fwriteTestcase {message : File} {env : ClientEnv}
    (h : c.fwriteTestcase message env = .ok d) : Keeps c d :=
  keeps_of_eq (congrArg nodeID (fwriteTestcase_eq h) :) (congrArg sent (fwriteTestcase_eq h) :)

theorem keeps_onWriteComplete {stack : Bytes} (h : c.onWriteComplete stack = .ok d) : Keeps c d := by
  simp only [onWriteComplete] at h
  split at h
  · cases h
  · split at h
    · obtain ⟨hid, hs⟩ := keeps_sendToServer rfl h
      exact ⟨hid, hs⟩
    · obtain ⟨hid, hs⟩ := keeps_sendToServer rfl h
      exact ⟨hid, hs⟩

theorem keeps_step {e : ClientEvent} (hs : c.step e = some d) (he : e.keepsTestcase = true) : Keeps c d := by
  obtain ⟨-, h⟩ := step_eq_some.1 hs
  cases e with
  | up => cases h; exact keeps_of_eq rfl rfl
  | down => cases h; exact keeps_of_eq rfl rfl
  | message m env =>
    cases m with
    | command m => cases he
    | file f =>
      simp only [ClientEvent.keepsTestcase, Bool.and_eq_true, decide_eq_true_eq, Bool.not_eq_true'] at he
      have h : c.onFileMsg f env = .ok d := h
      simp only [onFileMsg] at h
      rw [if_neg he.1, if_neg (by rw [he.2]; exact Bool.false_ne_true)] at h
      exact keeps_fwriteTestcase h
    | commandACK m => cases h
    | pushACK m => cases h
    | heartBeat m => cases h
    | ret m => cases h
  | written => cases h; exact keeps_of_eq rfl rfl
  | writeComplete stack =>
    obtain ⟨hid, hs⟩ := keeps_onWriteComplete h
    exact ⟨hid, hs⟩
  | timer =>
    have h : c.onTimer = .ok d := h
    simp only [onTimer] at h
    split_ifs at h
    exact keeps_sendToServer rfl h
  | childExit => cases h; exact keeps_of_eq rfl rfl

theorem keeps_runs {es : List ClientEvent} (h : Runs step c es d) (he : ∀ e ∈ es, e.keepsTestcase = true) :
    Keeps c d := by
  induction h with
  | nil => exact keeps_of_eq rfl rfl
  | @snoc es t u e _ hs ih =>
    have hlast := keeps_step hs (he e (by simp))
    exact (ih fun e' he' => he e' (by simp [he'])).trans hlast

end LkpClient

/-! ## The answers of a node -/

/-- How a node answers the message `told`: when it has handled a command, or has received
    the whole test case that begins with `told`, it has sent one answer, of the form
    `answer`. -/
structure EchoedBy (told : Message) (answer : Bool × String → Message) : Prop where
  command : ∀ (c d : LkpClient) (m : Command) (env : ClientEnv), told = .command m →
    c.conn.connected = true → c.step (.message told env) = some d →
    ∃ outcome, d.sent = c.sent ++ [answer outcome]
  file : ∀ (c c₁ c₂ d : LkpClient) (es : List ClientEvent) (f g : File) (env env' : ClientEnv),
    told = .file f → c.step (.message told env) = some c₁ → Runs LkpClient.step c₁ es c₂ →
    (∀ e ∈ es, e.keepsTestcase = true) → g.fileType = .END → c₂.conn.connected = true →
    c₂.step (.message (.file g) env') = some d →
    ∃ ms outcome, (∀ m ∈ ms, m.isAck = false) ∧ d.sent = c.sent ++ ms ++ [answer outcome]

/-- A node answers an UPDATE or a RUN with the command and with the ID that came with it. -/
theorem echoedBy_command {m : Command} (hm : m.command = .UPDATE ∨ m.command = .RUN) :
    EchoedBy (.command m) fun outcome => .commandACK {
      status := outcome.1, command := m.command, ackMessage := outcome.2, nodeId := m.nodeId } := by
  refine ⟨?_, by rintro _ _ _ _ _ _ _ _ _ ⟨⟩⟩
  rintro c d m' env - hup hs
  have hfork : ∀ {c' : LkpClient} {ACK : CommandACK}, c'.conn = c.conn → c'.sent = c.sent →
      c'.forkChild ACK env = .ok d →
      ∃ outcome : Bool × String, d.sent = c.sent ++
        [.commandACK { ACK with status := outcome.1, ackMessage := outcome.2 }] := by
    intro c' ACK hconn hsent h
    simp only [LkpClient.forkChild] at h
    split_ifs at h
    · refine ⟨(true, ACK.ackMessage), ?_⟩
      rw [(LkpClient.sendToServer_sent h).2.1 (by rw [hconn]; exact hup), hsent]
    · refine ⟨(false, "ERROR 11: Fork Error!"), ?_⟩
      rw [(LkpClient.sendToServer_sent h).2.1 (by rw [hconn]; exact hup), hsent]
  have h : c.onCommandMsg m env = .ok d := (LkpClient.step_eq_some.1 hs).2
  simp only [LkpClient.onCommandMsg] at h
  split_ifs at h
  · exact ⟨(false, _), (LkpClient.sendToServer_sent h).2.1 hup⟩
  · rcases hm with hm | hm
    · simp only [hm] at h ⊢
      refine hfork ?_ ?_ h <;> rfl
    · simp only [hm] at h ⊢
      refine hfork ?_ ?_ h <;> rfl

/-- A node answers a test case with the ID of its first patch. -/
theorem echoedBy_file {f : File} (hend : f.fileType ≠ .END) (hfirst : f.firstPatch = true) :
    EchoedBy (.file f) fun outcome =>
      .pushACK { status := outcome.1, ackMessage := outcome.2, nodeId := f.nodeId } := by
  refine ⟨by rintro _ _ _ _ ⟨⟩, ?_⟩
  rintro c c₁ c₂ d es f' g env env' - hs hrun hkeeps hg hup hs'
  have hstart : c₁.nodeID = intOfU32 f.nodeId ∧ c₁.sent = c.sent := by
    have h : c.onFileMsg f env = .ok c₁ := (LkpClient.step_eq_some.1 hs).2
    simp only [LkpClient.onFileMsg] at h
    rw [if_neg hend, if_pos hfirst] at h
    split_ifs at h
    unfold LkpClient.fwriteTestcase LkpClient.openTestcase at h
    simp only [if_true] at h
    cases h
    exact ⟨rfl, rfl⟩
  obtain ⟨hid, ms, hms, hnone⟩ := LkpClient.keeps_runs hrun hkeeps
  obtain ⟨c₃, c₄, status, text, hclose, -, hsend, hd⟩ := LkpClient.onFileMsg_end (LkpClient.step_eq_some.1 hs').2 hg
  have heq := LkpClient.fcloseTestcase_eq hclose
  have hconn : c₃.conn = c₂.conn := (congrArg LkpClient.conn heq :)
  have hid₃ : c₃.nodeID = c₂.nodeID := (congrArg LkpClient.nodeID heq :)
  have hsent₃ : c₃.sent = c₂.sent := (congrArg LkpClient.sent heq :)
  have hu : u32 c₃.nodeID = f.nodeId := by rw [hid₃, hid, hstart.1, u32_intOfU32]
  rw [← hconn] at hup
  refine ⟨ms, (status, text), hnone, ?_⟩
  rw [hd]
  show c₄.sent = _
  rw [(LkpClient.sendToServer_sent hsend).2.1 hup, hsent₃, hms, hstart.2, hu]

end LkpExtent
