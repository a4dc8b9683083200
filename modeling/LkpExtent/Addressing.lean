/-
  LkpExtent formalization — who is sent what, and when.

  * `LkpServer.AddressedBy`: the messages that an event makes the server send, with their
    receivers; `LkpServer.addresses_handle`: nothing else is sent;
  * `LkpClient.SentBy`, `LkpClient.sentBy_handle`: the same of a client.
-/
import LkpExtent.ListReplies

namespace LkpExtent

open Lib

/-! ## The server -/

namespace LkpServer
variable {s t : LkpServer} {P : ConnId × Message → Prop}

/-- `t` has sent more than `s`, and all of this meets `P`, receivers included. -/
def Addresses (P : ConnId × Message → Prop) (s t : LkpServer) : Prop :=
  ∃ its, t.sent = s.sent ++ its ∧ ∀ it ∈ its, P it

theorem addresses_of_eq (h : t.sent = s.sent) : Addresses P s t := ⟨[], by rw [h, List.append_nil], nofun⟩

theorem Addresses.trans {u : LkpServer} (h : Addresses P s t) (h' : Addresses P t u) : Addresses P s u := by
  obtain ⟨its, hs, hits⟩ := h
  obtain ⟨its', hs', hits'⟩ := h'
  refine ⟨its ++ its', by rw [hs', hs, List.append_assoc], ?_⟩
  intro it hit
  rcases List.mem_append.1 hit with hit | hit
  · exact hits it hit
  · exact hits' it hit

theorem addresses_send {message : Message} {conn : ConnId} (hm : P (conn, message)) :
    Addresses P s (s.send conn message) := by
  refine ⟨[(conn, message)], rfl, ?_⟩
  intro it hit
  rwa [List.mem_singleton.1 hit]

theorem addresses_sendToClient {message : Message} {conn : Option ConnId} (hm : ∀ c, conn = some c → P (c, message)) :
    Addresses P s (s.sendToClient message conn) := by
  simp only [sendToClient]
  cases conn with
  | none => exact addresses_of_eq rfl
  | some c =>
    simp only
    split_ifs
    · exact addresses_send (hm c rfl)
    · exact addresses_of_eq rfl

theorem addresses_sendToCmdClient {message : Message} (hm : ∀ c, s.CmdConnection = some c → P (c, message))
    (h : s.sendToCmdClient message = .ok t) : Addresses P s t := by
  simp only [sendToCmdClient] at h
  split at h
  · rename_i c hc
    cases h
    split_ifs
    · exact addresses_send (hm c hc)
    · exact addresses_of_eq rfl
  · cases h

theorem addresses_replyIfComplete {command : CommandID}
    (hm : ∀ c, s.CmdConnection = some c → P (c, .ret (s.returnOf command)))
    (h : s.replyIfComplete command = .ok t) : Addresses P s t := by
  simp only [replyIfComplete] at h
  split_ifs at h
  · exact addresses_sendToCmdClient hm h
  · cases h; exact addresses_of_eq rfl

theorem addresses_broadToClients {message : Command} (hm : ∀ it ∈ s.clientPool.connections.toList,
    P (it.2, .command { message with nodeId := u32 it.1 })) : Addresses P s (s.broadToClients message) := by
  simp only [broadToClients]
  generalize s.clientPool.connections.toList = its at hm
  induction its generalizing s with
  | nil => exact addresses_of_eq rfl
  | cons it its ih =>
    rw [List.forall_mem_cons] at hm
    refine Addresses.trans (addresses_sendToClient ?_) (ih hm.2)
    rintro c ⟨⟩
    exact hm.1

theorem addresses_startPush {message : Command} {env : Env} {nodeID : ℤ} {conn : ConnId}
    (hm : P (conn, .file (pushPatch message env nodeID))) :
    Addresses P s (s.startPush message env nodeID conn) := by
  simp only [startPush]
  refine Addresses.trans (addresses_of_eq rfl) (addresses_sendToClient ?_)
  rintro c ⟨⟩
  exact hm

theorem addresses_startPushes {message : Command} {env : Env} {its : List (ℤ × ConnId)}
    (hm : ∀ it ∈ its, P (it.2, .file (pushPatch message env it.1))) :
    Addresses P s (startPushes message env its s) := by
  induction its generalizing s with
  | nil => exact addresses_of_eq rfl
  | cons it its ih =>
    rw [List.forall_mem_cons] at hm
    simp only [startPushes]
    split_ifs
    · exact (addresses_startPush hm.1).trans (ih hm.2)
    · exact addresses_of_eq rfl

/-- The node is in the pool, under some ID. -/
def Pooled (s : LkpServer) (conn : ConnId) : Prop := ∃ nodeID, s.clientPool.getConn nodeID = some conn

theorem pooled_of_mem {it : ℤ × ConnId} (h : it ∈ s.clientPool.connections.toList) : s.Pooled it.2 :=
  ⟨it.1, s.clientPool.mem_toList.1 h⟩

theorem addresses_pushToClient {message : Command} {env : Env}
    (hm : ∀ nodeID c, s.Pooled c → P (c, .file (pushPatch message env nodeID)))
    (h : s.pushToClient message env = .ok t) : Addresses P s t := by
  unfold pushToClient at h
  split_ifs at h
  · simp only at h
    split_ifs at h
    · split at h
      · rename_i conn hconn
        cases h
        exact Addresses.trans (addresses_of_eq rfl) (addresses_startPush (hm _ _ ⟨_, hconn⟩))
      · cases h
    · cases h; exact addresses_of_eq rfl
  · cases h
    exact Addresses.trans (addresses_of_eq rfl)
      (addresses_startPushes fun it hit => hm _ _ (pooled_of_mem hit))

theorem addresses_forward {message : Command}
    (hm : ∀ nodeId c, s.Pooled c → P (c, .command { message with nodeId })) :
    Addresses P s (s.forward message) := by
  simp only [forward]
  split_ifs
  · exact (addresses_sendToClient fun c hc => hm message.nodeId c ⟨_, hc⟩).trans (addresses_of_eq rfl)
  · exact (addresses_broadToClients fun it hit => hm _ _ (pooled_of_mem hit)).trans (addresses_of_eq rfl)

theorem addresses_onWriteComplete {conn : ConnId} {stack : Bytes}
    (hm : ∀ f : File, f.fileType = .TESTCASE ∨ f.fileType = .END → P (conn, .file f))
    (h : s.onWriteComplete conn stack = .ok t) : Addresses P s t := by
  simp only [onWriteComplete] at h
  split at h
  · split at h
    · rename_i fp _ _ m rest hnext
      have hne : fp ≠ [] := by
        rintro rfl
        cases hnext
      rw [nextPatch_of_ne_nil hne] at hnext
      cases hnext
      cases h
      refine Addresses.trans (addresses_of_eq rfl) (addresses_sendToClient ?_)
      rintro c ⟨⟩
      exact hm _ (.inl rfl)
    · cases h
      refine Addresses.trans (addresses_of_eq rfl) (addresses_sendToClient ?_)
      rintro c ⟨⟩
      exact hm _ (.inr rfl)
  · cases h

/-- What an event makes the server send: a command is forwarded to nodes of the pool, a test
    case is pushed to them, first patch by the command and the rest by the write-complete
    callback of the connection, and the CLI gets the Return that an answer completes, or the
    list that it asked for. -/
def AddressedBy (s : LkpServer) (e : ServerEvent) : ConnId × Message → Prop
  | (c, .command k) => s.Pooled c ∧ ∃ d m env, e = .message d (.command m) env ∧
      k = { m with nodeId := k.nodeId } ∧ (m.command = .UPDATE ∨ m.command = .RUN ∨ m.command = .RESULT)
  | (c, .file f) =>
      (s.Pooled c ∧ f.fileType = .TESTCASE ∧ ∃ d m env, e = .message d (.command m) env ∧ m.command = .PUSH) ∨
      ((f.fileType = .TESTCASE ∨ f.fileType = .END) ∧ ∃ stack, e = .writeComplete c stack)
  | (c, .ret r) => s.CmdConnection = some c ∧ ((∃ a, answer? e = some a ∧ r.command = commandOf a.2) ∨
      ∃ d m env, e = .message d (.command m) env ∧ m.command = .LIST ∧ r.command = .LIST)
  | _ => False

theorem addresses_onCommandMsg {d : ConnId} {message : Command} {env : Env} (h : s.onCommandMsg message env = .ok t) :
    Addresses (s.AddressedBy (.message d (.command message) env)) s t := by
  have hreset : ∀ {P : ConnId × Message → Prop}, Addresses P s s.resetCounters := addresses_of_eq rfl
  have hforward : message.command = .UPDATE ∨ message.command = .RUN ∨ message.command = .RESULT →
      Addresses (s.AddressedBy (.message d (.command message) env)) s (s.resetCounters.forward message) := by
    intro hm
    refine hreset.trans (addresses_forward ?_)
    intro nodeId c hc
    exact ⟨hc, d, message, env, rfl, rfl, hm⟩
  simp only [onCommandMsg] at h
  split at h
  · rename_i hm; cases h; exact hforward (.inl hm)
  · rename_i hm; cases h; exact hforward (.inr (.inl hm))
  · rename_i hm; cases h; exact hforward (.inr (.inr hm))
  · rename_i hm
    refine hreset.trans (addresses_pushToClient ?_ h)
    intro nodeID c hc
    exact .inl ⟨hc, rfl, d, message, env, rfl, hm⟩
  · rename_i hm
    refine hreset.trans (addresses_sendToCmdClient ?_ h)
    intro c hc
    exact ⟨hc, .inr ⟨d, message, env, rfl, hm, hm⟩⟩
  · cases h; exact addresses_of_eq rfl

/-- The last answer completes a Return. -/
theorem addresses_answer {e : ServerEvent} {u : LkpServer} {c : ConnId} {m : Message} {v : Vote ℤ String}
    (ha : answer? e = some (c, m)) (hu : Counts s u m v) (h : u.replyIfComplete (commandOf m) = .ok t) :
    Addresses (s.AddressedBy e) s t := by
  refine (addresses_of_eq hu.sent).trans (addresses_replyIfComplete ?_ h)
  intro cli hcli
  exact ⟨hu.cmd.symm.trans hcli, .inl ⟨(c, m), ha, rfl⟩⟩

/-- **The server sends what an event makes it send**, and to no one else. -/
theorem addresses_handle {e : ServerEvent} (h : s.handle e = .ok t) : Addresses (s.AddressedBy e) s t := by
  cases e with
  | up c ip =>
    simp only [handle] at h
    exact addresses_of_eq (sent_onConnection h :)
  | down c =>
    simp only [handle] at h
    exact addresses_of_eq (sent_onConnection h :)
  | message c m env =>
    cases m with
    | command m => exact addresses_onCommandMsg h
    | file m =>
      by_cases hend : m.fileType = .END
      · obtain ⟨u, v, hu, hreply⟩ := counts_end hend h
        exact addresses_answer (if_pos hend) hu hreply
      · exact addresses_of_eq (sent_patch hend h)
    | commandACK m => exact addresses_answer (m := .commandACK m) rfl (counts_ack rfl) h
    | heartBeat m => exact addresses_of_eq (sent_onHeartBeat h)
    | pushACK m => exact addresses_answer (m := .pushACK m) rfl (counts_ack rfl) h
    | ret m => cases h; exact addresses_of_eq rfl
  | written c => cases h; exact addresses_of_eq rfl
  | writeComplete c stack =>
    refine Addresses.trans (t := s.setConn c (s.conns c).dequeue) (addresses_of_eq rfl) ?_
    exact addresses_onWriteComplete (fun f hf => .inr ⟨hf, stack, rfl⟩) h
  | timer order => cases h; exact addresses_of_eq (sent_onTimer order)

end LkpServer

/-! ## A client -/

namespace LkpClient
variable {c d : LkpClient}

/-- `d` has sent at most one message more than `c`, and that meets `P`. -/
def SendsOne (P : Message → Prop) (c d : LkpClient) : Prop :=
  ∃ o : Option Message, d.sent = c.sent ++ o.toList ∧ ∀ m ∈ o, P m

variable {P : Message → Prop}

theorem sendsOne_of_eq (h : d.sent = c.sent) : SendsOne P c d := ⟨none, by simp [h], nofun⟩

theorem SendsOne.of_sent {c' : LkpClient} (h : SendsOne P c' d) (hs : c'.sent = c.sent) : SendsOne P c d := by
  rw [SendsOne, ← hs]; exact h

theorem sendsOne_sendToServer {message : Message} (h : c.sendToServer message = .ok d) (hm : P message) :
    SendsOne P c d := by
  obtain ⟨-, -, hs | hs⟩ := sendToServer_sent h
  · refine ⟨some message, hs, ?_⟩
    rintro m ⟨⟩
    exact hm
  · exact sendsOne_of_eq hs

theorem SendsOne.posts (h : SendsOne P c d) : Posts P c d := by
  obtain ⟨o, hs, ho⟩ := h
  exact ⟨o.toList, hs, fun m hm => ho m (Option.mem_toList.1 hm)⟩

/-- What an event makes a client send: an ACK or the first patch of its result answers a
    command, a PushACK also the end of a test case, the write-complete callback sends the rest
    of the result, and the timer a heartbeat. -/
def SentBy (e : ClientEvent) : Message → Prop
  | .commandACK a => ∃ m env, e = .message (.command m) env ∧ a.command = m.command
  | .pushACK _ => (∃ m env, e = .message (.command m) env ∧ m.command = .PUSH) ∨
      ∃ f env, e = .message (.file f) env ∧ f.fileType = .END
  | .file f => (f.fileType = .RESULT ∧ f.firstPatch = true ∧
        ∃ m env, e = .message (.command m) env ∧ m.command = .RESULT) ∨
      ((f.fileType = .RESULT ∨ f.fileType = .END) ∧ f.firstPatch = false ∧ ∃ stack, e = .writeComplete stack)
  | .heartBeat _ => e = .timer
  | _ => False

theorem sentBy_onCommandMsg {message : Command} {env : ClientEnv} (h : c.onCommandMsg message env = .ok d) :
    SendsOne (SentBy (.message (.command message) env)) c d := by
  have hack : ∀ a : CommandACK, a.command = message.command →
      SentBy (.message (.command message) env) (.commandACK a) := fun a ha => ⟨message, env, rfl, ha⟩
  have hfork : ∀ {c' : LkpClient} {ACK : CommandACK}, ACK.command = message.command →
      c'.forkChild ACK env = .ok d → SendsOne (SentBy (.message (.command message) env)) c' d := by
    intro c' ACK hACK h
    simp only [forkChild] at h
    split_ifs at h
    · exact (sendsOne_sendToServer h (hack _ hACK)).of_sent rfl
    · exact (sendsOne_sendToServer h (hack _ hACK)).of_sent rfl
  simp only [onCommandMsg] at h
  split_ifs at h
  · exact sendsOne_sendToServer h (hack _ rfl)
  · split at h
    · exact (hfork rfl h).of_sent rfl
    · exact (hfork rfl h).of_sent rfl
    · rename_i hm
      simp only [onResult] at h
      split at h
      · exact (sendsOne_sendToServer h (hack _ rfl)).of_sent rfl
      · exact (sendsOne_sendToServer h (.inl ⟨rfl, rfl, message, env, rfl, hm⟩)).of_sent rfl
    · rename_i hm
      exact (sendsOne_sendToServer h (.inl ⟨message, env, rfl, hm⟩)).of_sent rfl
    · cases h; exact sendsOne_of_eq rfl
    · cases h; exact sendsOne_of_eq rfl

theorem sentBy_onFileMsg {message : File} {env : ClientEnv} (h : c.onFileMsg message env = .ok d) :
    SendsOne (SentBy (.message (.file message) env)) c d := by
  by_cases hend : message.fileType = .END
  · obtain ⟨c₁, c₂, _, _, h₁, -, h₂, hd⟩ := onFileMsg_end h hend
    rw [hd]
    exact (sendsOne_sendToServer h₂ (.inr ⟨message, env, rfl, hend⟩)).of_sent (congrArg sent (fcloseTestcase_eq h₁) :)
  · simp only [onFileMsg] at h
    rw [if_neg hend] at h
    split_ifs at h
    · exact sendsOne_of_eq ((congrArg sent (fwriteTestcase_eq h) :).trans (by rw [openTestcase]))
    · exact sendsOne_of_eq (congrArg sent (fwriteTestcase_eq h) :)

theorem sentBy_onWriteComplete {stack : Bytes} (h : c.onWriteComplete stack = .ok d) :
    SendsOne (SentBy (.writeComplete stack)) c d := by
  simp only [onWriteComplete] at h
  split at h
  · cases h
  · rename_i fp _
    by_cases hfp : fp = []
    · subst hfp
      exact (sendsOne_sendToServer h (.inr ⟨.inr rfl, rfl, stack, rfl⟩)).of_sent rfl
    · rw [nextPatch_of_ne_nil hfp] at h
      exact (sendsOne_sendToServer h (.inr ⟨.inl rfl, rfl, stack, rfl⟩)).of_sent rfl

/-- **A client sends what an event makes it send**, and never two messages at once. -/
theorem sentBy_handle {e : ClientEvent} (h : c.handle e = .ok d) : SendsOne (SentBy e) c d := by
  cases e with
  | up => cases h; exact sendsOne_of_eq rfl
  | down => cases h; exact sendsOne_of_eq rfl
  | message m env =>
    cases m with
    | command m => exact sentBy_onCommandMsg h
    | file m => exact sentBy_onFileMsg h
    | _ => cases h
  | written => cases h; exact sendsOne_of_eq rfl
  | writeComplete stack =>
    have h : { c with conn := c.conn.dequeue }.onWriteComplete stack = .ok d := h
    exact (sentBy_onWriteComplete h).of_sent rfl
  | timer =>
    have h : c.onTimer = .ok d := h
    simp only [onTimer] at h
    split_ifs at h
    exact sendsOne_sendToServer h rfl
  | childExit => cases h; exact sendsOne_of_eq rfl

end LkpClient

end LkpExtent
