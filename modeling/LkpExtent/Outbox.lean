/-
  LkpExtent formalization — what a step of the server sends.

  * `sent_*`: the handlers that send nothing;
  * `PostedBy`: the messages that an event can make the server send;
  * `posts_step`: a step adds such messages to what has been sent, and nothing else.
-/
import LkpExtent.Answers

namespace LkpExtent

open Lib

namespace LkpServer
variable {s t : LkpServer}

/-! ## What sends nothing -/

theorem sent_insertEntry {entry : Entry} (h : s.insertEntry entry = .ok t) : t.sent = s.sent := by
  obtain ⟨back, rest, -, rfl⟩ := insertEntry_ok h
  rfl

theorem sent_onConnection {conn : ConnId} (h : s.onConnection conn = .ok t) : t.sent = s.sent := by
  simp only [onConnection] at h
  split_ifs at h
  · cases h; rfl
  · split at h <;> cases h
    rfl
  · obtain ⟨u, hu, h⟩ := bind_ok h
    cases h
    exact (sent_insertEntry hu :)
  · cases h; rfl
  · split at h
    · cases h
    · split_ifs at h
      cases h; rfl

theorem sent_onHeartBeat {conn : ConnId} (h : s.onHeartBeat conn = .ok t) : t.sent = s.sent := by
  simp only [onHeartBeat] at h
  split at h
  · cases h
  · split_ifs at h
    · exact sent_insertEntry h
    · cases h; rfl

theorem sent_onTimer (order : List Entry) : (s.onTimer order).sent = s.sent := by
  have hdestroy : ∀ (u : LkpServer) (entry : Entry), (u.destroy entry).sent = u.sent := by
    intro u entry
    simp only [destroy]
    split_ifs <;> rfl
  have hfold : ∀ u : LkpServer, (order.foldl destroy u).sent = u.sent := by
    intro u
    induction order generalizing u with
    | nil => rfl
    | cons entry order ih => rw [List.foldl_cons, ih, hdestroy]
  exact hfold s.pushBucket

theorem sent_fwriteOutput {conn : ConnId} {message : File} {env : Env}
    (h : s.fwriteOutput conn message env = .ok t) : t.sent = s.sent := by
  simp only [fwriteOutput] at h
  split at h
  · split_ifs at h; cases h; rfl
  · cases h

theorem sent_patch {conn : ConnId} {message : File} {env : Env} (hne : message.fileType ≠ .END)
    (h : s.onFileMsg conn message env = .ok t) : t.sent = s.sent := by
  simp only [onFileMsg] at h
  rw [if_neg hne] at h
  split_ifs at h
  · exact (sent_fwriteOutput h :)
  · cases h; rfl
  · exact sent_fwriteOutput h

/-! ## What is sent -/

/-- `t` has sent more than `s`, and all of this meets `P`. -/
def Posts (P : Message → Prop) (s t : LkpServer) : Prop :=
  ∃ ms, t.sent = s.sent ++ ms ∧ ∀ m ∈ ms, P m.2

variable {P : Message → Prop}

theorem posts_of_eq (h : t.sent = s.sent) : Posts P s t := ⟨[], by rw [h, List.append_nil], nofun⟩

theorem Posts.trans {u : LkpServer} (h : Posts P s t) (h' : Posts P t u) : Posts P s u := by
  obtain ⟨ms, hs, hms⟩ := h
  obtain ⟨ms', hs', hms'⟩ := h'
  refine ⟨ms ++ ms', by rw [hs', hs, List.append_assoc], ?_⟩
  intro m hm
  rcases List.mem_append.1 hm with hm | hm
  · exact hms m hm
  · exact hms' m hm

theorem posts_send {message : Message} (hm : P message) (conn : ConnId) :
    Posts P s (s.send conn message) := by
  refine ⟨[(conn, message)], rfl, ?_⟩
  intro m hmem
  rwa [List.mem_singleton.1 hmem]

theorem posts_sendToClient {message : Message} (hm : P message) (conn : Option ConnId) :
    Posts P s (s.sendToClient message conn) := by
  simp only [sendToClient]
  cases conn with
  | none => exact posts_of_eq rfl
  | some conn =>
    simp only
    split_ifs
    · exact posts_send hm conn
    · exact posts_of_eq rfl

theorem posts_sendToCmdClient {message : Message} (hm : P message) (h : s.sendToCmdClient message = .ok t) :
    Posts P s t := by
  simp only [sendToCmdClient] at h
  split at h
  · cases h
    split_ifs
    · exact posts_send hm _
    · exact posts_of_eq rfl
  · cases h

theorem posts_replyIfComplete {command : CommandID} (hm : P (.ret (s.returnOf command)))
    (h : s.replyIfComplete command = .ok t) : Posts P s t := by
  simp only [replyIfComplete] at h
  split_ifs at h
  · exact posts_sendToCmdClient hm h
  · cases h; exact posts_of_eq rfl

theorem posts_broadToClients {message : Command}
    (hm : ∀ nodeId, P (.command { message with nodeId })) : Posts P s (s.broadToClients message) := by
  simp only [broadToClients]
  generalize s.clientPool.connections.toList = its
  induction its generalizing s with
  | nil => exact posts_of_eq rfl
  | cons it its ih => exact (posts_sendToClient (hm _) _).trans ih

theorem posts_startPush {message : Command} {env : Env} {nodeID : ℤ} (conn : ConnId)
    (hm : P (.file (pushPatch message env nodeID))) : Posts P s (s.startPush message env nodeID conn) := by
  simp only [startPush]
  exact Posts.trans (posts_of_eq rfl) (posts_sendToClient hm _)

theorem posts_startPushes {message : Command} {env : Env}
    (hm : ∀ nodeID, P (.file (pushPatch message env nodeID))) (its : List (ℤ × ConnId)) :
    Posts P s (startPushes message env its s) := by
  induction its generalizing s with
  | nil => exact posts_of_eq rfl
  | cons it its ih =>
    simp only [startPushes]
    split_ifs
    · exact (posts_startPush it.2 (hm it.1)).trans ih
    · exact posts_of_eq rfl

theorem posts_pushToClient {message : Command} {env : Env}
    (hm : ∀ nodeID, P (.file (pushPatch message env nodeID))) (h : s.pushToClient message env = .ok t) :
    Posts P s t := by
  unfold pushToClient at h
  split_ifs at h
  · simp only at h
    split_ifs at h
    · split at h
      · cases h
        exact Posts.trans (posts_of_eq rfl) (posts_startPush _ (hm _))
      · cases h
    · cases h; exact posts_of_eq rfl
  · cases h
    exact Posts.trans (posts_of_eq rfl) (posts_startPushes hm _)

theorem posts_forward {message : Command} (hm : ∀ nodeId, P (.command { message with nodeId })) :
    Posts P s (s.forward message) := by
  simp only [forward]
  split_ifs
  · exact (posts_sendToClient (hm message.nodeId) _).trans (posts_of_eq rfl)
  · exact (posts_broadToClients hm).trans (posts_of_eq rfl)

theorem posts_onWriteComplete {conn : ConnId} {stack : Bytes} (hm : ∀ f, P (.file f))
    (h : s.onWriteComplete conn stack = .ok t) : Posts P s t := by
  simp only [onWriteComplete] at h
  split at h
  · split at h
    · cases h
      exact Posts.trans (posts_of_eq rfl) (posts_sendToClient (hm _) _)
    · cases h
      exact Posts.trans (posts_of_eq rfl) (posts_sendToClient (hm _) _)
  · cases h

/-! ## What an event makes the server send -/

/-- The messages that an event can make the server send: a command is forwarded, files
    are pushed, an answer completes a Return or a LIST is answered at once. -/
def PostedBy (s : LkpServer) (e : ServerEvent) : Message → Prop
  | .command k => ∃ c m env, e = .message c (.command m) env ∧ k = { m with nodeId := k.nodeId } ∧
      (m.command = .UPDATE ∨ m.command = .RUN ∨ m.command = .RESULT)
  | .file _ => True
  | .ret r => (∃ a, answer? e = some a ∧ r.command = commandOf a.2) ∨
      ∃ c m env, e = .message c (.command m) env ∧ m.command = .LIST ∧ r = s.listReturn .LIST
  | _ => False

theorem posts_onCommandMsg {c : ConnId} {message : Command} {env : Env}
    (h : s.onCommandMsg message env = .ok t) :
    Posts (PostedBy s (.message c (.command message) env)) s t := by
  have hforward : message.command = .UPDATE ∨ message.command = .RUN ∨ message.command = .RESULT →
      Posts (PostedBy s (.message c (.command message) env)) s (s.resetCounters.forward message) := by
    intro hm
    refine Posts.trans (t := s.resetCounters) (posts_of_eq rfl) (posts_forward ?_)
    exact fun nodeId => ⟨c, message, env, rfl, rfl, hm⟩
  simp only [onCommandMsg] at h
  split at h
  · rename_i hm; cases h; exact hforward (.inl hm)
  · rename_i hm; cases h; exact hforward (.inr (.inl hm))
  · rename_i hm; cases h; exact hforward (.inr (.inr hm))
  · exact Posts.trans (t := s.resetCounters) (posts_of_eq rfl) (posts_pushToClient (fun _ => trivial) h)
  · rename_i hm
    refine Posts.trans (t := s.resetCounters) (posts_of_eq rfl) (posts_sendToCmdClient ?_ h)
    exact .inr ⟨c, message, env, rfl, hm, by rw [hm]; rfl⟩
  · cases h; exact posts_of_eq rfl

/-- **A step of the server sends what its event makes it send**, after what has been
    sent before. -/
theorem posts_step {e : ServerEvent} (hs : s.step e = some t) : Posts (PostedBy s e) s t := by
  have hanswer : ∀ a, answer? e = some a → Posts (PostedBy s e) s t := by
    intro a ha
    obtain ⟨u, v, hu, hreply⟩ := step_counts hs ha
    exact (posts_of_eq hu.sent).trans (posts_replyIfComplete (.inl ⟨a, ha, rfl⟩) hreply)
  have h := (step_eq_some.1 hs).2
  cases e with
  | up c ip =>
    simp only [handle] at h
    exact posts_of_eq (sent_onConnection h :)
  | down c =>
    simp only [handle] at h
    exact posts_of_eq (sent_onConnection h :)
  | message c m env =>
    cases m with
    | command m => exact posts_onCommandMsg h
    | file m =>
      by_cases hend : m.fileType = .END
      · exact hanswer (c, .file m) (if_pos hend)
      · exact posts_of_eq (sent_patch hend h)
    | commandACK m => exact hanswer _ rfl
    | heartBeat m => exact posts_of_eq (sent_onHeartBeat h)
    | pushACK m => exact hanswer _ rfl
    | ret m => cases h; exact posts_of_eq rfl
  | written c => cases h; exact posts_of_eq rfl
  | writeComplete c stack =>
    refine Posts.trans (t := s.setConn c (s.conns c).dequeue) (posts_of_eq rfl) ?_
    exact posts_onWriteComplete (fun _ => trivial) h
  | timer order => cases h; exact posts_of_eq (sent_onTimer order)

end LkpServer

end LkpExtent
