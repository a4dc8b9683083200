/-
  LkpExtent formalization — every run of whole messages is a run of the bytes: the deliveries of
  `System` are no more than what the connections can do.

  * `ByteSystem.Matches`: the bytes of the messages are on their way, and the input buffers
    are empty;
  * `ByteSystem.bytes_of_messages`: each delivery is a read of one frame.
-/
import LkpExtent.ByteSystem

namespace LkpExtent

open Lib

/-- The node to which an event happens. -/
def SystemEvent.nodeOf : SystemEvent → Option ConnId
  | .node conn _ | .receive conn _ => some conn
  | _ => none

namespace System
variable {y z : System}

abbrev AllFit (y : System) : Prop := FramesFit y.server y.node

theorem AllFit.of_step {e : SystemEvent} (hs : y.step e = some z) (h : z.AllFit) : y.AllFit := by
  cases steps_of_step hs with
  | server _ ht => exact h.of_addresses (LkpServer.addresses_handle (LkpServer.step_eq_some.1 ht).2)
  | command ht => exact h.of_addresses (LkpServer.addresses_handle (LkpServer.step_eq_some.1 ht).2)
  | deliver _ ht => exact h.of_addresses (LkpServer.addresses_handle (LkpServer.step_eq_some.1 ht).2)
  | node _ hd => exact h.of_posts (LkpClient.sentBy_handle (LkpClient.step_eq_some.1 hd).2).posts
  | receive _ hd => exact h.of_posts (LkpClient.sentBy_handle (LkpClient.step_eq_some.1 hd).2).posts

/-- A node only changes by what happens to it. -/
theorem node_step {e : SystemEvent} {c : ConnId} (hs : y.step e = some z) (hc : e.nodeOf ≠ some c) :
    z.node c = y.node c := by
  cases steps_of_step hs with
  | server | command | deliver => rfl
  | node _ _ => exact Function.update_of_ne (fun h => hc (congrArg some h.symm)) _ _
  | receive _ _ => exact Function.update_of_ne (fun h => hc (congrArg some h.symm)) _ _

theorem node_of_runs {es : List SystemEvent} {c : ConnId} (h : Runs step y es z) (hc : ∀ e ∈ es, e.nodeOf ≠ some c) :
    z.node c = y.node c := by
  induction h with
  | nil => rfl
  | snoc _ hs ih => exact (node_step hs (hc _ (by simp))).trans (ih fun e he => hc e (by simp [he]))

end System

/-- What a codec can have parsed, where the event is a command. -/
def SystemEvent.Proper : SystemEvent → Prop
  | .command _ m _ => m.command.Proper
  | _ => True

/-- One frame is one message. -/
theorem onMessageWith_frame {σ : Type} (messageCallback : σ → Pb.protobuf.Msg → Option σ)
    (errorCallback : σ → ErrorCode → σ) {m : Message} (hm : m.Carried) (s : σ) :
    onMessageWith Pb.protobuf messageCallback errorCallback s m.wire = (messageCallback s m.toPb).map fun t => (t, []) := by
  have hdecode : (codec Pb.protobuf).decode m.wire = ⟨[m.toPb], none, []⟩ := by
    have hhead := hm.framed []
    rw [List.append_nil] at hhead
    rw [Decoder.decode_item hhead, List.drop_length, Decoder.decode_nil]
  rw [onMessageWith_eq, hdecode]
  exact congrArg _ (bind_pure (messageCallback s m.toPb))

namespace ByteSystem
variable {x z : ByteSystem} {y : System}

/-- The messages of `y` are on their way in `x`, and nothing of them has been read. -/
structure Matches (x : ByteSystem) (y : System) : Prop extends x.Refines y where
  serverBuf : ∀ c, x.serverBuf c = []
  nodeBuf : ∀ c, x.nodeBuf c = []

theorem Matches.flight_toServer (h : x.Matches y) (c : ConnId) :
    x.toServer c = ((y.toServer c).map Message.wire).flatten := by
  have hcarries := h.toServer c
  rwa [h.serverBuf, Carries, List.nil_append] at hcarries

theorem Matches.flight_toNode (h : x.Matches y) (c : ConnId) :
    x.toNode c = ((y.toNode c).map Message.wire).flatten := by
  have hcarries := h.toNode c
  rwa [h.nodeBuf, Carries, List.nil_append] at hcarries

theorem Matches.serverSends (h : x.Matches y) {t : LkpServer}
    (ht : LkpServer.Addresses (fun it => it.2.Proper) x.server t) (hfit : FramesFit t x.node) :
    (x.serverSends t).Matches (y.serverSends t) :=
  ⟨h.toRefines.serverSends ht hfit, h.serverBuf, h.nodeBuf⟩

theorem Matches.nodeSends (h : x.Matches y) {conn : ConnId} {d : LkpClient}
    (hd : LkpClient.Posts Message.Proper (x.node conn) d)
    (hfit : FramesFit x.server (Function.update x.node conn d)) :
    (x.nodeSends conn d).Matches (y.nodeSends conn d) :=
  ⟨h.toRefines.nodeSends hd hfit, h.serverBuf, h.nodeBuf⟩

/-- The oldest bytes from a node have been read. -/
def takeServer (x : ByteSystem) (conn : ConnId) (n : ℕ) : ByteSystem :=
  { x with toServer := Function.update x.toServer conn ((x.toServer conn).drop n) }

def takeNode (x : ByteSystem) (conn : ConnId) (n : ℕ) : ByteSystem :=
  { x with toNode := Function.update x.toNode conn ((x.toNode conn).drop n) }

theorem serverReads_eq (conn : ConnId) (n : ℕ) (envs : ℕ → Env) : x.serverReads conn n envs =
    (onMessageWith Pb.protobuf (serverMessage conn envs) (serverError conn) (x.takeServer conn n, 0)
      (x.serverBuf conn ++ (x.toServer conn).take n)).map fun r => r.1.1.withServerBuf conn r.2 := rfl

theorem nodeReads_eq (conn : ConnId) (n : ℕ) (envs : ℕ → ClientEnv) : x.nodeReads conn n envs =
    (onMessageWith Pb.protobuf (nodeMessage conn envs) (nodeError conn) (x.takeNode conn n, 0)
      (x.nodeBuf conn ++ (x.toNode conn).take n)).map fun r => r.1.1.withNodeBuf conn r.2 := rfl

/-- A frame is read, and nothing is left of it. -/
theorem Matches.readServer (h : x.Matches y) {conn : ConnId} {m : Message} {rest : List Message}
    (hq : y.toServer conn = m :: rest) :
    (x.takeServer conn m.wire.length).Matches (y.popServer conn rest) := by
  refine ⟨⟨h.server, h.node, fun c => ?_, h.toNode, fun c m' hm' => h.fromNode c m' (System.mem_of_mem_rest hq hm'),
    h.fromServer⟩, h.serverBuf, h.nodeBuf⟩
  simp only [takeServer, System.popServer]
  by_cases hc : c = conn
  · subst hc
    rw [Function.update_self, Function.update_self, h.serverBuf, h.flight_toServer, hq, List.map_cons,
      List.flatten_cons, List.drop_left]
    rfl
  · rw [Function.update_of_ne hc, Function.update_of_ne hc]
    exact h.toServer c

theorem Matches.readNode (h : x.Matches y) {conn : ConnId} {m : Message} {rest : List Message}
    (hq : y.toNode conn = m :: rest) :
    (x.takeNode conn m.wire.length).Matches (y.popNode conn rest) := by
  refine ⟨⟨h.server, h.node, h.toServer, fun c => ?_, h.fromNode,
    fun c m' hm' => h.fromServer c m' (System.mem_of_mem_rest hq hm')⟩, h.serverBuf, h.nodeBuf⟩
  simp only [takeNode, System.popNode]
  by_cases hc : c = conn
  · subst hc
    rw [Function.update_self, Function.update_self, h.nodeBuf, h.flight_toNode, hq, List.map_cons,
      List.flatten_cons, List.drop_left]
    rfl
  · rw [Function.update_of_ne hc, Function.update_of_ne hc]
    exact h.toNode c

theorem Matches.withServerBuf (h : x.Matches y) (conn : ConnId) : (x.withServerBuf conn []).Matches y := by
  have hsame : x.withServerBuf conn [] = x := by
    have hbuf : Function.update x.serverBuf conn [] = x.serverBuf := by
      rw [← h.serverBuf conn, Function.update_eq_self]
    simp only [ByteSystem.withServerBuf, hbuf]
  rwa [hsame]

theorem Matches.withNodeBuf (h : x.Matches y) (conn : ConnId) : (x.withNodeBuf conn []).Matches y := by
  have hsame : x.withNodeBuf conn [] = x := by
    have hbuf : Function.update x.nodeBuf conn [] = x.nodeBuf := by
      rw [← h.nodeBuf conn, Function.update_eq_self]
    simp only [ByteSystem.withNodeBuf, hbuf]
  rwa [hsame]

theorem Carried.wire_pos {m : Message} (h : m.Carried) : 0 < m.wire.length := by
  have hhead := h.framed []
  exact ((codec Pb.protobuf).consumes hhead).1

/-- The callback of the server, for a message from the wire. -/
theorem serverMessage_eq {conn : ConnId} {envs : ℕ → Env} {k : ℕ} {m : Message} {t : LkpServer} (hm : m.Proper)
    (ht : x.server.onMessage conn m (envs k) = .ok t) :
    serverMessage conn envs (x, k) m.toPb = some (x.serverSends t, k + 1) := by
  simp only [serverMessage, LkpServer.dispatch_eq, Message.ofPb_toPb hm, ht]
  rfl

theorem nodeMessage_eq {conn : ConnId} {envs : ℕ → ClientEnv} {k : ℕ} {m : Message} {d : LkpClient} (hm : m.Proper)
    (hd : (x.node conn).onMessage m (envs k) = .ok d) :
    nodeMessage conn envs (x, k) m.toPb = some (x.nodeSends conn d, k + 1) := by
  simp only [nodeMessage, LkpClient.dispatch_eq, Message.ofPb_toPb hm, hd]
  rfl

/-- **A delivery is a read of one frame.** -/
theorem Matches.deliver (h : x.Matches y) {conn : ConnId} {env : Env} {m : Message} {rest : List Message}
    {t : LkpServer} (hq : y.toServer conn = m :: rest) (ht : y.server.step (.message conn m env) = some t)
    (hfit : FramesFit t y.node) :
    ∃ e x', x.step e = some x' ∧ x'.Matches ((y.popServer conn rest).serverSends t) := by
  have hm : m.Carried := h.fromNode conn m (by rw [hq]; exact List.mem_cons_self)
  rw [h.server] at ht
  rw [h.node] at hfit
  obtain ⟨hup, hhandle⟩ := LkpServer.step_eq_some.1 ht
  have hflight := h.flight_toServer conn
  rw [hq, List.map_cons, List.flatten_cons] at hflight
  have hread := h.readServer hq
  have hproper := LkpServer.proper_handle hhandle (by rintro c m' env' ⟨⟩; exact hm.proper)
  refine ⟨.serverRead conn m.wire.length fun _ => env, _, ?_, (hread.serverSends hproper hfit).withServerBuf conn⟩
  have hchunk : x.serverBuf conn ++ (x.toServer conn).take m.wire.length = m.wire := by
    rw [h.serverBuf, hflight, List.take_left, List.nil_append]
  simp only [step]
  rw [if_pos ⟨hup, Carried.wire_pos hm, by rw [hflight, List.length_append]; omega⟩]
  have hcallback : serverMessage conn (fun _ => env) (x.takeServer conn m.wire.length, 0) m.toPb =
      some ((x.takeServer conn m.wire.length).serverSends t, 1) := serverMessage_eq hm.proper hhandle
  have hframe := onMessageWith_frame (serverMessage conn fun _ => env) (serverError conn) hm
    (x.takeServer conn m.wire.length, 0)
  rw [serverReads_eq, hchunk, hframe, hcallback]
  rfl

theorem Matches.receive (h : x.Matches y) {conn : ConnId} {env : ClientEnv} {m : Message} {rest : List Message}
    {d : LkpClient} (hq : y.toNode conn = m :: rest) (hd : (y.node conn).step (.message m env) = some d)
    (hfit : FramesFit y.server (Function.update y.node conn d)) :
    ∃ e x', x.step e = some x' ∧ x'.Matches ((y.popNode conn rest).nodeSends conn d) := by
  have hm : m.Carried := h.fromServer conn m (by rw [hq]; exact List.mem_cons_self)
  rw [h.node] at hd hfit
  rw [h.server] at hfit
  obtain ⟨hup, hhandle⟩ := LkpClient.step_eq_some.1 hd
  have hflight := h.flight_toNode conn
  rw [hq, List.map_cons, List.flatten_cons] at hflight
  have hread := h.readNode hq
  have hproper := LkpClient.proper_handle hhandle (by rintro m' env' ⟨⟩; exact hm.proper)
  refine ⟨.nodeRead conn m.wire.length fun _ => env, _, ?_, (hread.nodeSends hproper hfit).withNodeBuf conn⟩
  have hchunk : x.nodeBuf conn ++ (x.toNode conn).take m.wire.length = m.wire := by
    rw [h.nodeBuf, hflight, List.take_left, List.nil_append]
  simp only [step]
  rw [if_pos ⟨hup, Carried.wire_pos hm, by rw [hflight, List.length_append]; omega⟩]
  have hcallback : nodeMessage conn (fun _ => env) (x.takeNode conn m.wire.length, 0) m.toPb =
      some ((x.takeNode conn m.wire.length).nodeSends conn d, 1) := nodeMessage_eq hm.proper hhandle
  have hframe := onMessageWith_frame (nodeMessage conn fun _ => env) (nodeError conn) hm
    (x.takeNode conn m.wire.length, 0)
  rw [nodeReads_eq, hchunk, hframe, hcallback]
  rfl

/-- **A step of the messages is a step of the bytes.** -/
theorem Matches.step {z : System} {e : SystemEvent} (h : x.Matches y) (hs : y.step e = some z) (he : e.Proper)
    (hfit : z.AllFit) : ∃ e' x', x.step e' = some x' ∧ x'.Matches z := by
  cases System.steps_of_step hs with
  | @server e t hm ht =>
    rw [h.server] at ht
    have hproper := LkpServer.proper_handle (LkpServer.step_eq_some.1 ht).2
      (by rintro c m env rfl; cases hm)
    refine ⟨.server e, x.serverSends t, ?_, h.serverSends hproper (h.node ▸ hfit)⟩
    simp only [ByteSystem.step]
    rw [if_neg (by rw [hm]; exact Bool.false_ne_true), ht]
    rfl
  | @command conn m env t ht =>
    rw [h.server] at ht
    have hlocal := (Option.ite_none_right_eq_some.1 hs).1
    rw [h.server] at hlocal
    have hproper := LkpServer.proper_handle (LkpServer.step_eq_some.1 ht).2 (by rintro c m' env' ⟨⟩; exact he)
    refine ⟨.command conn m.toPb env, x.serverSends t, ?_, h.serverSends hproper (h.node ▸ hfit)⟩
    simp only [ByteSystem.step]
    rw [if_pos hlocal, Command.ofPb_toPb he, ht]
    rfl
  | deliver hq ht => exact h.deliver hq ht hfit
  | @node conn e d hm hd =>
    rw [h.node] at hd
    have hproper := LkpClient.proper_handle (LkpClient.step_eq_some.1 hd).2 (by rintro m env rfl; cases hm)
    refine ⟨.node conn e, x.nodeSends conn d, ?_, h.nodeSends hproper ?_⟩
    · simp only [ByteSystem.step]
      rw [if_neg (by rw [hm]; exact Bool.false_ne_true), hd]
      rfl
    · rw [← h.server, ← h.node]
      exact hfit
  | receive hq hd => exact h.receive hq hd hfit

/-- **Every run of the messages is a run of the bytes**, with the same server and the same nodes
    at its end, and the same messages on their way.  The commands of the CLI are such that a
    codec can have parsed them. -/
theorem bytes_of_messages {root : String} {serverTimeControl : ℕ} {node : ConnId → LkpClient} {es : List SystemEvent}
    (h : Runs System.step (.start root serverTimeControl node) es y) (hproper : ∀ e ∈ es, e.Proper)
    (hfit : y.AllFit) :
    ∃ es' x, Runs step (start root serverTimeControl node) es' x ∧ x.Matches y := by
  induction h with
  | nil => exact ⟨[], _, .nil, ⟨rfl, rfl, fun _ => .nil, fun _ => .nil, nofun, nofun⟩, fun _ => rfl, fun _ => rfl⟩
  | @snoc es t u e _ hs ih =>
    have he : e.Proper := hproper e (by simp)
    obtain ⟨es', x, hx, hmatches⟩ := ih (fun e he => hproper e (by simp [he])) (System.AllFit.of_step hs hfit)
    obtain ⟨e', x', hx', hmatches'⟩ := hmatches.step hs he hfit
    exact ⟨es' ++ [e'], x', hx.append (.single hx'), hmatches'⟩

/-- A heartbeat, and a RUN that is on its way. -/
theorem bytes_of_messages_run :
    let events : List SystemEvent := [.server (.up 1 "10.0.0.1"), .server (.up 9 "127.0.0.1"), .node 1 .timer,
      .deliver 1 {}, .command 9 { command := .RUN, sendToAll := true, testcase := "ebizzy" } {}]
    ∃ y, Runs System.step (.start "" 3 fun _ => .joined []) events y ∧ (y.toNode 1).length = 1 ∧
      ∃ es' x, Runs step (start "" 3 fun _ => .joined []) es' x ∧ x.Matches y := by
  intro events
  obtain ⟨y, hy, hway, hsent, hnode⟩ : ∃ y, Runs System.step (.start "" 3 fun _ => .joined []) events y ∧
      (y.toNode 1).length = 1 ∧ (∀ it ∈ y.server.sent, it.2.frameLen ≤ kMaxMessageLen) ∧
      ∀ m ∈ (y.node 1).sent, m.frameLen ≤ kMaxMessageLen :=
    Runs.exists_of_run (by decide +kernel)
  have hfit : y.AllFit := by
    refine ⟨hsent, fun c m hm => ?_⟩
    by_cases hc : c = 1
    · subst hc
      exact hnode m hm
    · have hother : ∀ e ∈ events, e.nodeOf ≠ some c := by
        simp [events, SystemEvent.nodeOf, Ne.symm hc]
      rw [System.node_of_runs hy hother] at hm
      cases hm
  exact ⟨y, hy, hway, bytes_of_messages hy (by simp [events, SystemEvent.Proper, CommandID.Proper]) hfit⟩

end ByteSystem

end LkpExtent
