/-
  LkpExtent formalization — the system with the bytes that are on its connections.

  A connection carries bytes.  They are read in pieces of any size, at any time, into the input
  buffer of the receiver, whose codec then decodes what is complete; each message is dispatched
  to its handler before the next one is decoded.

  * `onMessageWith`: `lkpCodec::onMessage` with its two callbacks;
  * `ByteSystem.step`: a step of the system;
  * `ByteSystem.Refines`: what the bytes on the connections stand for;
  * `ByteSystem.messages_of_bytes`: every run is a run of `System`, where whole messages are
    delivered one at a time.
-/
import LkpExtent.Lib.Transport
import LkpExtent.PbMessages
import LkpExtent.Protocol

namespace LkpExtent

open Lib

/-! ## The codec with its callbacks -/

section
variable (L : Libs) {σ : Type} (messageCallback : σ → L.Msg → Option σ) (errorCallback : σ → ErrorCode → σ)

/-- `lkpCodec::onMessage` in a state that the callbacks change; with it, the buffer left. -/
def onMessageWith (s : σ) (buf : Bytes) : Option (σ × Bytes) :=
  match _h : iteration L buf with
  | none => none
  | some (.leave none) => some (s, buf)
  | some (.leave (some errorCode)) => some (errorCallback s errorCode, buf)
  | some (.next message rest) => (messageCallback s message).bind fun t => onMessageWith t rest
termination_by buf.length
decreasing_by exact iteration_next L _h

/-- The callbacks are called with what the decoder finds, in order. -/
theorem onMessageWith_eq (s : σ) (buf : Bytes) : onMessageWith L messageCallback errorCallback s buf =
    (((codec L).decode buf).items.foldlM messageCallback s).map fun t =>
      (((codec L).decode buf).error.elim t (errorCallback t), ((codec L).decode buf).rest) := by
  induction hl : buf.length using Nat.strongRecOn generalizing buf s with
  | _ k ih =>
    have hit := iteration_eq (L := L) buf
    rw [onMessageWith]
    cases hh : frameHead L buf with
    | more =>
      rw [Decoder.decode_more (D := codec L) hh]
      rw [hh] at hit
      split <;> simp_all [Iteration.of]
    | bad e =>
      rw [Decoder.decode_bad (D := codec L) hh]
      rw [hh] at hit
      split <;> simp_all [Iteration.of]
    | item m n =>
      obtain ⟨-, hn, hle⟩ := frameHead_item hh
      have hrec := fun t => ih (buf.drop n).length (by simp; omega) t (buf.drop n) rfl
      rw [Decoder.decode_item (D := codec L) hh]
      rw [hh] at hit
      split <;> simp_all [Iteration.of]

variable {L messageCallback errorCallback} in
/-- In the middle of a stream of frames, the message callback is called with the messages of
    the whole frames, and the error callback is not called. -/
theorem onMessageWith_carried {ν : Type} {enc : ν → Bytes} {val : ν → L.Msg} {items : List ν} {buf flight tail : Bytes}
    {s t : σ} (h : Carries enc buf flight items) (hf : ∀ m ∈ items, Framed (codec L) enc val m)
    (hs : onMessageWith L messageCallback errorCallback s buf = some (t, tail)) :
    ∃ got rest, items = got ++ rest ∧ buf = (got.map enc).flatten ++ tail ∧ frameHead L tail = .more ∧
      got.foldlM (fun s m => messageCallback s (val m)) s = some t := by
  obtain ⟨got, rest, tail', hitems, hbuf, hdecode, hmore⟩ := h.decode hf
  rw [onMessageWith_eq, hdecode] at hs
  obtain ⟨t', hfold, ht⟩ := Option.map_eq_some_iff.1 hs
  cases ht
  rw [List.foldlM_map] at hfold
  exact ⟨got, rest, hitems, hbuf, hmore, hfold⟩

end

/-! ## The system -/

/-- The frame of a message. -/
def Message.wire (m : Message) : Bytes := fillEmptyBuffer Pb.protobuf m.toPb

structure ByteSystem where
  server : LkpServer
  node : ConnId → LkpClient
  /-- the bytes on the way from a node -/
  toServer : ConnId → Bytes := fun _ => []
  /-- the bytes on the way to a node -/
  toNode : ConnId → Bytes := fun _ => []
  /-- the input buffers of the connections at the server -/
  serverBuf : ConnId → Bytes := fun _ => []
  /-- the input buffers of the nodes -/
  nodeBuf : ConnId → Bytes := fun _ => []

inductive ByteEvent where
  /-- an event of the server other than a message -/
  | server (e : ServerEvent)
  /-- a command from a CLI session, as the codec has parsed it -/
  | command (conn : ConnId) (m : Pb.Command) (env : Env)
  /-- the server reads `n` bytes from a node, and handles the messages that are complete -/
  | serverRead (conn : ConnId) (n : ℕ) (envs : ℕ → Env)
  /-- an event of a node other than a message -/
  | node (conn : ConnId) (e : ClientEvent)
  /-- a node reads `n` bytes -/
  | nodeRead (conn : ConnId) (n : ℕ) (envs : ℕ → ClientEnv)

namespace ByteSystem
variable (x : ByteSystem)

/-- The server has become `t`, and what it has sent is on its way. -/
def serverSends (t : LkpServer) : ByteSystem := { x with
  server := t
  toNode := fun c => x.toNode c ++
    ((((t.sent.drop x.server.sent.length).filter fun it => it.1 = c).map Prod.snd).map Message.wire).flatten }

/-- A node has become `d`, and what it has sent is on its way. -/
def nodeSends (conn : ConnId) (d : LkpClient) : ByteSystem := { x with
  node := Function.update x.node conn d
  toServer := Function.update x.toServer conn
    (x.toServer conn ++ ((d.sent.drop (x.node conn).sent.length).map Message.wire).flatten) }

/-- Replace the input buffer of a connection. -/
def withServerBuf (conn : ConnId) (buf : Bytes) : ByteSystem :=
  { x with serverBuf := Function.update x.serverBuf conn buf }

def withNodeBuf (conn : ConnId) (buf : Bytes) : ByteSystem :=
  { x with nodeBuf := Function.update x.nodeBuf conn buf }

/-- The message callback of the server's codec: the `k`-th message of a read is dispatched. -/
def serverMessage (conn : ConnId) (envs : ℕ → Env) (s : ByteSystem × ℕ) (p : Pb.protobuf.Msg) :
    Option (ByteSystem × ℕ) := do
  let handled ← (s.1.server.dispatcher conn (envs s.2)).onProtobufMessage p
  let t ← handled.toOption
  pure (s.1.serverSends t, s.2 + 1)

def nodeMessage (conn : ConnId) (envs : ℕ → ClientEnv) (s : ByteSystem × ℕ) (p : Pb.protobuf.Msg) :
    Option (ByteSystem × ℕ) := do
  let handled ← ((s.1.node conn).dispatcher (envs s.2)).onProtobufMessage p
  let d ← handled.toOption
  pure (s.1.nodeSends conn d, s.2 + 1)

/-- `lkpCodec::defaultErrorCallback` at the server: the connection is shut down if it is still
    connected, which `shutdown` looks at itself. -/
def serverError (conn : ConnId) (s : ByteSystem × ℕ) (_ : ErrorCode) : ByteSystem × ℕ :=
  ({ s.1 with server := s.1.server.setConn conn (s.1.server.conns conn).shutdown }, s.2)

def nodeError (conn : ConnId) (s : ByteSystem × ℕ) (_ : ErrorCode) : ByteSystem × ℕ :=
  let c := s.1.node conn
  ({ s.1 with node := Function.update s.1.node conn { c with conn := c.conn.shutdown } }, s.2)

/-- The server reads: the bytes are appended to the buffer, and `lkpCodec::onMessage` runs. -/
def serverReads (conn : ConnId) (n : ℕ) (envs : ℕ → Env) : Option ByteSystem :=
  let y := { x with toServer := Function.update x.toServer conn ((x.toServer conn).drop n) }
  (onMessageWith Pb.protobuf (serverMessage conn envs) (serverError conn) (y, 0)
    (x.serverBuf conn ++ (x.toServer conn).take n)).map fun r =>
      r.1.1.withServerBuf conn r.2

def nodeReads (conn : ConnId) (n : ℕ) (envs : ℕ → ClientEnv) : Option ByteSystem :=
  let y := { x with toNode := Function.update x.toNode conn ((x.toNode conn).drop n) }
  (onMessageWith Pb.protobuf (nodeMessage conn envs) (nodeError conn) (y, 0)
    (x.nodeBuf conn ++ (x.toNode conn).take n)).map fun r =>
      r.1.1.withNodeBuf conn r.2

def step : ByteEvent → Option ByteSystem
  | .server e => if e.isMessage then none else (x.server.step e).map x.serverSends
  | .command conn m env =>
    if (x.server.conns conn).peerIp = "127.0.0.1" then
      (x.server.step (.message conn (.command (.ofPb m)) env)).map x.serverSends
    else none
  | .serverRead conn n envs =>
    if (x.server.conns conn).isUp ∧ 0 < n ∧ n ≤ (x.toServer conn).length then x.serverReads conn n envs
    else none
  | .node conn e => if e.isMessage then none else ((x.node conn).step e).map (x.nodeSends conn)
  | .nodeRead conn n envs =>
    if (x.node conn).conn.isUp ∧ 0 < n ∧ n ≤ (x.toNode conn).length then x.nodeReads conn n envs
    else none

/-- The server has been started; the nodes are as they are. -/
def start (root : String) (serverTimeControl : ℕ) (node : ConnId → LkpClient) : ByteSystem :=
  { server := .start root serverTimeControl, node }

end ByteSystem

/-! ## What the bytes stand for -/

/-- The codec carries the message: its enumerations are what an `int` can hold, and its frame is
    not too long. -/
structure Message.Carried (m : Message) : Prop where
  proper : m.Proper
  fits : m.frameLen ≤ kMaxMessageLen

theorem Message.Carried.framed {m : Message} (h : m.Carried) :
    Framed (codec Pb.protobuf) Message.wire Message.toPb m := fun ys => Message.frameHead_toPb h.fits ys

/-- What the server sends is proper if what it has received is. -/
theorem LkpServer.proper_handle {s t : LkpServer} {e : ServerEvent} (h : s.handle e = .ok t)
    (he : ∀ c m env, e = .message c m env → m.Proper) : LkpServer.Addresses (fun it => it.2.Proper) s t := by
  obtain ⟨its, hsent, hits⟩ := LkpServer.addresses_handle h
  refine ⟨its, hsent, ?_⟩
  rintro ⟨c, m⟩ hit
  have hby := hits _ hit
  cases m with
  | command k =>
    obtain ⟨-, d, m, env, -, hk, hm⟩ := hby
    show k.command.Proper
    rw [hk]
    rcases hm with hm | hm | hm
    · rw [hm]; trivial
    · rw [hm]; trivial
    · rw [hm]; trivial
  | file f =>
    show f.fileType.Proper
    rcases hby with ⟨-, hf, -⟩ | ⟨hf | hf, -⟩
    · rw [hf]; trivial
    · rw [hf]; trivial
    · rw [hf]; trivial
  | ret r =>
    show r.command.Proper
    obtain ⟨-, ⟨⟨d, a⟩, ha, hr⟩ | ⟨d, m, env, -, -, hr⟩⟩ := hby
    · obtain ⟨env, rfl⟩ := eq_message_of_answer ha
      rw [hr]
      cases a with
      | commandACK a => exact he d (.commandACK a) env rfl
      | _ => trivial
    · rw [hr]; trivial
  | _ => exact hby.elim

/-- What a client sends is proper if what it has received is. -/
theorem LkpClient.proper_handle {c d : LkpClient} {e : ClientEvent} (h : c.handle e = .ok d)
    (he : ∀ m env, e = .message m env → m.Proper) : LkpClient.Posts Message.Proper c d := by
  obtain ⟨ms, hsent, hms⟩ := (LkpClient.sentBy_handle h).posts
  refine ⟨ms, hsent, ?_⟩
  intro m hm
  have hby := hms m hm
  cases m with
  | commandACK a =>
    obtain ⟨k, env, hk, ha⟩ := hby
    show a.command.Proper
    rw [ha]
    exact he (.command k) env hk
  | file f =>
    show f.fileType.Proper
    rcases hby with ⟨hf, -⟩ | ⟨hf | hf, -⟩
    · rw [hf]; trivial
    · rw [hf]; trivial
    · rw [hf]; trivial
  | pushACK m | heartBeat m => trivial
  | command m | ret m => exact hby.elim

/-- A message changes nothing of the state of the client's connection. -/
theorem LkpClient.isUp_onMessage {c d : LkpClient} {m : Message} {env : ClientEnv}
    (h : c.onMessage m env = .ok d) : d.conn.isUp = c.conn.isUp := by
  cases hb : c.begins (.message m env) with
  | false => rw [(aside_onMessage h hb).conn]; rfl
  | true =>
    cases m with
    | command m =>
      simp only [begins, Bool.and_eq_true, decide_eq_true_eq] at hb
      obtain ⟨⟨⟨hm, hchild⟩, hopens⟩, hdata⟩ := hb
      obtain ⟨data, hdata⟩ := Option.isSome_iff_exists.1 hdata
      have h : c.onCommandMsg m env = .ok d := h
      simp only [onCommandMsg] at h
      rw [if_neg (by omega)] at h
      simp only [hm] at h
      simp only [onResult] at h
      simp only [hopens, if_true, hdata, sendToServer] at h
      split_ifs at h
      · cases h; rfl
      · cases h; rfl
    | _ => cases hb

/-- The frames of all messages that have been sent are within the bound of the codec. -/
structure FramesFit (server : LkpServer) (node : ConnId → LkpClient) : Prop where
  server : ∀ it ∈ server.sent, it.2.frameLen ≤ kMaxMessageLen
  node : ∀ c, ∀ m ∈ (node c).sent, m.frameLen ≤ kMaxMessageLen

/-- What has been sent stays sent. -/
theorem FramesFit.of_addresses {server t : LkpServer} {node : ConnId → LkpClient} {P : ConnId × Message → Prop}
    (h : FramesFit t node) (ht : LkpServer.Addresses P server t) : FramesFit server node := by
  obtain ⟨its, hsent, -⟩ := ht
  refine ⟨fun it hit => h.server it ?_, h.node⟩
  rw [hsent]
  exact List.mem_append_left _ hit

theorem FramesFit.of_posts {server : LkpServer} {node : ConnId → LkpClient} {conn : ConnId} {d : LkpClient}
    {P : Message → Prop} (h : FramesFit server (Function.update node conn d))
    (hd : LkpClient.Posts P (node conn) d) : FramesFit server node := by
  obtain ⟨ms, hsent, -⟩ := hd
  refine ⟨h.server, fun c m hm => h.node c m ?_⟩
  by_cases hc : c = conn
  · subst hc
    rw [Function.update_self, hsent]
    exact List.mem_append_left _ hm
  · rwa [Function.update_of_ne hc]

namespace ByteSystem
variable {x z : ByteSystem} {y : System}

/-- The bytes on the connections of `x` are those of the messages of `y`. -/
structure Refines (x : ByteSystem) (y : System) : Prop where
  server : y.server = x.server
  node : y.node = x.node
  toServer : ∀ c, Carries Message.wire (x.serverBuf c) (x.toServer c) (y.toServer c)
  toNode : ∀ c, Carries Message.wire (x.nodeBuf c) (x.toNode c) (y.toNode c)
  fromNode : ∀ c, ∀ m ∈ y.toServer c, m.Carried
  fromServer : ∀ c, ∀ m ∈ y.toNode c, m.Carried

abbrev AllFit (x : ByteSystem) : Prop := FramesFit x.server x.node

/-! ## One handler -/

theorem Refines.serverSends (h : x.Refines y) {t : LkpServer}
    (ht : LkpServer.Addresses (fun it => it.2.Proper) x.server t) (hfit : (x.serverSends t).AllFit) :
    (x.serverSends t).Refines (y.serverSends t) := by
  obtain ⟨its, hsent, hits⟩ := ht
  have hdrop : t.sent.drop x.server.sent.length = its := by rw [hsent, List.drop_left]
  have hdrop' : t.sent.drop y.server.sent.length = its := by rw [h.server, hdrop]
  refine ⟨rfl, h.node, h.toServer, fun c => ?_, h.fromNode, fun c m hm => ?_⟩
  · simp only [ByteSystem.serverSends, System.serverSends, hdrop, hdrop']
    exact (h.toNode c).send _
  · simp only [System.serverSends, hdrop'] at hm
    rcases List.mem_append.1 hm with hm | hm
    · exact h.fromServer c m hm
    · obtain ⟨it, hit, rfl⟩ := List.mem_map.1 hm
      have hmem := (List.mem_filter.1 hit).1
      refine ⟨hits it hmem, hfit.server it ?_⟩
      show it ∈ t.sent
      rw [hsent]
      exact List.mem_append_right _ hmem

theorem Refines.nodeSends (h : x.Refines y) {conn : ConnId} {d : LkpClient}
    (hd : LkpClient.Posts Message.Proper (x.node conn) d) (hfit : (x.nodeSends conn d).AllFit) :
    (x.nodeSends conn d).Refines (y.nodeSends conn d) := by
  obtain ⟨ms, hsent, hms⟩ := hd
  have hdrop : d.sent.drop (x.node conn).sent.length = ms := by rw [hsent, List.drop_left]
  have hdrop' : d.sent.drop (y.node conn).sent.length = ms := by rw [h.node, hdrop]
  refine ⟨h.server, ?_, fun c => ?_, h.toNode, fun c m hm => ?_, h.fromServer⟩
  · simp only [ByteSystem.nodeSends, System.nodeSends, h.node]
  · simp only [ByteSystem.nodeSends, System.nodeSends, hdrop, hdrop']
    by_cases hc : c = conn
    · subst hc
      rw [Function.update_self, Function.update_self]
      exact (h.toServer c).send ms
    · rw [Function.update_of_ne hc, Function.update_of_ne hc]
      exact h.toServer c
  · simp only [System.nodeSends, hdrop'] at hm
    rcases System.mem_or_mem_of_sent hm with hm | hm
    · exact h.fromNode c m hm
    · refine ⟨hms m hm, hfit.node conn m ?_⟩
      show m ∈ (Function.update x.node conn d conn).sent
      rw [Function.update_self, hsent]
      exact List.mem_append_right _ hm

theorem AllFit.of_serverSends {t : LkpServer} {P : ConnId × Message → Prop} (h : (x.serverSends t).AllFit)
    (ht : LkpServer.Addresses P x.server t) : x.AllFit := FramesFit.of_addresses h ht

theorem AllFit.of_nodeSends {conn : ConnId} {d : LkpClient} {P : Message → Prop} (h : (x.nodeSends conn d).AllFit)
    (hd : LkpClient.Posts P (x.node conn) d) : x.AllFit := FramesFit.of_posts h hd

/-- The oldest message of a node has been taken out of the buffer. -/
theorem Refines.popServer {conn : ConnId} {m : Message} {buf : Bytes} {rest : List Message}
    (h : (x.withServerBuf conn (m.wire ++ buf)).Refines y) (hy : y.toServer conn = m :: rest) :
    (x.withServerBuf conn buf).Refines (y.popServer conn rest) :=
  ⟨h.server, h.node, Carries.pop h.toServer hy, h.toNode,
    fun c m' hm' => h.fromNode c m' (System.mem_of_mem_rest hy hm'), h.fromServer⟩

theorem Refines.popNode {conn : ConnId} {m : Message} {buf : Bytes} {rest : List Message}
    (h : (x.withNodeBuf conn (m.wire ++ buf)).Refines y) (hy : y.toNode conn = m :: rest) :
    (x.withNodeBuf conn buf).Refines (y.popNode conn rest) :=
  ⟨h.server, h.node, h.toServer, Carries.pop h.toNode hy, h.fromNode,
    fun c m' hm' => h.fromServer c m' (System.mem_of_mem_rest hy hm')⟩

/-! ## One read -/

/-- What the server's callback does with any message: its handler runs, or the connection is shut
    down. -/
theorem serverMessage_some {conn : ConnId} {envs : ℕ → Env} {s s' : ByteSystem × ℕ} {p : Pb.AnyMessage}
    (h : serverMessage conn envs s p = some s') :
    ∃ t, s' = (s.1.serverSends t, s.2 + 1) ∧ (match Message.ofPb p with
      | some m => s.1.server.onMessage conn m (envs s.2)
      | none => .ok (s.1.server.onUnknownMsg conn)) = .ok t := by
  simp only [serverMessage, LkpServer.dispatch_eq] at h
  obtain ⟨handled, hhandled, h⟩ := Option.bind_eq_some_iff.1 h
  cases hhandled
  obtain ⟨t, ht, h⟩ := Option.bind_eq_some_iff.1 h
  cases h
  exact ⟨t, rfl, toOption_eq_some.1 ht⟩

theorem nodeMessage_some {conn : ConnId} {envs : ℕ → ClientEnv} {s s' : ByteSystem × ℕ} {p : Pb.AnyMessage}
    (h : nodeMessage conn envs s p = some s') :
    ∃ d m, s' = (s.1.nodeSends conn d, s.2 + 1) ∧ Message.ofPb p = some m ∧
      (s.1.node conn).onMessage m (envs s.2) = .ok d := by
  simp only [nodeMessage, LkpClient.dispatch_eq] at h
  obtain ⟨handled, hhandled, h⟩ := Option.bind_eq_some_iff.1 h
  cases hhandled
  obtain ⟨d, hd, h⟩ := Option.bind_eq_some_iff.1 h
  cases h
  cases hm : Message.ofPb p with
  | none => rw [hm] at hd; cases hd
  | some m => rw [hm] at hd; exact ⟨d, m, rfl, rfl, toOption_eq_some.1 hd⟩

/-- The server in the middle of a read from `conn`: the messages `ms` are in the buffer before
    `tail`, and `rest` comes behind them. -/
structure ServerReading (b : ByteSystem) (conn : ConnId) (tail : Bytes) (rest ms : List Message)
    (s : ByteSystem × ℕ) (y : System) : Prop where
  up : (s.1.server.conns conn).isUp = true
  refines : (s.1.withServerBuf conn ((ms.map Message.wire).flatten ++ tail)).Refines y
  queue : y.toServer conn = ms ++ rest
  serverBuf : s.1.serverBuf = b.serverBuf
  nodeBuf : s.1.nodeBuf = b.nodeBuf

theorem ServerReading.next {b : ByteSystem} {conn : ConnId} {envs : ℕ → Env} {tail : Bytes} {m : Message}
    {rest ms : List Message} {s s' : ByteSystem × ℕ} (h : ServerReading b conn tail rest (m :: ms) s y)
    (hs : serverMessage conn envs s m.toPb = some s') (hfit : s'.1.AllFit) :
    ∃ e y', y.step e = some y' ∧ ServerReading b conn tail rest ms s' y' := by
  have hqueue : y.toServer conn = m :: (ms ++ rest) := h.queue
  have hm : m.Carried := h.refines.fromNode conn m (by rw [hqueue]; exact List.mem_cons_self)
  obtain ⟨t, rfl, ht⟩ := serverMessage_some hs
  rw [Message.ofPb_toPb hm.proper] at ht
  have hstep : s.1.server.step (.message conn m (envs s.2)) = some t := LkpServer.step_eq_some.2 ⟨h.up, ht⟩
  have hproper := LkpServer.proper_handle (e := .message conn m (envs s.2)) ht (by rintro c m' env ⟨⟩; exact hm.proper)
  have hpop : (s.1.withServerBuf conn ((ms.map Message.wire).flatten ++ tail)).Refines
      (y.popServer conn (ms ++ rest)) :=
    .popServer (by simpa only [List.map_cons, List.flatten_cons, List.append_assoc] using h.refines) hqueue
  refine ⟨.deliver conn (envs s.2), (y.popServer conn (ms ++ rest)).serverSends t, ?_, ?_, ?_, ?_, h.serverBuf,
    h.nodeBuf⟩
  · simp only [System.step, hqueue]
    refine System.serverStep_of_step (y := y.popServer conn (ms ++ rest)) ?_
    show y.server.step _ = some t
    rw [h.refines.server]
    exact hstep
  · have hphase := LkpServer.phase_step hstep conn
    exact (LkpServer.isUp_iff _).2 (hphase.trans ((LkpServer.isUp_iff _).1 h.up))
  · exact hpop.serverSends hproper ⟨hfit.server, hfit.node⟩
  · exact Function.update_self ..

/-- A node in the middle of a read. -/
structure NodeReading (b : ByteSystem) (conn : ConnId) (tail : Bytes) (rest ms : List Message)
    (s : ByteSystem × ℕ) (y : System) : Prop where
  up : (s.1.node conn).conn.isUp = true
  refines : (s.1.withNodeBuf conn ((ms.map Message.wire).flatten ++ tail)).Refines y
  queue : y.toNode conn = ms ++ rest
  serverBuf : s.1.serverBuf = b.serverBuf
  nodeBuf : s.1.nodeBuf = b.nodeBuf

theorem NodeReading.next {b : ByteSystem} {conn : ConnId} {envs : ℕ → ClientEnv} {tail : Bytes} {m : Message}
    {rest ms : List Message} {s s' : ByteSystem × ℕ} (h : NodeReading b conn tail rest (m :: ms) s y)
    (hs : nodeMessage conn envs s m.toPb = some s') (hfit : s'.1.AllFit) :
    ∃ e y', y.step e = some y' ∧ NodeReading b conn tail rest ms s' y' := by
  have hqueue : y.toNode conn = m :: (ms ++ rest) := h.queue
  have hm : m.Carried := h.refines.fromServer conn m (by rw [hqueue]; exact List.mem_cons_self)
  obtain ⟨d, m', rfl, hm', hd⟩ := nodeMessage_some hs
  obtain rfl : m = m' := Option.some.inj ((Message.ofPb_toPb hm.proper).symm.trans hm')
  have hstep : (s.1.node conn).step (.message m (envs s.2)) = some d := LkpClient.step_eq_some.2 ⟨h.up, hd⟩
  have hproper := LkpClient.proper_handle (e := .message m (envs s.2)) hd (by rintro m' env ⟨⟩; exact hm.proper)
  have hpop : (s.1.withNodeBuf conn ((ms.map Message.wire).flatten ++ tail)).Refines
      (y.popNode conn (ms ++ rest)) :=
    .popNode (by simpa only [List.map_cons, List.flatten_cons, List.append_assoc] using h.refines) hqueue
  refine ⟨.receive conn (envs s.2), (y.popNode conn (ms ++ rest)).nodeSends conn d, ?_, ?_, ?_, ?_, h.serverBuf,
    h.nodeBuf⟩
  · simp only [System.step, hqueue]
    refine System.nodeStep_of_step (y := y.popNode conn (ms ++ rest)) ?_
    show (y.node conn).step _ = some d
    rw [h.refines.node]
    exact hstep
  · show (Function.update s.1.node conn d conn).conn.isUp = true
    rw [Function.update_self, LkpClient.isUp_onMessage hd]
    exact h.up
  · exact hpop.nodeSends hproper ⟨hfit.server, hfit.node⟩
  · exact Function.update_self ..

/-- No whole frame waits in an input buffer. -/
structure Drained (x : ByteSystem) : Prop where
  server : ∀ c, frameHead Pb.protobuf (x.serverBuf c) = .more
  node : ∀ c, frameHead Pb.protobuf (x.nodeBuf c) = .more

/-- What the server sends while it handles a message has been sent. -/
theorem AllFit.of_serverMessage {conn : ConnId} {envs : ℕ → Env} {s s' : ByteSystem × ℕ} {p : Pb.AnyMessage}
    (h : serverMessage conn envs s p = some s') (hfit : s'.1.AllFit) : s.1.AllFit := by
  obtain ⟨t, rfl, ht⟩ := serverMessage_some h
  cases hm : Message.ofPb p with
  | none =>
    rw [hm] at ht
    cases ht
    exact hfit.of_serverSends (P := fun _ => True) (LkpServer.addresses_of_eq rfl)
  | some m =>
    rw [hm] at ht
    exact hfit.of_serverSends (LkpServer.addresses_handle (e := .message conn m (envs s.2)) ht)

theorem AllFit.of_nodeMessage {conn : ConnId} {envs : ℕ → ClientEnv} {s s' : ByteSystem × ℕ} {p : Pb.AnyMessage}
    (h : nodeMessage conn envs s p = some s') (hfit : s'.1.AllFit) : s.1.AllFit := by
  obtain ⟨d, m, rfl, -, hd⟩ := nodeMessage_some h
  exact hfit.of_nodeSends (LkpClient.sentBy_handle (e := .message m (envs s.2)) hd).posts

/-- A connection shut down by the error callback has sent what it has sent. -/
theorem AllFit.of_nodeError {conn : ConnId} {k : ℕ} {e : ErrorCode} (h : (nodeError conn (x, k) e).1.AllFit) :
    x.AllFit := by
  refine ⟨h.server, fun c m hm => h.node c m ?_⟩
  simp only [nodeError]
  by_cases hc : c = conn
  · subst hc
    rwa [Function.update_self]
  · rwa [Function.update_of_ne hc]

/-- **A read of the server is a run of deliveries.** -/
theorem serverReads_runs {conn : ConnId} {n : ℕ} {envs : ℕ → Env} (hs : x.serverReads conn n envs = some z)
    (hup : (x.server.conns conn).isUp = true) (hfit : z.AllFit) (h : x.Refines y) (hdrained : x.Drained) :
    ∃ es y', Runs System.step y es y' ∧ z.Refines y' ∧ z.Drained := by
  obtain ⟨⟨⟨r, k⟩, tail⟩, hr, rfl⟩ := Option.map_eq_some_iff.1 hs
  have hcarries : Carries Message.wire (x.serverBuf conn ++ (x.toServer conn).take n) ((x.toServer conn).drop n)
      (y.toServer conn) := by
    rw [Carries, List.append_assoc, List.take_append_drop]
    exact h.toServer conn
  obtain ⟨got, rest, hqueue, hbuf, hmore, hfold⟩ :=
    onMessageWith_carried hcarries (fun m hm => (h.fromNode conn m hm).framed) hr
  have hreading : ServerReading x conn tail rest got
      ({ x with toServer := Function.update x.toServer conn ((x.toServer conn).drop n) }, 0) y := by
    refine ⟨hup, ⟨h.server, h.node, fun c => ?_, h.toNode, h.fromNode, h.fromServer⟩, hqueue, rfl, rfl⟩
    simp only [withServerBuf]
    by_cases hc : c = conn
    · subst hc
      rw [Function.update_self, Function.update_self, ← hbuf]
      exact hcarries
    · rw [Function.update_of_ne hc, Function.update_of_ne hc]
      exact h.toServer c
  obtain ⟨es, y', hrun, hend⟩ := foldlM_runs (F := fun s => s.1.AllFit)
    (fun s m s' => AllFit.of_serverMessage) (fun m ms s s' y hfit hI hs => hI.next hs hfit) hreading hfold
    ⟨hfit.server, hfit.node⟩
  refine ⟨es, y', hrun, hend.refines, fun c => ?_, fun c => ?_⟩
  · have hbufs : r.serverBuf = x.serverBuf := hend.serverBuf
    simp only [withServerBuf, hbufs]
    by_cases hc : c = conn
    · subst hc
      rw [Function.update_self]
      exact hmore
    · rw [Function.update_of_ne hc]
      exact hdrained.server c
  · have hbufs : r.nodeBuf = x.nodeBuf := hend.nodeBuf
    simp only [withServerBuf, hbufs]
    exact hdrained.node c

/-- **A read of a node is a run of deliveries.** -/
theorem nodeReads_runs {conn : ConnId} {n : ℕ} {envs : ℕ → ClientEnv} (hs : x.nodeReads conn n envs = some z)
    (hup : (x.node conn).conn.isUp = true) (hfit : z.AllFit) (h : x.Refines y) (hdrained : x.Drained) :
    ∃ es y', Runs System.step y es y' ∧ z.Refines y' ∧ z.Drained := by
  obtain ⟨⟨⟨r, k⟩, tail⟩, hr, rfl⟩ := Option.map_eq_some_iff.1 hs
  have hcarries : Carries Message.wire (x.nodeBuf conn ++ (x.toNode conn).take n) ((x.toNode conn).drop n)
      (y.toNode conn) := by
    rw [Carries, List.append_assoc, List.take_append_drop]
    exact h.toNode conn
  obtain ⟨got, rest, hqueue, hbuf, hmore, hfold⟩ :=
    onMessageWith_carried hcarries (fun m hm => (h.fromServer conn m hm).framed) hr
  have hreading : NodeReading x conn tail rest got
      ({ x with toNode := Function.update x.toNode conn ((x.toNode conn).drop n) }, 0) y := by
    refine ⟨hup, ⟨h.server, h.node, h.toServer, fun c => ?_, h.fromNode, h.fromServer⟩, hqueue, rfl, rfl⟩
    simp only [withNodeBuf]
    by_cases hc : c = conn
    · subst hc
      rw [Function.update_self, Function.update_self, ← hbuf]
      exact hcarries
    · rw [Function.update_of_ne hc, Function.update_of_ne hc]
      exact h.toNode c
  obtain ⟨es, y', hrun, hend⟩ := foldlM_runs (F := fun s => s.1.AllFit)
    (fun s m s' => AllFit.of_nodeMessage) (fun m ms s s' y hfit hI hs => hI.next hs hfit) hreading hfold
    ⟨hfit.server, hfit.node⟩
  refine ⟨es, y', hrun, hend.refines, fun c => ?_, fun c => ?_⟩
  · have hbufs : r.serverBuf = x.serverBuf := hend.serverBuf
    simp only [withNodeBuf, hbufs]
    exact hdrained.server c
  · have hbufs : r.nodeBuf = x.nodeBuf := hend.nodeBuf
    simp only [withNodeBuf, hbufs]
    by_cases hc : c = conn
    · subst hc
      rw [Function.update_self]
      exact hmore
    · rw [Function.update_of_ne hc]
      exact hdrained.node c

/-! ## Runs -/

/-- What has been sent before a step has been sent after it. -/
theorem AllFit.of_step {e : ByteEvent} (hs : x.step e = some z) (h : z.AllFit) : x.AllFit := by
  cases e with
  | server e =>
    simp only [step] at hs
    split_ifs at hs
    obtain ⟨t, ht, rfl⟩ := Option.map_eq_some_iff.1 hs
    exact h.of_serverSends (LkpServer.addresses_handle (LkpServer.step_eq_some.1 ht).2)
  | command conn m env =>
    simp only [step] at hs
    split_ifs at hs
    obtain ⟨t, ht, rfl⟩ := Option.map_eq_some_iff.1 hs
    exact h.of_serverSends (LkpServer.addresses_handle (LkpServer.step_eq_some.1 ht).2)
  | serverRead conn n envs =>
    obtain ⟨-, hs⟩ := Option.ite_none_right_eq_some.1 hs
    obtain ⟨⟨⟨r, k⟩, tail⟩, hr, rfl⟩ := Option.map_eq_some_iff.1 hs
    rw [onMessageWith_eq] at hr
    obtain ⟨⟨r', k'⟩, hfold, hr⟩ := Option.map_eq_some_iff.1 hr
    have hfit : r'.AllFit := by
      cases herror : ((codec Pb.protobuf).decode (x.serverBuf conn ++ (x.toServer conn).take n)).error with
      | none => rw [herror] at hr; cases hr; exact ⟨h.server, h.node⟩
      | some e => rw [herror] at hr; cases hr; exact ⟨h.server, h.node⟩
    have hback := foldlM_back (F := fun s => s.1.AllFit) (fun s m s' => AllFit.of_serverMessage) hfold hfit
    exact ⟨hback.server, hback.node⟩
  | node conn e =>
    simp only [step] at hs
    split_ifs at hs
    obtain ⟨d, hd, rfl⟩ := Option.map_eq_some_iff.1 hs
    exact h.of_nodeSends (LkpClient.sentBy_handle (LkpClient.step_eq_some.1 hd).2).posts
  | nodeRead conn n envs =>
    obtain ⟨-, hs⟩ := Option.ite_none_right_eq_some.1 hs
    obtain ⟨⟨⟨r, k⟩, tail⟩, hr, rfl⟩ := Option.map_eq_some_iff.1 hs
    rw [onMessageWith_eq] at hr
    obtain ⟨⟨r', k'⟩, hfold, hr⟩ := Option.map_eq_some_iff.1 hr
    have hfit : r'.AllFit := by
      cases herror : ((codec Pb.protobuf).decode (x.nodeBuf conn ++ (x.toNode conn).take n)).error with
      | none => rw [herror] at hr; cases hr; exact ⟨h.server, h.node⟩
      | some e => rw [herror] at hr; cases hr; exact AllFit.of_nodeError (e := e) ⟨h.server, h.node⟩
    have hback := foldlM_back (F := fun s => s.1.AllFit) (fun s m s' => AllFit.of_nodeMessage) hfold hfit
    exact ⟨hback.server, hback.node⟩

/-- **A step is a run of `System`.** -/
theorem step_runs {e : ByteEvent} (hs : x.step e = some z) (hfit : z.AllFit) (h : x.Refines y)
    (hdrained : x.Drained) : ∃ es y', Runs System.step y es y' ∧ z.Refines y' ∧ z.Drained := by
  cases e with
  | server e =>
    simp only [step] at hs
    split_ifs at hs with hm
    obtain ⟨t, ht, rfl⟩ := Option.map_eq_some_iff.1 hs
    have hproper := LkpServer.proper_handle (LkpServer.step_eq_some.1 ht).2 (by rintro c m env rfl; exact absurd rfl hm)
    refine ⟨[.server e], y.serverSends t, .single ?_, h.serverSends hproper hfit, hdrained.server, hdrained.node⟩
    simp only [System.step]
    rw [if_neg hm]
    exact System.serverStep_of_step (by rw [h.server]; exact ht)
  | command conn m env =>
    simp only [step] at hs
    split_ifs at hs with hlocal
    obtain ⟨t, ht, rfl⟩ := Option.map_eq_some_iff.1 hs
    have hproper := LkpServer.proper_handle (LkpServer.step_eq_some.1 ht).2
      (by rintro c m env ⟨⟩; exact CommandID.proper_ofInt _)
    refine ⟨[.command conn (.ofPb m) env], y.serverSends t, .single ?_, h.serverSends hproper hfit, hdrained.server,
      hdrained.node⟩
    simp only [System.step]
    rw [if_pos (by rw [h.server]; exact hlocal)]
    exact System.serverStep_of_step (by rw [h.server]; exact ht)
  | serverRead conn n envs =>
    obtain ⟨hc, hs⟩ := Option.ite_none_right_eq_some.1 hs
    exact serverReads_runs hs hc.1 hfit h hdrained
  | node conn e =>
    simp only [step] at hs
    split_ifs at hs with hm
    obtain ⟨d, hd, rfl⟩ := Option.map_eq_some_iff.1 hs
    have hproper := LkpClient.proper_handle (LkpClient.step_eq_some.1 hd).2 (by rintro m env rfl; exact absurd rfl hm)
    refine ⟨[.node conn e], y.nodeSends conn d, .single ?_, h.nodeSends hproper hfit, hdrained.server,
      hdrained.node⟩
    simp only [System.step]
    rw [if_neg hm]
    exact System.nodeStep_of_step (by rw [h.node]; exact hd)
  | nodeRead conn n envs =>
    obtain ⟨hc, hs⟩ := Option.ite_none_right_eq_some.1 hs
    exact nodeReads_runs hs hc.1 hfit h hdrained

/-- What a run of the bytes comes to, as a run of the messages. -/
theorem simulated {root : String} {serverTimeControl : ℕ} {node : ConnId → LkpClient} {es : List ByteEvent}
    (h : Runs step (start root serverTimeControl node) es x) (hfit : x.AllFit) :
    ∃ es' y, Runs System.step (.start root serverTimeControl node) es' y ∧ x.Refines y ∧ x.Drained := by
  have hstart : (start root serverTimeControl node).Refines (.start root serverTimeControl node) :=
    ⟨rfl, rfl, fun _ => .nil, fun _ => .nil, nofun, nofun⟩
  have hdrained : (start root serverTimeControl node).Drained := ⟨fun _ => rfl, fun _ => rfl⟩
  exact h.simulates (I := fun x y => x.Refines y ∧ x.Drained) (F := AllFit)
    (fun s e s' hs => AllFit.of_step hs) (fun s e s' y hfit hI hs => step_runs hs hfit hI.1 hI.2)
    ⟨hstart, hdrained⟩ hfit

/-- What an event hands to a codec. -/
def handed (x : ByteSystem) : ByteEvent → Bytes
  | .serverRead conn n _ => x.serverBuf conn ++ (x.toServer conn).take n
  | .nodeRead conn n _ => x.nodeBuf conn ++ (x.toNode conn).take n
  | _ => []

/-- The bytes of messages are no error to the codec. -/
theorem Refines.no_error (h : x.Refines y) (e : ByteEvent) : ((codec Pb.protobuf).decode (x.handed e)).error = none := by
  have hread : ∀ {buf flight : Bytes} {n : ℕ} {ms : List Message}, Carries Message.wire buf flight ms →
      (∀ m ∈ ms, m.Carried) → ((codec Pb.protobuf).decode (buf ++ flight.take n)).error = none := by
    intro buf flight n ms hcarries hms
    have hcarries : Carries Message.wire (buf ++ flight.take n) (flight.drop n) ms := by
      rwa [Carries, List.append_assoc, List.take_append_drop]
    obtain ⟨got, rest, tail, -, -, hdecode, -⟩ := hcarries.decode fun m hm => (hms m hm).framed
    rw [hdecode]
  cases e with
  | serverRead conn n envs => exact hread (h.toServer conn) (h.fromNode conn)
  | nodeRead conn n envs => exact hread (h.toNode conn) (h.fromServer conn)
  | _ => exact congrArg Decoded.error Decoder.decode_nil

/-- **Every run of the bytes is a run of the messages.**  If all frames that were sent are within
    the bound of the codec, the server and the nodes get where they get in a run in which whole
    messages are delivered one at a time, in the order in which they were sent; no codec
    reports an error, and no whole frame waits in a buffer. -/
theorem messages_of_bytes {root : String} {serverTimeControl : ℕ} {node : ConnId → LkpClient} {es : List ByteEvent}
    (h : Runs step (start root serverTimeControl node) es x) (hfit : x.AllFit) :
    (∃ es' y, Runs System.step (.start root serverTimeControl node) es' y ∧ x.Refines y ∧ x.Drained) ∧
      EachStep step (start root serverTimeControl node) es fun t e =>
        ((codec Pb.protobuf).decode (t.handed e)).error = none := by
  refine ⟨simulated h hfit, ?_⟩
  rintro es₁ e es₂ t rfl ht
  obtain ⟨t', ht', hrest⟩ := h.split
  obtain rfl := ht'.det ht
  have hfitt : t'.AllFit := hrest.back (fun s e s' hs => AllFit.of_step hs) hfit
  obtain ⟨-, y, -, hy, -⟩ := simulated ht hfitt
  exact hy.no_error e

end ByteSystem

/-! ## A run -/

/-- The node to which an event happens. -/
def ByteEvent.nodeOf : ByteEvent → Option ConnId
  | .node conn _ | .nodeRead conn _ _ => some conn
  | _ => none

namespace ByteSystem
variable {x z : ByteSystem}

/-- A node only changes by what happens to it. -/
theorem node_step {e : ByteEvent} {c : ConnId} (hs : x.step e = some z) (hc : e.nodeOf ≠ some c) :
    z.node c = x.node c := by
  cases e with
  | server e =>
    simp only [step] at hs
    split_ifs at hs
    obtain ⟨t, -, rfl⟩ := Option.map_eq_some_iff.1 hs
    rfl
  | command conn m env =>
    simp only [step] at hs
    split_ifs at hs
    obtain ⟨t, -, rfl⟩ := Option.map_eq_some_iff.1 hs
    rfl
  | serverRead conn n envs =>
    obtain ⟨-, hs⟩ := Option.ite_none_right_eq_some.1 hs
    obtain ⟨⟨⟨r, k⟩, tail⟩, hr, rfl⟩ := Option.map_eq_some_iff.1 hs
    rw [onMessageWith_eq] at hr
    obtain ⟨r', hfold, hr⟩ := Option.map_eq_some_iff.1 hr
    have hback := foldlM_back (F := fun s => r'.1.node c = s.1.node c)
      (fun s p s' hs' hF => by obtain ⟨t, rfl, -⟩ := serverMessage_some hs'; exact hF) hfold rfl
    have hend : r.node = r'.1.node := by
      cases herror : ((codec Pb.protobuf).decode (x.serverBuf conn ++ (x.toServer conn).take n)).error with
      | none => rw [herror] at hr; cases hr; rfl
      | some e => rw [herror] at hr; cases hr; rfl
    exact (congrFun hend c).trans hback
  | node conn e =>
    simp only [step] at hs
    split_ifs at hs
    obtain ⟨d, -, rfl⟩ := Option.map_eq_some_iff.1 hs
    exact Function.update_of_ne (fun h => hc (congrArg some h.symm)) _ _
  | nodeRead conn n envs =>
    have hne : c ≠ conn := fun h => hc (congrArg some h.symm)
    obtain ⟨-, hs⟩ := Option.ite_none_right_eq_some.1 hs
    obtain ⟨⟨⟨r, k⟩, tail⟩, hr, rfl⟩ := Option.map_eq_some_iff.1 hs
    rw [onMessageWith_eq] at hr
    obtain ⟨r', hfold, hr⟩ := Option.map_eq_some_iff.1 hr
    have hback := foldlM_back (F := fun s => r'.1.node c = s.1.node c)
      (fun s p s' hs' hF => by
        obtain ⟨d, m, rfl, -⟩ := nodeMessage_some hs'
        exact hF.trans (Function.update_of_ne hne _ _)) hfold rfl
    have hend : r.node c = r'.1.node c := by
      cases herror : ((codec Pb.protobuf).decode (x.nodeBuf conn ++ (x.toNode conn).take n)).error with
      | none => rw [herror] at hr; cases hr; rfl
      | some e => rw [herror] at hr; cases hr; exact Function.update_of_ne hne _ _
    exact hend.trans hback

theorem node_of_runs {es : List ByteEvent} {c : ConnId} (h : Runs step x es z) (hc : ∀ e ∈ es, e.nodeOf ≠ some c) :
    z.node c = x.node c := by
  induction h with
  | nil => rfl
  | snoc _ hs ih => exact (node_step hs (hc _ (by simp))).trans (ih fun e he => hc e (by simp [he]))

/-- A heartbeat, read in two pieces: the cut is behind the first byte of the name length. -/
theorem messages_of_bytes_heartBeat :
    let events : List ByteEvent := [.server (.up 1 "10.0.0.1"), .node 1 .timer,
      .serverRead 1 5 fun _ => {}, .serverRead 1 30 fun _ => {}]
    let start := start "" 3 fun _ => .joined []
    ∃ x, Runs step start events x ∧ (x.node 1).sent = [.heartBeat ⟨true⟩] ∧ x.serverBuf 1 = [] ∧
      ∃ es' y, Runs System.step (.start "" 3 fun _ => .joined []) es' y ∧ x.Refines y ∧ x.Drained := by
  intro events start
  obtain ⟨x, hx, hsent, hnode, hbuf⟩ : ∃ x, Runs step start events x ∧ x.server.sent = [] ∧
      (x.node 1).sent = [.heartBeat ⟨true⟩] ∧ x.serverBuf 1 = [] :=
    Runs.exists_of_run (by decide +kernel)
  have hfit : x.AllFit := by
    refine ⟨by rw [hsent]; exact nofun, fun c m hm => ?_⟩
    by_cases hc : c = 1
    · subst hc
      rw [hnode, List.mem_singleton] at hm
      subst hm
      decide +kernel
    · have hother : ∀ e ∈ events, e.nodeOf ≠ some c := by
        simp [events, ByteEvent.nodeOf, Ne.symm hc]
      have hsame : x.node c = .joined [] := node_of_runs hx hother
      rw [hsame] at hm
      cases hm
  exact ⟨x, hx, hnode, hbuf, (messages_of_bytes hx hfit).1⟩

end ByteSystem

end LkpExtent
