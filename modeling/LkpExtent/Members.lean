/-
  LkpExtent formalization — who is connected, in the pool and in the time wheel.

  `Members` is the part of the server's state through which workers and CLI
  sessions come and go, as functions and sets.

  * `members_*`: the handlers of commands, answers and files leave it unchanged;
  * `step_move`: whatever happens to the server, its members make one `Move`;
  * `phase_step`: a connection comes up and goes down by its own events only.
-/
import LkpExtent.Lib.Runs
import LkpExtent.Server

namespace LkpExtent

open Lib

/-- The life of a connection: before its UP event, between UP and DOWN, after DOWN. -/
inductive Phase where
  | waiting
  | up
  | gone
  deriving DecidableEq

def ConnState.phase : ConnState → Phase
  | .kConnecting => .waiting
  | .kConnected | .kDisconnecting => .up
  | .kDisconnected => .gone

structure Members where
  /-- without the messages of the nodes -/
  pool : LkpClientPool
  buckets : List (Finset Entry)
  cmd : Option ConnId
  flag : Bool
  phase : ConnId → Phase
  peerIp : ConnId → String
  context : ConnId → Option Entry

namespace Members
variable (m : Members)

/-- An UP event. -/
def connect (conn : ConnId) (peerIp : String) : Members :=
  { m with phase := Function.update m.phase conn .up, peerIp := Function.update m.peerIp conn peerIp }

/-- A DOWN event. -/
def disconnect (conn : ConnId) : Members := { m with phase := Function.update m.phase conn .gone }

/-- The connection gets a node ID and its Entry. -/
def join (conn : ConnId) (back : Finset Entry) (rest : List (Finset Entry)) : Members :=
  let entry : Entry := ⟨conn, (m.pool.add conn).1⟩
  { m with
    pool := (m.pool.add conn).2
    buckets := insert entry back :: rest
    context := Function.update m.context conn (some entry) }

/-- The node ID becomes free. -/
def del (nodeID : ℤ) : Members := { m with pool := (m.pool.del nodeID).2 }

/-- Some bucket contains the Entry. -/
def Live (entry : Entry) : Prop := ∃ bucket ∈ m.buckets, entry ∈ bucket

variable {m} {c d : ConnId} {ip : String} {back : Finset Entry} {rest : List (Finset Entry)} {id : ℤ}

@[simp] theorem connect_phase_self : (m.connect c ip).phase c = .up := Function.update_self ..

theorem connect_phase_of_ne (h : d ≠ c) : (m.connect c ip).phase d = m.phase d :=
  Function.update_of_ne h ..

@[simp] theorem connect_peerIp_self : (m.connect c ip).peerIp c = ip := Function.update_self ..

theorem connect_peerIp_of_ne (h : d ≠ c) : (m.connect c ip).peerIp d = m.peerIp d :=
  Function.update_of_ne h ..

@[simp] theorem connect_context : (m.connect c ip).context = m.context := rfl

@[simp] theorem connect_pool : (m.connect c ip).pool = m.pool := rfl

@[simp] theorem disconnect_phase_self : (m.disconnect c).phase c = .gone := Function.update_self ..

theorem disconnect_phase_of_ne (h : d ≠ c) : (m.disconnect c).phase d = m.phase d :=
  Function.update_of_ne h ..

/-- Who is still up after somebody has gone. -/
theorem up_of_disconnect (h : (m.disconnect c).phase d = .up) : d ≠ c ∧ m.phase d = .up := by
  have hd : d ≠ c := by
    rintro rfl
    rw [disconnect_phase_self] at h; cases h
  exact ⟨hd, (disconnect_phase_of_ne hd).symm.trans h⟩

@[simp] theorem join_phase : (m.join c back rest).phase = m.phase := rfl

@[simp] theorem join_peerIp : (m.join c back rest).peerIp = m.peerIp := rfl

@[simp] theorem join_context_self : (m.join c back rest).context c = some ⟨c, (m.pool.add c).1⟩ :=
  Function.update_self ..

theorem join_context_of_ne (h : d ≠ c) : (m.join c back rest).context d = m.context d :=
  Function.update_of_ne h ..

theorem join_getConn : (m.join c back rest).pool.getConn =
    Function.update m.pool.getConn (m.pool.add c).1 (some c) := m.pool.add_getConn c

@[simp] theorem del_phase : (m.del id).phase = m.phase := rfl

theorem del_getConn : (m.del id).pool.getConn = Function.update m.pool.getConn id none :=
  m.pool.del_getConn id

theorem del_sub {nodeID : ℤ} (h : (m.del nodeID).pool.getConn id = some c) :
    m.pool.getConn id = some c ∧ id ≠ nodeID := by
  rw [del_getConn] at h
  by_cases hid : id = nodeID
  · subst hid; simp at h
  · rw [Function.update_of_ne hid] at h; exact ⟨h, hid⟩

end Members

namespace LkpServer
variable {s t : LkpServer}

def members (s : LkpServer) : Members where
  pool := s.clientPool.clearInfo
  buckets := s.connectionBuckets
  cmd := s.CmdConnection
  flag := s.hasCmdConnected
  phase conn := (s.conns conn).state.phase
  peerIp conn := (s.conns conn).peerIp
  context conn := (s.conns conn).context

theorem isUp_iff {γ : Type} (c : TcpConnection γ) : c.isUp = true ↔ c.state.phase = .up := by
  simp only [TcpConnection.isUp]
  cases c.state <;> simp [ConnState.phase]

theorem entryAlive_iff {entry : Entry} : s.entryAlive entry = true ↔ s.members.Live entry := by
  simp [entryAlive, Members.Live, members]

/-! ## What leaves the members unchanged -/

/-- A connection changed in its output only, or shut down. -/
theorem members_setConn {conn : ConnId} {c : TcpConnection Entry}
    (hp : c.state.phase = (s.conns conn).state.phase) (hi : c.peerIp = (s.conns conn).peerIp)
    (hc : c.context = (s.conns conn).context) : (s.setConn conn c).members = s.members := by
  simp only [members, setConn, Members.mk.injEq, true_and]
  refine ⟨?_, ?_, ?_⟩ <;> ext1 d <;> by_cases hd : d = conn
  all_goals first | subst hd; simpa | simp [Function.update_of_ne hd]

theorem shutdown_phase {γ : Type} (c : TcpConnection γ) : c.shutdown.state.phase = c.state.phase := by
  simp only [TcpConnection.shutdown]
  split_ifs with h
  · rw [h]; rfl
  · rfl

@[simp] theorem members_shutdown (conn : ConnId) :
    (s.setConn conn (s.conns conn).shutdown).members = s.members :=
  members_setConn (shutdown_phase _) (by simp) (by simp)

@[simp] theorem members_send (conn : ConnId) (message : Message) :
    (s.send conn message).members = s.members :=
  members_setConn (s := s) rfl rfl rfl

@[simp] theorem members_sendToClient (message : Message) (conn : Option ConnId) :
    (s.sendToClient message conn).members = s.members := by
  simp only [sendToClient]
  cases conn with
  | none => rfl
  | some conn => simp only; split_ifs <;> simp

theorem members_sendToCmdClient {message : Message} (h : s.sendToCmdClient message = .ok t) :
    t.members = s.members := by
  simp only [sendToCmdClient] at h
  split at h
  · cases h; split_ifs <;> simp
  · cases h

theorem members_replyIfComplete {command : CommandID} (h : s.replyIfComplete command = .ok t) :
    t.members = s.members := by
  simp only [replyIfComplete] at h
  split_ifs at h
  · exact members_sendToCmdClient h
  · cases h; rfl

@[simp] theorem members_countAnswer (status : Bool) (nodeID : UInt32) (ackMessage : String) :
    (s.countAnswer status nodeID ackMessage).members = s.members := by
  simp only [countAnswer]
  cases status <;> rfl

theorem members_onPushACK {message : PushACK} (h : s.onPushACK message = .ok t) : t.members = s.members :=
  (members_replyIfComplete h).trans (members_countAnswer _ _ _)

theorem members_onCommandACK {message : CommandACK} (h : s.onCommandACK message = .ok t) :
    t.members = s.members :=
  (members_replyIfComplete h).trans (members_countAnswer _ _ _)

theorem members_fcloseOutput {conn : ConnId} (h : s.fcloseOutput conn = .ok t) : t.members = s.members := by
  simp only [fcloseOutput] at h
  split at h
  · split_ifs at h; cases h; rfl
  · cases h

theorem members_fwriteOutput {conn : ConnId} {message : File} {env : Env}
    (h : s.fwriteOutput conn message env = .ok t) : t.members = s.members := by
  simp only [fwriteOutput] at h
  split at h
  · split_ifs at h; cases h; rfl
  · cases h

@[simp] theorem members_checkComplete (conn : ConnId) (message : File) (env : Env) :
    (s.checkComplete conn message env).members = s.members := by
  simp only [checkComplete]
  split_ifs <;> rfl

theorem members_onFileMsg {conn : ConnId} {message : File} {env : Env}
    (h : s.onFileMsg conn message env = .ok t) : t.members = s.members := by
  simp only [onFileMsg] at h
  split_ifs at h
  · obtain ⟨u, hu, h⟩ := bind_ok h
    rw [members_replyIfComplete h, members_checkComplete, members_fcloseOutput hu]; rfl
  · exact (members_fwriteOutput h).trans rfl
  · cases h; rfl
  · exact members_fwriteOutput h

@[simp] theorem members_broadToClients (message : Command) :
    (s.broadToClients message).members = s.members := by
  simp only [broadToClients]
  generalize s.clientPool.connections.toList = l
  induction l generalizing s with
  | nil => rfl
  | cons it l ih => rw [List.foldl_cons, ih, members_sendToClient]

@[simp] theorem members_startPush (message : Command) (env : Env) (nodeID : ℤ) (conn : ConnId) :
    (s.startPush message env nodeID conn).members = s.members := by
  simp only [startPush]
  rw [members_sendToClient]
  exact members_setConn rfl rfl rfl

@[simp] theorem members_startPushes (message : Command) (env : Env) (targets : List (ℤ × ConnId)) :
    (startPushes message env targets s).members = s.members := by
  induction targets generalizing s with
  | nil => rfl
  | cons it targets ih =>
    simp only [startPushes]
    split_ifs
    · rw [ih, members_startPush]
    · rfl

@[simp] theorem members_setClientNum (n : ℕ) : (s.setClientNum n).members = s.members := rfl

@[simp] theorem members_resetCounters : s.resetCounters.members = s.members := rfl

theorem members_pushToClient {message : Command} {env : Env} (h : s.pushToClient message env = .ok t) :
    t.members = s.members := by
  unfold pushToClient at h
  split_ifs at h
  · simp only at h
    split_ifs at h
    · split at h
      · cases h; rw [members_startPush, members_setClientNum]
      · cases h
    · cases h; rfl
  · cases h; rw [members_startPushes, members_setClientNum]

@[simp] theorem members_forward (message : Command) : (s.forward message).members = s.members := by
  simp only [forward]
  split_ifs <;> simp

theorem members_onCommandMsg {message : Command} {env : Env} (h : s.onCommandMsg message env = .ok t) :
    t.members = s.members := by
  rw [← members_resetCounters (s := s)]
  simp only [onCommandMsg] at h
  split at h
  iterate 3 cases h; rw [members_forward]
  · exact members_pushToClient h
  · exact members_sendToCmdClient h
  · cases h; rfl

theorem members_onWriteComplete {conn : ConnId} {stack : Bytes} (h : s.onWriteComplete conn stack = .ok t) :
    t.members = s.members := by
  simp only [onWriteComplete] at h
  split at h
  · split at h
    · cases h; rw [members_sendToClient]; rfl
    · cases h; rw [members_sendToClient]
      exact members_setConn rfl rfl rfl
  · cases h

/-! ## What a step does to the members -/

/-- What a step can do to the members. -/
inductive Move (s : LkpServer) : ServerEvent → LkpServer → Prop
  /-- a message, or an event of the output of a connection -/
  | quiet {e : ServerEvent} {t : LkpServer} (he : ∀ c ip, e ≠ .up c ip) (hd : ∀ c, e ≠ .down c)
      (ht : ∀ order, e ≠ .timer order) (h : t.members = s.members) : Move s e t
  | heartBeat {c : ConnId} {m : HeartBeat} {env : Env} {t : LkpServer} {entry : Entry}
      {back : Finset Entry} {rest : List (Finset Entry)} (hup : s.members.phase c = .up)
      (hc : s.members.context c = some entry) (hl : s.members.Live entry)
      (hb : s.members.buckets = back :: rest)
      (h : t.members = { s.members with buckets := insert entry back :: rest }) :
      Move s (.message c (.heartBeat m) env) t
  | cliUp {c : ConnId} {t : LkpServer} (hw : s.members.phase c = .waiting) (hf : s.members.flag = false)
      (h : t.members = { s.members.connect c "127.0.0.1" with cmd := some c, flag := true }) :
      Move s (.up c "127.0.0.1") t
  | cliRefused {c : ConnId} {t : LkpServer} (hw : s.members.phase c = .waiting)
      (hf : s.members.flag = true) (h : t.members = s.members.connect c "127.0.0.1") :
      Move s (.up c "127.0.0.1") t
  | workerUp {c : ConnId} {ip : String} {t : LkpServer} {back : Finset Entry} {rest : List (Finset Entry)}
      (hw : s.members.phase c = .waiting) (hip : ip ≠ "127.0.0.1") (hb : s.members.buckets = back :: rest)
      (h : t.members = (s.members.connect c ip).join c back rest) : Move s (.up c ip) t
  /-- a CLI session ends, or a worker goes down while there is one -/
  | sessionDown {c : ConnId} {t : LkpServer} (hup : s.members.phase c = .up) (hf : s.members.flag = true)
      (h : t.members = { s.members.disconnect c with flag := false }) : Move s (.down c) t
  | workerDown {c : ConnId} {t : LkpServer} {entry : Entry} (hup : s.members.phase c = .up)
      (hf : s.members.flag = false) (hc : s.members.context c = some entry) (hl : s.members.Live entry)
      (h : t.members = (s.members.disconnect c).del entry.nodeID) : Move s (.down c) t
  | timer {order : List Entry} (hn : order.Nodup) (ho : order.toFinset = s.expiring) :
      Move s (.timer order) (s.onTimer order)

theorem members_connect (conn : ConnId) (peerIp : String) :
    (s.setConn conn { s.conns conn with state := .kConnected, peerIp }).members =
      s.members.connect conn peerIp := by
  simp only [members, setConn, Members.connect, Members.mk.injEq, true_and]
  refine ⟨?_, ?_, ?_⟩ <;> ext d <;> by_cases hd : d = conn
  all_goals first | subst hd; simp [ConnState.phase] | simp [Function.update_of_ne hd]

theorem members_disconnect (conn : ConnId) :
    (s.setConn conn { s.conns conn with state := .kDisconnected }).members = s.members.disconnect conn := by
  simp only [members, setConn, Members.disconnect, Members.mk.injEq, true_and]
  refine ⟨?_, ?_, ?_⟩ <;> ext d <;> by_cases hd : d = conn
  all_goals first | subst hd; simp [ConnState.phase] | simp [Function.update_of_ne hd]

theorem step_eq_some {e : ServerEvent} : s.step e = some t ↔ s.enabled e ∧ s.handle e = .ok t := by
  simp only [step]
  cases s.enabled e <;> cases s.handle e <;> simp [Except.toOption]

theorem insertEntry_ok {entry : Entry} (h : s.insertEntry entry = .ok t) :
    ∃ back rest, s.connectionBuckets = back :: rest ∧
      t = { s with connectionBuckets := insert entry back :: rest } := by
  simp only [insertEntry] at h
  split at h
  · cases h
  · cases h; exact ⟨_, _, by assumption, rfl⟩

theorem setConn_conns (conn : ConnId) (c : TcpConnection Entry) : (s.setConn conn c).conns conn = c :=
  Function.update_self ..

theorem setConn_conns_of_ne {conn d : ConnId} (h : d ≠ conn) (c : TcpConnection Entry) :
    (s.setConn conn c).conns d = s.conns d := Function.update_of_ne h ..

theorem move_up {c : ConnId} {ip : String} (hw : s.members.phase c = .waiting)
    (h : (s.setConn c { s.conns c with state := .kConnected, peerIp := ip }).onConnection c = .ok t) :
    Move s (.up c ip) t := by
  have hm := members_connect (s := s) c ip
  generalize hs : s.setConn c { s.conns c with state := .kConnected, peerIp := ip } = u at h hm
  have hu : u.conns c = { s.conns c with state := .kConnected, peerIp := ip } := by
    rw [← hs, setConn_conns]
  have hf : u.hasCmdConnected = s.members.flag := by rw [← hs]; rfl
  simp only [onConnection] at h
  rw [if_pos (by rw [hu]; rfl), show (u.conns c).peerIp = ip by rw [hu]] at h
  split_ifs at h with hip hflag
  · subst hip
    cases h
    exact .cliUp hw (hf ▸ hflag) (by rw [← hm]; rfl)
  · subst hip
    split at h
    · cases h
      exact .cliRefused hw (hf ▸ eq_true_of_ne_false hflag) (by rw [members_shutdown, hm])
    · cases h
  · rcases hadd : u.clientPool.add c with ⟨nodeID, clientPool⟩
    rw [hadd] at h
    obtain ⟨v, hv, h⟩ := bind_ok h
    obtain ⟨back, rest, hb, rfl⟩ := insertEntry_ok hv
    cases h
    refine .workerUp hw hip (show s.members.buckets = back :: rest by rw [← hs] at hb; exact hb) ?_
    rw [← hm]
    simp only [members, setConn, Members.join, LkpClientPool.add_clearInfo, hadd, Members.mk.injEq,
      true_and]
    refine ⟨?_, ?_, ?_⟩ <;> ext d <;> by_cases hd : d = c
    all_goals first | subst hd; simp | simp [Function.update_of_ne hd]

theorem move_down {c : ConnId} (hup : s.members.phase c = .up)
    (h : (s.setConn c { s.conns c with state := .kDisconnected }).onConnection c = .ok t) :
    Move s (.down c) t := by
  have hm := members_disconnect (s := s) c
  generalize hs : s.setConn c { s.conns c with state := .kDisconnected } = u at h hm
  have hu : u.conns c = { s.conns c with state := .kDisconnected } := by rw [← hs, setConn_conns]
  have hf : u.hasCmdConnected = s.members.flag := by rw [← hs]; rfl
  simp only [onConnection] at h
  rw [if_neg (by rw [hu]; exact Bool.false_ne_true)] at h
  split_ifs at h with hflag
  · cases h
    exact .sessionDown hup (hf ▸ hflag) (by rw [← hm]; rfl)
  · split at h
    · cases h
    · rename_i entry hc
      split_ifs at h with hl
      cases h
      rw [hu] at hc
      refine .workerDown hup (hf ▸ eq_false_of_ne_true hflag) hc ?_ ?_
      · rw [entryAlive_iff, hm] at hl; exact hl
      · rw [← hm]
        simp only [members, Members.del, LkpClientPool.del_clearInfo]

theorem move_heartBeat {c : ConnId} {m : HeartBeat} {env : Env} (hup : s.members.phase c = .up)
    (h : s.onHeartBeat c = .ok t) : Move s (.message c (.heartBeat m) env) t := by
  simp only [onHeartBeat] at h
  split at h
  · cases h
  · rename_i entry hc
    split_ifs at h with hl
    · obtain ⟨back, rest, hb, rfl⟩ := insertEntry_ok h
      exact .heartBeat hup hc (entryAlive_iff.1 hl) hb rfl
    · cases h
      exact .quiet nofun nofun nofun rfl

/-- **Every step of the server is a move of its members.** -/
theorem step_move {e : ServerEvent} (h : s.step e = some t) : Move s e t := by
  obtain ⟨he, h⟩ := step_eq_some.1 h
  cases e with
  | up c ip =>
    refine move_up ?_ h
    simp only [enabled, decide_eq_true_eq] at he
    simp [members, he, ConnState.phase]
  | down c => exact move_down ((isUp_iff _).1 he) h
  | message c m env =>
    have hup := (isUp_iff _).1 he
    cases m with
    | command m => exact .quiet nofun nofun nofun (members_onCommandMsg h)
    | file m => exact .quiet nofun nofun nofun (members_onFileMsg h)
    | commandACK m => exact .quiet nofun nofun nofun (members_onCommandACK h)
    | heartBeat m => exact move_heartBeat hup h
    | pushACK m => exact .quiet nofun nofun nofun (members_onPushACK h)
    | ret m => cases h; exact .quiet nofun nofun nofun (members_shutdown c)
  | written c => cases h; exact .quiet nofun nofun nofun (members_setConn rfl rfl rfl)
  | writeComplete c stack =>
    exact .quiet nofun nofun nofun ((members_onWriteComplete h).trans (members_setConn rfl rfl rfl))
  | timer order =>
    cases h
    simp only [enabled, Bool.decide_and, Bool.and_eq_true, decide_eq_true_eq] at he
    exact .timer he.1 he.2

/-! ## The tick of the wheel -/

theorem mem_expiring {entry : Entry} : entry ∈ s.expiring ↔
    s.members.Live entry ∧ ∀ bucket ∈ s.connectionBuckets.dropLast, entry ∉ bucket := by
  simp only [expiring, Members.Live, members]
  rw [Finset.mem_filter]
  refine and_congr_left ?_
  intro hnot
  rcases List.eq_nil_or_concat s.connectionBuckets with hb | ⟨init, last, hb⟩
  · simp [hb]
  · rw [List.concat_eq_append] at hb
    rw [hb, List.dropLast_concat] at hnot
    rw [hb, List.getLast?_concat, Option.getD_some]
    constructor
    · exact fun h => ⟨last, by simp, h⟩
    · rintro ⟨bucket, hmem, h⟩
      rcases List.mem_append.1 hmem with hi | hl
      · exact absurd h (hnot bucket hi)
      · rwa [List.mem_singleton.1 hl] at h

/-- What is left in the wheel after a tick. -/
theorem live_pushBucket {entry : Entry} :
    s.pushBucket.members.Live entry ↔ s.members.Live entry ∧ entry ∉ s.expiring := by
  have hpush : s.pushBucket.members.Live entry ↔ ∃ bucket ∈ s.connectionBuckets.dropLast, entry ∈ bucket := by
    simp only [pushBucket, Members.Live, members]
    cases s.connectionBuckets <;> simp
  rw [hpush, mem_expiring]
  constructor
  · rintro ⟨bucket, hb, h⟩
    exact ⟨⟨bucket, List.mem_of_mem_dropLast hb, h⟩, fun hex => hex.2 bucket hb h⟩
  · rintro ⟨hl, hex⟩
    by_contra hno
    push Not at hno
    exact hex ⟨hl, hno⟩

/-- What happens to an Entry that expires, when the pool contains connections that
    are up only: its node ID becomes free if its connection is up or in a table. -/
def Frees (s : LkpServer) (id : ℤ) (entry : Entry) : Prop :=
  entry.nodeID = id ∧ (s.members.phase entry.weakConn = .up ∨ s.inTables entry.weakConn = true)

theorem members_destroy (entry : Entry) : (s.destroy entry).members =
    if s.connAlive entry.weakConn then s.members.del entry.nodeID else s.members := by
  simp only [destroy]
  split_ifs
  · show { (s.setConn entry.weakConn (s.conns entry.weakConn).shutdown).members with
      pool := (s.clientPool.del entry.nodeID).2.clearInfo } = _
    rw [members_shutdown, ← LkpClientPool.del_clearInfo]
    rfl
  · rfl

theorem inTables_destroy (entry : Entry) (conn : ConnId) :
    (s.destroy entry).inTables conn = s.inTables conn := by
  simp only [destroy]
  split_ifs <;> rfl

theorem connAlive_iff (hp : ∀ id c, s.members.pool.getConn id = some c → s.members.phase c = .up)
    (conn : ConnId) :
    s.connAlive conn = true ↔ s.members.phase conn = .up ∨ s.inTables conn = true := by
  have hpool : s.inPool conn = true → s.members.phase conn = .up := by
    intro h
    obtain ⟨⟨id, c⟩, hmem, hc⟩ := List.any_eq_true.1 h
    rw [← of_decide_eq_true hc]
    exact hp id c (s.clientPool.mem_toList.1 hmem)
  simp only [connAlive]
  rw [Bool.or_eq_true, Bool.or_eq_true, isUp_iff]
  constructor
  · rintro ((h | h) | h)
    · exact .inl h
    · exact .inl (hpool h)
    · exact .inr h
  · rintro (h | h)
    · exact .inl (.inl h)
    · exact .inr h

/-- The pool after some entries have been destroyed. -/
structure Destroyed (s : LkpServer) (order : List Entry) (pool : LkpClientPool) : Prop where
  wf : s.members.pool.WF → pool.WF
  sub : ∀ id c, pool.getConn id = some c → s.members.pool.getConn id = some c
  kept : (∀ id c, s.members.pool.getConn id = some c → s.members.phase c = .up) →
    ∀ id c, s.members.pool.getConn id = some c →
      (pool.getConn id = some c ↔ ∀ entry ∈ order, ¬ Frees s id entry)

theorem destroyed_single (entry : Entry) : Destroyed s [entry] (s.destroy entry).members.pool := by
  rw [members_destroy]
  constructor
  · intro h
    split_ifs
    · exact h.del _
    · exact h
  · intro id c h
    split_ifs at h
    · exact (Members.del_sub h).1
    · exact h
  · intro hp id c h
    simp only [List.mem_singleton, forall_eq, Frees, ← connAlive_iff hp]
    split_ifs with ha
    · rw [Members.del_getConn]
      by_cases hid : id = entry.nodeID
      · subst hid; simp [ha]
      · rw [Function.update_of_ne hid]; simp [h, Ne.symm hid]
    · simp [h, ha]

theorem foldl_destroy (order : List Entry) (s : LkpServer) :
    ∃ pool, (order.foldl destroy s).members = { s.members with pool } ∧ Destroyed s order pool := by
  induction order generalizing s with
  | nil => exact ⟨_, rfl, id, fun _ _ h => h, fun _ id c h => ⟨fun _ => nofun, fun _ => h⟩⟩
  | cons entry order ih =>
    obtain ⟨pool, hm, hd⟩ := ih (s.destroy entry)
    have h₁ := destroyed_single (s := s) entry
    have hphase : (s.destroy entry).members.phase = s.members.phase := by
      rw [members_destroy]; split_ifs <;> rfl
    refine ⟨pool, ?_, fun h => hd.wf (h₁.wf h), fun id c h => h₁.sub id c (hd.sub id c h),
      fun hp id c h => ?_⟩
    · rw [List.foldl_cons, hm, members_destroy]
      split_ifs <;> rfl
    · have hfrees : ∀ e, Frees (s.destroy entry) id e ↔ Frees s id e := by
        intro e; unfold Frees; rw [hphase, inTables_destroy]
      have hkept₁ := h₁.kept hp id c h
      have hkept := hd.kept (fun id c h => by rw [hphase]; exact hp id c (h₁.sub id c h)) id c
      rw [List.forall_mem_cons]
      simp only [List.mem_singleton, forall_eq, hfrees] at hkept₁ hkept
      constructor
      · intro hc
        have hc₁ := hd.sub id c hc
        exact ⟨hkept₁.1 hc₁, (hkept hc₁).1 hc⟩
      · rintro ⟨hne, hrest⟩
        exact (hkept (hkept₁.2 hne)).2 hrest

/-- The members after a tick. -/
theorem members_onTimer (s : LkpServer) (order : List Entry) :
    ∃ pool, (s.onTimer order).members = { s.pushBucket.members with pool } ∧ Destroyed s order pool := by
  obtain ⟨pool, hm, hd⟩ := foldl_destroy order s.pushBucket
  exact ⟨pool, hm, hd.wf, hd.sub, hd.kept⟩

/-! ## The life of a connection -/

/-- What an event makes of the phase of a connection. -/
def phaseAfter (conn : ConnId) (p : Phase) : ServerEvent → Phase
  | .up c _ => if c = conn then .up else p
  | .down c => if c = conn then .gone else p
  | _ => p

/-- **Only its UP and its DOWN event change the phase of a connection.** -/
theorem phase_step {e : ServerEvent} (hs : s.step e = some t) (conn : ConnId) :
    t.members.phase conn = phaseAfter conn (s.members.phase conn) e := by
  have hconnect : ∀ c ip, (s.members.connect c ip).phase conn =
      if c = conn then .up else s.members.phase conn := by
    intro c ip
    split_ifs with hc
    · rw [hc, Members.connect_phase_self]
    · exact Members.connect_phase_of_ne (Ne.symm hc)
  have hdisconnect : ∀ c, (s.members.disconnect c).phase conn =
      if c = conn then .gone else s.members.phase conn := by
    intro c
    split_ifs with hc
    · rw [hc, Members.disconnect_phase_self]
    · exact Members.disconnect_phase_of_ne (Ne.symm hc)
  cases step_move hs with
  | quiet he hd _ hm =>
    rw [hm]
    cases e with
    | up c ip => exact absurd rfl (he c ip)
    | down c => exact absurd rfl (hd c)
    | _ => rfl
  | heartBeat _ _ _ _ hm => rw [hm]; rfl
  | cliUp _ _ hm => rw [hm]; exact hconnect _ "127.0.0.1"
  | cliRefused _ _ hm => rw [hm]; exact hconnect _ "127.0.0.1"
  | @workerUp c ip _ _ _ _ _ _ hm => rw [hm]; exact hconnect c ip
  | sessionDown _ _ hm => rw [hm]; exact hdisconnect _
  | workerDown _ _ _ _ hm => rw [hm]; exact hdisconnect _
  | timer _ _ =>
    obtain ⟨pool, hm, -⟩ := members_onTimer s _
    rw [hm]; rfl

theorem waiting_of_up {conn : ConnId} {ip : String} (hs : s.step (.up conn ip) = some t) :
    s.members.phase conn = .waiting := by
  have hen : (s.conns conn).state = .kConnecting := of_decide_eq_true (step_eq_some.1 hs).1
  show (s.conns conn).state.phase = .waiting
  rw [hen]; rfl

theorem not_waiting_step {c : ConnId} {e : ServerEvent} (hs : s.step e = some t) (hw : s.members.phase c ≠ .waiting) :
    t.members.phase c ≠ .waiting := by
  rw [phase_step hs c]
  cases e with
  | up d ip =>
    simp only [phaseAfter]
    split_ifs
    · simp
    · exact hw
  | down d =>
    simp only [phaseAfter]
    split_ifs
    · simp
    · exact hw
  | _ => exact hw

/-! ## Remote and local connections -/

/-- The connection has been made, from another machine. -/
def Remote (s : LkpServer) (c : ConnId) : Prop :=
  s.members.phase c ≠ .waiting ∧ (s.conns c).peerIp ≠ "127.0.0.1"

/-- The connection has been made, from the machine of the server. -/
def Local (s : LkpServer) (c : ConnId) : Prop :=
  s.members.phase c ≠ .waiting ∧ (s.conns c).peerIp = "127.0.0.1"

/-- A connection keeps its peer. -/
theorem peerIp_step {c : ConnId} {e : ServerEvent} (hs : s.step e = some t) (hc : s.members.phase c ≠ .waiting) :
    t.members.peerIp c = s.members.peerIp c := by
  have hne : ∀ {d : ConnId}, s.members.phase d = .waiting → c ≠ d := by
    rintro d hd rfl
    exact hc hd
  cases step_move hs with
  | quiet _ _ _ hm => rw [hm]
  | heartBeat _ _ _ _ hm => rw [hm]
  | cliUp hw _ hm => rw [hm]; exact Members.connect_peerIp_of_ne (hne hw)
  | cliRefused hw _ hm => rw [hm]; exact Members.connect_peerIp_of_ne (hne hw)
  | workerUp hw _ _ hm =>
    rw [hm, Members.join_peerIp]
    exact Members.connect_peerIp_of_ne (hne hw)
  | sessionDown _ _ hm => rw [hm]; rfl
  | workerDown _ _ _ _ hm => rw [hm]; rfl
  | timer _ _ =>
    obtain ⟨pool, hm, -⟩ := members_onTimer s _
    rw [hm]; rfl

theorem Remote.step {c : ConnId} {e : ServerEvent} (h : s.Remote c) (hs : s.step e = some t) : t.Remote c := by
  refine ⟨not_waiting_step hs h.1, ?_⟩
  show t.members.peerIp c ≠ "127.0.0.1"
  rw [peerIp_step hs h.1]
  exact h.2

theorem Local.step {c : ConnId} {e : ServerEvent} (h : s.Local c) (hs : s.step e = some t) : t.Local c :=
  ⟨not_waiting_step hs h.1, (peerIp_step hs h.1).trans h.2⟩

end LkpServer

/-! ## What holds of the members in every run -/

namespace Members
variable {m : Members}

/-- What holds of the members whatever happens. -/
structure Base (m : Members) : Prop where
  wf : m.pool.WF
  fresh : ∀ c, m.phase c = .waiting → m.context c = none
  own : ∀ c entry, m.context c = some entry → entry.weakConn = c ∧ m.peerIp c ≠ "127.0.0.1"
  live : ∀ entry, m.Live entry → m.context entry.weakConn = some entry
  known : ∀ id c, m.pool.getConn id = some c → m.context c = some ⟨c, id⟩

/-- A connection is in the pool under one node ID at most. -/
theorem Base.inj (h : m.Base) {c : ConnId} {id id' : ℤ} (hid : m.pool.getConn id = some c)
    (hid' : m.pool.getConn id' = some c) : id = id' := by
  have := (h.known id c hid).symm.trans (h.known id' c hid')
  simpa using this

theorem Base.connect (h : m.Base) {c : ConnId} (hw : m.phase c = .waiting) (ip : String) :
    (m.connect c ip).Base := by
  refine ⟨h.wf, ?_, ?_, h.live, h.known⟩
  · intro d hd
    by_cases hdc : d = c
    · subst hdc; simp at hd
    · exact h.fresh d ((connect_phase_of_ne hdc).symm.trans hd)
  · intro d entry hd
    have hdc : d ≠ c := by
      rintro rfl
      rw [connect_context, h.fresh d hw] at hd
      cases hd
    rw [connect_peerIp_of_ne hdc]
    exact h.own d entry hd

theorem Base.disconnect (h : m.Base) (c : ConnId) : (m.disconnect c).Base := by
  refine ⟨h.wf, ?_, h.own, h.live, h.known⟩
  intro d hd
  by_cases hdc : d = c
  · subst hdc; simp at hd
  · exact h.fresh d ((disconnect_phase_of_ne hdc).symm.trans hd)

theorem Base.shrink (h : m.Base) {pool : LkpClientPool} {buckets : List (Finset Entry)} (hwf : pool.WF)
    (hsub : ∀ id c, pool.getConn id = some c → m.pool.getConn id = some c)
    (hlive : ∀ entry, { m with pool, buckets }.Live entry → m.Live entry) :
    { m with pool, buckets }.Base :=
  ⟨hwf, h.fresh, h.own, fun entry he => h.live entry (hlive entry he),
    fun id c hid => h.known id c (hsub id c hid)⟩

theorem Base.del (h : m.Base) (nodeID : ℤ) : (m.del nodeID).Base :=
  h.shrink (h.wf.del nodeID) (fun _ _ hid => (del_sub hid).1) fun _ he => he

theorem live_insert {entry : Entry} {back : Finset Entry} {rest : List (Finset Entry)}
    (hb : m.buckets = back :: rest) (e : Entry) :
    (∃ bucket ∈ insert entry back :: rest, e ∈ bucket) ↔ e = entry ∨ m.Live e := by
  simp only [Live]
  rw [hb]
  simp [or_assoc]

theorem Base.heartBeat (h : m.Base) {entry : Entry} {back : Finset Entry} {rest : List (Finset Entry)}
    (hb : m.buckets = back :: rest) (hl : m.Live entry) :
    { m with buckets := insert entry back :: rest }.Base := by
  refine h.shrink h.wf (fun _ _ hid => hid) ?_
  intro e he
  rcases (live_insert hb e).1 he with rfl | he
  · exact hl
  · exact he

theorem Base.join (h : m.Base) {c : ConnId} {back : Finset Entry} {rest : List (Finset Entry)}
    (hb : m.buckets = back :: rest) (hup : m.phase c = .up) (hip : m.peerIp c ≠ "127.0.0.1")
    (hc : m.context c = none) : (m.join c back rest).Base := by
  have hne : ∀ entry, m.context entry.weakConn = some entry → entry.weakConn ≠ c := by
    rintro entry he rfl
    rw [hc] at he; cases he
  refine ⟨h.wf.add c, ?_, ?_, ?_, ?_⟩
  · intro d hd
    have hdc : d ≠ c := by
      rintro rfl
      rw [join_phase, hup] at hd; cases hd
    rw [join_context_of_ne hdc]; exact h.fresh d hd
  · intro d entry hd
    by_cases hdc : d = c
    · subst hdc
      rw [join_context_self] at hd; cases hd
      exact ⟨rfl, hip⟩
    · rw [join_context_of_ne hdc] at hd; exact h.own d entry hd
  · intro entry he
    rcases (live_insert hb entry).1 he with rfl | he
    · exact join_context_self
    · have := h.live entry he
      rw [join_context_of_ne (hne entry this)]; exact this
  · intro id d hid
    rw [join_getConn] at hid
    by_cases hadd : id = (m.pool.add c).1
    · subst hadd
      rw [Function.update_self] at hid
      cases hid; exact join_context_self
    · rw [Function.update_of_ne hadd] at hid
      have := h.known id d hid
      rw [join_context_of_ne (hne ⟨d, id⟩ this)]; exact this

end Members

namespace LkpServer
variable {s t : LkpServer}

theorem base_start (root : String) (serverTimeControl : ℕ) : (start root serverTimeControl).members.Base where
  wf := LkpClientPool.WF.empty
  fresh _ _ := rfl
  own _ _ h := by cases h
  live entry h := by
    obtain ⟨bucket, hb, he⟩ := h
    rw [List.eq_of_mem_replicate hb] at he; simp at he
  known id c h := by
    rw [show (start root serverTimeControl).members.pool.getConn id = none from
      Std.TreeMap.getElem?_emptyc] at h
    cases h

theorem base_step {e : ServerEvent} (h : s.members.Base) (hs : s.step e = some t) : t.members.Base := by
  cases step_move hs with
  | quiet _ _ _ hm => rw [hm]; exact h
  | heartBeat _ _ hl hb hm => rw [hm]; exact h.heartBeat hb hl
  | cliUp hw _ hm =>
    rw [hm]
    have := h.connect hw "127.0.0.1"
    exact ⟨this.wf, this.fresh, this.own, this.live, this.known⟩
  | cliRefused hw _ hm => rw [hm]; exact h.connect hw _
  | @workerUp c ip _ back rest hw hip hb hm =>
    rw [hm]
    exact (h.connect hw ip).join hb Members.connect_phase_self
      (by rw [Members.connect_peerIp_self]; exact hip) (h.fresh c hw)
  | @sessionDown c _ _ _ hm =>
    rw [hm]
    have := h.disconnect c
    exact ⟨this.wf, this.fresh, this.own, this.live, this.known⟩
  | workerDown _ _ _ _ hm => rw [hm]; exact (h.disconnect _).del _
  | timer _ _ =>
    obtain ⟨pool, hm, hd⟩ := members_onTimer s _
    rw [hm]
    exact h.shrink (hd.wf h.wf) hd.sub fun entry he => (live_pushBucket.1 he).1

theorem base_of_runs {root : String} {serverTimeControl : ℕ} {es : List ServerEvent}
    (h : Runs step (start root serverTimeControl) es s) : s.members.Base :=
  h.inv' (base_start root serverTimeControl) fun _ _ _ hu hv => base_step hu hv

end LkpServer

end LkpExtent
