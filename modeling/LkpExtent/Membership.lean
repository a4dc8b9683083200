/-
  LkpExtent formalization — when the pool and the DOWN handler do what they are for.

  * `idTaken_iff`: a node ID is taken from its holder only iff no tick expires the
    Entry of a dead connection that a transfer table keeps alive while another
    connection holds the ID;
  * `poolExact_iff`: the pool is the set of the workers that are up iff no worker
    goes down during a CLI session;
  * `downOK_iff`: every DOWN event can be handled iff moreover no CLI connects during
    a session and no tick drops the Entry of a connection that is up.
-/
import LkpExtent.Lib.Runs
import LkpExtent.Received

namespace LkpExtent

open Lib

/-- A worker goes down. -/
def WorkerDown (s : LkpServer) : ServerEvent → Prop
  | .down c => (s.conns c).peerIp ≠ "127.0.0.1"
  | _ => False

instance (s : LkpServer) (e : ServerEvent) : Decidable (WorkerDown s e) :=
  match e with
  | .down _ => inferInstanceAs (Decidable (_ ≠ _))
  | .up _ _ | .message _ _ _ | .written _ | .writeComplete _ _ | .timer _ => inferInstanceAs (Decidable False)

/-- No CLI session is open when a worker goes down. -/
def NoSessionAtDown (s : LkpServer) (e : ServerEvent) : Prop :=
  WorkerDown s e → s.hasCmdConnected = false

instance (s : LkpServer) (e : ServerEvent) : Decidable (NoSessionAtDown s e) :=
  inferInstanceAs (Decidable (_ → _))

namespace LkpServer
variable {s t : LkpServer} {e : ServerEvent}

theorem pool_getConn (id : ℤ) : s.members.pool.getConn id = s.clientPool.getConn id := rfl

/-! ## A node ID is taken from its holder only -/

/-- A pool entry disappears only through the DOWN event of its connection, or when
    the connection's own Entry expires. -/
def TakenFromHolder (s : LkpServer) (e : ServerEvent) : Prop :=
  ∀ t, s.step e = some t → ∀ id c, s.clientPool.getConn id = some c → t.clientPool.getConn id ≠ some c →
    e = .down c ∨ ∃ order entry, e = .timer order ∧ entry ∈ order ∧ (s.conns c).context = some entry

/-- No tick expires the Entry of a connection that is down and a key of a table while
    its ID is held by a connection whose own Entry does not expire too. -/
def NoStaleExpiry (s : LkpServer) : ServerEvent → Prop
  | .timer order => ∀ entry ∈ order, (s.conns entry.weakConn).isUp = false →
      s.inTables entry.weakConn = true → ∀ c ∈ s.clientPool.getConn entry.nodeID,
        ∃ own ∈ order, (s.conns c).context = some own
  | _ => True

instance (s : LkpServer) (e : ServerEvent) : Decidable (NoStaleExpiry s e) :=
  match e with
  | .timer order => inferInstanceAs (Decidable (∀ entry ∈ order, _ → _))
  | .up _ _ | .down _ | .message _ _ _ | .written _ | .writeComplete _ _ => inferInstanceAs (Decidable True)

/-- The pool contains connections that are up, and an Entry in the wheel whose
    connection is up stands for the holder of its ID. -/
structure Held (m : Members) : Prop extends m.Base where
  up : ∀ id c, m.pool.getConn id = some c → m.phase c = .up
  held : ∀ entry, m.Live entry → m.phase entry.weakConn = .up →
    m.pool.getConn entry.nodeID = some entry.weakConn

theorem held_start (root : String) (serverTimeControl : ℕ) : Held (start root serverTimeControl).members where
  toBase := base_start root serverTimeControl
  up id c h := by
    rw [show (start root serverTimeControl).members.pool.getConn id = none from
      Std.TreeMap.getElem?_emptyc] at h
    cases h
  held entry h := by
    have := (base_start root serverTimeControl).live entry h
    cases this

theorem takenFromHolder_iff (h : Held s.members) (hs : s.step e = some t) :
    TakenFromHolder s e ↔ NoStaleExpiry s e := by
  have hsame : (∀ order, e ≠ .timer order) →
      (∀ id c, s.clientPool.getConn id = some c → t.clientPool.getConn id ≠ some c → e = .down c) →
      (TakenFromHolder s e ↔ NoStaleExpiry s e) := by
    intro hne hdown
    refine iff_of_true (fun u hu id c hid hno => .inl (hdown id c hid ?_)) ?_
    · rw [hs] at hu; cases hu; exact hno
    · cases e with
      | timer order => exact absurd rfl (hne order)
      | _ => trivial
  have hpool : t.members.pool = s.members.pool →
      ∀ id c, s.clientPool.getConn id = some c → t.clientPool.getConn id ≠ some c → e = .down c := by
    intro hp id c hid hno
    rw [← pool_getConn, hp] at hno
    exact absurd hid hno
  cases step_move hs with
  | quiet _ _ ht hm => exact hsame ht (hpool (by rw [hm]))
  | heartBeat _ _ _ _ hm => exact hsame nofun (hpool (by rw [hm]))
  | cliUp _ _ hm => exact hsame nofun (hpool (by rw [hm]; rfl))
  | cliRefused _ _ hm => exact hsame nofun (hpool (by rw [hm]; rfl))
  | @workerUp d ip _ back rest _ _ _ hm =>
    refine hsame nofun fun id c hid hno => absurd ?_ hno
    rw [← pool_getConn, hm, Members.join_getConn, Function.update_of_ne]
    · exact hid
    · rintro rfl
      have := h.wf.add_fresh d
      rw [pool_getConn, ← Members.connect_pool, hid] at this; cases this
  | sessionDown _ _ hm => exact hsame nofun (hpool (by rw [hm]; rfl))
  | @workerDown d _ entry hup hf hc hl hm =>
    refine hsame nofun fun id c hid hno => ?_
    rw [← pool_getConn, hm, Members.del_getConn] at hno
    have hidn : id = entry.nodeID := by
      by_contra hne
      rw [Function.update_of_ne hne] at hno
      exact hno hid
    obtain ⟨hd, -⟩ := h.own d entry hc
    have := h.held entry hl (by rw [hd]; exact hup)
    rw [pool_getConn, ← hidn, hid, hd] at this
    cases this; rfl
  | @timer order hn ho =>
    obtain ⟨pool, hm, hdes⟩ := members_onTimer s order
    have hget : ∀ id, (s.onTimer order).clientPool.getConn id = pool.getConn id := by
      intro id; rw [← pool_getConn, hm]
    constructor
    · intro hP entry hmem hdown htab c hc
      have hno : (s.onTimer order).clientPool.getConn entry.nodeID ≠ some c := by
        rw [hget]
        intro hkept
        exact (hdes.kept h.up _ c hc).1 hkept entry hmem ⟨rfl, .inr htab⟩
      rcases hP _ hs entry.nodeID c hc hno with hd | ⟨order', own, ho', hown, hctx⟩
      · cases hd
      · cases ho'; exact ⟨own, hown, hctx⟩
    · intro hQ u hu id c hid hno
      rw [hs] at hu; cases hu
      rw [hget] at hno
      have hfree := mt (hdes.kept h.up id c hid).2 hno
      push Not at hfree
      obtain ⟨entry, hmem, rfl, hfree⟩ := hfree
      have hlive := (mem_expiring.1 (ho ▸ List.mem_toFinset.2 hmem)).1
      refine .inr ?_
      by_cases hup : s.members.phase entry.weakConn = .up
      · have := h.held entry hlive hup
        rw [pool_getConn, hid] at this
        cases this
        exact ⟨order, entry, rfl, hmem, h.live entry hlive⟩
      · have hdown : (s.conns entry.weakConn).isUp = false := by
          rw [← Bool.not_eq_true, isUp_iff]; exact hup
        obtain ⟨own, hown, hctx⟩ := hQ entry hmem hdown (hfree.resolve_left hup) c hid
        exact ⟨order, own, rfl, hown, hctx⟩

theorem Held.connect {m : Members} (h : Held m) {c : ConnId} (hw : m.phase c = .waiting) (ip : String) :
    Held (m.connect c ip) := by
  refine ⟨h.toBase.connect hw ip, ?_, ?_⟩
  · intro id d hid
    by_cases hd : d = c
    · subst hd; exact Members.connect_phase_self
    · rw [Members.connect_phase_of_ne hd]; exact h.up id d hid
  · intro entry hl hup
    have hne : entry.weakConn ≠ c := by
      intro he
      have := h.live entry hl
      rw [he, h.fresh c hw] at this; cases this
    rw [Members.connect_phase_of_ne hne] at hup
    exact h.held entry hl hup

theorem Held.join {m : Members} (h : Held m) {c : ConnId} {back : Finset Entry} {rest : List (Finset Entry)}
    (hb : m.buckets = back :: rest) (hup : m.phase c = .up) (hbase : (m.join c back rest).Base) :
    Held (m.join c back rest) := by
  refine ⟨hbase, ?_, ?_⟩
  · intro id d hid
    rw [Members.join_getConn] at hid
    by_cases hid' : id = (m.pool.add c).1
    · subst hid'
      rw [Function.update_self] at hid
      cases hid; exact hup
    · rw [Function.update_of_ne hid'] at hid
      exact h.up id d hid
  · intro entry hl hup
    rw [Members.join_getConn]
    rcases (Members.live_insert hb entry).1 hl with rfl | hl
    · exact Function.update_self ..
    · have hold := h.held entry hl hup
      rw [Function.update_of_ne]
      · exact hold
      · intro he
        rw [he, h.wf.add_fresh c] at hold
        cases hold

/-- A connection without an Entry goes down. -/
theorem Held.disconnect {m : Members} (h : Held m) {c : ConnId} (hc : m.context c = none) :
    Held (m.disconnect c) := by
  refine ⟨h.toBase.disconnect c, ?_, ?_⟩
  · intro id d hid
    have hne : d ≠ c := by
      rintro rfl
      rw [h.known id d hid] at hc; cases hc
    rw [Members.disconnect_phase_of_ne hne]
    exact h.up id d hid
  · intro entry hl hup
    exact h.held entry hl (Members.up_of_disconnect hup).2

/-- A worker goes down and its ID becomes free. -/
theorem Held.leave {m : Members} (h : Held m) {c : ConnId} {own : Entry} (hup : m.phase c = .up)
    (hc : m.context c = some own) (hl : m.Live own) : Held ((m.disconnect c).del own.nodeID) := by
  obtain ⟨hown, -⟩ := h.own c own hc
  have hholds : m.pool.getConn own.nodeID = some c := by
    have := h.held own hl (by rw [hown]; exact hup)
    rwa [hown] at this
  refine ⟨(h.toBase.disconnect c).del _, ?_, ?_⟩
  · intro id d hid
    obtain ⟨hid, hne⟩ := Members.del_sub hid
    have hdc : d ≠ c := by
      rintro rfl
      exact hne (h.toBase.inj hid hholds)
    rw [Members.del_phase, Members.disconnect_phase_of_ne hdc]
    exact h.up id d hid
  · intro entry hle hupe
    rw [Members.del_phase] at hupe
    obtain ⟨hne, hupe⟩ := Members.up_of_disconnect hupe
    have hheld := h.held entry hle hupe
    rw [Members.del_getConn, Function.update_of_ne]
    · exact hheld
    · intro he
      rw [he, hholds] at hheld
      exact hne (Option.some.inj hheld).symm

theorem held_step (h : Held s.members) (hH : NoSessionAtDown s e) (hP : TakenFromHolder s e)
    (hs : s.step e = some t) : Held t.members := by
  have hbase := base_step h.toBase hs
  cases step_move hs with
  | quiet _ _ _ hm => rw [hm]; exact h
  | heartBeat _ _ hl hb hm =>
    rw [hm] at hbase ⊢
    refine ⟨hbase, h.up, fun entry he hup => h.held entry ?_ hup⟩
    rcases (Members.live_insert hb entry).1 he with rfl | he
    · exact hl
    · exact he
  | cliUp hw _ hm =>
    have := h.connect hw "127.0.0.1"
    rw [hm] at hbase ⊢
    exact ⟨hbase, this.up, this.held⟩
  | cliRefused hw _ hm => rw [hm]; exact h.connect hw _
  | @workerUp c ip _ back rest hw hip hb hm =>
    rw [hm] at hbase ⊢
    exact (h.connect hw ip).join hb Members.connect_phase_self hbase
  | @sessionDown c _ hup hf hm =>
    have hlocal : s.members.peerIp c = "127.0.0.1" := by
      by_contra hne
      have := hH hne
      rw [show s.hasCmdConnected = true from hf] at this; cases this
    have hnone : s.members.context c = none := by
      rw [Option.eq_none_iff_forall_ne_some]
      exact fun entry hctx => (h.own c entry hctx).2 hlocal
    have := h.disconnect hnone
    rw [hm] at hbase ⊢
    exact ⟨hbase, this.up, this.held⟩
  | workerDown hup _ hc hl hm => rw [hm]; exact h.leave hup hc hl
  | @timer order hn ho =>
    obtain ⟨pool, hm, hdes⟩ := members_onTimer s order
    have hget : (s.onTimer order).clientPool.getConn = pool.getConn := by
      ext id; rw [← pool_getConn, hm]
    rw [hm] at hbase ⊢
    refine ⟨hbase, fun id c hid => h.up id c (hdes.sub id c hid), ?_⟩
    intro entry hl hup
    obtain ⟨hl, hnex⟩ := live_pushBucket.1 hl
    have hheld := h.held entry hl hup
    by_contra hno
    rcases hP _ hs entry.nodeID entry.weakConn hheld (by rw [hget]; exact hno) with
      hd | ⟨order', own, he, hmem, hctx⟩
    · cases hd
    · cases he
      have := (h.live entry hl).symm.trans hctx
      cases this
      exact hnex (ho ▸ List.mem_toFinset.2 hmem)

/-- **A node ID is taken from its holder only** iff no stale Entry expires. -/
theorem idTaken_iff {root : String} {serverTimeControl : ℕ} {es : List ServerEvent}
    (h : Runs step (start root serverTimeControl) es t)
    (hH : EachStep step (start root serverTimeControl) es NoSessionAtDown) :
    EachStep step (start root serverTimeControl) es TakenFromHolder ↔
      EachStep step (start root serverTimeControl) es NoStaleExpiry :=
  h.eachStep_iff (I := fun s => Held s.members) (held_start root serverTimeControl) hH
    (fun _ _ _ hu hHe hPe hv => held_step hu hHe hPe hv)
    (fun _ _ _ hu _ hv => takenFromHolder_iff hu hv)

/-- A worker connects and its Entry expires. -/
theorem idTaken_expiry :
    EachStep step (start "/lkp" 1) [.up 1 "10.0.0.1", .timer [⟨1, 0⟩]] TakenFromHolder := by
  obtain ⟨t, ht, -⟩ : ∃ t, Runs step (start "/lkp" 1) [.up 1 "10.0.0.1", .timer [⟨1, 0⟩]] t ∧ True :=
    Runs.exists_of_run (by decide +kernel)
  exact (idTaken_iff ht (.of_checkSteps (by decide +kernel))).2 (.of_checkSteps (by decide +kernel))

/-- A worker connects and a test case is pushed to it, the CLI leaves and then the
    worker; the next worker gets its ID. -/
def reuseEvents : List ServerEvent :=
  [.up 1 "10.0.0.1", .up 9 "127.0.0.1",
    .message 9 (.command { command := .PUSH, sendToAll := true, testcase := "job" }) { testcase := [65] },
    .down 9, .down 1, .timer [], .up 2 "10.0.0.2"]

/-- The Entry of the first worker expires while the test case is still open, and the
    second worker loses its ID. -/
theorem idTaken_stale : ¬ ∀ (root : String) (serverTimeControl : ℕ) (es : List ServerEvent) (t : LkpServer),
    Runs step (start root serverTimeControl) es t →
    EachStep step (start root serverTimeControl) es NoSessionAtDown →
    EachStep step (start root serverTimeControl) es TakenFromHolder := by
  intro h
  obtain ⟨s, hs, hp⟩ : ∃ s, Runs step (start "/lkp" 2) reuseEvents s ∧
      s.clientPool.getConn 0 = some 2 ∧ (s.conns 2).context = some ⟨2, 0⟩ ∧
        ∃ t ∈ s.step (.timer [⟨1, 0⟩]), t.clientPool.getConn 0 ≠ some 2 :=
    Runs.exists_of_run (by decide +kernel)
  obtain ⟨hid, hctx, t, ht, hno⟩ := hp
  have hP := h _ _ _ t (hs.snoc ht) (.of_checkSteps (by decide +kernel))
  rcases hP reuseEvents (.timer [⟨1, 0⟩]) [] s rfl hs t ht 0 2 hid hno with hd | ⟨order, entry, he, hmem, hown⟩
  · cases hd
  · cases he
    rw [List.mem_singleton.1 hmem, hctx] at hown
    exact absurd hown (by decide)

/-! ## The pool is the set of the workers that are up -/

/-- The pool contains exactly the workers that are up, each under one node ID, the
    one that its live Entry records. -/
def PoolExact (s : LkpServer) : Prop :=
  (∀ id c, s.clientPool.getConn id = some c → (s.conns c).isUp = true ∧ (s.conns c).peerIp ≠ "127.0.0.1" ∧
    (s.conns c).context = some ⟨c, id⟩ ∧ s.entryAlive ⟨c, id⟩ = true) ∧
  ∀ c, (s.conns c).isUp = true → (s.conns c).peerIp ≠ "127.0.0.1" → ∃! id, s.clientPool.getConn id = some c

/-- Connections come and go and workers heartbeat, in time: no tick drops the Entry
    of a connection that is up. -/
def InTime (s : LkpServer) : ServerEvent → Prop
  | .up _ _ | .down _ | .message _ (.heartBeat _) _ => True
  | .timer order => ∀ entry ∈ order, (s.conns entry.weakConn).isUp = false
  | _ => False

instance (s : LkpServer) (e : ServerEvent) : Decidable (InTime s e) :=
  match e with
  | .up _ _ | .down _ | .message _ (.heartBeat _) _ => inferInstanceAs (Decidable True)
  | .timer order => inferInstanceAs (Decidable (∀ entry ∈ order, _))
  | .message _ (.command _) _ | .message _ (.file _) _ | .message _ (.commandACK _) _
  | .message _ (.pushACK _) _ | .message _ (.ret _) _ | .written _ | .writeComplete _ _ =>
    inferInstanceAs (Decidable False)

/-- The tables change through messages other than heartbeats only. -/
theorem inTables_step (hH : InTime s e) (hs : s.step e = some t) (d : ConnId) :
    t.inTables d = s.inTables d := by
  refine inTables_of_transfers (transfers_step hs ?_) d
  cases e with
  | message c m env =>
    cases m with
    | heartBeat m => rfl
    | _ => exact hH.elim
  | written c | writeComplete c stack => exact hH.elim
  | _ => rfl

/-- The Entry of every worker that is up is in the wheel. -/
def WorkersLive (m : Members) : Prop :=
  ∀ c, m.phase c = .up → m.peerIp c ≠ "127.0.0.1" → ∃ entry, m.context c = some entry ∧ m.Live entry

/-- A connection from the local host is no worker. -/
theorem WorkersLive.connect {m : Members} (h : WorkersLive m) (c : ConnId) :
    WorkersLive (m.connect c "127.0.0.1") := by
  intro d hup hip
  have hd : d ≠ c := by
    rintro rfl
    exact hip Members.connect_peerIp_self
  rw [Members.connect_phase_of_ne hd] at hup
  rw [Members.connect_peerIp_of_ne hd] at hip
  exact h d hup hip

theorem WorkersLive.join {m : Members} (h : WorkersLive m) {c : ConnId} {ip : String} {back : Finset Entry}
    {rest : List (Finset Entry)} (hb : m.buckets = back :: rest) :
    WorkersLive ((m.connect c ip).join c back rest) := by
  intro d hup hip
  by_cases hd : d = c
  · subst hd
    exact ⟨_, Members.join_context_self, (Members.live_insert hb _).2 (.inl rfl)⟩
  · rw [Members.join_phase, Members.connect_phase_of_ne hd] at hup
    rw [Members.join_peerIp, Members.connect_peerIp_of_ne hd] at hip
    obtain ⟨entry, hc, hl⟩ := h d hup hip
    exact ⟨entry, (Members.join_context_of_ne hd).trans hc, (Members.live_insert hb _).2 (.inr hl)⟩

theorem WorkersLive.disconnect {m : Members} (h : WorkersLive m) (c : ConnId) :
    WorkersLive (m.disconnect c) := by
  intro d hup hip
  exact h d (Members.up_of_disconnect hup).2 hip

theorem workersLive_step (h : s.members.Base) (hw : WorkersLive s.members) (hs : s.step e = some t)
    (hH : ∀ order, e = .timer order → ∀ entry ∈ order, (s.conns entry.weakConn).isUp = false) :
    WorkersLive t.members := by
  cases step_move hs with
  | quiet _ _ _ hm => rw [hm]; exact hw
  | heartBeat _ _ _ hb hm =>
    rw [hm]
    intro c hup hip
    obtain ⟨entry, hc, hl⟩ := hw c hup hip
    exact ⟨entry, hc, (Members.live_insert hb entry).2 (.inr hl)⟩
  | cliUp _ _ hm => rw [hm]; exact hw.connect _
  | cliRefused _ _ hm => rw [hm]; exact hw.connect _
  | workerUp _ _ hb hm => rw [hm]; exact hw.join hb
  | sessionDown _ _ hm => rw [hm]; exact hw.disconnect _
  | workerDown _ _ _ _ hm => rw [hm]; exact hw.disconnect _
  | @timer order _ ho =>
    obtain ⟨pool, hm, -⟩ := members_onTimer s order
    rw [hm]
    intro d hup hip
    obtain ⟨entry, hc, hl⟩ := hw d hup hip
    refine ⟨entry, hc, live_pushBucket.2 ⟨hl, ?_⟩⟩
    intro hex
    have hdown := hH order rfl entry (List.mem_toFinset.1 (ho ▸ hex))
    rw [(h.own d entry hc).1, ← Bool.not_eq_true, isUp_iff] at hdown
    exact hdown hup

/-- What lasts while no worker goes down during a CLI session. -/
structure Exact (s : LkpServer) : Prop where
  held : Held s.members
  workers : WorkersLive s.members
  tables : ∀ c, s.inTables c = false

theorem Exact.poolExact (h : Exact s) : PoolExact s := by
  have hb := h.held.toBase
  constructor
  · intro id c hid
    have hctx := hb.known id c hid
    have hup := h.held.up id c hid
    have hip := (hb.own c _ hctx).2
    obtain ⟨entry, hc, hl⟩ := h.workers c hup hip
    cases hctx.symm.trans hc
    exact ⟨(isUp_iff _).2 hup, hip, hctx, entryAlive_iff.2 hl⟩
  · intro c hup hip
    have hup := (isUp_iff _).1 hup
    obtain ⟨entry, hc, hl⟩ := h.workers c hup hip
    have hown := (hb.own c entry hc).1
    have hheld := h.held.held entry hl (by rw [hown]; exact hup)
    rw [hown] at hheld
    exact ⟨entry.nodeID, hheld, fun id hid => hb.inj hid hheld⟩

theorem Exact.step (h : Exact s) (hH : InTime s e) (hQ : NoSessionAtDown s e) (hs : s.step e = some t) :
    Exact t := by
  have hstale : NoStaleExpiry s e := by
    cases e with
    | timer order =>
      intro entry _ _ htab
      rw [h.tables] at htab; cases htab
    | _ => trivial
  refine ⟨held_step h.held hQ ((takenFromHolder_iff h.held hs).2 hstale) hs,
    workersLive_step h.held.toBase h.workers hs ?_, fun c => by rw [inTables_step hH hs, h.tables]⟩
  rintro order rfl
  exact hH

/-- **The pool is the set of the workers that are up** in every state of a run iff
    no worker goes down during a CLI session. -/
theorem poolExact_iff {root : String} {serverTimeControl : ℕ} {es : List ServerEvent}
    (h : Runs step (start root serverTimeControl) es t)
    (hH : EachStep step (start root serverTimeControl) es InTime) :
    EachState step (start root serverTimeControl) es PoolExact ↔
      EachStep step (start root serverTimeControl) es NoSessionAtDown := by
  refine h.eachState_iff (I := Exact) ⟨held_start root serverTimeControl, nofun, fun _ => rfl⟩ hH
    (fun _ => Exact.poolExact) (fun _ _ _ hu hHe hQ hv => hu.step hHe hQ hv) ?_
  intro u e v hu hHe hv hexact hdown
  cases e with
  | down c =>
    by_contra hflag
    cases step_move hv with
    | quiet _ hd _ _ => exact hd c rfl
    | sessionDown hup _ hm =>
      obtain ⟨id, hid, -⟩ := hu.poolExact.2 c ((isUp_iff _).2 hup) hdown
      have hgone : (v.conns c).isUp = true := by
        refine (hexact.1 id c ?_).1
        rw [← pool_getConn, hm]; exact hid
      rw [isUp_iff, show (v.conns c).state.phase = v.members.phase c from rfl, hm] at hgone
      simp at hgone
    | workerDown _ hf _ _ _ => exact hflag hf
  | _ => exact hdown.elim

/-- A worker leaves after the CLI session that it saw. -/
theorem poolExact_session : EachState step (start "/lkp" 3)
    [.up 1 "10.0.0.1", .up 9 "127.0.0.1", .timer [], .down 9, .down 1] PoolExact := by
  obtain ⟨t, ht, -⟩ : ∃ t, Runs step (start "/lkp" 3)
      [.up 1 "10.0.0.1", .up 9 "127.0.0.1", .timer [], .down 9, .down 1] t ∧ True :=
    Runs.exists_of_run (by decide +kernel)
  exact (poolExact_iff ht (.of_checkSteps (by decide +kernel))).2 (.of_checkSteps (by decide +kernel))

/-- A worker leaves during a CLI session and stays in the pool. -/
theorem poolExact_leaver : ¬ ∀ (root : String) (serverTimeControl : ℕ) (es : List ServerEvent)
    (t : LkpServer),
    Runs step (start root serverTimeControl) es t → EachStep step (start root serverTimeControl) es InTime →
    EachState step (start root serverTimeControl) es PoolExact := by
  intro h
  obtain ⟨t, ht, hid, hup⟩ : ∃ t, Runs step (start "/lkp" 3) [.up 1 "10.0.0.1", .up 9 "127.0.0.1", .down 1] t ∧
      t.clientPool.getConn 0 = some 1 ∧ (t.conns 1).isUp = false :=
    Runs.exists_of_run (by decide +kernel)
  have hexact := h _ _ _ _ ht (.of_checkSteps (by decide +kernel)) _ [] t (by rw [List.append_nil]) ht
  rw [(hexact.1 0 1 hid).1] at hup
  cases hup

/-! ## The DOWN handler -/

/-- The DOWN event of the connection can be handled: it is the registered CLI session,
    or its context holds an Entry that exists. -/
def DownOK (s : LkpServer) (c : ConnId) : Prop :=
  (s.hasCmdConnected = true ∧ s.CmdConnection = some c) ∨
    ∃ entry, (s.conns c).context = some entry ∧ s.entryAlive entry = true

/-- The DOWN event of every connection that is up can be handled. -/
def AllDownOK (s : LkpServer) : Prop := ∀ c, (s.conns c).isUp = true → DownOK s c

/-- No CLI connects and no worker goes down during a CLI session, and no tick drops
    the Entry of a connection that is up. -/
def Orderly (s : LkpServer) : ServerEvent → Prop
  | .up _ peerIp => peerIp = "127.0.0.1" → s.hasCmdConnected = false
  | .down c => (s.conns c).peerIp ≠ "127.0.0.1" → s.hasCmdConnected = false
  | .timer order => ∀ entry ∈ order, (s.conns entry.weakConn).isUp = false
  | _ => True

instance (s : LkpServer) (e : ServerEvent) : Decidable (Orderly s e) :=
  match e with
  | .up _ _ => inferInstanceAs (Decidable (_ → _))
  | .down _ => inferInstanceAs (Decidable (_ → _))
  | .timer order => inferInstanceAs (Decidable (∀ entry ∈ order, _))
  | .message _ _ _ | .written _ | .writeComplete _ _ => inferInstanceAs (Decidable True)

/-- No CLI connects and no worker goes down during a CLI session. -/
def NoIntrusion (s : LkpServer) : ServerEvent → Prop
  | .up _ peerIp => peerIp = "127.0.0.1" → s.hasCmdConnected = false
  | .down c => (s.conns c).peerIp ≠ "127.0.0.1" → s.hasCmdConnected = false
  | _ => True

instance (s : LkpServer) (e : ServerEvent) : Decidable (NoIntrusion s e) :=
  match e with
  | .up _ _ => inferInstanceAs (Decidable (_ → _))
  | .down _ => inferInstanceAs (Decidable (_ → _))
  | .timer _ | .message _ _ _ | .written _ | .writeComplete _ _ => inferInstanceAs (Decidable True)

theorem Orderly.noIntrusion (h : Orderly s e) : NoIntrusion s e := by
  cases e with
  | timer order => trivial
  | _ => exact h

/-- The connection from the local host that is up is the registered CLI session. -/
structure OneSession (m : Members) : Prop extends m.Base where
  registered : m.flag = true → ∃ c, m.cmd = some c ∧ m.phase c = .up ∧ m.peerIp c = "127.0.0.1"
  only : ∀ c, m.phase c = .up → m.peerIp c = "127.0.0.1" → m.flag = true ∧ m.cmd = some c

theorem OneSession.step (h : OneSession s.members) (hQ : NoIntrusion s e) (hs : s.step e = some t) :
    OneSession t.members := by
  have hbase := base_step h.toBase hs
  cases step_move hs with
  | quiet _ _ _ hm => rw [hm]; exact h
  | heartBeat _ _ _ _ hm =>
    rw [hm] at hbase ⊢
    exact ⟨hbase, h.registered, h.only⟩
  | @cliUp c _ hw hf hm =>
    rw [hm] at hbase ⊢
    refine ⟨hbase, ?_, ?_⟩
    · intro _
      exact ⟨c, rfl, Function.update_self .., Function.update_self ..⟩
    · intro d hup hip
      by_cases hd : d = c
      · subst hd; exact ⟨rfl, rfl⟩
      · change (s.members.connect c "127.0.0.1").phase d = .up at hup
        change (s.members.connect c "127.0.0.1").peerIp d = "127.0.0.1" at hip
        rw [Members.connect_phase_of_ne hd] at hup
        rw [Members.connect_peerIp_of_ne hd] at hip
        rw [(h.only d hup hip).1] at hf; cases hf
  | cliRefused _ hf _ =>
    have := hQ rfl
    rw [show s.hasCmdConnected = true from hf] at this; cases this
  | @workerUp c ip _ back rest hw hip hb hm =>
    rw [hm] at hbase ⊢
    have hne : ∀ d, s.members.phase d = .up → d ≠ c := by
      rintro d hup rfl
      rw [hw] at hup; cases hup
    refine ⟨hbase, ?_, ?_⟩
    · intro hf
      obtain ⟨d, hd, hup, hlocal⟩ := h.registered hf
      refine ⟨d, hd, ?_, ?_⟩
      · rw [Members.join_phase, Members.connect_phase_of_ne (hne d hup)]
        exact hup
      · rw [Members.join_peerIp, Members.connect_peerIp_of_ne (hne d hup)]
        exact hlocal
    · intro d hup hipd
      rw [Members.join_phase] at hup
      rw [Members.join_peerIp] at hipd
      have hd : d ≠ c := by
        rintro rfl
        rw [Members.connect_peerIp_self] at hipd
        exact hip hipd
      rw [Members.connect_phase_of_ne hd] at hup
      rw [Members.connect_peerIp_of_ne hd] at hipd
      exact h.only d hup hipd
  | @sessionDown c _ hup hf hm =>
    rw [hm] at hbase ⊢
    have hlocal : s.members.peerIp c = "127.0.0.1" := by
      by_contra hne
      have := hQ hne
      rw [show s.hasCmdConnected = true from hf] at this; cases this
    refine ⟨hbase, nofun, ?_⟩
    intro d hupd hip
    obtain ⟨hd, hupd⟩ := Members.up_of_disconnect hupd
    have := (h.only c hup hlocal).2.symm.trans (h.only d hupd hip).2
    exact absurd (Option.some.inj this).symm hd
  | @workerDown c _ own hup hf hc hl hm =>
    rw [hm] at hbase ⊢
    refine ⟨hbase, ?_, ?_⟩
    · intro hf'
      rw [show s.members.flag = true from hf'] at hf; cases hf
    · intro d hupd hip
      rw [Members.del_phase] at hupd
      exact h.only d (Members.up_of_disconnect hupd).2 hip
  | timer _ _ =>
    obtain ⟨pool, hm, -⟩ := members_onTimer s _
    rw [hm] at hbase ⊢
    exact ⟨hbase, h.registered, h.only⟩

/-- The CLI session is the registered one, and every worker that is up has its Entry. -/
structure Sessions (m : Members) : Prop extends m.Base where
  workers : WorkersLive m
  registered : m.flag = true → ∃ c, m.cmd = some c ∧ m.phase c = .up ∧ m.peerIp c = "127.0.0.1"
  only : ∀ c, m.phase c = .up → m.peerIp c = "127.0.0.1" → m.flag = true ∧ m.cmd = some c

theorem Sessions.oneSession {m : Members} (h : Sessions m) : OneSession m :=
  ⟨h.toBase, h.registered, h.only⟩

theorem Sessions.allDownOK (h : Sessions s.members) : AllDownOK s := by
  intro c hup
  by_cases hip : (s.conns c).peerIp = "127.0.0.1"
  · exact .inl (h.only c ((isUp_iff _).1 hup) hip)
  · obtain ⟨entry, hc, hl⟩ := h.workers c ((isUp_iff _).1 hup) hip
    exact .inr ⟨entry, hc, entryAlive_iff.2 hl⟩

theorem Sessions.step (h : Sessions s.members) (hQ : Orderly s e) (hs : s.step e = some t) :
    Sessions t.members := by
  have hworkers := workersLive_step h.toBase h.workers hs (by rintro order rfl; exact hQ)
  obtain ⟨hbase, hregistered, honly⟩ := h.oneSession.step hQ.noIntrusion hs
  exact ⟨hbase, hworkers, hregistered, honly⟩

theorem sessions_start (root : String) (serverTimeControl : ℕ) :
    Sessions (start root serverTimeControl).members where
  toBase := base_start root serverTimeControl
  workers := nofun
  registered := nofun
  only := nofun

/-- After a step that is not orderly some connection that is up cannot go down. -/
theorem orderly_of_allDownOK (h : Sessions s.members) (hs : s.step e = some t) (hok : AllDownOK t) :
    Orderly s e := by
  have hnone : ∀ c, t.members.phase c = .up → (t.members.flag = true → t.members.cmd ≠ some c) →
      (∀ entry, t.members.context c = some entry → ¬ t.members.Live entry) → False := by
    intro c hup hcmd hlive
    rcases hok c ((isUp_iff _).2 hup) with ⟨hf, hc⟩ | ⟨entry, hctx, hl⟩
    · exact hcmd hf hc
    · exact hlive entry hctx (entryAlive_iff.1 hl)
  cases step_move hs with
  | quiet hu hd ht _ =>
    cases e with
    | up c ip => exact absurd rfl (hu c ip)
    | down c => exact absurd rfl (hd c)
    | timer order => exact absurd rfl (ht order)
    | _ => trivial
  | heartBeat _ _ _ _ _ => trivial
  | cliUp _ hf _ => exact fun _ => hf
  | @cliRefused c _ hw hf hm =>
    -- the new connection is up, not registered, and without an Entry
    refine (hnone c ?_ ?_ ?_).elim
    · rw [hm]; exact Members.connect_phase_self
    · rw [hm]
      rintro - hcmd
      obtain ⟨d, hd, hup, -⟩ := h.registered hf
      rw [show s.members.cmd = some c from hcmd] at hd
      cases hd
      rw [hw] at hup; cases hup
    · rw [hm]
      intro entry hctx
      rw [Members.connect_context, h.fresh c hw] at hctx
      cases hctx
  | workerUp _ hip _ _ => exact fun hlocal => absurd hlocal hip
  | @sessionDown c _ hup hf hm =>
    intro hip
    -- the CLI that is registered is up and will not be taken for a session
    obtain ⟨d, hd, hupd, hlocal⟩ := h.registered hf
    have hne : d ≠ c := by rintro rfl; exact hip hlocal
    refine (hnone d ?_ ?_ ?_).elim
    · rw [hm]; exact (Members.disconnect_phase_of_ne hne).trans hupd
    · rw [hm]; nofun
    · rw [hm]
      exact fun entry hctx => absurd hlocal (h.own d entry hctx).2
  | workerDown _ hf _ _ _ => exact fun _ => hf
  | @timer order _ ho =>
    intro entry hmem
    obtain ⟨hl, hnex⟩ := mem_expiring.1 (ho ▸ List.mem_toFinset.2 hmem)
    have hctx := h.live entry hl
    have hip := (h.own _ entry hctx).2
    obtain ⟨pool, hm, -⟩ := members_onTimer s order
    by_contra hup
    rw [Bool.not_eq_false, isUp_iff] at hup
    refine hnone entry.weakConn ?_ ?_ ?_
    · rw [hm]; exact hup
    · rw [hm]
      intro hf hcmd
      obtain ⟨d, hd, -, hlocal⟩ := h.registered hf
      rw [show s.members.cmd = some entry.weakConn from hcmd] at hd
      cases hd
      exact hip hlocal
    · rw [hm]
      intro entry' hctx' hl'
      have : entry' = entry := Option.some.inj (hctx'.symm.trans hctx)
      subst this
      exact (live_pushBucket.1 hl').2 (ho ▸ List.mem_toFinset.2 hmem)

/-- **The DOWN event of every connection that is up can be handled** in every state of
    a run iff the run is orderly. -/
theorem downOK_iff {root : String} {serverTimeControl : ℕ} {es : List ServerEvent}
    (h : Runs step (start root serverTimeControl) es t) :
    EachState step (start root serverTimeControl) es AllDownOK ↔
      EachStep step (start root serverTimeControl) es Orderly :=
  h.eachState_iff (I := fun s => Sessions s.members) (H := fun _ _ => True)
    (sessions_start root serverTimeControl) (fun _ _ _ _ _ _ => trivial) (fun _ hu => hu.allDownOK)
    (fun _ _ _ hu _ hQ hv => hu.step hQ hv) (fun _ _ _ hu _ hv hok => orderly_of_allDownOK hu hv hok)

/-- A worker and a CLI come and go. -/
theorem downOK_session : EachState step (start "/lkp" 3)
    [.up 1 "10.0.0.1", .up 9 "127.0.0.1", .timer [], .down 9, .down 1] AllDownOK := by
  obtain ⟨t, ht, -⟩ : ∃ t, Runs step (start "/lkp" 3)
      [.up 1 "10.0.0.1", .up 9 "127.0.0.1", .timer [], .down 9, .down 1] t ∧ True :=
    Runs.exists_of_run (by decide +kernel)
  exact (downOK_iff ht).2 (.of_checkSteps (by decide +kernel))

/-- The Entry of a worker expires, the worker is shut down, and its DOWN event finds no
    Entry. -/
theorem downOK_expired : ¬ ∀ (root : String) (serverTimeControl : ℕ) (es : List ServerEvent) (t : LkpServer),
    Runs step (start root serverTimeControl) es t →
    EachState step (start root serverTimeControl) es AllDownOK := by
  intro h
  obtain ⟨t, ht, hup, hf, hctx, hdead⟩ : ∃ t, Runs step (start "/lkp" 1) [.up 1 "10.0.0.1", .timer [⟨1, 0⟩]] t ∧
      (t.conns 1).isUp = true ∧ t.hasCmdConnected = false ∧ (t.conns 1).context = some ⟨1, 0⟩ ∧
        t.entryAlive ⟨1, 0⟩ = false :=
    Runs.exists_of_run (by decide +kernel)
  rcases h _ _ _ _ ht _ [] t (by rw [List.append_nil]) ht 1 hup with ⟨hflag, -⟩ | ⟨entry, hentry, hlive⟩
  · rw [hf] at hflag; cases hflag
  · cases hctx.symm.trans hentry
    rw [hdead] at hlive; cases hlive

end LkpServer

end LkpExtent
