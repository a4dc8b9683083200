/-
  LkpExtent formalization — when the Entry of a worker expires.

  * `Refreshes`: an event puts the Entry into the newest bucket, because its worker
    connects, or sends a heartbeat while the Entry is alive;
  * `wheel_step`: what a step does to the buckets;
  * `wheel_exact`: the Entry expires at the `ServerTimeControl`-th tick after the last
    of these events, its connection is then shut down and its ID is free, and it never
    comes back.
-/
import LkpExtent.Lib.Wheel
import LkpExtent.Members

namespace LkpExtent

open Lib

/-- The number of ticks. -/
def ticks (es : List ServerEvent) : ℕ := es.countP fun
  | .timer _ => true
  | _ => false

theorem ticks_snoc (es : List ServerEvent) (e : ServerEvent) : ticks (es ++ [e]) = ticks es + ticks [e] :=
  List.countP_append

namespace LkpServer
variable {s t u : LkpServer} {e : ServerEvent} {es : List ServerEvent} {entry : Entry}

/-- The event puts the Entry into the newest bucket. -/
def Refreshes (entry : Entry) (s : LkpServer) : ServerEvent → Prop
  | .up c ip => ip ≠ "127.0.0.1" ∧ entry = ⟨c, (s.clientPool.add c).1⟩
  | .message c (.heartBeat _) _ => (s.conns c).context = some entry ∧ s.entryAlive entry = true
  | _ => False

/-- `es` is what has happened since the Entry was put into the newest bucket. -/
def SinceRefresh (s₀ : LkpServer) (all : List ServerEvent) (entry : Entry) (es : List ServerEvent) : Prop :=
  ∃ es₀ e s t, all = es₀ ++ e :: es ∧ Runs step s₀ es₀ s ∧ Refreshes entry s e ∧ s.step e = some t ∧
    EachStep step t es fun u e => ¬ Refreshes entry u e

/-! ## The buckets -/

/-- The server's buckets are a wheel. -/
def wheel (s : LkpServer) : Wheel Entry := s.connectionBuckets

theorem holds_iff : s.wheel.Holds entry ↔ s.entryAlive entry = true := entryAlive_iff.symm

theorem last_iff : s.wheel.Last entry ↔ entry ∈ s.expiring := mem_expiring.symm

theorem wheel_onTimer (order : List Entry) : (s.onTimer order).wheel = s.wheel.turn := by
  obtain ⟨pool, hm, -⟩ := members_onTimer s order
  have hbuckets : (s.onTimer order).connectionBuckets = s.pushBucket.connectionBuckets :=
    congrArg Members.buckets hm
  rw [wheel, hbuckets, pushBucket, wheel]
  cases s.connectionBuckets <;> rfl

/-- What a step does to the wheel. -/
inductive WheelMove (s : LkpServer) : ServerEvent → LkpServer → Prop
  | keeps {e : ServerEvent} {t : LkpServer} (hno : ∀ entry, ¬ Refreshes entry s e) (ht : ticks [e] = 0)
      (h : t.wheel = s.wheel) : WheelMove s e t
  | puts {e : ServerEvent} {t : LkpServer} (entry : Entry) (hr : Refreshes entry s e)
      (hone : ∀ entry', Refreshes entry' s e → entry' = entry) (ht : ticks [e] = 0)
      (h : t.wheel = s.wheel.put entry) : WheelMove s e t
  | turns {order : List Entry} {t : LkpServer} (h : t.wheel = s.wheel.turn) : WheelMove s (.timer order) t

theorem wheel_of_members (h : t.members.buckets = s.members.buckets) : t.wheel = s.wheel := h

theorem wheel_heartBeat {c : ConnId} {m : HeartBeat} {env : Env} (h : s.onHeartBeat c = .ok t) :
    WheelMove s (.message c (.heartBeat m) env) t := by
  simp only [onHeartBeat] at h
  split at h
  · cases h
  · rename_i entry hc
    split_ifs at h with hl
    · obtain ⟨back, rest, hb, rfl⟩ := insertEntry_ok h
      refine .puts entry ⟨hc, hl⟩ ?_ rfl ?_
      · rintro entry' ⟨hc', -⟩
        exact Option.some.inj (hc'.symm.trans hc)
      · simp only [wheel, hb, Wheel.put]
    · cases h
      refine .keeps ?_ rfl rfl
      rintro entry' ⟨hc', hl'⟩
      rw [hc] at hc'
      cases hc'
      exact hl hl'

theorem not_refreshes_local {c : ConnId} : ¬ Refreshes entry s (.up c "127.0.0.1") := fun h => h.1 rfl

/-- **Every step keeps the wheel, puts an Entry into it, or turns it.** -/
theorem wheel_step (hs : s.step e = some t) : WheelMove s e t := by
  cases step_move hs with
  | quiet hu hd ht hm =>
    cases e with
    | up c ip => exact absurd rfl (hu c ip)
    | down c => exact absurd rfl (hd c)
    | timer order => exact absurd rfl (ht order)
    | message c m env =>
      cases m with
      | heartBeat m => exact wheel_heartBeat (step_eq_some.1 hs).2
      | _ => exact .keeps (fun _ => not_false) rfl (wheel_of_members (by rw [hm]))
    | _ => exact .keeps (fun _ => not_false) rfl (wheel_of_members (by rw [hm]))
  | heartBeat _ _ _ _ _ => exact wheel_heartBeat (step_eq_some.1 hs).2
  | cliUp _ _ hm => exact .keeps (fun _ => not_refreshes_local) rfl (wheel_of_members (by rw [hm]; rfl))
  | cliRefused _ _ hm => exact .keeps (fun _ => not_refreshes_local) rfl (wheel_of_members (by rw [hm]; rfl))
  | @workerUp c ip _ back rest hw hip hb hm =>
    refine .puts ⟨c, (s.clientPool.add c).1⟩ ⟨hip, rfl⟩ (fun _ h => h.2) rfl ?_
    have hpool : s.members.pool = s.clientPool.clearInfo := rfl
    have hbuckets : t.wheel = insert ⟨c, (s.members.pool.add c).1⟩ back :: rest :=
      congrArg Members.buckets hm
    have hold : s.wheel = back :: rest := hb
    rw [hbuckets, hold, hpool, LkpClientPool.add_clearInfo]
    rfl
  | sessionDown _ _ hm => exact .keeps (fun _ => not_false) rfl (wheel_of_members (by rw [hm]; rfl))
  | workerDown _ _ _ _ hm => exact .keeps (fun _ => not_false) rfl (wheel_of_members (by rw [hm]; rfl))
  | timer _ _ => exact .turns (wheel_onTimer _)

theorem length_wheel {root : String} {serverTimeControl : ℕ}
    (h : Runs step (start root serverTimeControl) es s) : s.wheel.length = serverTimeControl := by
  refine h.inv' (I := fun s => s.wheel.length = serverTimeControl) List.length_replicate ?_
  intro u e v hu hv
  cases wheel_step hv with
  | keeps _ _ hw => rw [hw]; exact hu
  | puts entry _ _ _ hw => rw [hw, Wheel.length_put]; exact hu
  | turns hw => rw [hw, Wheel.length_turn]; exact hu

/-- **The age of an Entry is the number of ticks since it was refreshed.** -/
theorem aged_of_runs (hs : s.step e = some t) (hr : Refreshes entry s e) (h : Runs step t es u)
    (hlast : EachStep step t es fun u e => ¬ Refreshes entry u e) : u.wheel.Aged entry (ticks es) := by
  induction h with
  | nil =>
    cases wheel_step hs with
    | keeps hno _ _ => exact absurd hr (hno entry)
    | puts entry' _ hone _ hw =>
      rw [hw, hone entry hr]
      exact Wheel.aged_put _ _
    | turns _ => exact hr.elim
  | @snoc es v u e' hv he ih =>
    obtain ⟨hlast, hno⟩ := EachStep.snoc_iff.1 hlast
    have hage := ih hlast
    rw [ticks_snoc]
    cases wheel_step he with
    | keeps _ ht hw => rw [hw, ht]; exact hage
    | puts entry' hr' _ ht hw =>
      rw [hw, ht]
      refine hage.put ?_
      rintro rfl
      exact hno v hv hr'
    | turns hw => rw [hw]; exact hage.turn

/-! ## An Entry that has expired -/

/-- An Entry that has been dropped is not refreshed any more. -/
theorem not_refreshes_of_dead (hs : s.step e = some t) (hw : s.members.phase entry.weakConn ≠ .waiting)
    (hdead : s.entryAlive entry = false) : ¬ Refreshes entry s e := by
  cases e with
  | up c ip =>
    rintro ⟨-, rfl⟩
    have hwait := (step_eq_some.1 hs).1
    simp only [enabled, decide_eq_true_eq] at hwait
    exact hw (by simp [members, hwait, ConnState.phase])
  | message c m env =>
    cases m with
    | heartBeat m =>
      rintro ⟨-, hl⟩
      rw [hdead] at hl
      cases hl
    | _ => exact not_false
  | _ => exact not_false

/-- **An Entry that has been dropped never comes back.** -/
theorem dead_of_runs (h : Runs step s es t) (hw : s.members.phase entry.weakConn ≠ .waiting)
    (hdead : s.entryAlive entry = false) : t.entryAlive entry = false := by
  refine (h.inv' (I := fun s => s.members.phase entry.weakConn ≠ .waiting ∧ s.entryAlive entry = false)
    ⟨hw, hdead⟩ ?_).2
  rintro u e v ⟨hw, hdead⟩ hv
  refine ⟨not_waiting_step hv hw, ?_⟩
  have hgone : ¬ u.wheel.Holds entry := by rw [holds_iff, hdead]; exact Bool.false_ne_true
  rw [← Bool.not_eq_true, ← holds_iff]
  cases wheel_step hv with
  | keeps _ _ hwheel => rw [hwheel]; exact hgone
  | puts entry' hr _ _ hwheel =>
    rw [hwheel]
    intro hnew
    rcases Wheel.holds_put hnew with rfl | hold
    · exact not_refreshes_of_dead hv hw hdead hr
    · exact hgone hold
  | turns hwheel =>
    rw [hwheel]
    exact fun hnew => hgone (Wheel.holds_turn hnew)

/-! ## The tick that drops an Entry -/

/-- A connection that is not up any more for new messages, and an ID that is free. -/
def ShutDown (s : LkpServer) (entry : Entry) : Prop :=
  (s.conns entry.weakConn).state = .kDisconnecting ∧ s.clientPool.getConn entry.nodeID = none

theorem conns_destroy (entry : Entry) (c : ConnId) : ((s.destroy entry).conns c).state =
    if s.connAlive entry.weakConn ∧ c = entry.weakConn then (s.conns c).shutdown.state
    else (s.conns c).state := by
  simp only [destroy]
  by_cases ha : s.connAlive entry.weakConn = true
  · rw [if_pos ha]
    by_cases hc : c = entry.weakConn
    · subst hc
      rw [if_pos ⟨ha, rfl⟩]
      show ((s.setConn entry.weakConn _).conns entry.weakConn).state = _
      rw [setConn_conns]
    · rw [if_neg (fun h => hc h.2)]
      show ((s.setConn entry.weakConn _).conns c).state = _
      rw [setConn_conns_of_ne hc]
  · rw [if_neg ha, if_neg (fun h => ha h.1)]

theorem shutdown_of_isUp {γ : Type} {c : TcpConnection γ} (h : c.isUp = true) :
    c.shutdown.state = .kDisconnecting := by
  simp only [TcpConnection.isUp, TcpConnection.shutdown, decide_eq_true_eq] at h ⊢
  split_ifs with hc
  · rfl
  · exact h.resolve_left hc

theorem shutDown_self (hup : (s.conns entry.weakConn).isUp = true) : (s.destroy entry).ShutDown entry := by
  have ha : s.connAlive entry.weakConn = true := by
    rw [connAlive, hup]; rfl
  refine ⟨?_, ?_⟩
  · rw [conns_destroy, if_pos ⟨ha, rfl⟩, shutdown_of_isUp hup]
  · simp only [destroy]
    rw [if_pos ha]
    show (s.clientPool.del entry.nodeID).2.getConn entry.nodeID = none
    rw [LkpClientPool.del_getConn, Function.update_self]

theorem ShutDown.destroy (h : s.ShutDown entry) (other : Entry) : (s.destroy other).ShutDown entry := by
  obtain ⟨hstate, hid⟩ := h
  refine ⟨?_, ?_⟩
  · rw [conns_destroy]
    split_ifs
    · rw [TcpConnection.shutdown, if_neg (by rw [hstate]; simp)]
      exact hstate
    · exact hstate
  · simp only [LkpServer.destroy]
    split_ifs
    · show (s.clientPool.del other.nodeID).2.getConn entry.nodeID = none
      rw [LkpClientPool.del_getConn]
      by_cases hne : entry.nodeID = other.nodeID
      · rw [hne, Function.update_self]
      · rw [Function.update_of_ne hne, hid]
    · exact hid

theorem shutDown_foldl {order : List Entry} (hmem : entry ∈ order)
    (hup : (s.conns entry.weakConn).isUp = true) : (order.foldl LkpServer.destroy s).ShutDown entry := by
  have hkeep : ∀ (order : List Entry) (u : LkpServer), u.ShutDown entry →
      (order.foldl LkpServer.destroy u).ShutDown entry := by
    intro order
    induction order with
    | nil => exact fun u hu => hu
    | cons other order ih => exact fun u hu => ih _ (hu.destroy other)
  induction order generalizing s with
  | nil => cases hmem
  | cons other order ih =>
    rw [List.foldl_cons]
    rcases List.mem_cons.1 hmem with rfl | hmem
    · exact hkeep order _ (shutDown_self hup)
    · refine ih hmem ?_
      have hphase : (s.destroy other).members.phase = s.members.phase := by
        rw [members_destroy]; split_ifs <;> rfl
      rw [isUp_iff] at hup ⊢
      exact (congrFun hphase entry.weakConn).trans hup

/-! ## The life of an Entry -/

/-- The Entry of a worker has been refreshed at least once, when the worker connected. -/
theorem exists_sinceRefresh {root : String} {serverTimeControl : ℕ} {c : ConnId}
    (h : Runs step (start root serverTimeControl) es u) (hc : (u.conns c).context = some entry) :
    ∃ since, SinceRefresh (start root serverTimeControl) es entry since := by
  induction h with
  | nil => cases hc
  | @snoc es s t e hs he ih =>
    by_cases hr : Refreshes entry s e
    · exact ⟨[], es, e, s, t, rfl, hs, hr, he, .nil⟩
    have hold : (s.conns c).context = some entry := by
      have hctx : t.members.context c = some entry := hc
      cases step_move he with
      | quiet _ _ _ hm => rw [hm] at hctx; exact hctx
      | heartBeat _ _ _ _ hm => rw [hm] at hctx; exact hctx
      | cliUp _ _ hm => rw [hm] at hctx; exact hctx
      | cliRefused _ _ hm => rw [hm] at hctx; exact hctx
      | @workerUp d ip _ back rest _ hip _ hm =>
        rw [hm] at hctx
        by_cases hd : c = d
        · subst hd
          rw [Members.join_context_self] at hctx
          cases hctx
          refine absurd ⟨hip, ?_⟩ hr
          have hpool : s.members.pool = s.clientPool.clearInfo := rfl
          rw [Members.connect_pool, hpool, LkpClientPool.add_clearInfo]
        · rw [Members.join_context_of_ne hd] at hctx
          exact hctx
      | sessionDown _ _ hm => rw [hm] at hctx; exact hctx
      | workerDown _ _ _ _ hm => rw [hm] at hctx; exact hctx
      | timer _ _ =>
        obtain ⟨pool, hm, -⟩ := members_onTimer s _
        rw [hm] at hctx; exact hctx
    obtain ⟨since, es₀, e₀, s₀, t₀, rfl, hs₀, hr₀, he₀, hlast⟩ := ih hold
    refine ⟨since ++ [e], es₀, e₀, s₀, t₀, by simp, hs₀, hr₀, he₀, ?_⟩
    rw [EachStep.snoc_iff]
    refine ⟨hlast, ?_⟩
    intro v hv
    have hrun : Runs step (start root serverTimeControl) (es₀ ++ e₀ :: since) v := by
      have := (hs₀.snoc he₀).append hv
      rwa [List.append_assoc] at this
    rw [hrun.det hs]
    exact hr

/-- **The time wheel is exact.**  The Entry of a worker is dropped by the
    `ServerTimeControl`-th tick after it was last refreshed and by no other; if its
    connection is still up then, it is shut down and its ID is free; and the Entry never
    comes back. -/
theorem wheel_exact {root : String} {serverTimeControl : ℕ} {c : ConnId}
    (h : Runs step (start root serverTimeControl) es u) (hc : (u.conns c).context = some entry) :
    (∃ since, SinceRefresh (start root serverTimeControl) es entry since) ∧
    ∀ since, SinceRefresh (start root serverTimeControl) es entry since →
      (u.entryAlive entry = true ↔ ticks since < serverTimeControl) ∧
      (∀ order v, u.step (.timer order) = some v →
        (entry ∈ order ↔ ticks since + 1 = serverTimeControl) ∧
        (entry ∈ order → (u.conns c).isUp = true →
          (v.conns c).state = .kDisconnecting ∧ v.clientPool.getConn entry.nodeID = none)) ∧
      (serverTimeControl ≤ ticks since → ∀ later v, Runs step u later v → v.entryAlive entry = false) := by
  have hb := base_of_runs h
  have hlen := length_wheel h
  have hown : entry.weakConn = c := (hb.own c entry hc).1
  refine ⟨exists_sinceRefresh h hc, ?_⟩
  rintro since ⟨es₀, e, s, t, rfl, hs, hr, he, hlast⟩
  have hsince : Runs step t since u := by
    obtain ⟨s', hs', hrest⟩ := h.split
    obtain ⟨t', ht', hrest⟩ := hrest.cons_inv
    rw [← hs.det hs', he] at ht'
    cases ht'
    exact hrest
  have hage := aged_of_runs he hr hsince hlast
  have halive : u.entryAlive entry = true ↔ ticks since < serverTimeControl := by
    rw [← holds_iff, hage.holds_iff, hlen]
  refine ⟨halive, ?_, ?_⟩
  · intro order v hv
    obtain ⟨hen, hhandle⟩ := step_eq_some.1 hv
    cases hhandle
    simp only [enabled, Bool.decide_and, Bool.and_eq_true, decide_eq_true_eq] at hen
    have hmem : entry ∈ order ↔ entry ∈ u.expiring := by rw [← hen.2, List.mem_toFinset]
    refine ⟨?_, ?_⟩
    · rw [hmem, ← last_iff, hage.last_iff, hlen]
    · intro hin hup
      rw [← hown] at hup ⊢
      have hup' : (u.pushBucket.conns entry.weakConn).isUp = true := hup
      exact shutDown_foldl hin hup'
  · intro hle later v hv
    refine dead_of_runs hv ?_ ?_
    · intro hwait
      rw [hown] at hwait
      have hnone := hb.fresh c hwait
      rw [show u.members.context c = some entry from hc] at hnone
      cases hnone
    · rw [← Bool.not_eq_true, halive]
      omega

/-- With two buckets: a worker connects, sends a heartbeat after the first tick, and is
    dropped by the second tick after it. -/
def secondTick : List ServerEvent :=
  [.up 1 "10.0.0.1", .timer [], .message 1 (.heartBeat { status := true }) {}, .timer []]

theorem wheel_exact_secondTick : ∃ u v, Runs step (start "/lkp" 2) secondTick u ∧
    u.step (.timer [⟨1, 0⟩]) = some v ∧ (v.conns 1).state = .kDisconnecting ∧
    v.clientPool.getConn 0 = none := by
  obtain ⟨u, hu, hc, hup, hsome⟩ : ∃ u, Runs step (start "/lkp" 2) secondTick u ∧
      (u.conns 1).context = some ⟨1, 0⟩ ∧ (u.conns 1).isUp = true ∧ (u.step (.timer [⟨1, 0⟩])).isSome = true :=
    Runs.exists_of_run (by decide +kernel)
  obtain ⟨v, hv⟩ := Option.isSome_iff_exists.1 hsome
  obtain ⟨⟨since, hsince⟩, hall⟩ := wheel_exact hu hc
  obtain ⟨-, htick, -⟩ := hall since hsince
  obtain ⟨-, hdown⟩ := htick _ v hv
  exact ⟨u, v, hu, hv, hdown (List.mem_singleton.2 rfl) hup⟩

end LkpServer

end LkpExtent
