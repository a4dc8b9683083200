/-
  LkpExtent formalization — what a command does: whom it is sent to, and the
  gathering that begins.

  * `targets`: the nodes that a command is for, with their IDs;
  * `begun_onCommandMsg`: a gathering begins, of one answer for each target, and the
    command is sent to the targets that are connected;
  * `tally_onCommandMsg`: what the counters are after any command.
-/
import LkpExtent.Answers
import Mathlib.Data.List.TakeWhile

namespace LkpExtent

open Lib

/-- What a target is told of a command other than LIST. -/
def announcement (message : Command) (env : Env) (nodeID : ℤ) : Message :=
  if message.command = .PUSH then .file (LkpServer.pushPatch message env nodeID)
  else .command { message with nodeId := u32 nodeID }

/-- The commands that nodes answer. -/
def CommandID.Answered (command : CommandID) : Prop :=
  command = .UPDATE ∨ command = .RUN ∨ command = .RESULT ∨ command = .PUSH

namespace LkpServer
variable {s t : LkpServer}

/-- The nodes that a command is for. -/
def targets (s : LkpServer) (message : Command) : List (ℤ × ConnId) :=
  if message.sendToAll = false then
    (s.clientPool.getConn (intOfU32 message.nodeId)).toList.map fun c => (intOfU32 message.nodeId, c)
  else s.clientPool.connections.toList

theorem mem_targets {message : Command} {it : ℤ × ConnId} (h : it ∈ s.targets message) :
    s.clientPool.getConn it.1 = some it.2 := by
  simp only [targets] at h
  split_ifs at h
  · rw [List.mem_map] at h
    obtain ⟨c, hc, rfl⟩ := h
    exact Option.mem_toList.1 hc
  · obtain ⟨id, c⟩ := it
    exact s.clientPool.mem_toList.1 h

theorem targets_broadcast {message : Command} (h : message.sendToAll = true) :
    s.targets message = s.clientPool.connections.toList :=
  if_neg (by rw [h]; exact Bool.true_eq_false_eq_False)

/-- The IDs of the targets are distinct. -/
theorem targets_nodup (message : Command) : ((s.targets message).map Prod.fst).Nodup := by
  simp only [targets]
  split_ifs
  · cases s.clientPool.getConn (intOfU32 message.nodeId) <;> simp
  · rw [List.nodup_iff_pairwise_ne, List.pairwise_map]
    exact s.clientPool.connections.distinct_keys_toList.imp fun h => by simpa using h

/-- The connections of the targets are distinct. -/
theorem targets_conns_nodup (hb : s.members.Base) (message : Command) :
    ((s.targets message).map Prod.snd).Nodup := by
  refine List.Nodup.map_on ?_ ((targets_nodup message).of_map _)
  rintro ⟨id, c⟩ hit ⟨id', c'⟩ hit' he
  obtain rfl : c = c' := he
  have hc : s.clientPool.getConn id' = some c := mem_targets hit'
  exact Prod.ext (hb.inj (mem_targets hit) hc) rfl

/-! ## What is sent -/

/-- The messages `ms` have been sent; the counters and the connections are as before. -/
structure Told (s t : LkpServer) (ms : List (ConnId × Message)) : Prop where
  tally : t.tally = s.tally
  sent : t.sent = s.sent ++ ms
  connected : ∀ d, (t.conns d).connected = (s.conns d).connected

theorem Told.refl (s : LkpServer) : Told s s [] := ⟨rfl, (List.append_nil _).symm, fun _ => rfl⟩

theorem Told.trans {u : LkpServer} {ms ms' : List (ConnId × Message)} (h : Told s t ms)
    (h' : Told t u ms') : Told s u (ms ++ ms') :=
  ⟨h'.tally.trans h.tally, by rw [h'.sent, h.sent, List.append_assoc],
    fun d => (h'.connected d).trans (h.connected d)⟩

theorem told_sendToClient (message : Message) (conn : ConnId) : Told s (s.sendToClient message (some conn))
    (if (s.conns conn).connected then [(conn, message)] else []) := by
  show Told s (if (s.conns conn).connected then s.send conn message else s) _
  by_cases hc : (s.conns conn).connected = true
  · rw [if_pos hc, if_pos hc]
    exact ⟨rfl, rfl, connected_send conn message⟩
  · rw [if_neg hc, if_neg hc]
    exact .refl s

/-- The targets that are connected, and what each is told. -/
def tells (s : LkpServer) (tell : ℤ → Message) (its : List (ℤ × ConnId)) : List (ConnId × Message) :=
  (its.filter fun it => (s.conns it.2).connected).map fun it => (it.2, tell it.1)

theorem tells_cons (tell : ℤ → Message) (it : ℤ × ConnId) (its : List (ℤ × ConnId)) :
    s.tells tell (it :: its) =
      (if (s.conns it.2).connected then [(it.2, tell it.1)] else []) ++ s.tells tell its := by
  simp only [tells]
  rw [List.filter_cons]
  split_ifs <;> simp

theorem tells_congr {u : LkpServer} (h : ∀ d, (u.conns d).connected = (s.conns d).connected)
    (tell : ℤ → Message) (its : List (ℤ × ConnId)) : u.tells tell its = s.tells tell its := by
  simp only [tells]
  simp only [h]

theorem tells_connected {tell : ℤ → Message} {its : List (ℤ × ConnId)}
    (h : ∀ it ∈ its, (s.conns it.2).connected = true) :
    s.tells tell its = its.map fun it => (it.2, tell it.1) := by
  simp only [tells]
  rw [List.filter_eq_self.2 h]

theorem told_broadToClients (message : Command) : Told s (s.broadToClients message)
    (s.tells (fun id => .command { message with nodeId := u32 id }) s.clientPool.connections.toList) := by
  simp only [broadToClients]
  generalize s.clientPool.connections.toList = its
  induction its generalizing s with
  | nil => exact .refl s
  | cons it its ih =>
    have h := told_sendToClient (s := s) (.command { message with nodeId := u32 it.1 }) it.2
    rw [List.foldl_cons, tells_cons, ← tells_congr h.connected]
    exact h.trans ih

theorem told_startPush (message : Command) (env : Env) (nodeID : ℤ) (conn : ConnId) :
    Told s (s.startPush message env nodeID conn)
      (if (s.conns conn).connected then [(conn, .file (pushPatch message env nodeID))] else []) := by
  simp only [startPush]
  have h₀ : Told s (setConn { s with
      fpMap := Function.update s.fpMap conn (some (some (env.testcase.drop kBufSize))) } conn
      { s.conns conn with writeCompleteCallback := true }) [] :=
    ⟨rfl, (List.append_nil _).symm, connected_setConn (s := { s with fpMap := _ }) rfl⟩
  have h := h₀.trans (told_sendToClient (.file (pushPatch message env nodeID)) conn)
  rw [h₀.connected] at h
  exact h

/-- The loop of a broadcast push is left at the first file that does not open. -/
theorem told_startPushes {message : Command} {env : Env} {its : List (ℤ × ConnId)} :
    Told s (startPushes message env its s) (s.tells (fun id => .file (pushPatch message env id))
      (its.takeWhile fun it => env.opens it.1)) := by
  induction its generalizing s with
  | nil => exact .refl s
  | cons it its ih =>
    rw [startPushes, List.takeWhile_cons]
    split_ifs
    · have h := told_startPush (s := s) message env it.1 it.2
      rw [tells_cons, ← tells_congr h.connected]
      exact h.trans ih
    · exact .refl s

/-! ## Commands that are answered -/

/-- How many answers the server waits for. -/
def expected (s : LkpServer) (message : Command) : ℕ :=
  if message.sendToAll = false then 1 else s.clientPool.size

theorem length_targets_le (message : Command) : (s.targets message).length ≤ s.expected message := by
  simp only [targets, expected]
  split_ifs
  · cases s.clientPool.getConn (intOfU32 message.nodeId) <;> simp
  · exact Std.TreeMap.length_toList.le

theorem length_targets {message : Command} (h : message.sendToAll = true ∨ s.targets message ≠ []) :
    (s.targets message).length = s.expected message := by
  simp only [targets, expected] at *
  split_ifs at * with hall
  · cases hc : s.clientPool.getConn (intOfU32 message.nodeId) with
    | none => simp [hall, hc] at h
    | some c => simp
  · exact Std.TreeMap.length_toList

/-- What an answered command does. -/
structure Begun (s t : LkpServer) (message : Command) (env : Env) : Prop where
  tally : t.tally = Gather.new (s.expected message)
  sent : t.sent = s.sent ++ s.tells (announcement message env) (s.targets message)

/-- Counting begins anew, before the command is sent or after. -/
theorem begun_of_told {u : LkpServer} {message : Command} {env : Env}
    (h : Told s.resetCounters u (s.tells (announcement message env) (s.targets message)))
    (ht : t.tally = { u.tally with num := s.expected message }) (hs : t.sent = u.sent) :
    Begun s t message env :=
  ⟨by rw [ht, h.tally]; rfl, by rw [hs, h.sent]; rfl⟩

theorem command_self (message : Command) :
    { message with nodeId := u32 (intOfU32 message.nodeId) } = message := by
  rw [u32_intOfU32]

theorem size_of_members (h : t.members = s.members) : t.clientPool.size = s.clientPool.size :=
  congrArg (fun m : Members => m.pool.size) h

theorem begun_forward {message : Command} (env : Env) (hne : message.command ≠ .PUSH) :
    Begun s (s.resetCounters.forward message) message env := by
  have hann : announcement message env = fun id => .command { message with nodeId := u32 id } := by
    ext id; exact if_neg hne
  have hcases : message.sendToAll = false ∨ message.sendToAll = true := by cases message.sendToAll <;> simp
  rcases hcases with hall | hall
  · have htargets : s.targets message =
        (s.clientPool.getConn (intOfU32 message.nodeId)).toList.map fun c => (intOfU32 message.nodeId, c) :=
      if_pos hall
    rw [forward, if_pos hall]
    refine begun_of_told (u := s.resetCounters.sendToClient (.command message)
      (s.clientPool.getConn (intOfU32 message.nodeId))) ?_ ?_ rfl
    · rw [htargets, hann]
      cases s.clientPool.getConn (intOfU32 message.nodeId) with
      | none => exact .refl _
      | some c =>
        have h : Told s.resetCounters _ (if (s.conns c).connected then [(c, .command message)] else []) :=
          told_sendToClient (.command message) c
        rw [Option.toList_some, List.map_singleton, tells_cons]
        simpa [tells, command_self] using h
    · rw [expected, if_pos hall]; rfl
  · have hnot : ¬ message.sendToAll = false := by simp [hall]
    rw [forward, if_neg hnot]
    refine begun_of_told (u := s.resetCounters.broadToClients message) ?_ ?_ rfl
    · rw [targets_broadcast hall, hann]
      exact told_broadToClients message
    · have hsize : (s.resetCounters.broadToClients message).clientPool.size = s.clientPool.size :=
        size_of_members (members_broadToClients message)
      rw [expected, if_neg hnot, ← hsize]
      rfl

/-- The targets up to the first one for which the file does not open. -/
def opened (s : LkpServer) (message : Command) (env : Env) : List (ℤ × ConnId) :=
  (s.targets message).takeWhile fun it => env.opens it.1

/-- What a push does, whichever files open. -/
structure Pushed (s t : LkpServer) (message : Command) (env : Env) : Prop where
  tally : t.tally = Gather.new (s.expected message)
  sent : t.sent = s.sent ++ s.tells (fun id => .file (pushPatch message env id)) (s.opened message env)
  connected : ∀ d, (t.conns d).connected = (s.conns d).connected

theorem pushed_pushToClient {message : Command} {env : Env}
    (htargets : message.sendToAll = true ∨ s.targets message ≠ [])
    (h : s.resetCounters.pushToClient message env = .ok t) : Pushed s t message env := by
  have hpushed : ∀ {ms : List (ConnId × Message)} (n : ℕ), Told (s.resetCounters.setClientNum n) t ms →
      n = s.expected message →
      ms = s.tells (fun id => .file (pushPatch message env id)) (s.opened message env) →
      Pushed s t message env := by
    rintro ms n ht rfl rfl
    exact ⟨by rw [ht.tally]; rfl, by rw [ht.sent]; rfl, ht.connected⟩
  have hcases : message.sendToAll = false ∨ message.sendToAll = true := by cases message.sendToAll <;> simp
  unfold pushToClient at h
  rcases hcases with hall | hall
  · rw [if_pos hall] at h
    have htargets' : s.targets message =
        (s.clientPool.getConn (intOfU32 message.nodeId)).toList.map fun c => (intOfU32 message.nodeId, c) :=
      if_pos hall
    cases hc : s.clientPool.getConn (intOfU32 message.nodeId) with
    | none => rw [htargets', hc, hall] at htargets; simp at htargets
    | some c =>
      rw [hc] at htargets'
      have hopened : s.opened message env =
          if env.opens (intOfU32 message.nodeId) then [(intOfU32 message.nodeId, c)] else [] := by
        rw [opened, htargets']
        exact List.takeWhile_cons
      have hc' : (s.resetCounters.setClientNum 1).clientPool.getConn (intOfU32 message.nodeId) = some c := hc
      simp only at h
      by_cases hopen : env.opens (intOfU32 message.nodeId) = true
      · rw [if_pos hopen, hc'] at h
        cases h
        refine hpushed 1 (told_startPush message env _ c) (by rw [expected, if_pos hall]) ?_
        rw [hopened, if_pos hopen, tells_cons]
        simp only [tells, List.filter_nil, List.map_nil, List.append_nil]
        rfl
      · rw [if_neg hopen] at h
        cases h
        refine hpushed 1 (.refl _) (by rw [expected, if_pos hall]) ?_
        rw [hopened, if_neg hopen]
        rfl
  · have hnot : ¬ message.sendToAll = false := by simp [hall]
    rw [if_neg hnot] at h
    cases h
    refine hpushed s.clientPool.size told_startPushes (by rw [expected, if_neg hnot]) ?_
    rw [opened, targets_broadcast hall]
    rfl

theorem begun_pushToClient {message : Command} {env : Env} (hpush : message.command = .PUSH)
    (hopens : ∀ it ∈ s.targets message, env.opens it.1 = true)
    (htargets : message.sendToAll = true ∨ s.targets message ≠ [])
    (h : s.resetCounters.pushToClient message env = .ok t) : Begun s t message env := by
  have hann : announcement message env = fun id => .file (pushPatch message env id) := by
    ext id; exact if_pos hpush
  have hopened : s.opened message env = s.targets message := List.takeWhile_eq_self_iff.2 hopens
  have hpushed := pushed_pushToClient htargets h
  exact ⟨hpushed.tally, by rw [hpushed.sent, hann, hopened]⟩

/-- UPDATE, RUN and RESULT are forwarded. -/
theorem onCommandMsg_forward {message : Command} (env : Env) (hcommand : message.command.Answered)
    (hne : message.command ≠ .PUSH) : s.onCommandMsg message env = .ok (s.resetCounters.forward message) := by
  simp only [onCommandMsg]
  rcases hcommand with hc | hc | hc | hc
  · rw [hc]
  · rw [hc]
  · rw [hc]
  · exact absurd hc hne

/-- **A command begins a gathering**, of one answer for each of its targets, and is
    sent to the targets that are connected. -/
theorem begun_onCommandMsg {message : Command} {env : Env} (hcommand : message.command.Answered)
    (hopens : ∀ it ∈ s.targets message, env.opens it.1 = true)
    (htargets : message.sendToAll = true ∨ s.targets message ≠ [])
    (h : s.onCommandMsg message env = .ok t) : Begun s t message env := by
  by_cases hpush : message.command = .PUSH
  · simp only [onCommandMsg] at h
    rw [hpush] at h
    exact begun_pushToClient hpush hopens htargets h
  · rw [onCommandMsg_forward env hcommand hpush] at h
    cases h
    exact begun_forward env hpush

theorem Begun.returns {message : Command} {env : Env} (h : Begun s t message env) :
    t.returns = s.returns := by
  rw [LkpServer.returns, LkpServer.returns, h.sent, List.filterMap_append, List.append_right_eq_self,
    List.filterMap_eq_nil_iff]
  rintro ⟨c, m⟩ hm
  obtain ⟨it, -, he⟩ := List.mem_map.1 hm
  cases he
  simp only [announcement]
  split_ifs <;> rfl

theorem Begun.announced {message : Command} {env : Env} (h : Begun s t message env) :
    t.announced = s.announced ++ s.tells (announcement message env) (s.targets message) := by
  rw [LkpServer.announced, LkpServer.announced, h.sent, List.filter_append, List.append_cancel_left_eq,
    List.filter_eq_self]
  rintro ⟨c, m⟩ hm
  obtain ⟨it, -, he⟩ := List.mem_map.1 hm
  cases he
  simp only [announcement]
  split_ifs <;> rfl

/-! ## The counters after a command -/

theorem tally_startPushes (message : Command) (env : Env) (its : List (ℤ × ConnId)) :
    (startPushes message env its s).tally = s.tally := by
  induction its generalizing s with
  | nil => rfl
  | cons it its ih =>
    simp only [startPushes]
    split_ifs
    · rw [ih]; exact (told_startPush message env it.1 it.2).tally
    · rfl

theorem tally_pushToClient {message : Command} {env : Env} (h : s.pushToClient message env = .ok t) :
    t.tally = { s.tally with num := s.expected message } := by
  unfold pushToClient at h
  simp only [expected]
  split_ifs at h ⊢
  · simp only at h
    split_ifs at h
    · split at h
      · cases h; rw [(told_startPush _ _ _ _).tally]; rfl
      · cases h
    · cases h; rfl
  · cases h; rw [tally_startPushes]; rfl

theorem tally_sendToCmdClient {message : Message} (h : s.sendToCmdClient message = .ok t) :
    t.tally = s.tally := by
  simp only [sendToCmdClient] at h
  split at h
  · cases h; split_ifs <;> rfl
  · cases h

/-- How many answers the server waits for once it has handled a command. -/
def awaited (s : LkpServer) (message : Command) : ℕ :=
  match message.command with
  | .UPDATE | .RUN | .RESULT | .PUSH => s.expected message
  | .LIST | .other _ => 0

/-- **Every command starts to count anew.** -/
theorem tally_onCommandMsg {message : Command} {env : Env} (h : s.onCommandMsg message env = .ok t) :
    t.tally = Gather.new (s.awaited message) := by
  have hforward : message.command ≠ .PUSH → t = s.resetCounters.forward message →
      t.tally = Gather.new (s.expected message) := by
    rintro hne rfl
    exact (begun_forward {} hne).tally
  simp only [onCommandMsg] at h
  unfold awaited
  cases hc : message.command <;> rw [hc] at h hforward
  · exact hforward (by simp) (by cases h; rfl)
  · exact hforward (by simp) (by cases h; rfl)
  · exact hforward (by simp) (by cases h; rfl)
  · exact tally_pushToClient h
  · exact tally_sendToCmdClient h
  · cases h; rfl

end LkpServer

end LkpExtent
