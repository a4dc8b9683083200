/-
  LkpExtent formalization — the transfer of a test case, interleaved with everything
  else that the server does.

  * `Pushing`: the server as the sender of a test case on a connection;
  * `aside_*`: the handlers of everything else only send other messages on it;
  * `server_move`: a step is a move of the pump;
  * `oneEnd_iff`: what holds of both senders.
-/
import LkpExtent.Commands
import LkpExtent.WriteComplete

namespace LkpExtent

open Lib

namespace LkpServer
variable {s t : LkpServer} {conn : ConnId}

/-- What is left of the file that is pushed on a connection. -/
def unread (s : LkpServer) (conn : ConnId) : Bytes := (s.fpMap conn).join.getD []

/-- What a message is to the transfer on a connection. -/
def itemFor (conn : ConnId) (it : ConnId × Message) : Option (Option UInt32) :=
  if it.1 = conn then it.2.item? else none

/-- The items sent so far on a connection. -/
def items (s : LkpServer) (conn : ConnId) : List (Option UInt32) := s.sent.filterMap (itemFor conn)

/-- The server as the sender of a test case, `before` which it has sent other items. -/
def pump (conn : ConnId) (before : List (Option UInt32)) (s : LkpServer) : Pump UInt32 where
  callback := (s.conns conn).writeCompleteCallback
  output := (s.conns conn).output
  queued := (s.conns conn).queued
  left := itemsOf (chunks kBufSize (s.unread conn))
  sent := (s.items conn).drop before.length

/-! ## What leaves a transfer alone -/

/-- `d` differs from `c` in its pending output, its state, its peer and its context at most. -/
structure Alike (c d : TcpConnection Entry) : Prop where
  callback : d.writeCompleteCallback = c.writeCompleteCallback
  queued : d.queued = c.queued
  output : c.output = true → d.output = true

theorem Alike.refl (c : TcpConnection Entry) : Alike c c := ⟨rfl, rfl, id⟩

theorem alike_shutdown (c : TcpConnection Entry) : Alike c c.shutdown := by
  simp only [TcpConnection.shutdown]
  split_ifs <;> exact ⟨rfl, rfl, id⟩

/-- `t` comes from `s` by sending other messages at most, as far as the connection is
    concerned. -/
structure Aside (conn : ConnId) (s t : LkpServer) : Prop where
  alike : Alike (s.conns conn) (t.conns conn)
  unread : t.unread conn = s.unread conn
  items : t.items conn = s.items conn

theorem aside_of_eq (hc : t.conns = s.conns) (hf : t.fpMap = s.fpMap) (hs : t.sent = s.sent) :
    Aside conn s t :=
  ⟨by rw [hc]; exact .refl _, by rw [LkpServer.unread, hf, LkpServer.unread],
    by rw [LkpServer.items, hs, LkpServer.items]⟩

theorem Aside.refl (s : LkpServer) : Aside conn s s := aside_of_eq rfl rfl rfl

theorem Aside.trans {u : LkpServer} (h : Aside conn s t) (h' : Aside conn t u) : Aside conn s u :=
  ⟨⟨h'.alike.callback.trans h.alike.callback, h'.alike.queued.trans h.alike.queued,
    fun ho => h'.alike.output (h.alike.output ho)⟩, h'.unread.trans h.unread, h'.items.trans h.items⟩

theorem aside_setConn {c : ConnId} {d : TcpConnection Entry} (h : c = conn → Alike (s.conns conn) d) :
    Aside conn s (s.setConn c d) := by
  refine ⟨?_, rfl, rfl⟩
  by_cases hc : c = conn
  · subst hc
    rw [setConn_conns]
    exact h rfl
  · rw [setConn_conns_of_ne (Ne.symm hc)]
    exact .refl _

theorem aside_shutdown (c : ConnId) : Aside conn s (s.setConn c (s.conns c).shutdown) :=
  aside_setConn fun hc => by rw [hc]; exact alike_shutdown _

theorem aside_send {c : ConnId} {m : Message} (h : itemFor conn (c, m) = none) :
    Aside conn s (s.send c m) := by
  have hset : Aside conn s (s.setConn c (s.conns c).send) :=
    aside_setConn fun hc => by rw [hc]; exact ⟨rfl, rfl, fun _ => rfl⟩
  refine ⟨hset.alike, hset.unread, ?_⟩
  show (s.sent ++ [(c, m)]).filterMap (itemFor conn) = s.sent.filterMap (itemFor conn)
  rw [List.filterMap_append, List.filterMap_cons_none h, List.filterMap_nil, List.append_nil]

theorem itemFor_of_ne {c : ConnId} (h : c ≠ conn) (m : Message) : itemFor conn (c, m) = none := if_neg h

theorem itemFor_of_item? {m : Message} (h : m.item? = none) (c : ConnId) : itemFor conn (c, m) = none := by
  simp only [itemFor]
  split_ifs
  · exact h
  · rfl

theorem aside_sendToClient {c : ConnId} {m : Message} (h : itemFor conn (c, m) = none) :
    Aside conn s (s.sendToClient m (some c)) := by
  show Aside conn s (if (s.conns c).connected then s.send c m else s)
  split_ifs
  · exact aside_send h
  · exact .refl s

theorem aside_replyIfComplete {command : CommandID} (h : s.replyIfComplete command = .ok t) :
    Aside conn s t := by
  simp only [replyIfComplete] at h
  split_ifs at h
  · simp only [sendToCmdClient] at h
    split at h
    · cases h
      split_ifs
      · exact aside_send (itemFor_of_item? rfl _)
      · exact .refl s
    · cases h
  · cases h; exact .refl s

theorem aside_countAnswer (status : Bool) (nodeID : UInt32) (ackMessage : String) :
    Aside conn s (s.countAnswer status nodeID ackMessage) := by
  simp only [countAnswer]
  cases status <;> exact aside_of_eq rfl rfl rfl

theorem aside_onPushACK {message : PushACK} (h : s.onPushACK message = .ok t) : Aside conn s t :=
  (aside_countAnswer _ _ _).trans (aside_replyIfComplete h)

theorem aside_onCommandACK {message : CommandACK} (h : s.onCommandACK message = .ok t) : Aside conn s t :=
  (aside_countAnswer _ _ _).trans (aside_replyIfComplete h)

theorem aside_fcloseOutput {c : ConnId} (h : s.fcloseOutput c = .ok t) : Aside conn s t := by
  simp only [fcloseOutput] at h
  split at h
  · split_ifs at h; cases h; exact aside_of_eq rfl rfl rfl
  · cases h

theorem aside_fwriteOutput {c : ConnId} {message : File} {env : Env}
    (h : s.fwriteOutput c message env = .ok t) : Aside conn s t := by
  simp only [fwriteOutput] at h
  split at h
  · split_ifs at h; cases h; exact aside_of_eq rfl rfl rfl
  · cases h

theorem aside_checkComplete (c : ConnId) (message : File) (env : Env) :
    Aside conn s (s.checkComplete c message env) := by
  simp only [checkComplete]
  split_ifs <;> exact aside_of_eq rfl rfl rfl

theorem aside_onFileMsg {c : ConnId} {message : File} {env : Env}
    (h : s.onFileMsg c message env = .ok t) : Aside conn s t := by
  simp only [onFileMsg] at h
  have hopen : Aside conn s ((s.announce c message).openOutput c) := by
    simp only [announce, openOutput]
    exact aside_of_eq rfl rfl rfl
  split_ifs at h
  · obtain ⟨u, hu, h⟩ := bind_ok h
    have hcount : Aside conn s { s with ackTimes := s.ackTimes + 1 } := aside_of_eq rfl rfl rfl
    exact ((hcount.trans (aside_fcloseOutput hu)).trans (aside_checkComplete _ _ _)).trans
      (aside_replyIfComplete h)
  · exact hopen.trans (aside_fwriteOutput h)
  · cases h
    simp only [announce]
    exact aside_of_eq rfl rfl rfl
  · exact aside_fwriteOutput h

theorem aside_insertEntry {entry : Entry} (h : s.insertEntry entry = .ok t) : Aside conn s t := by
  obtain ⟨back, rest, -, rfl⟩ := insertEntry_ok h
  exact aside_of_eq rfl rfl rfl

theorem aside_onConnection {c : ConnId} (h : s.onConnection c = .ok t) : Aside conn s t := by
  simp only [onConnection] at h
  split_ifs at h
  · cases h; exact aside_of_eq rfl rfl rfl
  · split at h <;> cases h
    exact aside_shutdown _
  · rcases hadd : s.clientPool.add c with ⟨nodeID, clientPool⟩
    rw [hadd] at h
    obtain ⟨u, hu, h⟩ := bind_ok h
    cases h
    have hpool : Aside conn s { s with clientPool } := aside_of_eq rfl rfl rfl
    exact (hpool.trans (aside_insertEntry hu)).trans
      (aside_setConn fun hc => by rw [hc]; exact ⟨rfl, rfl, id⟩)
  · cases h; exact aside_of_eq rfl rfl rfl
  · split at h
    · cases h
    · split_ifs at h
      cases h
      exact aside_of_eq rfl rfl rfl

theorem aside_onHeartBeat {c : ConnId} (h : s.onHeartBeat c = .ok t) : Aside conn s t := by
  simp only [onHeartBeat] at h
  split at h
  · cases h
  · split_ifs at h
    · exact aside_insertEntry h
    · cases h; exact .refl s

theorem aside_destroy (entry : Entry) : Aside conn s (s.destroy entry) := by
  simp only [destroy]
  split_ifs
  · exact (aside_shutdown entry.weakConn).trans (aside_of_eq rfl rfl rfl)
  · exact .refl s

theorem aside_onTimer (order : List Entry) : Aside conn s (s.onTimer order) := by
  simp only [onTimer]
  have h₀ : Aside conn s s.pushBucket := aside_of_eq rfl rfl rfl
  generalize s.pushBucket = u at h₀
  induction order generalizing u with
  | nil => exact h₀
  | cons entry order ih => exact ih _ (h₀.trans (aside_destroy entry))

theorem aside_broadToClients (message : Command) : Aside conn s (s.broadToClients message) := by
  simp only [broadToClients]
  generalize s.clientPool.connections.toList = its
  induction its generalizing s with
  | nil => exact .refl s
  | cons it its ih => exact (aside_sendToClient (itemFor_of_item? rfl _)).trans ih

theorem aside_setClientNum (n : ℕ) : Aside conn s (s.setClientNum n) := aside_of_eq rfl rfl rfl

theorem aside_forward (message : Command) : Aside conn s (s.forward message) := by
  simp only [forward]
  have hcommand : ∀ m : Command, (Message.command m).item? = none := fun _ => rfl
  split_ifs
  · cases s.clientPool.getConn (intOfU32 message.nodeId) with
    | none => exact aside_setClientNum 1
    | some c => exact (aside_sendToClient (itemFor_of_item? (hcommand _) _)).trans (aside_setClientNum 1)
  · exact (aside_broadToClients message).trans (aside_setClientNum _)

/-! ## Pushes -/

/-- The nodes that a push is started to: the targets up to the first one for which the
    file does not open. -/
def pushed (s : LkpServer) (message : Command) (env : Env) : List (ℤ × ConnId) :=
  (s.targets message).takeWhile fun it => env.opens it.1

/-- One push after the other. -/
def pushAll (message : Command) (env : Env) (its : List (ℤ × ConnId)) (s : LkpServer) : LkpServer :=
  its.foldl (fun s it => s.startPush message env it.1 it.2) s

theorem startPushes_eq (message : Command) (env : Env) (its : List (ℤ × ConnId)) (s : LkpServer) :
    startPushes message env its s = pushAll message env (its.takeWhile fun it => env.opens it.1) s := by
  induction its generalizing s with
  | nil => rfl
  | cons it its ih =>
    rw [startPushes, List.takeWhile_cons]
    split_ifs
    · exact ih _
    · rfl

theorem pushToClient_eq {message : Command} {env : Env} (h : s.pushToClient message env = .ok t) :
    ∃ n, t = pushAll message env (s.pushed message env) (s.setClientNum n) := by
  unfold pushToClient at h
  by_cases hall : message.sendToAll = false
  · rw [if_pos hall] at h
    refine ⟨1, ?_⟩
    simp only [pushed, targets, if_pos hall]
    simp only at h
    split_ifs at h with ho
    · split at h
      · rename_i c hc
        have hc' : s.clientPool.getConn (intOfU32 message.nodeId) = some c := hc
        cases h
        rw [hc']
        simp [ho, pushAll]
      · cases h
    · cases h
      cases s.clientPool.getConn (intOfU32 message.nodeId) <;> simp [ho, pushAll]
  · rw [if_neg hall] at h
    cases h
    exact ⟨_, by rw [startPushes_eq, pushed, targets, if_neg hall]; rfl⟩

theorem aside_startPush {message : Command} {env : Env} {nodeID : ℤ} {c : ConnId} (hc : c ≠ conn) :
    Aside conn s (s.startPush message env nodeID c) := by
  simp only [startPush]
  refine Aside.trans ?_ (aside_sendToClient (itemFor_of_ne hc _))
  refine Aside.trans ?_ (aside_setConn fun h => absurd h hc)
  refine ⟨.refl _, ?_, rfl⟩
  simp only [LkpServer.unread, Function.update_of_ne (Ne.symm hc)]

theorem aside_pushAll {message : Command} {env : Env} {its : List (ℤ × ConnId)}
    (hits : ∀ it ∈ its, it.2 ≠ conn) : Aside conn s (pushAll message env its s) := by
  induction its generalizing s with
  | nil => exact .refl s
  | cons it its ih =>
    rw [List.forall_mem_cons] at hits
    exact (aside_startPush hits.1).trans (ih hits.2)

theorem aside_onCommandMsg {message : Command} {env : Env} (h : s.onCommandMsg message env = .ok t)
    (hpush : message.command = .PUSH → ∀ it ∈ s.pushed message env, it.2 ≠ conn) : Aside conn s t := by
  unfold onCommandMsg at h
  have hreset : Aside conn s s.resetCounters := aside_of_eq rfl rfl rfl
  refine hreset.trans ?_
  simp only at h
  split at h
  · cases h; exact aside_forward message
  · cases h; exact aside_forward message
  · cases h; exact aside_forward message
  · rename_i hc
    obtain ⟨n, rfl⟩ := pushToClient_eq h
    exact (aside_setClientNum n).trans (aside_pushAll (hpush hc))
  · simp only [sendToCmdClient] at h
    split at h
    · cases h
      split_ifs
      · exact aside_send (itemFor_of_item? rfl _)
      · exact .refl _
    · cases h
  · cases h; exact .refl _

theorem aside_onWriteComplete {c : ConnId} {stack : Bytes} (hc : c ≠ conn)
    (h : s.onWriteComplete c stack = .ok t) : Aside conn s t := by
  have hupdate : ∀ x, Aside conn s { s with fpMap := Function.update s.fpMap c x } := by
    refine fun x => ⟨.refl _, ?_, rfl⟩
    simp only [LkpServer.unread, Function.update_of_ne (Ne.symm hc)]
  simp only [onWriteComplete] at h
  simp only [touch] at h
  split at h
  · split at h
    · cases h
      refine Aside.trans ?_ (aside_sendToClient (itemFor_of_ne hc _))
      rw [Function.update_idem]
      exact hupdate _
    · cases h
      refine Aside.trans ?_ (aside_sendToClient (itemFor_of_ne hc _))
      exact (hupdate _).trans (aside_setConn fun h => absurd h hc)
  · cases h

/-! ## The messages of a push -/

/-- A message of a transfer to a connection that is up. -/
theorem sendToClient_file {u : LkpServer} {c : TcpConnection Entry} {f : File} {item : Option UInt32}
    {rest : Bytes} (hf : (Message.file f).item? = some item) (hup : c.connected = true)
    (hc : u.conns conn = c) (hs : u.sent = s.sent) (hr : u.unread conn = rest) :
    (u.sendToClient (.file f) (some conn)).unread conn = rest ∧
      (u.sendToClient (.file f) (some conn)).items conn = s.items conn ++ [item] ∧
      (u.sendToClient (.file f) (some conn)).conns conn = { c with output := true } := by
  have hsend : u.sendToClient (.file f) (some conn) = u.send conn (.file f) :=
    if_pos (show (u.conns conn).connected = true by rw [hc]; exact hup)
  have hitem : itemFor conn (conn, .file f) = some item := (if_pos rfl).trans hf
  rw [hsend]
  refine ⟨hr, ?_, ?_⟩
  · show (u.sent ++ [(conn, Message.file f)]).filterMap (itemFor conn) =
      s.sent.filterMap (itemFor conn) ++ [item]
    rw [hs, List.filterMap_append, List.filterMap_cons_some hitem, List.filterMap_nil]
  · rw [← hc]
    exact setConn_conns _ _

/-- The callback is defined only where there is a stream to read. -/
theorem exists_stream {stack : Bytes} (h : s.onWriteComplete conn stack = .ok t) :
    ∃ fp, s.fpMap conn = some (some fp) := by
  simp only [onWriteComplete] at h
  simp only [touch, Function.update_self] at h
  rcases hm : s.fpMap conn with _ | _ | fp
  · simp [hm] at h
  · simp [hm] at h
  · exact ⟨fp, rfl⟩

/-- A call of the callback sends a chunk or the END. -/
theorem onWriteComplete_cases {stack : Bytes} (hup : (s.conns conn).connected = true)
    (h : s.onWriteComplete conn stack = .ok t) :
    (s.unread conn = [] ∧ t.unread conn = [] ∧ t.items conn = s.items conn ++ [none] ∧
      t.conns conn = { s.conns conn with writeCompleteCallback := false, output := true }) ∨
    (s.unread conn ≠ [] ∧ t.unread conn = (s.unread conn).drop kBufSize ∧
      t.items conn = s.items conn ++ [some (u32 ((s.unread conn).take kBufSize).length)] ∧
      t.conns conn = { s.conns conn with output := true }) := by
  obtain ⟨fp, hfp⟩ := exists_stream h
  simp only [onWriteComplete] at h
  simp only [touch, Function.update_self] at h
  have hunread : s.unread conn = fp := by simp [unread, hfp]
  simp only [hfp, Option.getD_some] at h
  rw [hunread]
  by_cases hnil : fp = []
  · subst hnil
    rw [nextPatch_nil] at h
    obtain rfl := (Except.ok.inj h).symm
    refine Or.inl ⟨rfl, sendToClient_file (c := { s.conns conn with writeCompleteCallback := false })
      item?_endFile hup ?_ rfl ?_⟩
    · exact setConn_conns _ _
    · simp [unread, setConn]
  · rw [nextPatch_of_ne_nil hnil] at h
    obtain rfl := (Except.ok.inj h).symm
    refine Or.inr ⟨hnil, sendToClient_file (c := s.conns conn) (item?_patchOf (by decide) _ _) hup rfl rfl ?_⟩
    simp [unread]

/-! ## The steps of the server -/

def isDown (conn : ConnId) : ServerEvent → Bool
  | .down c => c = conn
  | _ => false

/-- A command that starts a push to the connection. -/
def begins (conn : ConnId) (s : LkpServer) : ServerEvent → Bool
  | .message _ (.command m) env => m.command = .PUSH && (s.pushed m env).any fun it => it.2 = conn
  | _ => false

/-- The transfer on the connection is not disturbed: the connection stays, and no push
    is started to it. -/
def Undisturbed (conn : ConnId) (s : LkpServer) (e : ServerEvent) : Prop :=
  (s.conns conn).connected = true ∧ isDown conn e = false ∧ begins conn s e = false

instance (s : LkpServer) (e : ServerEvent) : Decidable (Undisturbed conn s e) :=
  inferInstanceAs (Decidable (_ ∧ _ ∧ _))

/-- The calls of the callback. -/
def isCall (conn : ConnId) : ServerEvent → Bool
  | .writeComplete c _ => c = conn
  | _ => false

theorem exists_call {e : ServerEvent} (h : isCall conn e = true) : ∃ stack, e = .writeComplete conn stack := by
  cases e with
  | writeComplete c stack =>
    obtain rfl : c = conn := of_decide_eq_true h
    exact ⟨stack, rfl⟩
  | _ => cases h

theorem exists_push {e : ServerEvent} (h : begins conn s e = true) :
    ∃ c m env it, e = .message c (.command m) env ∧ m.command = .PUSH ∧ it ∈ s.pushed m env ∧ it.2 = conn := by
  cases e with
  | message c m env =>
    cases m with
    | command m =>
      obtain ⟨hm, hany⟩ := (Bool.and_eq_true _ _).mp h
      obtain ⟨it, hit, hc⟩ := List.any_eq_true.1 hany
      exact ⟨c, m, env, it, rfl, of_decide_eq_true hm, hit, of_decide_eq_true hc⟩
    | _ => cases h
  | _ => cases h

section
variable {before : List (Option UInt32)}

theorem Aside.move (h : Aside conn s t) : (s.pump conn before).Move false (t.pump conn before) := by
  have ht : t.pump conn before = { s.pump conn before with output := (t.conns conn).output } := by
    simp only [pump]
    rw [h.alike.callback, h.alike.queued, h.unread, h.items]
  rw [ht]
  exact .other _ h.alike.output

theorem pump_snoc {item : Option UInt32} (hb : before <+: s.items conn)
    (hi : t.items conn = s.items conn ++ [item]) :
    (t.pump conn before).sent = (s.pump conn before).sent ++ [item] ∧ before <+: t.items conn := by
  constructor
  · show (t.items conn).drop before.length = (s.items conn).drop before.length ++ [item]
    rw [hi, List.drop_append_of_le_length hb.length_le]
  · rw [hi]
    exact hb.trans (List.prefix_append _ _)

theorem writeComplete_move {stack : Bytes} (hb : before <+: s.items conn)
    (hup : (s.conns conn).connected = true) (hq : 0 < (s.conns conn).queued)
    (h : (s.setConn conn (s.conns conn).dequeue).onWriteComplete conn stack = .ok t) :
    (s.pump conn before).Move true (t.pump conn before) ∧ before <+: t.items conn := by
  have hcases := onWriteComplete_cases (by rw [setConn_conns]; exact hup) h
  rw [setConn_conns, show (s.setConn conn (s.conns conn).dequeue).unread conn = s.unread conn from rfl,
    show (s.setConn conn (s.conns conn).dequeue).items conn = s.items conn from rfl] at hcases
  rcases hcases with ⟨hun, hun', hi, hc⟩ | ⟨hun, hun', hi, hc⟩
  · obtain ⟨hsent, hb'⟩ := pump_snoc hb hi
    have hleft : (s.pump conn before).left = [] := itemsOf_chunks_eq_nil.2 hun
    have ht : t.pump conn before = { s.pump conn before with
        queued := (s.pump conn before).queued - 1, callback := false
        sent := (s.pump conn before).sent ++ [none], output := true } := by
      rw [← hsent]
      simp only [pump]
      rw [hc, hun', hun]
      rfl
    rw [ht]
    exact ⟨.finish hq hleft, hb'⟩
  · obtain ⟨hsent, hb'⟩ := pump_snoc hb hi
    have ht : t.pump conn before = { s.pump conn before with
        queued := (s.pump conn before).queued - 1
        left := itemsOf (chunks kBufSize ((s.unread conn).drop kBufSize))
        sent := (s.pump conn before).sent ++ [some (u32 ((s.unread conn).take kBufSize).length)]
        output := true } := by
      rw [← hsent]
      simp only [pump]
      rw [hc, hun']
      rfl
    rw [ht]
    exact ⟨.item hq (itemsOf_chunks hun), hb'⟩

/-- A step leaves a transfer alone, unless it starts one, writes its output or calls its
    callback. -/
theorem aside_step {e : ServerEvent} (hs : s.step e = some t) (hbegin : begins conn s e = false)
    (hwritten : e ≠ .written conn) (hcall : isCall conn e = false) : Aside conn s t := by
  obtain ⟨-, h⟩ := step_eq_some.1 hs
  cases e with
  | up c ip => exact (aside_setConn fun hc => by rw [hc]; exact ⟨rfl, rfl, id⟩).trans (aside_onConnection h)
  | down c => exact (aside_setConn fun hc => by rw [hc]; exact ⟨rfl, rfl, id⟩).trans (aside_onConnection h)
  | message c m env =>
    cases m with
    | command m =>
      refine aside_onCommandMsg h ?_
      intro hm it hit hc
      have hany : (s.pushed m env).any (fun it => it.2 = conn) = true := List.any_eq_true.2 ⟨it, hit, by simpa⟩
      simp [begins, hm, hany] at hbegin
    | file m => exact aside_onFileMsg h
    | commandACK m => exact aside_onCommandACK h
    | heartBeat m => exact aside_onHeartBeat h
    | pushACK m => exact aside_onPushACK h
    | ret m => cases h; exact aside_shutdown c
  | written c =>
    cases h
    exact aside_setConn fun hc => absurd (by rw [hc]) hwritten
  | writeComplete c stack =>
    have hc : c ≠ conn := by simpa [isCall] using hcall
    exact (aside_setConn fun h => absurd h hc).trans (aside_onWriteComplete hc h)
  | timer order => cases h; exact aside_onTimer order

/-- **A step of the server is a move of the pump.** -/
theorem server_move {e : ServerEvent} (hb : before <+: s.items conn) (hu : Undisturbed conn s e)
    (hs : s.step e = some t) :
    (s.pump conn before).Move (isCall conn e) (t.pump conn before) ∧ before <+: t.items conn := by
  obtain ⟨hen, h⟩ := step_eq_some.1 hs
  obtain ⟨hup, -, hbegin⟩ := hu
  by_cases hwritten : e = .written conn
  · subst hwritten
    cases h
    simp only [enabled, Bool.and_eq_true] at hen
    have ht : (s.setConn conn (s.conns conn).written).pump conn before = { s.pump conn before with
        output := false
        queued := if (s.pump conn before).callback then (s.pump conn before).queued + 1
          else (s.pump conn before).queued } := by
      simp only [pump]
      rw [setConn_conns]
      rfl
    rw [ht]
    exact ⟨.written hen.2, hb⟩
  by_cases hcall : isCall conn e = true
  · obtain ⟨stack, rfl⟩ := exists_call hcall
    rw [hcall]
    exact writeComplete_move hb hup (of_decide_eq_true hen) h
  · have hcall : isCall conn e = false := Bool.eq_false_iff.2 hcall
    have ha := aside_step hs hbegin hwritten hcall
    rw [hcall]
    exact ⟨ha.move, by rw [ha.items]; exact hb⟩

end

/-- If the call finds the end of the file and the callback is set, it is the only call
    queued. -/
def OnlyCall (conn : ConnId) (s : LkpServer) (e : ServerEvent) : Prop :=
  isCall conn e = true → (s.conns conn).writeCompleteCallback = true → s.unread conn = [] →
    (s.conns conn).queued = 1

instance (s : LkpServer) (e : ServerEvent) : Decidable (OnlyCall conn s e) :=
  inferInstanceAs (Decidable (_ → _ → _ → _))

theorem soleCall_pump (before : List (Option UInt32)) :
    Pump.SoleCall (pump conn before) (isCall conn) = OnlyCall conn := by
  funext s e
  simp only [Pump.SoleCall, Pump.Sole, OnlyCall, pump, itemsOf_chunks_eq_nil]

/-! ## The start of a push -/

/-- A transfer whose first message has been sent. -/
structure Started (conn : ConnId) (s t : LkpServer) (data : Bytes) : Prop where
  callback : (t.conns conn).writeCompleteCallback = true
  output : (t.conns conn).output = true
  unread : t.unread conn = data.drop kBufSize
  items : t.items conn = s.items conn ++ [some (u32 (min kBufSize data.length : ℕ))]

theorem started_sendToClient {u : LkpServer} {message : Command} {env : Env} {nodeID : ℤ}
    (hup : (s.conns conn).connected = true)
    (hc : u.conns conn = { s.conns conn with writeCompleteCallback := true }) (hs : u.sent = s.sent)
    (hr : u.unread conn = env.testcase.drop kBufSize) :
    Started conn s (u.sendToClient (.file (pushPatch message env nodeID)) (some conn)) env.testcase := by
  have hitem : (Message.file (pushPatch message env nodeID)).item? =
      some (some (u32 (min kBufSize env.testcase.length : ℕ))) := rfl
  obtain ⟨hr, hi, hconn⟩ := sendToClient_file hitem
    (show TcpConnection.connected { s.conns conn with writeCompleteCallback := true } = true from hup) hc hs hr
  exact ⟨by rw [hconn], by rw [hconn], hr, hi⟩

theorem started_startPush {message : Command} {env : Env} {nodeID : ℤ}
    (hup : (s.conns conn).connected = true) :
    Started conn s (s.startPush message env nodeID conn) env.testcase := by
  simp only [startPush]
  refine started_sendToClient hup ?_ rfl ?_
  · exact setConn_conns _ _
  · simp [unread, setConn]

theorem connected_pushAll {message : Command} {env : Env} (its : List (ℤ × ConnId)) :
    ((pushAll message env its s).conns conn).connected = (s.conns conn).connected := by
  induction its generalizing s with
  | nil => rfl
  | cons it its ih => exact ih.trans ((told_startPush message env it.1 it.2).connected conn)

theorem Started.aside {u v : LkpServer} {data : Bytes} (hs : Aside conn s u) (h : Started conn u v data)
    (ht : Aside conn v t) : Started conn s t data :=
  ⟨ht.alike.callback.trans h.callback, ht.alike.output h.output, ht.unread.trans h.unread,
    by rw [ht.items, h.items, hs.items]⟩

/-- Of the pushes of a command, the one to the connection starts the transfer. -/
theorem started_pushAll {message : Command} {env : Env} {its : List (ℤ × ConnId)} {it : ℤ × ConnId}
    (hup : (s.conns it.2).connected = true) (hit : it ∈ its) (hnodup : (its.map Prod.snd).Nodup) :
    Started it.2 s (pushAll message env its s) env.testcase := by
  obtain ⟨l₁, l₂, rfl⟩ := List.append_of_mem hit
  rw [List.map_append, List.map_cons, List.nodup_append] at hnodup
  obtain ⟨-, h₂, hdisj⟩ := hnodup
  have h₁ : ∀ x ∈ l₁, x.2 ≠ it.2 := fun x hx => hdisj _ (List.mem_map_of_mem hx) _ List.mem_cons_self
  have h₂ : ∀ x ∈ l₂, x.2 ≠ it.2 := by
    rintro x hx he
    exact (List.nodup_cons.1 h₂).1 (he ▸ List.mem_map_of_mem hx)
  rw [pushAll, List.foldl_append, List.foldl_cons]
  exact (started_startPush (by rw [← hup]; exact connected_pushAll l₁)).aside (aside_pushAll h₁)
    (aside_pushAll h₂)

theorem pushed_conns_nodup (hb : s.members.Base) (message : Command) (env : Env) :
    ((s.pushed message env).map Prod.snd).Nodup :=
  (targets_conns_nodup hb message).sublist ((List.takeWhile_sublist _).map _)

theorem Started.pumped {data : Bytes} (h : Started conn s t data) :
    (t.pump conn (s.items conn)).Pumped (itemsOf (piecesOf data)) True ∧ s.items conn <+: t.items conn := by
  have hsent : (t.pump conn (s.items conn)).sent = [some (u32 (min kBufSize data.length : ℕ))] := by
    show (t.items conn).drop (s.items conn).length = _
    rw [h.items, List.drop_left]
  refine ⟨⟨fun _ => ⟨trivial, Or.inl h.output, [_], hsent, ?_⟩, ?_⟩, ?_⟩
  · rw [itemsOf_piecesOf, pump, h.unread]
  · intro hcb
    rw [pump, h.callback] at hcb; cases hcb
  · rw [h.items]
    exact List.prefix_append _ _

/-- A PUSH command starts one push after the other. -/
theorem step_push {c : ConnId} {m : Command} {env : Env} (hm : m.command = .PUSH)
    (hs : s.step (.message c (.command m) env) = some t) :
    ∃ n, t = pushAll m env (s.pushed m env) (s.resetCounters.setClientNum n) := by
  have h : s.onCommandMsg m env = .ok t := (step_eq_some.1 hs).2
  simp only [onCommandMsg] at h
  rw [hm] at h
  exact pushToClient_eq h

/-- A PUSH command starts the transfer. -/
theorem started_step {c : ConnId} {m : Command} {env : Env} {it : ℤ × ConnId} (hb : s.members.Base)
    (hm : m.command = .PUSH) (hup : (s.conns it.2).connected = true) (hpush : it ∈ s.pushed m env)
    (hs : s.step (.message c (.command m) env) = some t) : Started it.2 s t env.testcase := by
  obtain ⟨n, rfl⟩ := step_push hm hs
  have hreset : Aside it.2 s (s.resetCounters.setClientNum n) := aside_of_eq rfl rfl rfl
  have hall : Started it.2 (s.resetCounters.setClientNum n)
      (pushAll m env (s.pushed m env) (s.resetCounters.setClientNum n)) env.testcase :=
    started_pushAll hup hpush (pushed_conns_nodup hb m env)
  exact hall.aside hreset (.refl _)

/-- The transfer of a test case. -/
theorem endsOnce {s₁ : LkpServer} {es : List ServerEvent} {c : ConnId} {m : Command} {env : Env}
    {it : ℤ × ConnId} (hb : s.members.Base) (hm : m.command = .PUSH)
    (hup : (s.conns it.2).connected = true) (hpush : it ∈ s.pushed m env)
    (hs : s.step (.message c (.command m) env) = some s₁) (h : Runs step s₁ es t)
    (hu : EachStep step s₁ es (Undisturbed it.2)) :
    EndsOnce ((t.conns it.2).output = false ∧ (t.conns it.2).queued = 0) (s.items it.2) (t.items it.2)
      env.testcase (EachStep step s₁ es (OnlyCall it.2)) := by
  obtain ⟨h₀, hl⟩ := (started_step hb hm hup hpush hs).pumped
  have hlinked := hu.inv hl fun u e v hI hP hv => (server_move hI hP hv).2
  have hp := Pump.runs_pumped h h₀ (hlinked.and hu) fun u e v hH hv => (server_move hH.1 hH.2 hv).1
  rw [soleCall_pump] at hp
  refine endsOnce_of_pumped hp ?_
  obtain ⟨after, hafter⟩ := h.inv hl (fun u e v hI hP hv => (server_move hI hP hv).2) hu
  show t.items it.2 = s.items it.2 ++ (t.items it.2).drop (s.items it.2).length
  rw [← hafter, List.drop_left]

end LkpServer

/-! ## Both senders -/

/-- A file is sent: a RESULT command finds it, or a PUSH is started to a node.  Whatever
    else the sender does meanwhile, it leaves the transfer undisturbed.  `settled` says
    that nothing is pending any more, `sole` that the call that finds the end of the file
    is the only one queued. -/
inductive FileSent : (settled : Prop) → (before after : List (Option UInt32)) → (data : Bytes) →
    (sole : Prop) → Prop
  | result {c c₁ c₂ : LkpClient} {es : List ClientEvent} {m : Command} {env : ClientEnv} {data : Bytes} :
      m.command = .RESULT → c.connection = true → c.conn.connected = true → c.childNum = 0 →
      env.opens = true → c.disk (LkpClient.resultFile c.ROOT_DIR) = some data →
      c.step (.message (.command m) env) = some c₁ → Runs LkpClient.step c₁ es c₂ →
      EachStep LkpClient.step c₁ es LkpClient.Undisturbed →
      FileSent (c₂.conn.output = false ∧ c₂.conn.queued = 0) c.items c₂.items data
        (EachStep LkpClient.step c₁ es LkpClient.OnlyCall)
  | push {root : String} {serverTimeControl : ℕ} {es₀ es : List ServerEvent} {s s₁ s₂ : LkpServer}
      {c : ConnId} {m : Command} {env : Env} {it : ℤ × ConnId} :
      Runs LkpServer.step (.start root serverTimeControl) es₀ s → m.command = .PUSH →
      (s.conns it.2).connected = true → it ∈ s.pushed m env →
      s.step (.message c (.command m) env) = some s₁ → Runs LkpServer.step s₁ es s₂ →
      EachStep LkpServer.step s₁ es (LkpServer.Undisturbed it.2) →
      FileSent ((s₂.conns it.2).output = false ∧ (s₂.conns it.2).queued = 0) (s.items it.2)
        (s₂.items it.2) env.testcase (EachStep LkpServer.step s₁ es (LkpServer.OnlyCall it.2))

/-- **One transfer, one END.**  All chunks of a file are sent and then one END, whatever
    is sent in between, iff the call that finds the end of the file is the only one
    queued. -/
theorem oneEnd_iff {settled sole : Prop} {before after : List (Option UInt32)} {data : Bytes}
    (h : FileSent settled before after data sole) : EndsOnce settled before after data sole := by
  cases h with
  | result hm hc hup hchild ho hdata hs h hu => exact LkpClient.endsOnce hm hc hup hchild ho hdata hs h hu
  | push hreach hm hup hpush hs h hu =>
    exact LkpServer.endsOnce (LkpServer.base_of_runs hreach) hm hup hpush hs h hu

/-- A result and a test case of one byte each, with a heartbeat after the END and with
    a command forwarded before the first completion. -/
theorem oneEnd_undisturbed :
    (∃ c₁ c₂, (LkpClient.joined [7]).step (.message (.command { command := .RESULT }) {}) = some c₁ ∧
      Runs LkpClient.step c₁ [.written, .writeComplete [], .timer, .written] c₂ ∧
      c₂.items = chunkItems [7] ++ [none]) ∧
    ∃ s s₁ s₂, Runs LkpServer.step (.start "/lkp" 3) [.up 1 "10.0.0.1", .up 9 "127.0.0.1"] s ∧
      s.step (.message 9 (.command { command := .PUSH, sendToAll := true }) { testcase := [7] }) = some s₁ ∧
      Runs LkpServer.step s₁ [.message 9 (.command { command := .RUN, sendToAll := true }) {}, .written 1,
        .writeComplete 1 [], .written 1] s₂ ∧
      s₂.items 1 = s.items 1 ++ (chunkItems [7] ++ [none]) := by
  constructor
  · let es : List ClientEvent := [.written, .writeComplete [], .timer, .written]
    obtain ⟨c₁, hs, hu, hsole, c₂, h, hset⟩ :
        ∃ c₁ ∈ (LkpClient.joined [7]).step (.message (.command { command := .RESULT }) {}),
          checkSteps LkpClient.step LkpClient.Undisturbed c₁ es = true ∧
          checkSteps LkpClient.step LkpClient.OnlyCall c₁ es = true ∧
          ∃ c₂ ∈ runEvents LkpClient.step c₁ es, c₂.conn.output = false ∧ c₂.conn.queued = 0 := by
      decide +kernel
    obtain ⟨n, hitems, hn⟩ := (oneEnd_iff (.result rfl rfl rfl rfl rfl rfl hs (.of_runEvents h)
      (.of_checkSteps hu))).1 hset
    obtain rfl := hn.2 (.of_checkSteps hsole)
    exact ⟨c₁, c₂, hs, .of_runEvents h, hitems⟩
  · let push : Command := { command := .PUSH, sendToAll := true }
    let env : Env := { testcase := [7] }
    let es : List ServerEvent := [.message 9 (.command { command := .RUN, sendToAll := true }) {}, .written 1,
      .writeComplete 1 [], .written 1]
    obtain ⟨s, hreach, ⟨hup, hpush⟩, s₁, hs, hu, hsole, s₂, h, hset⟩ :
        ∃ s, Runs LkpServer.step (.start "/lkp" 3) [.up 1 "10.0.0.1", .up 9 "127.0.0.1"] s ∧
          ((s.conns 1).connected = true ∧ (0, 1) ∈ s.pushed push env) ∧
          ∃ s₁ ∈ s.step (.message 9 (.command push) env),
            checkSteps LkpServer.step (LkpServer.Undisturbed 1) s₁ es = true ∧
            checkSteps LkpServer.step (LkpServer.OnlyCall 1) s₁ es = true ∧
            ∃ s₂ ∈ runEvents LkpServer.step s₁ es, (s₂.conns 1).output = false ∧ (s₂.conns 1).queued = 0 :=
      Runs.exists_of_run (by decide +kernel)
    obtain ⟨n, hitems, hn⟩ := (oneEnd_iff (.push hreach rfl hup hpush hs (.of_runEvents h)
      (.of_checkSteps hu))).1 hset
    obtain rfl := hn.2 (.of_checkSteps hsole)
    exact ⟨s, s₁, s₂, hreach, hs, .of_runEvents h, hitems⟩

/-- A heartbeat that is written between the first chunk and the call for the next one
    makes the client send two ENDs. -/
theorem oneEnd_heartBeat : ¬ ∀ (c c₁ c₂ : LkpClient) (es : List ClientEvent) (m : Command)
    (env : ClientEnv) (data : Bytes), m.command = .RESULT → c.connection = true →
    c.conn.connected = true → c.childNum = 0 → env.opens = true →
    c.disk (LkpClient.resultFile c.ROOT_DIR) = some data →
    c.step (.message (.command m) env) = some c₁ → Runs LkpClient.step c₁ es c₂ →
    EachStep LkpClient.step c₁ es LkpClient.Undisturbed →
    c₂.conn.output = false ∧ c₂.conn.queued = 0 → c₂.items = c.items ++ (chunkItems data ++ [none]) := by
  intro hall
  let es : List ClientEvent := [.written, .timer, .written, .writeComplete [], .writeComplete [], .written]
  obtain ⟨c₁, hs, hu, c₂, h, hset, hitems⟩ :
      ∃ c₁ ∈ (LkpClient.joined [7]).step (.message (.command { command := .RESULT }) {}),
        checkSteps LkpClient.step LkpClient.Undisturbed c₁ es = true ∧
        ∃ c₂ ∈ runEvents LkpClient.step c₁ es,
          (c₂.conn.output = false ∧ c₂.conn.queued = 0) ∧ c₂.items = [some 1, none, none] := by
    decide +kernel
  have hone := hall _ c₁ c₂ _ { command := .RESULT } {} [7] rfl rfl rfl rfl rfl rfl hs (.of_runEvents h)
    (.of_checkSteps hu) hset
  rw [hitems] at hone
  exact absurd hone (by decide +kernel)

end LkpExtent
