/-
  LkpExtent formalization — a PUSH from end to end: what the nodes have and what the CLI shows,
  once all transfers have come to their end, and that they can.

  * `LkpServer.Enrolled`, `LkpServer.Keeps`: what lets the server go on;
  * `System.work`: what is still to be done on a connection;
  * `System.exists_advance`, `System.exists_calm`: some step does a part of it, until nothing is left;
  * `System.push_completes`: the whole.
-/
import LkpExtent.PushSteps

namespace LkpExtent

open Lib

/-! ## What can go on -/

namespace LkpServer
variable {s t : LkpServer} {c d : ConnId} {e : ServerEvent}

/-- The connection has its Entry, and there is a wheel. -/
def Enrolled (s : LkpServer) (c : ConnId) : Prop :=
  (∃ entry, s.members.context c = some entry) ∧ s.members.buckets ≠ []

theorem Enrolled.step (h : s.Enrolled c) (hs : s.step e = some t) : t.Enrolled c := by
  obtain ⟨hentry, hwheel⟩ := h
  cases step_move hs with
  | quiet _ _ _ hm => rw [Enrolled, hm]; exact ⟨hentry, hwheel⟩
  | heartBeat _ _ _ _ hm => rw [Enrolled, hm]; exact ⟨hentry, List.cons_ne_nil _ _⟩
  | cliUp _ _ hm => rw [Enrolled, hm]; exact ⟨hentry, hwheel⟩
  | cliRefused _ _ hm => rw [Enrolled, hm]; exact ⟨hentry, hwheel⟩
  | @workerUp d ip _ back rest _ _ _ hm =>
    rw [Enrolled, hm]
    refine ⟨?_, List.cons_ne_nil _ _⟩
    by_cases hc : c = d
    · subst hc
      exact ⟨_, Members.join_context_self⟩
    · rw [Members.join_context_of_ne hc]
      exact hentry
  | sessionDown _ _ hm => rw [Enrolled, hm]; exact ⟨hentry, hwheel⟩
  | workerDown _ _ _ _ hm => rw [Enrolled, hm]; exact ⟨hentry, hwheel⟩
  | @timer order _ _ =>
    obtain ⟨pool, hm, -⟩ := members_onTimer s order
    rw [Enrolled, hm]
    refine ⟨hentry, ?_⟩
    show s.pushBucket.connectionBuckets ≠ []
    have hwheel : s.connectionBuckets ≠ [] := hwheel
    obtain ⟨back, rest, hbuckets⟩ := List.exists_cons_of_ne_nil hwheel
    simp only [pushBucket]
    rw [hbuckets]
    exact List.cons_ne_nil _ _

/-- Every node that has come up is enrolled. -/
theorem enrolled_step (h : ∀ c, s.Remote c → s.Enrolled c) (hs : s.step e = some t) (hc : t.Remote c) :
    t.Enrolled c := by
  by_cases hw : s.members.phase c = .waiting
  · obtain ⟨hphase, hip⟩ := hc
    have hip : t.members.peerIp c ≠ "127.0.0.1" := hip
    rw [phase_step hs c] at hphase
    obtain ⟨ip, rfl⟩ : ∃ ip, e = .up c ip := by
      cases e with
      | up d ip =>
        by_cases hd : d = c
        · exact ⟨ip, by rw [hd]⟩
        · exact absurd ((if_neg hd).trans hw) hphase
      | down d =>
        have hd : d ≠ c := by
          rintro rfl
          have hen : (s.conns d).state.phase = .up := (isUp_iff _).1 (step_eq_some.1 hs).1
          rw [show s.members.phase d = (s.conns d).state.phase from rfl, hen] at hw
          cases hw
        exact absurd ((if_neg hd).trans hw) hphase
      | _ => exact absurd hw hphase
    cases step_move hs with
    | quiet he _ _ _ => exact absurd rfl (he c ip)
    | cliUp _ _ hm => rw [hm] at hip; exact absurd Members.connect_peerIp_self hip
    | cliRefused _ _ hm => rw [hm] at hip; exact absurd Members.connect_peerIp_self hip
    | workerUp _ _ _ hm =>
      rw [Enrolled, hm]
      exact ⟨⟨_, Members.join_context_self⟩, List.cons_ne_nil _ _⟩
  · refine Enrolled.step (h c ⟨hw, ?_⟩) hs
    show s.members.peerIp c ≠ "127.0.0.1"
    rw [← peerIp_step hs hw]
    exact hc.2

/-- Who is connected, and who has the session, is the same. -/
structure Keeps (s t : LkpServer) : Prop where
  connected : ∀ d, (t.conns d).connected = (s.conns d).connected
  cmd : t.CmdConnection = s.CmdConnection

theorem Keeps.trans {u : LkpServer} (h : Keeps s u) (h' : Keeps u t) : Keeps s t :=
  ⟨fun d => (h'.connected d).trans (h.connected d), h'.cmd.trans h.cmd⟩

theorem keeps_of_eq (hc : t.conns = s.conns) (hcmd : t.CmdConnection = s.CmdConnection) : Keeps s t :=
  ⟨fun d => by rw [hc], hcmd⟩

theorem Keeps.setConn {u : LkpServer} (h : Keeps s u) {x : TcpConnection Entry} (hx : x.state = (u.conns d).state) :
    Keeps s (u.setConn d x) := ⟨fun c => (connected_setConn hx c).trans (h.connected c), h.cmd⟩

theorem Keeps.send {u : LkpServer} (h : Keeps s u) (m : Message) : Keeps s (u.send d m) :=
  ⟨fun c => (connected_send d m c).trans (h.connected c), h.cmd⟩

theorem Keeps.sendToClient {u : LkpServer} (h : Keeps s u) (m : Message) : Keeps s (u.sendToClient m (some d)) := by
  simp only [LkpServer.sendToClient]
  split_ifs
  · exact h.send m
  · exact h

theorem keeps_onWriteComplete {stack : Bytes} (h : s.onWriteComplete d stack = .ok t) : Keeps s t := by
  simp only [onWriteComplete] at h
  split at h
  · split at h
    · cases h
      refine Keeps.sendToClient ?_ _
      exact keeps_of_eq rfl rfl
    · cases h
      refine Keeps.sendToClient (Keeps.setConn ?_ ?_) _
      · exact keeps_of_eq rfl rfl
      · rfl
  · cases h

/-- What is pending is written. -/
theorem exists_written (hup : (s.conns c).connected = true) (houtput : (s.conns c).output = true) :
    ∃ t, s.step (.written c) = some t ∧ Keeps s t := by
  refine ⟨s.setConn c (s.conns c).written, step_eq_some.2 ⟨?_, rfl⟩, (keeps_of_eq rfl rfl).setConn rfl⟩
  rw [enabled, (s.conns c).isUp_of_connected hup, houtput]
  rfl

/-- A queued call of the callback finds the stream. -/
theorem exists_call_of_feeding {rest : Bytes} (h : s.Feeding c rest) (hup : (s.conns c).connected = true)
    (hq : (s.conns c).queued = 1) : ∃ t, s.step (.writeComplete c []) = some t ∧ Keeps s t := by
  have hen : s.enabled (.writeComplete c []) = true := by
    rw [enabled, hq]
    rfl
  generalize hu : s.setConn c (s.conns c).dequeue = u
  have hkeeps : Keeps s u := hu ▸ (keeps_of_eq rfl rfl).setConn rfl
  have hup' : (u.conns c).connected = true := (hkeeps.connected c).trans hup
  have hfile : u.fpMap c = some (some rest) := by rw [← hu]; exact h.file
  obtain ⟨t, ht⟩ : ∃ t, u.onWriteComplete c [] = .ok t := by
    by_cases hnil : rest = []
    · subst hnil
      obtain ⟨t, ht, -⟩ := onWriteComplete_end hup' hfile []
      exact ⟨t, ht⟩
    · obtain ⟨t, ht, -⟩ := onWriteComplete_chunk hup' hfile hnil []
      exact ⟨t, ht⟩
  refine ⟨t, step_eq_some.2 ⟨hen, ?_⟩, hkeeps.trans (keeps_onWriteComplete ht)⟩
  rw [← hu] at ht
  exact ht

/-- A heartbeat of a node is handled. -/
theorem exists_heartBeat (h : s.Enrolled c) (hup : (s.conns c).connected = true) (b : HeartBeat) (env : Env) :
    ∃ t, s.step (.message c (.heartBeat b) env) = some t ∧ Keeps s t := by
  obtain ⟨⟨entry, hentry⟩, hwheel⟩ := h
  have hentry : (s.conns c).context = some entry := hentry
  have hwheel : s.connectionBuckets ≠ [] := hwheel
  obtain ⟨back, rest, hbuckets⟩ := List.exists_cons_of_ne_nil hwheel
  obtain ⟨t, ht, hkeeps⟩ : ∃ t, s.onHeartBeat c = .ok t ∧ Keeps s t := by
    simp only [onHeartBeat, hentry, insertEntry, hbuckets]
    split_ifs
    · exact ⟨_, rfl, keeps_of_eq rfl rfl⟩
    · exact ⟨_, rfl, keeps_of_eq rfl rfl⟩
  exact ⟨t, step_eq_some.2 ⟨(s.conns c).isUp_of_connected hup, ht⟩, hkeeps⟩

/-- The answer of a node is handled. -/
theorem exists_pushACK {cli : ConnId} (h : s.SessionOpen cli) (hup : (s.conns c).connected = true) (a : PushACK)
    (env : Env) : ∃ t, s.step (.message c (.pushACK a) env) = some t ∧ Keeps s t := by
  obtain ⟨hcmd, hconns, -⟩ := countAnswer_frame (s := s) a.status a.nodeId a.ackMessage
  generalize hu : s.countAnswer a.status a.nodeId a.ackMessage = u at hcmd hconns
  have hopen : u.SessionOpen cli := ⟨hcmd.trans h.1, by rw [hconns]; exact h.2⟩
  obtain ⟨t, ht, hkeeps⟩ : ∃ t, u.replyIfComplete .PUSH = .ok t ∧ Keeps s t := by
    refine ⟨_, replyIfComplete_eq hopen .PUSH, ?_⟩
    split_ifs
    · exact (keeps_of_eq hconns hcmd).send _
    · exact keeps_of_eq hconns hcmd
  rw [← hu] at ht
  exact ⟨t, step_eq_some.2 ⟨(s.conns c).isUp_of_connected hup, ht⟩, hkeeps⟩

/-- What is still to be done to feed the connection: a call for each chunk and one for the END, and
    the output written before a call. -/
def toFeed (s : LkpServer) (c : ConnId) : ℕ :=
  bif (s.conns c).writeCompleteCallback then
    4 * ((chunks kBufSize (s.unread c)).length + 1) + (1 - (s.conns c).queued)
  else 0

theorem toFeed_feeding {rest : Bytes} (h : s.Feeding c rest) :
    s.toFeed c = 4 * ((chunks kBufSize rest).length + 1) + (1 - (s.conns c).queued) := by
  have hunread : s.unread c = rest := by
    rw [LkpServer.unread, h.file]
    rfl
  rw [toFeed, h.callback, hunread]
  rfl

theorem toFeed_resting (h : s.Resting c) : s.toFeed c = 0 := by
  rw [toFeed, h.callback]
  rfl

theorem toFeed_aside (h : Aside c s t) : t.toFeed c = s.toFeed c := by
  rw [toFeed, h.alike.callback, h.alike.queued, h.unread, toFeed]

end LkpServer

/-- A node handles the next file of a push. -/
theorem LkpClient.isUp_file {c d : LkpClient} {f : File} {env : ClientEnv}
    (hs : c.step (.message (.file f) env) = some d) : d.conn.isUp = c.conn.isUp := by
  have hh : c.onMessage (.file f) env = .ok d := (LkpClient.step_eq_some.1 hs).2
  rw [(LkpClient.aside_onMessage hh rfl).conn]
  rfl

section
variable {path : String} {data : Bytes} {id : ℤ} {s : LkpServer} {c : ConnId} {n : LkpClient} {m : Message}
  {tasks reports handled : List Message}

theorem Getting.can_receive (h : Getting path data id s c n (m :: tasks) reports handled) (hn : n.Resting)
    (hup : n.conn.isUp = true) : ∃ n', n.step (.message m {}) = some n' ∧ n'.conn.isUp = true := by
  obtain ⟨f, n', rfl, hs⟩ : ∃ f n', m = .file f ∧ n.step (.message (.file f) {}) = some n' := by
    generalize hl : m :: tasks = l at h
    cases h with
    | @opening f _ _ _ hwrites hfirst =>
      cases hl
      obtain ⟨hconn, hconnected⟩ := hn.linked hup
      have hend : f.fileType ≠ .END := by
        rw [hwrites.fileType]
        exact nofun
      have hreceives : ({} : ClientEnv).receives = true := rfl
      obtain ⟨n', hs, -⟩ := LkpClient.receiving_first hconn hconnected hend hfirst hreceives
      exact ⟨f, n', rfl, hs⟩
    | writing hw hway hdata =>
      cases hway with
      | unread => cases hl
      | ended hr =>
        cases hl
        rw [List.append_nil] at hdata
        subst hdata
        obtain ⟨n', hs, -⟩ := (hw.receiving hn hup).finish rfl {}
        exact ⟨_, n', rfl, hs⟩
      | piece hwrites hfirst =>
        cases hl
        obtain ⟨n', hs, -⟩ := (hw.receiving hn hup).patch (by rw [hwrites.fileType]; exact nofun) hfirst {}
        exact ⟨_, n', rfl, hs⟩
    | answered => cases hl
    | heard => cases hl
  exact ⟨n', hs, (LkpClient.isUp_file hs).trans hup⟩

/-- With nothing on its way, the server has something left to send, or the push is over. -/
theorem Getting.feeding (h : Getting path data id s c n tasks reports handled) (htasks : tasks = [])
    (hreports : reports = []) : (∃ rest, s.Feeding c rest) ∨ s.Resting c := by
  cases h with
  | opening => cases htasks
  | writing _ hway _ =>
    cases hway with
    | unread hf => exact .inl ⟨_, hf⟩
    | ended => cases htasks
    | piece => cases htasks
  | answered => cases hreports
  | heard hr _ => exact .inr hr

theorem Getting.length_reports (h : Getting path data id s c n tasks reports handled) : reports.length ≤ 1 := by
  cases h with
  | answered => exact le_rfl
  | _ => exact Nat.zero_le _

end

namespace System
variable {path : String} {data : Bytes} {evs : List ServerEvent} {y z : System} {it : ℤ × ConnId} {c d : ConnId}
  {e : ServerEvent} {t : LkpServer}

/-- What is still to be done for the push on a connection. -/
def work (y : System) (c : ConnId) : ℕ :=
  (y.toServer c).length + 2 * (y.tasks c).length + y.server.toFeed c

/-- What the server does elsewhere. -/
theorem work_serverSends (ht : y.server.step e = some t) (hcommand : isCommand e = false)
    (hcall : LkpServer.isCall c e = false) (hwritten : e ≠ .written c) : (y.serverSends t).work c = y.work c := by
  have ha := LkpServer.aside_step ht (LkpServer.begins_of_not_command hcommand) hwritten hcall
  rw [work, tasks_serverSends ht hcommand hcall, show (y.serverSends t).server = t from rfl,
    LkpServer.toFeed_aside ha]
  rfl

/-- The step brings the push on `c` nearer to its end, and no other one further from it. -/
structure Advances (y : System) (c : ConnId) (e : SystemEvent) (z : System) : Prop where
  step : y.step e = some z
  alone : e.isCommand = false
  less : z.work c < y.work c
  others : ∀ d, z.work d ≤ y.work d

/-- The server advances the push on `c`, and does nothing elsewhere. -/
theorem advances_server (ht : y.server.step e = some t) (he : e.isMessage = false)
    (hless : (y.serverSends t).work c < y.work c)
    (hothers : ∀ d, d ≠ c → LkpServer.isCall d e = false ∧ e ≠ .written d) :
    y.Advances c (.server e) (y.serverSends t) := by
  have hcommand : isCommand e = false := by
    cases e with
    | message d m env => cases he
    | _ => rfl
  refine ⟨?_, rfl, hless, fun d => ?_⟩
  · simp only [System.step]
    rw [if_neg (by rw [he]; exact Bool.false_ne_true)]
    exact serverStep_of_step ht
  · by_cases hd : d = c
    · rw [hd]
      exact hless.le
    · obtain ⟨hcall, hwritten⟩ := hothers d hd
      exact (work_serverSends ht hcommand hcall hwritten).le

theorem advances_written {rest : Bytes} (h : y.server.Feeding c rest) (hq : (y.server.conns c).queued = 0)
    (hcli : y.server.CmdConnection ≠ some c) (ht : y.server.step (.written c) = some t) :
    y.Advances c (.server (.written c)) (y.serverSends t) := by
  have hf := h.step ht rfl rfl hcli
  have hqueued : (t.conns c).queued = 1 := by
    have hh : Except.ok (y.server.setConn c (y.server.conns c).written) = .ok t := (LkpServer.step_eq_some.1 ht).2
    cases hh
    rw [LkpServer.setConn_conns, TcpConnection.written, h.callback, hq]
    rfl
  refine advances_server ht rfl ?_ fun d hd => ⟨rfl, fun he => hd ?_⟩
  · rw [work, work, tasks_serverSends ht rfl rfl, show (y.serverSends t).server = t from rfl,
      LkpServer.toFeed_feeding hf, LkpServer.toFeed_feeding h, hq, hqueued,
      show (y.serverSends t).toServer = y.toServer from rfl]
    omega
  · cases he
    rfl

theorem advances_call {rest : Bytes} (h : y.server.Feeding c rest) (hup : (y.server.conns c).connected = true)
    (hq : (y.server.conns c).queued = 1) (ht : y.server.step (.writeComplete c []) = some t) :
    y.Advances c (.server (.writeComplete c [])) (y.serverSends t) := by
  have htasks : ∀ {f : File}, t.sent = y.server.sent ++ [(c, .file f)] →
      ((y.serverSends t).tasks c).length = (y.tasks c).length + 1 := by
    intro f hsent
    have hadded : (y.serverSends t).tasks c = y.tasks c ++ [.file f] := by
      simp only [tasks, System.serverSends]
      rw [hsent, List.drop_left, List.filter_append]
      simp [Message.isTask]
    rw [hadded, List.length_append]
    rfl
  refine advances_server ht rfl ?_ fun d hd => ⟨decide_eq_false (Ne.symm hd), fun he => by cases he⟩
  rw [work, work, show (y.serverSends t).server = t from rfl, show (y.serverSends t).toServer = y.toServer from rfl,
    LkpServer.toFeed_feeding h, hq]
  rcases h.call hup ht with ⟨hne, hf, hsent⟩ | ⟨rfl, hr, hsent⟩
  · have hchunks := congrArg List.length (chunks_of_ne_nil kBufSize_pos hne)
    rw [List.length_cons] at hchunks
    rw [htasks hsent, LkpServer.toFeed_feeding hf]
    omega
  · rw [htasks hsent, LkpServer.toFeed_resting hr]
    omega

theorem advances_deliver {m : Message} {rest : List Message} {env : Env} (hq : y.toServer c = m :: rest)
    (ht : y.server.step (.message c m env) = some t) (hcommand : isCommand (.message c m env) = false) :
    y.Advances c (.deliver c env) ((y.popServer c rest).serverSends t) := by
  have hwork : ∀ d, ((y.popServer c rest).serverSends t).work d = (y.popServer c rest).work d := fun d =>
    work_serverSends (y := y.popServer c rest) ht hcommand rfl nofun
  have hless : (y.popServer c rest).work c < y.work c := by
    have hone : (y.popServer c rest).toServer c = rest := Function.update_self ..
    rw [work, work, hone, hq, List.length_cons, show (y.popServer c rest).tasks c = y.tasks c from rfl,
      show (y.popServer c rest).server = y.server from rfl]
    omega
  refine ⟨?_, rfl, (hwork c).trans_lt hless, fun d => ?_⟩
  · simp only [System.step, hq]
    exact serverStep_of_step (y := y.popServer c rest) ht
  · rw [hwork d]
    by_cases hd : d = c
    · rw [hd]
      exact hless.le
    · have hsame : (y.popServer c rest).toServer d = y.toServer d := Function.update_of_ne hd ..
      rw [work, hsame]
      rfl

theorem advances_receive {m : Message} {rest ms : List Message} {env : ClientEnv} {n : LkpClient}
    (hq : y.toNode c = m :: rest) (hs : (y.node c).step (.message m env) = some n)
    (hsent : n.sent = (y.node c).sent ++ ms) (hms : ms.length ≤ 1) :
    y.Advances c (.receive c env) ((y.popNode c rest).nodeSends c n) := by
  have hless : ((y.popNode c rest).nodeSends c n).work c < y.work c := by
    have htasks : (y.tasks c).length = (rest.filter Message.isTask).length + 1 := by
      rw [tasks, hq, List.filter_cons_of_pos (LkpClient.isTask_of_step hs), List.length_cons]
    have htasks' : ((y.popNode c rest).nodeSends c n).tasks c = rest.filter Message.isTask := by
      simp only [tasks, System.nodeSends, System.popNode, Function.update_self]
    have hback : ((y.popNode c rest).nodeSends c n).toServer c = y.toServer c ++ ms := by
      simp only [System.nodeSends, System.popNode, Function.update_self, hsent, List.drop_left]
    rw [work, work, htasks, htasks', hback, List.length_append,
      show ((y.popNode c rest).nodeSends c n).server = y.server from rfl]
    omega
  refine ⟨?_, rfl, hless, fun d => ?_⟩
  · simp only [System.step, hq]
    exact nodeStep_of_step (y := y.popNode c rest) hs
  · by_cases hd : d = c
    · rw [hd]
      exact hless.le
    · have htasks : ((y.popNode c rest).nodeSends c n).tasks d = y.tasks d := by
        simp only [tasks, System.nodeSends, System.popNode, Function.update_of_ne hd]
      have hback : ((y.popNode c rest).nodeSends c n).toServer d = y.toServer d := by
        simp only [System.nodeSends, System.popNode, Function.update_of_ne hd]
      rw [work, htasks, hback]
      rfl

/-! ### To the end of all pushes -/

section
variable {path : ConnId → String} {its : List (ℤ × ConnId)} {cli : ConnId}

/-- The targets are connected and up, and the session of the CLI is open. -/
structure Able (its : List (ℤ × ConnId)) (cli : ConnId) (y : System) : Prop where
  session : y.server.SessionOpen cli
  connected : ∀ it ∈ its, (y.server.conns it.2).connected = true
  nodes : ∀ it ∈ its, (y.node it.2).conn.isUp = true
  enrolled : ∀ it ∈ its, y.server.Enrolled it.2

theorem Able.serverSends (h : Able its cli y) (ht : y.server.step e = some t) (hk : y.server.Keeps t) :
    Able its cli (y.serverSends t) where
  session := ⟨hk.cmd.trans h.session.1, (hk.connected cli).trans h.session.2⟩
  connected it hit := (hk.connected it.2).trans (h.connected it hit)
  nodes := h.nodes
  enrolled it hit := (h.enrolled it hit).step ht

theorem Able.popServer (h : Able its cli y) (rest : List Message) : Able its cli (y.popServer c rest) :=
  ⟨h.session, h.connected, h.nodes, h.enrolled⟩

theorem Able.receive (h : Able its cli y) (rest : List Message) {n : LkpClient} (hn : n.conn.isUp = true) :
    Able its cli ((y.popNode c rest).nodeSends c n) := by
  refine ⟨h.session, h.connected, fun it hit => ?_, h.enrolled⟩
  by_cases hc : it.2 = c
  · rw [← hc]
    simp only [System.nodeSends, System.popNode, Function.update_self]
    exact hn
  · simp only [System.nodeSends, System.popNode, Function.update_of_ne hc]
    exact h.nodes it hit

/-- All that is on its way to a node is tasks. -/
theorem tasks_eq (h : y.Suited) (hr : y.server.Remote c) : y.tasks c = y.toNode c := by
  refine List.filter_eq_self.2 fun m hm => ?_
  have hsuits := h.toNode c m hm
  cases m with
  | command k | file f => rfl
  | ret r => exact absurd hsuits.2 hr.2
  | _ => cases hsuits

/-- **As long as a push is under way, some step brings it nearer to its end.** -/
theorem exists_advance (h : y.Pushing path data its evs) (ha : Able its cli y) (hit : it ∈ its)
    (hnot : ¬ y.Calm it.2) : ∃ e z, y.Advances it.2 e z ∧ Able its cli z := by
  have hg := h.gets it hit
  have hup := ha.connected it hit
  cases htasks : y.tasks it.2 with
  | cons m tasks =>
    -- a task has arrived at the node
    have hget := hg.getting
    rw [htasks] at hget
    rw [tasks_eq h.suited hg.remote] at htasks
    obtain ⟨n, hs, hn⟩ := hget.can_receive hg.node (ha.nodes it hit)
    obtain ⟨-, ms, hsent, -, hget⟩ := hget.receive hg.node hs
    have hms := hget.length_reports
    rw [List.length_append] at hms
    exact ⟨_, _, advances_receive htasks hs hsent (by omega), ha.receive tasks hn⟩
  | nil =>
    cases hq : y.toServer it.2 with
    | cons m rest =>
      -- a message of the node has arrived at the server
      by_cases hbeat : m.isHeartBeat = true
      · cases m with
        | heartBeat b =>
          obtain ⟨t, ht, hk⟩ := LkpServer.exists_heartBeat (ha.enrolled it hit) hup b {}
          exact ⟨_, _, advances_deliver hq ht rfl, (ha.popServer rest).serverSends ht hk⟩
        | _ => cases hbeat
      · have hget := hg.getting
        rw [reports, hq, List.filter_cons_of_pos (by simpa using hbeat)] at hget
        obtain ⟨rfl, -⟩ := hget.report
        obtain ⟨t, ht, hk⟩ := LkpServer.exists_pushACK ha.session hup
          { status := true, ackMessage := "push recv success", nodeId := u32 it.1 } {}
        exact ⟨_, _, advances_deliver hq ht rfl, (ha.popServer rest).serverSends ht hk⟩
    | nil =>
      -- the server has something left to send
      have hreports : y.reports it.2 = [] := by rw [reports, hq]; rfl
      obtain ⟨rest, hf⟩ : ∃ rest, y.server.Feeding it.2 rest := by
        rcases hg.getting.feeding htasks hreports with hf | hr
        · exact hf
        · exact absurd ⟨hr, hg.node, htasks, hreports⟩ hnot
      rcases hf.pending with ⟨hqueued, houtput⟩ | ⟨hqueued, -⟩
      · obtain ⟨t, ht, hk⟩ := LkpServer.exists_written hup houtput
        exact ⟨_, _, advances_written hf hqueued (hg.not_cmd h.suited.knows) ht, ha.serverSends ht hk⟩
      · obtain ⟨t, ht, hk⟩ := LkpServer.exists_call_of_feeding hf hup hqueued
        exact ⟨_, _, advances_call hf hup hqueued ht, ha.serverSends ht hk⟩

/-- **All pushes can come to their end**, from wherever they are. -/
theorem exists_calm (h : y.Pushing path data its evs) (htext : 0 ∉ data) (ha : Able its cli y) :
    ∃ es z, Runs System.step y es z ∧ (∀ e ∈ es, e.isCommand = false) ∧
      EachState System.step y es (Able its cli) ∧ ∀ it ∈ its, z.Calm it.2 := by
  let I (y : System) : Prop := (∃ evs, y.Pushing path data its evs) ∧ Able its cli y
  have hadvance : ∀ y, I y → ¬ (∀ it ∈ its, y.Calm it.2) →
      ∃ e z, y.step e = some z ∧ e.isCommand = false ∧ I z ∧ (its.map fun it => z.work it.2).sum <
        (its.map fun it => y.work it.2).sum := by
    rintro y ⟨⟨evs, hpushing⟩, ha⟩ hnot
    obtain ⟨it, hit, hway⟩ : ∃ it ∈ its, ¬ y.Calm it.2 := by
      simpa only [not_forall, exists_prop] using hnot
    obtain ⟨e, z, hadvances, ha'⟩ := exists_advance hpushing ha hit hway
    obtain ⟨evs', -, hpushing'⟩ := pushing_step hpushing htext ha.connected hadvances.step hadvances.alone
    exact ⟨e, z, hadvances.step, hadvances.alone, ⟨⟨_, hpushing'⟩, ha'⟩,
      List.sum_lt_sum _ _ (fun it _ => hadvances.others it.2) ⟨it, hit, hadvances.less⟩⟩
  obtain ⟨es, z, hrun, halone, hstate, hcalm⟩ := exists_run_of_measure _ hadvance ⟨⟨evs, h⟩, ha⟩
  exact ⟨es, z, hrun, halone, fun es₁ es₂ u hes hu => (hstate es₁ es₂ u hes hu).2, hcalm⟩

end

/-! ## What the CLI is told -/

theorem Gets.settles (h : Gets path data evs y it) :
    (y.Calm it.2 → LkpServer.answersOn it.2 evs = [pushedACK it.1] ∧ (y.node it.2).disk path = some data) ∧
      (¬ y.Calm it.2 → LkpServer.answersOn it.2 evs = []) := by
  obtain ⟨hcalm, hnot⟩ := h.getting.settles
  refine ⟨fun hc => hcalm ⟨hc.server, hc.tasks, hc.reports⟩, fun hc => hnot fun hall => hc ?_⟩
  exact ⟨hall.1, h.node, hall.2.1, hall.2.2⟩

theorem Idle.answersOn {c : ConnId} (h : Idle evs y c) : LkpServer.answersOn c evs = [] := by
  rw [List.eq_nil_iff_forall_not_mem]
  intro m hm
  obtain ⟨k, a, hnone, -⟩ := Follows.answer h (LkpServer.mem_answersOn.1 hm)
  cases hnone

section
variable {path : ConnId → String} {its : List (ℤ × ConnId)}

theorem Pushing.length_answersOn (h : y.Pushing path data its evs) (c : ConnId) :
    (LkpServer.answersOn c evs).length ≤ 1 := by
  by_cases hc : c ∈ its.map Prod.snd
  · obtain ⟨it, hit, rfl⟩ := List.mem_map.1 hc
    rcases (h.gets it hit).getting.answer with hnone | hone
    · rw [hnone]; exact Nat.zero_le _
    · rw [hone]; exact le_rfl
  · rw [(h.idle c hc).answersOn]
    exact Nat.zero_le _

/-- Only targets answer. -/
theorem Pushing.answer (h : y.Pushing path data its evs) {a : ConnId × Message} (ha : a ∈ LkpServer.answers evs) :
    a.1 ∈ its.map Prod.snd ∧ commandOf a.2 = .PUSH := by
  have hmem : a.2 ∈ LkpServer.answersOn a.1 evs := LkpServer.mem_answersOn.2 ha
  by_cases hc : a.1 ∈ its.map Prod.snd
  · refine ⟨hc, ?_⟩
    obtain ⟨it, hit, hconn⟩ := List.mem_map.1 hc
    rw [← hconn] at hmem
    rcases (h.gets it hit).getting.answer with hnone | hone
    · rw [hnone] at hmem; cases hmem
    · rw [hone, List.mem_singleton] at hmem
      rw [hmem]
      rfl
  · rw [(h.idle a.1 hc).answersOn] at hmem
    cases hmem

end

section
variable {root : String} {serverTimeControl : ℕ} {node : ConnId → LkpClient} {es₀ es : List SystemEvent}
  {y₀ : System} {cli : ConnId} {message : Command} {env : Env}

theorem enrolled_of_runs {c : ConnId} (h : Runs step (start root serverTimeControl node) es y)
    (hc : y.server.Remote c) : y.server.Enrolled c := by
  refine h.inv' (I := fun y => ∀ c, y.server.Remote c → y.server.Enrolled c) (fun _ hc => absurd rfl hc.1) ?_ c hc
  intro u e v hu hv c hc
  cases steps_of_step hv with
  | server _ ht => exact LkpServer.enrolled_step hu ht hc
  | command ht => exact LkpServer.enrolled_step hu ht hc
  | deliver _ ht => exact LkpServer.enrolled_step hu ht hc
  | node _ _ => exact hu c hc
  | receive _ _ => exact hu c hc

/-- **A PUSH reaches all its targets, and the CLI is told so.**  A PUSH of a text is given while
    nothing else is under way, and no other command comes before its Return; its targets stay
    connected.  Whatever else happens, in whatever order the chunks are written, sent, received and
    answered: as long as the transfer to one of them is under way, there is no Return.  Then there is
    one, it counts all of them as successes, and each of them has the file.  And as long as the nodes
    are up, it can still come to this. -/
theorem push_completes (hreach : Runs step (start root serverTimeControl node) es₀ y)
    (hint : y.server.clientPool.nodeCount ≤ 2 ^ 31) (hcommand : message.command = .PUSH) (htext : 0 ∉ env.testcase)
    (hcalm : ∀ c, y.server.members.phase c ≠ .gone → y.Calm c) (hne : y.server.targets message ≠ [])
    (hup : ∀ it ∈ y.server.targets message, (y.server.conns it.2).connected = true)
    (hopens : ∀ it ∈ y.server.targets message, env.opens it.1 = true)
    (hsend : y.step (.command cli message env) = some y₀) (hrun : Runs step y₀ es z)
    (hopen : EachState step y₀ es fun u => u.server.SessionOpen cli)
    (hstay : EachState step y₀ es fun u => ∀ it ∈ y.server.targets message, (u.server.conns it.2).connected = true)
    (halone : ∀ e ∈ es, e.isCommand = false) :
    (¬ (∀ it ∈ y.server.targets message, z.Calm it.2) → z.server.returns = y.server.returns) ∧
    ((∀ it ∈ y.server.targets message, z.Calm it.2) →
      (∀ it ∈ y.server.targets message,
        (z.node it.2).disk ((y.node it.2).testcasePath message.testcase) = some env.testcase) ∧
      ∃ r, LkpServer.ReturnFor .PUSH (y.server.targets message) (fun _ => (true, "push recv success")) r ∧
        z.server.returns = y.server.returns ++ [(cli, r)] ∧
        LkpCmdClient.onReturnMsg r = some ⟨["PUSH : " ++ toString (y.server.targets message).length ++ " / " ++
          toString (y.server.targets message).length ++ " clients succeess!"], true⟩) ∧
    ((∀ it ∈ y.server.targets message, (z.node it.2).conn.isUp = true) → ∃ es' w, Runs step z es' w ∧
      (∀ e ∈ es', e.isCommand = false) ∧
      EachState step z es' (fun u => u.server.SessionOpen cli ∧
        ∀ it ∈ y.server.targets message, (u.server.conns it.2).connected = true) ∧
      ∀ it ∈ y.server.targets message, w.Calm it.2) := by
  have hsuited := suited_of_runs hreach
  have hb := hsuited.knows.base
  have hrange := LkpServer.targets_range hb hint message
  obtain ⟨hbegun, hstart⟩ := pushing_start hsuited hint hcommand htext hcalm hup hopens hne hsend
  obtain ⟨evs, hevs, hstate, hno, hpushing⟩ := pushing_runs hstart htext hrun hstay hopen halone
  have hnodup := answers_nodup hpushing.length_answersOn
  have htally : y₀.server.tally = Gather.new (y.server.targets message).length := by
    rw [hbegun.tally, LkpServer.length_targets (.inr hne)]
  have hsettles := fun it (hit : it ∈ y.server.targets message) => (hpushing.gets it hit).settles
  obtain ⟨vs, hvs, hz, -, hreturns⟩ := LkpServer.runs_answers hevs hstate hno fun a ha => (hpushing.answer ha).2
  refine ⟨fun hnot => ?_, fun hsettled => ?_, fun hnodes => ?_⟩
  · obtain ⟨it, hit, hway⟩ : ∃ it ∈ y.server.targets message, ¬ z.Calm it.2 := by
      simpa only [not_forall, exists_prop] using hnot
    have hlt := length_answers_lt hnodup (fun a ha => (hpushing.answer ha).1) hit ((hsettles it hit).2 hway)
    have hacks : y₀.server.tally.acks + vs.length < y₀.server.tally.num := by
      rw [htally, Gather.new_acks, Gather.new_num, ← hvs.length_eq]
      omega
    rw [hreturns, Gather.completions_of_lt hacks, hbegun.returns]
    exact List.append_nil _
  · have hall := fun it hit => (hsettles it hit).1 (hsettled it hit)
    have hperm : (LkpServer.answers evs).Perm ((y.server.targets message).map fun it =>
        (it.2, LkpServer.answerMessage .PUSH it.1 (true, "push recv success"))) :=
      answers_perm hnodup (fun a ha => (hpushing.answer ha).1) (LkpServer.targets_conns_nodup hb message)
        fun it hit => (hall it hit).1
    have hvotes : vs.Perm ((y.server.targets message).map (LkpServer.nodeVote fun _ => (true, "push recv success"))) :=
      LkpServer.votes_perm hrange hperm hvs
    have hr : LkpServer.ReturnFor .PUSH (y.server.targets message) (fun _ => (true, "push recv success")) _ :=
      LkpServer.returnFor_of_perm (LkpServer.targets_nodup message) hrange hvotes
    have hlen : (LkpServer.answers evs).length = (y.server.targets message).length := by
      simpa using hperm.length_eq
    have hreturn := LkpServer.returns_of_all hevs hstate hno (fun a ha => (hpushing.answer ha).2) htally hlen
      (List.length_pos_of_ne_nil hne)
    rw [hz, htally, hbegun.returns] at hreturn
    have hshown := onReturnMsg_of_returnFor hr rfl nofun
    generalize retOf ((Gather.new (y.server.targets message).length).counts vs) .PUSH = r at hr hreturn hshown
    have hnone : r.nodeInfo = [] := by
      rw [List.eq_nil_iff_forall_not_mem]
      intro i hi
      obtain ⟨it, -, hfailed, -⟩ := (hr.nodeInfo i).1 hi
      cases hfailed
    have hcount : (y.server.targets message).countP (fun _ => true) = (y.server.targets message).length :=
      List.countP_eq_length.2 fun _ _ => rfl
    rw [hnone, hcount] at hshown
    exact ⟨fun it hit => (hall it hit).2, r, hr, hreturn, hshown⟩
  · have hz := (hreach.append (.single hsend)).append hrun
    have hable : Able (y.server.targets message) cli z := ⟨hopen es [] z (List.append_nil es).symm hrun,
      hstay es [] z (List.append_nil es).symm hrun, hnodes,
      fun it hit => enrolled_of_runs hz (hpushing.gets it hit).remote⟩
    obtain ⟨es', w, hrun', halone', hstate', hw⟩ := exists_calm hpushing htext hable
    exact ⟨es', w, hrun', halone', fun es₁ es₂ u hes hu => ⟨(hstate' es₁ es₂ u hes hu).session,
      (hstate' es₁ es₂ u hes hu).connected⟩, hw⟩

/-- Two nodes get a test case, one ahead of the other. -/
theorem push_completes_two :
    let message : Command := { command := .PUSH, sendToAll := true, testcase := "job" }
    let es : List SystemEvent := [.server (.written 1), .receive 2 {}, .node 1 .timer, .server (.writeComplete 1 []),
      .receive 1 {}, .receive 1 {}, .server (.written 2), .deliver 1 {}, .deliver 1 {}, .server (.writeComplete 2 []),
      .receive 2 {}, .deliver 2 {}]
    ∃ y y₀ z r, Runs step (start "" 3 fun _ => .joined [])
        [.server (.up 1 "10.0.0.1"), .server (.up 2 "10.0.0.2"), .server (.up 9 "127.0.0.1")] y ∧
      y.step (.command 9 message pushHi) = some y₀ ∧ Runs step y₀ es z ∧
      (∀ c ∈ [1, 2], (z.node c).disk ((y.node c).testcasePath "job") = some [104, 105, 10]) ∧
      z.server.returns = [(9, r)] ∧
      LkpCmdClient.onReturnMsg r = some ⟨["PUSH : 2 / 2 clients succeess!"], true⟩ := by
  intro message es
  obtain ⟨y, hy, hint, htargets, hup, hreturns, y₀, hsend, hopen, hstay, hrun⟩ : ∃ y,
      Runs step (start "" 3 fun _ => .joined [])
        [.server (.up 1 "10.0.0.1"), .server (.up 2 "10.0.0.2"), .server (.up 9 "127.0.0.1")] y ∧
      y.server.clientPool.nodeCount ≤ 2 ^ 31 ∧ y.server.targets message = [(0, 1), (1, 2)] ∧
      (∀ it ∈ y.server.targets message, (y.server.conns it.2).connected = true) ∧ y.server.returns = [] ∧
      ∃ y₀ ∈ y.step (.command 9 message pushHi), checkStates step (fun u => u.server.SessionOpen 9) y₀ es = true ∧
        checkStates step (fun u => ∀ it ∈ y.server.targets message, (u.server.conns it.2).connected = true) y₀ es = true ∧
        (runEvents step y₀ es).any (fun z => ∀ c ∈ [1, 2],
          ((z.server.conns c).writeCompleteCallback = false ∧ (z.server.conns c).queued = 0) ∧
          ((z.node c).conn.writeCompleteCallback = false ∧ (z.node c).conn.queued = 0 ∧
            (z.node c).connection = true ∧ (z.node c).conn.connected = true) ∧
          (z.tasks c).isEmpty = true ∧ (z.reports c).isEmpty = true) = true :=
    Runs.exists_of_run (by decide +kernel)
  obtain ⟨z, hz, hover⟩ := Runs.exists_of_run hrun
  have hcalm := calm_runs (fun c _ => calm_start ⟨rfl, rfl, fun _ => ⟨rfl, rfl⟩⟩) hy (by decide)
  have hmem : ∀ it ∈ y.server.targets message, it.2 ∈ [1, 2] := by
    intro it hit
    rw [htargets] at hit
    exact List.mem_map_of_mem (f := Prod.snd) hit
  have hsettled : ∀ it ∈ y.server.targets message, z.Calm it.2 := by
    intro it hit
    obtain ⟨⟨hcallback, hqueued⟩, ⟨hcallback', hqueued', hlinked⟩, htasks, hreports⟩ := hover it.2 (hmem it hit)
    exact ⟨⟨hcallback, hqueued⟩, ⟨hcallback', hqueued', fun _ => hlinked⟩, List.isEmpty_iff.1 htasks,
      List.isEmpty_iff.1 hreports⟩
  obtain ⟨hstored, r, -, hret, hshown⟩ := (push_completes hy hint rfl (by decide) hcalm (by rw [htargets]; exact nofun) hup
    (fun _ _ => rfl) hsend hz (.of_checkStates hopen) (.of_checkStates hstay) (by decide)).2.1 hsettled
  rw [htargets] at hstored hshown
  rw [hreturns] at hret
  refine ⟨y, y₀, z, r, hy, hsend, hz, fun c hc => ?_, hret, hshown⟩
  rcases List.mem_cons.1 hc with rfl | hc
  · exact hstored (0, 1) List.mem_cons_self
  · rw [List.mem_singleton.1 hc]
    exact hstored (1, 2) (List.mem_cons_of_mem _ List.mem_cons_self)

end

end System

end LkpExtent
