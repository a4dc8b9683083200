/-
  LkpExtent formalization — an UPDATE or a RUN from end to end: from the command of the CLI, over
  what the nodes do, to what the CLI shows.

  * `LkpClient.answer`: what a node answers; `LkpClient.Resting`, `LkpServer.Resting`: neither is
    in the middle of a file;
  * `Stage`: how far a command has got on one connection;
  * `System.Follows`, `System.follows_step`: every connection is in some stage, and the answers
    that the server has handled are those of the last stage;
  * `System.reported`: the CLI is told what the nodes have done, once all have answered.
-/
import LkpExtent.Aggregation
import LkpExtent.CmdClient
import LkpExtent.Protocol
import LkpExtent.PushTransfer

namespace LkpExtent

open Lib

/-! ## A node -/

/-- A node acts on the message. -/
def Message.isTask : Message → Bool
  | .command _ | .file _ => true
  | _ => false

def Message.isHeartBeat : Message → Bool
  | .heartBeat _ => true
  | _ => false

namespace LkpClient
variable {c d : LkpClient} {e : ClientEvent} {message : Command} {env : ClientEnv}

/-- What a node answers to an UPDATE or a RUN. -/
def answer (c : LkpClient) (message : Command) (env : ClientEnv) : CommandACK :=
  let ACK : CommandACK := { command := message.command, nodeId := message.nodeId }
  if c.childNum ≥ 1 then
    { ACK with status := false, ackMessage := "ERROR 10: Command " ++ c.lastCmdString ++ " is still running!" }
  else if env.forks then { ACK with status := true }
  else { ACK with status := false, ackMessage := "ERROR 11: Fork Error!" }

theorem answer_command : (c.answer message env).command = message.command := by
  simp only [answer]
  split_ifs <;> rfl

theorem answer_nodeId : (c.answer message env).nodeId = message.nodeId := by
  simp only [answer]
  split_ifs <;> rfl

/-- A node that is not in the middle of a result; while it is up, `connection_` is set. -/
structure Resting (c : LkpClient) : Prop where
  callback : c.conn.writeCompleteCallback = false
  queued : c.conn.queued = 0
  linked : c.conn.isUp = true → c.connection = true ∧ c.conn.connected = true

theorem Resting.aside (h : c.Resting) (ha : Aside c d) : d.Resting := by
  have hconn := ha.conn
  refine ⟨by rw [hconn]; exact h.callback, by rw [hconn]; exact h.queued, fun hup => ?_⟩
  rw [hconn] at hup
  rw [ha.connection, hconn]
  exact h.linked hup

/-- All that a node sends by itself is heartbeats. -/
theorem Resting.step (h : c.Resting) (hs : c.step e = some d) (he : e.isMessage = false) :
    d.Resting ∧ ∃ ms, d.sent = c.sent ++ ms ∧ ∀ m ∈ ms, m.isHeartBeat = true := by
  obtain ⟨hen, hh⟩ := step_eq_some.1 hs
  have hsame : ∀ {d : LkpClient}, d.sent = c.sent → ∃ ms, d.sent = c.sent ++ ms ∧ ∀ m ∈ ms, m.isHeartBeat = true :=
    fun hd => ⟨[], by rw [hd, List.append_nil], nofun⟩
  cases e with
  | up => cases hh; exact ⟨⟨h.callback, h.queued, fun _ => ⟨rfl, rfl⟩⟩, hsame rfl⟩
  | down => cases hh; exact ⟨⟨h.callback, h.queued, fun hup => Bool.noConfusion hup⟩, hsame rfl⟩
  | message m env => cases he
  | written =>
    cases hh
    have hqueued : c.conn.written.queued = 0 := by
      simp only [TcpConnection.written, h.callback]
      exact h.queued
    exact ⟨⟨h.callback, hqueued, h.linked⟩, hsame rfl⟩
  | writeComplete stack =>
    rw [enabled, h.queued] at hen
    cases hen
  | timer =>
    refine ⟨h.aside (aside_onTimer hh), ?_⟩
    have hh : c.onTimer = .ok d := hh
    simp only [onTimer] at hh
    split_ifs at hh
    obtain ⟨-, -, hsent | hsent⟩ := sendToServer_sent hh
    · exact ⟨_, hsent, by simp [Message.isHeartBeat]⟩
    · exact hsame hsent
  | childExit => cases hh; exact ⟨h.aside (aside_of_eq rfl rfl rfl), hsame rfl⟩

/-- An UPDATE or a RUN is answered at once. -/
theorem Resting.answers (h : c.Resting) (hcommand : message.command = .UPDATE ∨ message.command = .RUN)
    (hs : c.step (.message (.command message) env) = some d) :
    d.Resting ∧ d.sent = c.sent ++ [.commandACK (c.answer message env)] := by
  obtain ⟨hen, hh⟩ := step_eq_some.1 hs
  have hconn : c.conn.connected = true := (h.linked hen).2
  have hbegins : c.begins (.message (.command message) env) = false := by
    rcases hcommand with hm | hm <;> simp [begins, hm]
  have hh : c.onMessage (.command message) env = .ok d := hh
  refine ⟨h.aside (aside_onMessage hh hbegins), ?_⟩
  simp only [onMessage, onCommandMsg] at hh
  split_ifs at hh with hchild
  · simp only [answer, if_pos hchild]
    exact (sendToServer_sent hh).2.1 hconn
  · have hh : { c with lastCmdString := lkpEnumToCmds message.command c.lastCmdString }.forkChild
        { command := message.command, nodeId := message.nodeId } env = .ok d := by
      rcases hcommand with hm | hm
      · simpa only [hm] using hh
      · simpa only [hm] using hh
    simp only [forkChild] at hh
    simp only [answer, if_neg hchild]
    split_ifs at hh with hforks
    · rw [if_pos hforks]
      exact (sendToServer_sent hh).2.1 hconn
    · rw [if_neg hforks]
      exact (sendToServer_sent hh).2.1 hconn

/-- What is no task is no message for a node. -/
theorem isTask_of_step {m : Message} (hs : c.step (.message m env) = some d) : m.isTask = true := by
  have hh := (step_eq_some.1 hs).2
  cases m with
  | command m | file m => rfl
  | _ => cases hh

end LkpClient

/-! ## The server -/

namespace LkpServer
variable {s t : LkpServer} {c : ConnId} {e : ServerEvent}

/-- No test case is being pushed on the connection. -/
structure Resting (s : LkpServer) (c : ConnId) : Prop where
  callback : (s.conns c).writeCompleteCallback = false
  queued : (s.conns c).queued = 0

theorem Resting.not_call (h : s.Resting c) (hs : s.step e = some t) : isCall c e = false := by
  cases e with
  | writeComplete d stack =>
    rw [isCall, decide_eq_false_iff_not]
    rintro rfl
    have hen := (step_eq_some.1 hs).1
    rw [enabled, h.queued] at hen
    cases hen
  | _ => rfl

theorem Resting.step (h : s.Resting c) (hs : s.step e = some t) (hbegins : begins c s e = false) : t.Resting c := by
  by_cases hwritten : e = .written c
  · subst hwritten
    have hh : Except.ok (s.setConn c (s.conns c).written) = .ok t := (step_eq_some.1 hs).2
    cases hh
    refine ⟨?_, ?_⟩
    · rw [setConn_conns]
      exact h.callback
    · rw [setConn_conns, TcpConnection.written, h.callback]
      exact h.queued
  · have ha := (aside_step hs hbegins hwritten (h.not_call hs)).alike
    exact ⟨ha.callback.trans h.callback, ha.queued.trans h.queued⟩

theorem begins_of_not_command (hcommand : isCommand e = false) : begins c s e = false := by
  cases e with
  | message d m env =>
    cases m with
    | command m => cases hcommand
    | _ => rfl
  | _ => rfl

/-- Without a command and without the callback, the server sends no task. -/
theorem sends_no_task (hs : s.step e = some t) (hcommand : isCommand e = false) (hcall : isCall c e = false) :
    ∃ its, t.sent = s.sent ++ its ∧ ∀ it ∈ its, it.1 = c → it.2.isTask = false := by
  obtain ⟨its, hsent, hits⟩ := addresses_handle (step_eq_some.1 hs).2
  refine ⟨its, hsent, ?_⟩
  rintro ⟨d, m⟩ hit rfl
  have haddressed := hits _ hit
  cases m with
  | command k =>
    obtain ⟨-, d', m, env, rfl, -⟩ := haddressed
    cases hcommand
  | file f =>
    rcases haddressed with ⟨-, -, d', m, env, rfl, -⟩ | ⟨-, stack, rfl⟩
    · cases hcommand
    · rw [isCall, decide_eq_false_iff_not] at hcall
      exact absurd rfl hcall
  | _ => rfl

/-- The answers on one connection, among those that have been handled. -/
def answersOn (c : ConnId) (es : List ServerEvent) : List Message := ((answers es).filter fun a => a.1 = c).map Prod.snd

theorem mem_answersOn {es : List ServerEvent} {m : Message} :
    m ∈ answersOn c es ↔ (c, m) ∈ answers es := by
  simp only [answersOn, List.mem_map, List.mem_filter]
  constructor
  · rintro ⟨⟨d, m⟩, ⟨hmem, hd⟩, rfl⟩
    rw [← show d = c from of_decide_eq_true hd]
    exact hmem
  · exact fun hmem => ⟨(c, m), ⟨hmem, decide_eq_true rfl⟩, rfl⟩

theorem answersOn_snoc (es : List ServerEvent) (e : ServerEvent) :
    answersOn c (es ++ [e]) = answersOn c es ++ ((answer? e).toList.filter fun a => a.1 = c).map Prod.snd := by
  rw [answersOn, answers_snoc, List.filter_append, List.map_append]; rfl

theorem answersOn_of_none (es : List ServerEvent) (h : answer? e = none) : answersOn c (es ++ [e]) = answersOn c es := by
  rw [answersOn_snoc, h]
  exact List.append_nil _

theorem answersOn_of_ne {d : ConnId} {m : Message} {env : Env} (es : List ServerEvent) (h : d ≠ c) :
    answersOn c (es ++ [.message d m env]) = answersOn c es := by
  cases ha : answer? (.message d m env) with
  | none => exact answersOn_of_none es ha
  | some a =>
    obtain ⟨env', he⟩ := eq_message_of_answer ha
    cases he
    rw [answersOn_snoc, ha, Option.toList_some, List.filter_cons_of_neg (by simpa using h)]
    exact List.append_nil _

end LkpServer

def SystemEvent.isCommand : SystemEvent → Bool
  | .command _ _ _ => true
  | _ => false

/-! ## One connection -/

/-- How far a command has got on a connection: what is on its way to the node, what is on its way
    back, and which answers have been handled. -/
inductive Stage (P : Command → CommandACK → Prop) :
    Option Command → List Message → List Message → List Message → Prop
  | still : Stage P none [] [] []
  | told (k : Command) : Stage P (some k) [.command k] [] []
  | answered (k : Command) (a : CommandACK) : P k a → Stage P (some k) [] [.commandACK a] []
  | heard (k : Command) (a : CommandACK) : P k a → Stage P (some k) [] [] [.commandACK a]

section
variable {P Q : Command → CommandACK → Prop} {told : Option Command} {m : Message}
  {tasks reports handled : List Message}

theorem Stage.mono (h : Stage P told tasks reports handled) (hPQ : ∀ k a, P k a → Q k a) :
    Stage Q told tasks reports handled := by
  cases h with
  | still => exact .still
  | told k => exact .told k
  | answered k a ha => exact .answered k a (hPQ k a ha)
  | heard k a ha => exact .heard k a (hPQ k a ha)

/-- A task that is on its way is the command. -/
theorem Stage.task (h : Stage P told (m :: tasks) reports handled) :
    ∃ k, told = some k ∧ m = .command k ∧ tasks = [] ∧ reports = [] ∧ handled = [] := by
  cases h with
  | told k => exact ⟨k, rfl, rfl, rfl, rfl, rfl⟩

/-- What is on its way back is the answer. -/
theorem Stage.report (h : Stage P told tasks (m :: reports) handled) :
    ∃ k a, told = some k ∧ m = .commandACK a ∧ P k a ∧ tasks = [] ∧ reports = [] ∧ handled = [] := by
  cases h with
  | answered k a ha => exact ⟨k, a, rfl, rfl, ha, rfl, rfl, rfl⟩

theorem Stage.length_handled (h : Stage P told tasks reports handled) : handled.length ≤ 1 := by
  cases h with
  | heard k a ha => exact le_rfl
  | _ => exact Nat.zero_le _

theorem Stage.still_of_none (h : Stage P none tasks reports handled) : tasks = [] ∧ reports = [] := by
  cases h
  exact ⟨rfl, rfl⟩

/-- What has been handled is the answer. -/
theorem Stage.answer (h : Stage P told tasks reports handled) (hm : m ∈ handled) :
    ∃ k a, told = some k ∧ m = .commandACK a ∧ P k a := by
  cases h with
  | heard k a ha => exact ⟨k, a, rfl, List.mem_singleton.1 hm, ha⟩
  | _ => cases hm

/-- The answer has been handled once nothing is on its way any more, and not before. -/
theorem Stage.settles {k : Command} (h : Stage P told tasks reports handled) (htold : told = some k) :
    (tasks = [] ∧ reports = [] → ∃ a, P k a ∧ handled = [.commandACK a]) ∧
      (¬ (tasks = [] ∧ reports = []) → handled = []) := by
  cases h with
  | still => cases htold
  | told => exact ⟨fun h => absurd h.1 (List.cons_ne_nil _ _), fun _ => rfl⟩
  | answered _ a ha => exact ⟨fun h => absurd h.2 (List.cons_ne_nil _ _), fun _ => rfl⟩
  | heard _ a ha =>
    cases htold
    exact ⟨fun _ => ⟨a, ha, rfl⟩, fun h => absurd ⟨rfl, rfl⟩ h⟩

end

namespace System

/-- The tasks on their way to a node. -/
def tasks (y : System) (c : ConnId) : List Message := (y.toNode c).filter Message.isTask

/-- What is on its way from a node, heartbeats apart. -/
def reports (y : System) (c : ConnId) : List Message := (y.toServer c).filter fun m => !m.isHeartBeat

/-- Nothing is under way on the connection. -/
structure Calm (y : System) (c : ConnId) : Prop where
  server : y.server.Resting c
  node : (y.node c).Resting
  tasks : y.tasks c = []
  reports : y.reports c = []

/-- The connection has gone down without having been told anything, or it is in some stage. -/
inductive Follows (told : ConnId → Option Command) (P : ConnId → Command → CommandACK → Prop)
    (evs : List ServerEvent) (y : System) (c : ConnId) : Prop
  | gone : y.server.members.phase c = .gone → told c = none → LkpServer.answersOn c evs = [] → Follows told P evs y c
  | on : y.server.Resting c → (y.node c).Resting →
      Stage (P c) (told c) (y.tasks c) (y.reports c) (LkpServer.answersOn c evs) → Follows told P evs y c

section
variable {told : ConnId → Option Command} {P Q : ConnId → Command → CommandACK → Prop} {evs : List ServerEvent}
  {y z : System} {c conn : ConnId} {m : Message} {rest : List Message} {e : ServerEvent} {t : LkpServer}

theorem Follows.mono (h : Follows told P evs y c) (hPQ : ∀ k a, P c k a → Q c k a) : Follows told Q evs y c := by
  cases h with
  | gone hphase htold hans => exact .gone hphase htold hans
  | on hserver hnode hstage => exact .on hserver hnode (hstage.mono hPQ)

/-- The server adds no task to those on their way. -/
theorem tasks_serverSends (ht : y.server.step e = some t) (hcommand : isCommand e = false)
    (hcall : LkpServer.isCall c e = false) : (y.serverSends t).tasks c = y.tasks c := by
  obtain ⟨its, hsent, hits⟩ := LkpServer.sends_no_task ht hcommand hcall
  have hnone : (((its.filter fun it => it.1 = c).map Prod.snd).filter Message.isTask) = [] := by
    rw [List.filter_eq_nil_iff]
    intro m hm
    obtain ⟨it, hit, rfl⟩ := List.mem_map.1 hm
    obtain ⟨hmem, hc⟩ := List.mem_filter.1 hit
    rw [hits it hmem (of_decide_eq_true hc)]
    exact Bool.false_ne_true
  rw [tasks, serverSends, hsent, List.drop_left, List.filter_append, hnone, List.append_nil]
  rfl

/-- The server handles an event that is no message. -/
theorem Follows.serverSends (h : Follows told P evs y c) (ht : y.server.step e = some t)
    (hmessage : e.isMessage = false) : Follows told P (evs ++ [e]) (y.serverSends t) c := by
  have hanswer : answer? e = none := by
    cases e with
    | message d m env => cases hmessage
    | _ => rfl
  have hcommand : isCommand e = false := by
    cases e with
    | message d m env => cases hmessage
    | _ => rfl
  have hans : LkpServer.answersOn c (evs ++ [e]) = LkpServer.answersOn c evs :=
    LkpServer.answersOn_of_none evs hanswer
  cases h with
  | gone hphase htold hnone => exact .gone (LkpServer.gone_step ht hphase) htold (hans.trans hnone)
  | on hserver hnode hstage =>
    refine .on (hserver.step ht (LkpServer.begins_of_not_command hcommand)) hnode ?_
    rw [tasks_serverSends ht hcommand (hserver.not_call ht), hans]
    exact hstage

/-- The connection of a message is up. -/
theorem not_gone_of_message {env : Env} (ht : y.server.step (.message conn m env) = some t) :
    y.server.members.phase conn ≠ .gone := by
  have hup : (y.server.conns conn).state.phase = .up := (LkpServer.isUp_iff _).1 (LkpServer.step_eq_some.1 ht).1
  show (y.server.conns conn).state.phase ≠ .gone
  rw [hup]
  exact nofun

/-- What arrives from a node is a heartbeat, or the answer that is waited for. -/
theorem Follows.arriving (h : Follows told P evs y conn) (hq : y.toServer conn = m :: rest) {env : Env}
    (ht : y.server.step (.message conn m env) = some t) :
    (∃ b, m = .heartBeat b) ∨ ∃ a, m = .commandACK a := by
  cases h with
  | gone hphase htold hans => exact absurd hphase (not_gone_of_message ht)
  | on hserver hnode hstage =>
    by_cases hm : m.isHeartBeat = true
    · cases m with
      | heartBeat b => exact .inl ⟨b, rfl⟩
      | _ => cases hm
    · rw [reports, hq, List.filter_cons_of_pos (by simpa using hm)] at hstage
      obtain ⟨k, a, -, rfl, -⟩ := hstage.report
      exact .inr ⟨a, rfl⟩

/-- The server handles what arrives. -/
theorem Follows.deliver (h : Follows told P evs y c) (hq : y.toServer conn = m :: rest) {env : Env}
    (ht : y.server.step (.message conn m env) = some t) (hcommand : isCommand (.message conn m env) = false) :
    Follows told P (evs ++ [.message conn m env]) ((y.popServer conn rest).serverSends t) c := by
  have harriving : conn = c → (∃ b, m = .heartBeat b) ∨ ∃ a, m = .commandACK a := by
    rintro rfl
    exact h.arriving hq ht
  cases h with
  | gone hphase htold hans =>
    have hne : conn ≠ c := by
      rintro rfl
      exact not_gone_of_message ht hphase
    exact .gone (LkpServer.gone_step ht hphase) htold ((LkpServer.answersOn_of_ne evs hne).trans hans)
  | on hserver hnode hstage =>
    refine .on (hserver.step ht (LkpServer.begins_of_not_command hcommand)) hnode ?_
    rw [tasks_serverSends (y := y.popServer conn rest) ht hcommand (hserver.not_call ht)]
    show Stage (P c) (told c) (y.tasks c) ((Function.update y.toServer conn rest c).filter fun m => !m.isHeartBeat) _
    by_cases hc : conn = c
    · subst hc
      rw [reports, hq] at hstage
      rw [Function.update_self]
      rcases harriving rfl with ⟨b, rfl⟩ | ⟨a, rfl⟩
      · rw [LkpServer.answersOn_of_none evs rfl]
        exact hstage
      · rw [List.filter_cons_of_pos rfl] at hstage
        obtain ⟨k, a', htold, ha', hka, htasks, hrest, hdone⟩ := hstage.report
        cases ha'
        rw [LkpServer.answersOn_snoc, htold, htasks, hrest, hdone]
        simpa [answer?] using Stage.heard k a hka
    · rw [Function.update_of_ne (Ne.symm hc), LkpServer.answersOn_of_ne evs hc]
      exact hstage

theorem reports_nodeSends {d : LkpClient} {ms : List Message} (hsent : d.sent = (y.node c).sent ++ ms) :
    (y.nodeSends c d).reports c = y.reports c ++ ms.filter fun m => !m.isHeartBeat := by
  simp only [reports, System.nodeSends, Function.update_self, hsent, List.drop_left]
  exact List.filter_append _ _

/-- A node handles an event that is no message. -/
theorem Follows.nodeSends (h : Follows told P evs y c) {e : ClientEvent} {d : LkpClient}
    (hd : (y.node conn).step e = some d) (he : e.isMessage = false) : Follows told P evs (y.nodeSends conn d) c := by
  cases h with
  | gone hphase htold hans => exact .gone hphase htold hans
  | on hserver hnode hstage =>
    by_cases hc : c = conn
    · subst hc
      obtain ⟨hrest, ms, hsent, hms⟩ := hnode.step hd he
      have hnone : (ms.filter fun m => !m.isHeartBeat) = [] := by
        rw [List.filter_eq_nil_iff]
        intro m hm
        rw [hms m hm]
        exact Bool.false_ne_true
      have hreports : (y.nodeSends c d).reports c = y.reports c := by
        rw [reports_nodeSends hsent, hnone, List.append_nil]
      refine .on hserver ?_ (hreports ▸ hstage)
      simpa only [System.nodeSends, Function.update_self] using hrest
    · refine .on hserver ?_ ?_
      · simpa only [System.nodeSends, Function.update_of_ne hc] using hnode
      · simpa only [tasks, reports, System.nodeSends, Function.update_of_ne hc] using hstage

/-- A node handles what arrives: it is the command, and the node answers. -/
theorem Follows.receive (h : Follows told P evs y c) (hq : y.toNode conn = m :: rest) {env : ClientEnv} {d : LkpClient}
    (hd : (y.node conn).step (.message m env) = some d)
    (hkind : ∀ k, told c = some k → k.command = .UPDATE ∨ k.command = .RUN)
    (hnew : ∀ k, c = conn → P c k ((y.node c).answer k env)) :
    Follows told P evs ((y.popNode conn rest).nodeSends conn d) c := by
  cases h with
  | gone hphase htold hans => exact .gone hphase htold hans
  | on hserver hnode hstage =>
    by_cases hc : c = conn
    · subst hc
      rw [tasks, hq, List.filter_cons_of_pos (LkpClient.isTask_of_step hd)] at hstage
      obtain ⟨k, htold, rfl, htasks, hreports, hdone⟩ := hstage.task
      obtain ⟨hrest, hsent⟩ := hnode.answers (hkind k htold) hd
      refine .on hserver ?_ ?_
      · simpa only [System.nodeSends, System.popNode, Function.update_self] using hrest
      · simp only [tasks, System.reports, System.nodeSends, System.popNode, Function.update_self, hsent, List.drop_left]
        rw [htold, htasks, hdone, List.filter_append, show (y.toServer c).filter _ = [] from hreports]
        exact .answered k _ (hnew k rfl)
    · refine .on hserver ?_ ?_
      · simpa only [System.nodeSends, System.popNode, Function.update_of_ne hc] using hnode
      · simpa only [tasks, reports, System.nodeSends, System.popNode, Function.update_of_ne hc] using hstage

/-- **A step that is no command keeps every connection in some stage.**  To the server, it is one
    event or none. -/
theorem follows_step {e : SystemEvent} (h : ∀ c, Follows told P evs y c) (hs : y.step e = some z)
    (hcommand : e.isCommand = false) (hkind : ∀ c k, told c = some k → k.command = .UPDATE ∨ k.command = .RUN)
    (hPQ : ∀ c k a, P c k a → Q c k a)
    (hnew : ∀ c env k, e = .receive c env → Q c k ((y.node c).answer k env)) :
    ∃ evs', (evs' = [] ∧ z.server = y.server ∨
        ∃ e', evs' = [e'] ∧ y.server.step e' = some z.server ∧ isCommand e' = false) ∧
      ∀ c, Follows told Q (evs ++ evs') z c := by
  have h' : ∀ c, Follows told Q evs y c := fun c => (h c).mono (hPQ c)
  cases steps_of_step hs with
  | @server e t he ht =>
    have hno : isCommand e = false := by
      cases e with
      | message c m env => cases he
      | _ => rfl
    exact ⟨[e], .inr ⟨e, rfl, ht, hno⟩, fun c => (h' c).serverSends ht he⟩
  | command ht => cases hcommand
  | @deliver conn env m rest t hq ht =>
    have hm := (h conn).arriving hq ht
    have hno : isCommand (.message conn m env) = false := by
      rcases hm with ⟨b, rfl⟩ | ⟨a, rfl⟩
      · rfl
      · rfl
    exact ⟨[_], .inr ⟨_, rfl, ht, hno⟩, fun c => (h' c).deliver hq ht hno⟩
  | node he hd =>
    refine ⟨[], .inl ⟨rfl, rfl⟩, fun c => ?_⟩
    rw [List.append_nil]
    exact (h' c).nodeSends hd he
  | @receive conn env m rest d hq hd =>
    refine ⟨[], .inl ⟨rfl, rfl⟩, fun c => ?_⟩
    rw [List.append_nil]
    exact (h' c).receive hq hd (hkind c) fun k hc => hnew c env k (by rw [hc])

end

/-! ## A run -/

section
variable {told : ConnId → Option Command} {P : ConnId → Command → CommandACK → Prop} {evs : List ServerEvent}
  {y z : System} {es : List SystemEvent} {c : ConnId}

theorem Follows.calm (h : Follows told P evs y c) (hphase : y.server.members.phase c ≠ .gone)
    (hway : told c ≠ none → y.tasks c = [] ∧ y.reports c = []) : y.Calm c := by
  cases h with
  | gone hgone _ _ => exact absurd hgone hphase
  | on hserver hnode hstage =>
    cases htold : told c with
    | none =>
      rw [htold] at hstage
      obtain ⟨htasks, hreports⟩ := hstage.still_of_none
      exact ⟨hserver, hnode, htasks, hreports⟩
    | some k =>
      obtain ⟨htasks, hreports⟩ := hway (by rw [htold]; exact nofun)
      exact ⟨hserver, hnode, htasks, hreports⟩

/-- Without a command, nothing gets under way. -/
theorem calm_runs (h : ∀ c, y.server.members.phase c ≠ .gone → y.Calm c) (hrun : Runs step y es z)
    (halone : ∀ e ∈ es, e.isCommand = false) : ∀ c, z.server.members.phase c ≠ .gone → z.Calm c := by
  have hall : ∃ evs, ∀ c, Follows (fun _ => none) (fun _ _ _ => True) evs z c := by
    induction hrun with
    | nil =>
      refine ⟨[], fun c => ?_⟩
      by_cases hgone : y.server.members.phase c = .gone
      · exact .gone hgone rfl rfl
      · obtain ⟨hserver, hnode, htasks, hreports⟩ := h c hgone
        refine .on hserver hnode ?_
        rw [htasks, hreports]
        exact .still
    | snoc _ hs ih =>
      obtain ⟨evs, hfollows⟩ := ih fun e he => halone e (by simp [he])
      obtain ⟨evs', -, hfollows'⟩ := follows_step hfollows hs (halone _ (by simp)) nofun
        (fun _ _ _ ha => ha) fun _ _ _ _ => trivial
      exact ⟨_, hfollows'⟩
  obtain ⟨evs, hfollows⟩ := hall
  exact fun c hphase => (hfollows c).calm hphase fun hne => absurd rfl hne

theorem calm_start {root : String} {serverTimeControl : ℕ} {node : ConnId → LkpClient} (hnode : (node c).Resting) :
    (start root serverTimeControl node).Calm c := ⟨⟨rfl, rfl⟩, hnode, rfl, rfl⟩

end

/-- In the run of `es` from `y`, the node takes the command, and answers by `a`. -/
def Takes (y : System) (es : List SystemEvent) (c : ConnId) (k : Command) (a : CommandACK) : Prop :=
  ∃ es₁ env es₂ w, es = es₁ ++ .receive c env :: es₂ ∧ Runs step y es₁ w ∧ a = (w.node c).answer k env

section
variable {y z : System} {told : ConnId → Option Command} {es : List SystemEvent} {c cli : ConnId}

theorem Takes.snoc {k : Command} {a : CommandACK} (h : y.Takes es c k a) (e : SystemEvent) :
    y.Takes (es ++ [e]) c k a := by
  obtain ⟨es₁, env, es₂, w, rfl, hw, ha⟩ := h
  exact ⟨es₁, env, es₂ ++ [e], w, by simp, hw, ha⟩

theorem Takes.command {k : Command} {a : CommandACK} (h : y.Takes es c k a) : a.command = k.command := by
  obtain ⟨es₁, env, es₂, w, -, -, rfl⟩ := h
  exact LkpClient.answer_command

theorem Takes.nodeId {k : Command} {a : CommandACK} (h : y.Takes es c k a) : a.nodeId = k.nodeId := by
  obtain ⟨es₁, env, es₂, w, -, -, rfl⟩ := h
  exact LkpClient.answer_nodeId

/-- **A run without commands keeps every connection in some stage.** -/
theorem follows_runs (h : ∀ c, Follows told (y.Takes []) [] y c) (hrun : Runs step y es z)
    (hopen : EachState step y es fun u => u.server.SessionOpen cli) (halone : ∀ e ∈ es, e.isCommand = false)
    (hkind : ∀ c k, told c = some k → k.command = .UPDATE ∨ k.command = .RUN) :
    ∃ evs, Runs LkpServer.step y.server evs z.server ∧
      EachState LkpServer.step y.server evs (fun u => u.SessionOpen cli) ∧ (∀ e ∈ evs, isCommand e = false) ∧
      ∀ c, Follows told (y.Takes es) evs z c := by
  induction hrun with
  | nil => exact ⟨[], .nil, EachState.nil_iff.2 (hopen [] [] y rfl .nil), nofun, h⟩
  | @snoc es u v e hu hs ih =>
    have hopen := (EachState.snoc_iff (hu.snoc hs)).1 hopen
    obtain ⟨evs, hrun, hstate, hno, hfollows⟩ := ih hopen.1 fun e he => halone e (by simp [he])
    obtain ⟨evs', hevs, hfollows'⟩ := follows_step hfollows hs (halone e (by simp)) hkind
      (fun c k a ha => ha.snoc e) (by rintro c env k rfl; exact ⟨es, env, [], u, rfl, hu, rfl⟩)
    rcases hevs with ⟨rfl, hserver⟩ | ⟨e', rfl, hserver, he'⟩
    · rw [List.append_nil] at hfollows'
      exact ⟨evs, hserver ▸ hrun, hstate, hno, hfollows'⟩
    · have hrun' := hrun.snoc hserver
      refine ⟨_, hrun', (EachState.snoc_iff hrun').2 ⟨hstate, hopen.2⟩, ?_, hfollows'⟩
      intro e he
      rcases List.mem_append.1 he with he | he
      · exact hno e he
      · rw [List.mem_singleton.1 he]
        exact he'

end

/-! ## The command -/

section
variable {message : Command} {its : List (ℤ × ConnId)} {c : ConnId}

/-- A target is found by its connection. -/
theorem find_target (hits : (its.map Prod.snd).Nodup) {it : ℤ × ConnId} (hit : it ∈ its) :
    its.find? (fun it' => it'.2 = it.2) = some it := by
  have hsome : (its.find? fun it' => it'.2 = it.2).isSome := List.find?_isSome.2 ⟨it, hit, by simp⟩
  obtain ⟨it', hfind⟩ := Option.isSome_iff_exists.1 hsome
  have hconn := List.find?_some hfind
  rw [hfind, List.inj_on_of_nodup_map hits (List.mem_of_find?_eq_some hfind) hit (of_decide_eq_true hconn)]

/-- The messages for one connection, when the targets are distinct. -/
theorem sentTo_targets (hits : (its.map Prod.snd).Nodup) (f : ℤ × ConnId → Message) (c : ConnId) :
    ((its.map fun it => (it.2, f it)).filter fun a => a.1 = c).map Prod.snd =
      ((its.find? fun it => it.2 = c).map f).toList := by
  induction its with
  | nil => rfl
  | cons it its ih =>
    rw [List.map_cons, List.nodup_cons] at hits
    have hrest := ih hits.2
    rw [List.map_cons]
    by_cases hc : it.2 = c
    · have hnone : its.find? (fun it => it.2 = c) = none := by
        rw [List.find?_eq_none]
        intro it' hit' hc'
        exact hits.1 (List.mem_map.2 ⟨it', hit', (of_decide_eq_true hc').trans hc.symm⟩)
      rw [hnone] at hrest
      rw [List.filter_cons_of_pos (by simpa using hc), List.find?_cons_of_pos (by simpa using hc), List.map_cons, hrest]
      rfl
    · rw [List.filter_cons_of_neg (by simpa using hc), List.find?_cons_of_neg (by simpa using hc)]
      exact hrest

/-- What a connection is told of a command for the targets `its`. -/
def toldOf (message : Command) (its : List (ℤ × ConnId)) (c : ConnId) : Option Command :=
  (its.find? fun it => it.2 = c).map fun it => { message with nodeId := u32 it.1 }

theorem toldOf_mem (hits : (its.map Prod.snd).Nodup) {it : ℤ × ConnId} (hit : it ∈ its) :
    toldOf message its it.2 = some { message with nodeId := u32 it.1 } := by
  rw [toldOf, find_target hits hit]
  rfl

theorem mem_of_toldOf {k : Command} (h : toldOf message its c = some k) :
    ∃ it ∈ its, it.2 = c ∧ k = { message with nodeId := u32 it.1 } := by
  obtain ⟨it, hfind, rfl⟩ := Option.map_eq_some_iff.1 h
  have hconn := List.find?_some hfind
  exact ⟨it, List.mem_of_find?_eq_some hfind, of_decide_eq_true hconn, rfl⟩

variable {y z : System} {cli : ConnId} {env : Env}

theorem ne_push (h : message.command = .UPDATE ∨ message.command = .RUN) : message.command ≠ .PUSH := by
  rcases h with h | h
  · rw [h]; exact nofun
  · rw [h]; exact nofun

/-- The command is on its way to its targets. -/
theorem follows_start (hb : y.server.members.Base) (hcommand : message.command = .UPDATE ∨ message.command = .RUN)
    (hcalm : ∀ c, y.server.members.phase c ≠ .gone → y.Calm c)
    (hup : ∀ it ∈ y.server.targets message, (y.server.conns it.2).connected = true)
    (hs : y.step (.command cli message env) = some z) :
    LkpServer.Begun y.server z.server message env ∧
      ∀ c, Follows (toldOf message (y.server.targets message)) (z.Takes []) [] z c := by
  obtain ⟨t, ht, rfl⟩ : ∃ t, y.server.step (.message cli (.command message) env) = some t ∧ z = y.serverSends t := by
    cases steps_of_step hs with
    | command ht => exact ⟨_, ht, rfl⟩
  have hpush := ne_push hcommand
  have hanswered : message.command.Answered := by
    rcases hcommand with hm | hm
    · exact .inl hm
    · exact .inr (.inl hm)
  have hforward : t = y.server.resetCounters.forward message := by
    have hh : y.server.onCommandMsg message env = .ok t := (LkpServer.step_eq_some.1 ht).2
    rw [LkpServer.onCommandMsg_forward env hanswered hpush] at hh
    exact (Except.ok.inj hh).symm
  have hbegun : LkpServer.Begun y.server t message env := hforward ▸ LkpServer.begun_forward env hpush
  refine ⟨hbegun, fun c => ?_⟩
  by_cases hgone : y.server.members.phase c = .gone
  · refine .gone (LkpServer.gone_step ht hgone) ?_ rfl
    cases htold : toldOf message (y.server.targets message) c with
    | none => rfl
    | some k =>
      obtain ⟨it, hit, rfl, -⟩ := mem_of_toldOf htold
      have hphase := (LkpServer.isUp_iff _).1 (TcpConnection.isUp_of_connected _ (hup it hit))
      rw [show y.server.members.phase it.2 = (y.server.conns it.2).state.phase from rfl, hphase] at hgone
      cases hgone
  · obtain ⟨hserver, hnode, htasks, hreports⟩ := hcalm c hgone
    have hbegins : LkpServer.begins c y.server (.message cli (.command message) env) = false := by
      simp [LkpServer.begins, hpush]
    have hann : announcement message env = fun id => .command { message with nodeId := u32 id } := by
      ext id
      exact if_neg hpush
    have hsent : t.sent.drop y.server.sent.length =
        (y.server.targets message).map fun it => (it.2, .command { message with nodeId := u32 it.1 }) := by
      rw [hbegun.sent, List.drop_left, LkpServer.tells_connected hup, hann]
    refine .on (hserver.step ht hbegins) hnode ?_
    have htasks' : (y.serverSends t).tasks c = (((y.server.targets message).find? fun it => it.2 = c).map
        fun it => Message.command { message with nodeId := u32 it.1 }).toList := by
      simp only [tasks, serverSends]
      rw [hsent, sentTo_targets (LkpServer.targets_conns_nodup hb message), List.filter_append,
        show (y.toNode c).filter Message.isTask = [] from htasks, List.nil_append, List.filter_eq_self]
      intro m hm
      rw [Option.mem_toList] at hm
      obtain ⟨it, -, rfl⟩ := Option.map_eq_some_iff.1 hm
      rfl
    rw [htasks', show (y.serverSends t).reports c = [] from hreports, toldOf]
    cases (y.server.targets message).find? fun it => it.2 = c with
    | none => exact .still
    | some it => exact .told _

end

/-! ## What the CLI is told -/

section
variable {told : ConnId → Option Command} {P : ConnId → Command → CommandACK → Prop} {evs : List ServerEvent}
  {z : System} {c : ConnId}

theorem Follows.length_answersOn (h : Follows told P evs z c) : (LkpServer.answersOn c evs).length ≤ 1 := by
  cases h with
  | gone _ _ hans => rw [hans]; exact Nat.zero_le _
  | on _ _ hstage => exact hstage.length_handled

/-- An answer that has been handled. -/
theorem Follows.answer (h : Follows told P evs z c) {m : Message} (hm : (c, m) ∈ LkpServer.answers evs) :
    ∃ k a, told c = some k ∧ m = .commandACK a ∧ P c k a := by
  have hmem : m ∈ LkpServer.answersOn c evs :=
    List.mem_map.2 ⟨(c, m), List.mem_filter.2 ⟨hm, decide_eq_true rfl⟩, rfl⟩
  cases h with
  | gone _ _ hans => rw [hans] at hmem; cases hmem
  | on _ _ hstage => exact hstage.answer hmem

theorem Follows.settles (h : Follows told P evs z c) {k : Command} (htold : told c = some k) :
    (z.tasks c = [] ∧ z.reports c = [] → ∃ a, P c k a ∧ LkpServer.answersOn c evs = [.commandACK a]) ∧
      (¬ (z.tasks c = [] ∧ z.reports c = []) → LkpServer.answersOn c evs = []) := by
  cases h with
  | gone _ hnone _ =>
    rw [hnone] at htold
    cases htold
  | on _ _ hstage => exact hstage.settles htold

/-- No connection answers twice. -/
theorem answers_nodup (h : ∀ c, (LkpServer.answersOn c evs).length ≤ 1) :
    ((LkpServer.answers evs).map Prod.fst).Nodup := by
  rw [List.nodup_iff_count_le_one]
  intro c
  have hlen := h c
  rw [LkpServer.answersOn, List.length_map, ← List.countP_eq_length_filter] at hlen
  rw [List.count_eq_countP, List.countP_map]
  exact hlen

end

section
variable {evs : List ServerEvent} {its : List (ℤ × ConnId)}

/-- While a target has not answered, not all answers have been handled. -/
theorem length_answers_lt (hnodup : ((LkpServer.answers evs).map Prod.fst).Nodup)
    (hmem : ∀ a ∈ LkpServer.answers evs, a.1 ∈ its.map Prod.snd) {it : ℤ × ConnId} (hit : it ∈ its)
    (hnone : LkpServer.answersOn it.2 evs = []) : (LkpServer.answers evs).length < its.length := by
  have hnot : it.2 ∉ (LkpServer.answers evs).map Prod.fst := by
    intro h
    obtain ⟨⟨c, m⟩, ha, rfl⟩ := List.mem_map.1 h
    have hm : m ∈ LkpServer.answersOn it.2 evs := LkpServer.mem_answersOn.2 ha
    rw [hnone] at hm
    cases hm
  have hsub : it.2 :: (LkpServer.answers evs).map Prod.fst ⊆ its.map Prod.snd := by
    intro c hc
    rcases List.mem_cons.1 hc with rfl | hc
    · exact List.mem_map.2 ⟨it, hit, rfl⟩
    · obtain ⟨a, ha, rfl⟩ := List.mem_map.1 hc
      exact hmem a ha
  have hlen := ((List.nodup_cons.2 ⟨hnot, hnodup⟩).subperm hsub).length_le
  rw [List.length_cons, List.length_map, List.length_map] at hlen
  omega

/-- When each target has answered, the answers that have been handled are theirs. -/
theorem answers_perm (hnodup : ((LkpServer.answers evs).map Prod.fst).Nodup)
    (hmem : ∀ a ∈ LkpServer.answers evs, a.1 ∈ its.map Prod.snd) (hits : (its.map Prod.snd).Nodup)
    {f : ℤ × ConnId → Message} (hall : ∀ it ∈ its, LkpServer.answersOn it.2 evs = [f it]) :
    (LkpServer.answers evs).Perm (its.map fun it => (it.2, f it)) := by
  have hfst : (its.map fun it => (it.2, f it)).map Prod.fst = its.map Prod.snd := by
    rw [List.map_map]
    rfl
  rw [List.perm_ext_iff_of_nodup hnodup.of_map (hfst ▸ hits : ((its.map _).map Prod.fst).Nodup).of_map]
  rintro ⟨c, m⟩
  rw [← LkpServer.mem_answersOn, List.mem_map]
  constructor
  · intro hm
    obtain ⟨it, hit, rfl⟩ := List.mem_map.1 (hmem _ (LkpServer.mem_answersOn.1 hm))
    rw [hall it hit, List.mem_singleton] at hm
    exact ⟨it, hit, by rw [hm]⟩
  · rintro ⟨it, hit, he⟩
    cases he
    rw [hall it hit]
    exact List.mem_singleton_self _

end

/-- The CLI shows how many of the targets succeeded, and the texts of those that failed. -/
theorem onReturnMsg_of_returnFor {command : CommandID} {its : List (ℤ × ConnId)} {outcome : ℤ → Bool × String}
    {r : Return} (hr : LkpServer.ReturnFor command its outcome r) (hknown : command.known = true)
    (hlist : command ≠ .LIST) :
    LkpCmdClient.onReturnMsg r = some ⟨(lkpEnumToCmds command "" ++ " : " ++
      toString (its.countP fun it => (outcome it.1).1) ++ " / " ++ toString its.length ++ " clients succeess!") ::
        r.nodeInfo.map LkpCmdClient.nodeLine, true⟩ := by
  rw [LkpCmdClient.onReturnMsg, hr.command, if_pos hknown, if_neg hlist, hr.clientNum, hr.clientOkNum]

/-- Nothing of the command, and no answer to it, is on its way. -/
def Settled (z : System) (its : List (ℤ × ConnId)) : Prop := ∀ it ∈ its, z.tasks it.2 = [] ∧ z.reports it.2 = []

section
variable {root : String} {serverTimeControl : ℕ} {node : ConnId → LkpClient} {es₀ es : List SystemEvent}
  {y y₀ z : System} {cli : ConnId} {message : Command} {env : Env}

/-- **The CLI is told what the nodes have done.**  An UPDATE or a RUN is given while nothing else is
    under way, and no other command comes before its Return; whatever else happens, to these
    nodes and to others, and in whatever order: as long as it is on its way to one of its
    targets, or an answer on its way back, there is no Return.  Then there is one, which
    says of every target what it answered when it took the command: that it forked a child for it,
    or why not.  The CLI shows how many did, and nothing is under way any more. -/
theorem reported (hreach : Runs step (start root serverTimeControl node) es₀ y)
    (hint : y.server.clientPool.nodeCount ≤ 2 ^ 31) (hcommand : message.command = .UPDATE ∨ message.command = .RUN)
    (hcalm : ∀ c, y.server.members.phase c ≠ .gone → y.Calm c) (hne : y.server.targets message ≠ [])
    (hup : ∀ it ∈ y.server.targets message, (y.server.conns it.2).connected = true)
    (hsend : y.step (.command cli message env) = some y₀) (hrun : Runs step y₀ es z)
    (hopen : EachState step y₀ es fun u => u.server.SessionOpen cli) (halone : ∀ e ∈ es, e.isCommand = false) :
    (¬ z.Settled (y.server.targets message) → z.server.returns = y.server.returns) ∧
    (z.Settled (y.server.targets message) → ∃ (ack : ℤ → CommandACK) (r : Return),
      (∀ it ∈ y.server.targets message, y₀.Takes es it.2 { message with nodeId := u32 it.1 } (ack it.1)) ∧
      LkpServer.ReturnFor message.command (y.server.targets message) (fun id => ((ack id).status, (ack id).ackMessage)) r ∧
      z.server.returns = y.server.returns ++ [(cli, r)] ∧
      LkpCmdClient.onReturnMsg r = some ⟨(lkpEnumToCmds message.command "" ++ " : " ++
        toString ((y.server.targets message).countP fun it => (ack it.1).status) ++ " / " ++
        toString (y.server.targets message).length ++ " clients succeess!") ::
          r.nodeInfo.map LkpCmdClient.nodeLine, true⟩ ∧
      ∀ c, z.server.members.phase c ≠ .gone → z.Calm c) := by
  have hb : y.server.members.Base := (suited_of_runs hreach).knows.base
  have hconns := LkpServer.targets_conns_nodup hb message
  have hrange := LkpServer.targets_range hb hint message
  obtain ⟨hbegun, hstart⟩ := follows_start hb hcommand hcalm hup hsend
  have hkind : ∀ c k, toldOf message (y.server.targets message) c = some k →
      k.command = .UPDATE ∨ k.command = .RUN := by
    intro c k hk
    obtain ⟨it, -, -, rfl⟩ := mem_of_toldOf hk
    exact hcommand
  obtain ⟨evs, hevs, hstate, hno, hfollows⟩ := follows_runs hstart hrun hopen halone hkind
  have hanswer : ∀ a ∈ LkpServer.answers evs, a.1 ∈ (y.server.targets message).map Prod.snd ∧
      commandOf a.2 = message.command := by
    rintro ⟨c, m⟩ ha
    obtain ⟨k, a, hk, rfl, htakes⟩ := (hfollows c).answer ha
    obtain ⟨it, hit, rfl, rfl⟩ := mem_of_toldOf hk
    exact ⟨List.mem_map.2 ⟨it, hit, rfl⟩, htakes.command⟩
  have hnodup := answers_nodup fun c => (hfollows c).length_answersOn
  have htally : y₀.server.tally = Gather.new (y.server.targets message).length := by
    rw [hbegun.tally, LkpServer.length_targets (.inr hne)]
  have hsettles := fun it (hit : it ∈ y.server.targets message) => (hfollows it.2).settles (toldOf_mem hconns hit)
  obtain ⟨vs, hvs, hz, -, hreturns⟩ := LkpServer.runs_answers hevs hstate hno fun a ha => (hanswer a ha).2
  refine ⟨fun hnot => ?_, fun hsettled => ?_⟩
  · obtain ⟨it, hit, hway⟩ : ∃ it ∈ y.server.targets message, ¬ (z.tasks it.2 = [] ∧ z.reports it.2 = []) := by
      simpa only [Settled, not_forall, exists_prop] using hnot
    have hlt := length_answers_lt hnodup (fun a ha => (hanswer a ha).1) hit ((hsettles it hit).2 hway)
    have hacks : y₀.server.tally.acks + vs.length < y₀.server.tally.num := by
      rw [htally, Gather.new_acks, Gather.new_num, ← hvs.length_eq]
      omega
    rw [hreturns, Gather.completions_of_lt hacks, hbegun.returns]
    exact List.append_nil _
  · have : Nonempty CommandACK := ⟨{}⟩
    choose! f hf using fun it hit => (hsettles it hit).1 (hsettled it hit)
    let ack (id : ℤ) : CommandACK := f (id, (y.server.clientPool.getConn id).getD 0)
    let outcome (id : ℤ) : Bool × String := ((ack id).status, (ack id).ackMessage)
    have hack : ∀ it ∈ y.server.targets message, ack it.1 = f it := by
      intro it hit
      simp only [ack]
      rw [LkpServer.mem_targets hit]
      rfl
    have hperm : (LkpServer.answers evs).Perm ((y.server.targets message).map fun it =>
        (it.2, LkpServer.answerMessage message.command it.1 (outcome it.1))) := by
      refine answers_perm hnodup (fun a ha => (hanswer a ha).1) hconns fun it hit => ?_
      obtain ⟨htakes, hon⟩ := hf it hit
      rw [hon, LkpServer.answerMessage, if_neg (ne_push hcommand)]
      simp only [outcome, hack it hit]
      rw [show message.command = (f it).command from htakes.command.symm,
        show u32 it.1 = (f it).nodeId from htakes.nodeId.symm]
    have hvotes := LkpServer.votes_perm hrange hperm hvs
    have hr : LkpServer.ReturnFor message.command (y.server.targets message) outcome _ :=
      LkpServer.returnFor_of_perm (LkpServer.targets_nodup message) hrange hvotes
    have hlen : (LkpServer.answers evs).length = (y.server.targets message).length := by
      simpa using hperm.length_eq
    have hreturn := LkpServer.returns_of_all hevs hstate hno (fun a ha => (hanswer a ha).2) htally hlen
      (List.length_pos_of_ne_nil hne)
    rw [hz, htally, hbegun.returns] at hreturn
    have hplain : message.command.known = true ∧ message.command ≠ .LIST := by
      rcases hcommand with hm | hm
      · rw [hm]; exact ⟨rfl, fun h => by cases h⟩
      · rw [hm]; exact ⟨rfl, fun h => by cases h⟩
    have hshown := onReturnMsg_of_returnFor hr hplain.1 hplain.2
    generalize retOf ((Gather.new (y.server.targets message).length).counts vs) message.command = r at hr hreturn hshown
    refine ⟨ack, r, fun it hit => hack it hit ▸ (hf it hit).1, hr, hreturn, hshown, fun c hphase => ?_⟩
    refine (hfollows c).calm hphase fun htold => ?_
    obtain ⟨k, hk⟩ := Option.ne_none_iff_exists'.1 htold
    obtain ⟨it, hit, rfl, -⟩ := mem_of_toldOf hk
    exact hsettled it hit

/-- Two nodes run a test case, and one of them cannot fork. -/
theorem reported_two :
    let message : Command := { command := .RUN, sendToAll := true, testcase := "job" }
    let es : List SystemEvent := [.receive 2 { forks := false }, .node 1 .timer, .receive 1 {}, .deliver 2 {},
      .deliver 1 {}, .deliver 1 {}]
    ∃ y y₀ z, ∃ ack : ℤ → CommandACK, ∃ r, Runs step (start "" 3 fun _ => .joined [])
        [.server (.up 1 "10.0.0.1"), .server (.up 2 "10.0.0.2"), .server (.up 9 "127.0.0.1")] y ∧
      y.step (.command 9 message {}) = some y₀ ∧ Runs step y₀ es z ∧
      (∀ it ∈ ([(0, 1), (1, 2)] : List (ℤ × ConnId)), y₀.Takes es it.2 { message with nodeId := u32 it.1 } (ack it.1)) ∧
      z.server.returns = [(9, r)] ∧
      LkpCmdClient.onReturnMsg r = some ⟨["RUN : 1 / 2 clients succeess!", "   Node  1: ERROR 11: Fork Error!"], true⟩ := by
  intro message es
  let r : Return := ⟨2, 1, .RUN, [⟨1, "ERROR 11: Fork Error!"⟩]⟩
  obtain ⟨y, hy, hint, htargets, hup, hreturns, y₀, hsend, hopen, hrun⟩ : ∃ y, Runs step (start "" 3 fun _ => .joined [])
      [.server (.up 1 "10.0.0.1"), .server (.up 2 "10.0.0.2"), .server (.up 9 "127.0.0.1")] y ∧
      y.server.clientPool.nodeCount ≤ 2 ^ 31 ∧ y.server.targets message = [(0, 1), (1, 2)] ∧
      (∀ it ∈ y.server.targets message, (y.server.conns it.2).connected = true) ∧ y.server.returns = [] ∧
      ∃ y₀ ∈ y.step (.command 9 message {}), checkStates step (fun u => u.server.SessionOpen 9) y₀ es = true ∧
        (runEvents step y₀ es).any (fun z => z.server.returns = [(9, r)] ∧
          ∀ c ∈ [1, 2], (z.tasks c).isEmpty = true ∧ (z.reports c).isEmpty = true) = true :=
    Runs.exists_of_run (by decide +kernel)
  obtain ⟨z, hz, hret, hway⟩ := Runs.exists_of_run hrun
  have hcalm := calm_runs (fun c _ => calm_start ⟨rfl, rfl, fun _ => ⟨rfl, rfl⟩⟩) hy (by decide)
  have hsettled : z.Settled (y.server.targets message) := by
    intro it hit
    have hmem : it.2 ∈ [1, 2] := by
      rw [htargets] at hit
      exact List.mem_map_of_mem (f := Prod.snd) hit
    obtain ⟨htasks, hreports⟩ := hway it.2 hmem
    exact ⟨List.isEmpty_iff.1 htasks, List.isEmpty_iff.1 hreports⟩
  obtain ⟨ack, r', htakes, -, hret', -⟩ := (reported hy hint (.inr rfl) hcalm (by rw [htargets]; exact nofun) hup
    hsend hz (.of_checkStates hopen) (by decide)).2 hsettled
  rw [hret, hreturns] at hret'
  cases hret'
  rw [htargets] at htakes
  exact ⟨y, y₀, z, ack, r, hy, hsend, hz, htakes, hret, by decide +kernel⟩

end

end System

end LkpExtent
