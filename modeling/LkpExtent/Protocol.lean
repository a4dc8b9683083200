/-
  LkpExtent formalization — what the parties say to each other, over whole runs.

  * `LkpServer.Armed`: a connection whose write-complete callback may still be called;
  * `LkpServer.Knows`: the pool and the callbacks are those of remote connections, and
    `CmdConnection_` is a local one;
  * `System.no_unknown`: nothing is on its way to a party that has no callback for it;
  * `System.answers_in_order`: a node answers the commands that it has received, in their
    order, and none of them twice.
-/
import LkpExtent.Addressing
import LkpExtent.Dispatcher
import LkpExtent.PbMessages
import LkpExtent.PushTransfer
import LkpExtent.SystemSteps
import LkpExtent.TimeWheel

namespace LkpExtent

open Lib

namespace LkpServer
variable {s t : LkpServer} {c : ConnId}

/-! ## Remote and local connections -/

/-- A connection in the pool is remote. -/
theorem Pooled.remote (hb : s.members.Base) (h : s.Pooled c) : s.Remote c := by
  obtain ⟨nodeID, hid⟩ := h
  have hcontext := hb.known nodeID c hid
  refine ⟨fun hw => ?_, (hb.own c _ hcontext).2⟩
  rw [hb.fresh c hw] at hcontext
  cases hcontext

/-- The write-complete callback of the connection is set, or has been queued. -/
def Armed (s : LkpServer) (c : ConnId) : Prop :=
  (s.conns c).writeCompleteCallback = true ∨ 0 < (s.conns c).queued

/-- Only a push to a node of the pool arms its connection. -/
theorem armed_step {e : ServerEvent} (hs : s.step e = some t) (h : t.Armed c) : s.Armed c ∨ s.Pooled c := by
  cases hbegin : begins c s e with
  | true =>
    obtain ⟨d, m, env, it, -, -, hit, rfl⟩ := exists_push hbegin
    exact .inr ⟨it.1, mem_targets ((List.takeWhile_sublist _).mem hit)⟩
  | false =>
    by_cases hwritten : e = .written c
    · subst hwritten
      have h' : Except.ok (s.setConn c (s.conns c).written) = .ok t := (step_eq_some.1 hs).2
      cases h'
      rw [Armed, setConn_conns] at h
      simp only [TcpConnection.written] at h
      by_cases hcallback : (s.conns c).writeCompleteCallback = true
      · exact .inl (.inl hcallback)
      · rw [if_neg hcallback] at h
        exact .inl h
    cases hcall : isCall c e with
    | true =>
      obtain ⟨stack, rfl⟩ := exists_call hcall
      have hq : 0 < (s.conns c).queued := of_decide_eq_true (step_eq_some.1 hs).1
      exact .inl (.inr hq)
    | false =>
      have haside := (aside_step hs hbegin hwritten hcall).alike
      rw [Armed, haside.callback, haside.queued] at h
      exact .inl h

/-- `CmdConnection_` changes when a connection from the server's machine comes up. -/
theorem cmd_step {e : ServerEvent} (hs : s.step e = some t) (hcmd : t.CmdConnection = some c) :
    s.CmdConnection = some c ∨ e = .up c "127.0.0.1" := by
  have hcmd : t.members.cmd = some c := hcmd
  cases step_move hs with
  | quiet _ _ _ hm => rw [hm] at hcmd; exact .inl hcmd
  | heartBeat _ _ _ _ hm => rw [hm] at hcmd; exact .inl hcmd
  | cliUp _ _ hm =>
    rw [hm] at hcmd
    cases hcmd
    exact .inr rfl
  | cliRefused _ _ hm => rw [hm] at hcmd; exact .inl hcmd
  | workerUp _ _ _ hm => rw [hm] at hcmd; exact .inl hcmd
  | sessionDown _ _ hm => rw [hm] at hcmd; exact .inl hcmd
  | workerDown _ _ _ _ hm => rw [hm] at hcmd; exact .inl hcmd
  | timer _ _ =>
    obtain ⟨pool, hm, -⟩ := members_onTimer s _
    rw [hm] at hcmd; exact .inl hcmd

/-- What the server knows of its connections is right. -/
structure Knows (s : LkpServer) : Prop where
  base : s.members.Base
  cmd : ∀ c, s.CmdConnection = some c → s.Local c
  armed : ∀ c, s.Armed c → s.Remote c

theorem Knows.step {e : ServerEvent} (h : s.Knows) (hs : s.step e = some t) : t.Knows where
  base := base_step h.base hs
  cmd c hcmd := by
    rcases cmd_step hs hcmd with hcmd | rfl
    · exact (h.cmd c hcmd).step hs
    · have hphase : t.members.phase c = .up := (phase_step hs c).trans (if_pos rfl)
      refine ⟨by rw [hphase]; exact nofun, ?_⟩
      show t.members.peerIp c = "127.0.0.1"
      cases step_move hs with
      | quiet he _ _ _ => exact absurd rfl (he c _)
      | cliUp _ _ hm => rw [hm]; exact Members.connect_peerIp_self
      | cliRefused _ _ hm => rw [hm]; exact Members.connect_peerIp_self
      | workerUp _ hip _ _ => exact absurd rfl hip
  armed c harmed := by
    rcases armed_step hs harmed with harmed | hpooled
    · exact (h.armed c harmed).step hs
    · exact (hpooled.remote h.base).step hs

theorem knows_start (root : String) (serverTimeControl : ℕ) : (start root serverTimeControl).Knows where
  base := base_start root serverTimeControl
  cmd := nofun
  armed := by
    rintro c (h | h)
    · cases h
    · cases h

/-- A message for a connection of the kind: commands and files go to remote ones, Returns to local
    ones. -/
def Suits (s : LkpServer) (c : ConnId) : Message → Prop
  | .command _ | .file _ => s.Remote c
  | .ret _ => s.Local c
  | _ => False

theorem Suits.step {e : ServerEvent} {m : Message} (h : s.Suits c m) (hs : s.step e = some t) : t.Suits c m := by
  cases m with
  | command m | file m => exact Remote.step h hs
  | ret m => exact Local.step h hs
  | _ => exact h

/-- What a step sends suits its receiver. -/
theorem Knows.suits {e : ServerEvent} (h : s.Knows) (hs : s.step e = some t) :
    Addresses (fun it => t.Suits it.1 it.2) s t := by
  obtain ⟨its, hsent, hits⟩ := addresses_handle (step_eq_some.1 hs).2
  refine ⟨its, hsent, ?_⟩
  rintro ⟨c, m⟩ hit
  have hby := hits _ hit
  refine Suits.step ?_ hs
  cases m with
  | command k => exact hby.1.remote h.base
  | file f =>
    rcases hby with ⟨hpooled, -⟩ | ⟨-, stack, rfl⟩
    · exact hpooled.remote h.base
    · have hq : 0 < (s.conns c).queued := of_decide_eq_true (step_eq_some.1 hs).1
      exact h.armed c (.inr hq)
  | ret r => exact h.cmd c hby.1
  | _ => exact hby.elim

end LkpServer

/-! ## What is on its way -/

/-- What a client may send. -/
def Message.isReport : Message → Bool
  | .file _ | .commandACK _ | .heartBeat _ | .pushACK _ => true
  | .command _ | .ret _ => false

theorem LkpClient.isReport_of_sentBy {e : ClientEvent} {m : Message} (h : LkpClient.SentBy e m) :
    m.isReport = true := by
  cases m with
  | command m | ret m => exact h.elim
  | _ => rfl

namespace System
variable {y z : System}

/-- Everything on its way suits its receiver. -/
structure Suited (y : System) : Prop where
  knows : y.server.Knows
  toNode : ∀ c, ∀ m ∈ y.toNode c, y.server.Suits c m
  toServer : ∀ c, ∀ m ∈ y.toServer c, m.isReport = true

theorem Suited.serverSends (h : y.Suited) {e : ServerEvent} {t : LkpServer} (ht : y.server.step e = some t) :
    (y.serverSends t).Suited := by
  obtain ⟨its, hsent, hits⟩ := h.knows.suits ht
  refine ⟨h.knows.step ht, ?_, h.toServer⟩
  intro c m hm
  simp only [System.serverSends, hsent, List.drop_left] at hm
  rcases List.mem_append.1 hm with hm | hm
  · exact (h.toNode c m hm).step ht
  · obtain ⟨it, hit, rfl⟩ := List.mem_map.1 hm
    obtain ⟨hmem, hc⟩ := List.mem_filter.1 hit
    obtain rfl : it.1 = c := of_decide_eq_true hc
    exact hits it hmem

theorem Suited.nodeSends (h : y.Suited) {conn : ConnId} {e : ClientEvent} {d : LkpClient}
    (hd : (y.node conn).step e = some d) : (y.nodeSends conn d).Suited := by
  obtain ⟨ms, hsent, hms⟩ := (LkpClient.sentBy_handle (LkpClient.step_eq_some.1 hd).2).posts
  refine ⟨h.knows, h.toNode, ?_⟩
  intro c m hm
  simp only [System.nodeSends, hsent, List.drop_left] at hm
  rcases mem_or_mem_of_sent hm with hm | hm
  · exact h.toServer c m hm
  · exact LkpClient.isReport_of_sentBy (hms m hm)

theorem Suited.popServer (h : y.Suited) {conn : ConnId} {m : Message} {rest : List Message}
    (hq : y.toServer conn = m :: rest) : (y.popServer conn rest).Suited :=
  ⟨h.knows, h.toNode, fun c m' hm' => h.toServer c m' (mem_of_mem_rest hq hm')⟩

theorem Suited.popNode (h : y.Suited) {conn : ConnId} {m : Message} {rest : List Message}
    (hq : y.toNode conn = m :: rest) : (y.popNode conn rest).Suited :=
  ⟨h.knows, fun c m' hm' => h.toNode c m' (mem_of_mem_rest hq hm'), h.toServer⟩

theorem Suited.step {e : SystemEvent} (h : y.Suited) (hs : y.step e = some z) : z.Suited := by
  cases steps_of_step hs with
  | server _ ht => exact h.serverSends ht
  | command ht => exact h.serverSends ht
  | deliver hq ht => exact (h.popServer hq).serverSends ht
  | node _ hd => exact h.nodeSends hd
  | receive hq hd => exact (h.popNode hq).nodeSends hd

theorem suited_of_runs {root : String} {serverTimeControl : ℕ} {node : ConnId → LkpClient} {es : List SystemEvent}
    (h : Runs step (start root serverTimeControl node) es y) : y.Suited :=
  h.inv' ⟨LkpServer.knows_start _ _, nofun, nofun⟩ fun _ _ _ hu hv => hu.step hv

/-- **No party is sent what it has no callback for.**  Whatever has been sent and has not arrived:
    what comes from a node has a callback at the server, what goes to a remote connection has
    one at the client, and what goes to a local connection has one at the CLI.  The default
    callbacks, which shut the connection down or leave the process, are never called. -/
theorem no_unknown {root : String} {serverTimeControl : ℕ} {node : ConnId → LkpClient} {es : List SystemEvent}
    (h : Runs step (start root serverTimeControl node) es y) (c : ConnId) :
    (∀ m ∈ y.toServer c, ∀ env, ((y.server.dispatcher c env).callbacks_ m.toPb.1).isSome = true) ∧
      ((y.server.conns c).peerIp ≠ "127.0.0.1" →
        ∀ m ∈ y.toNode c, ∀ env, (((y.node c).dispatcher env).callbacks_ m.toPb.1).isSome = true) ∧
      ((y.server.conns c).peerIp = "127.0.0.1" →
        ∀ m ∈ y.toNode c, (LkpCmdClient.dispatcher.callbacks_ m.toPb.1).isSome = true) := by
  have hsuited := suited_of_runs h
  refine ⟨fun m hm env => ?_, fun hip m hm env => ?_, fun hip m hm => ?_⟩
  · have hreport := hsuited.toServer c m hm
    cases m with
    | command m | ret m => cases hreport
    | _ => rfl
  · have hsuits := hsuited.toNode c m hm
    cases m with
    | command m | file m => rfl
    | ret m => exact absurd hsuits.2 hip
    | _ => exact hsuits.elim
  · have hsuits := hsuited.toNode c m hm
    cases m with
    | command m | file m => exact absurd hip hsuits.2
    | ret m => rfl
    | _ => exact hsuits.elim

/-- A command and a Return on their ways from the server, and a heartbeat on its way to it. -/
theorem no_unknown_three :
    ∃ y, Runs step (start "" 3 fun _ => .joined []) [.server (.up 1 "10.0.0.1"), .server (.up 9 "127.0.0.1"),
        .command 9 { command := .RESULT, sendToAll := true } {}, .command 9 { command := .LIST } {},
        .node 1 .timer] y ∧
      (y.toServer 1).length = 1 ∧ (y.toNode 1).length = 1 ∧ (y.toNode 9).length = 1 ∧
      (∀ m ∈ y.toServer 1, ((y.server.dispatcher 1 {}).callbacks_ m.toPb.1).isSome = true) ∧
      (∀ m ∈ y.toNode 1, (((y.node 1).dispatcher {}).callbacks_ m.toPb.1).isSome = true) ∧
      ∀ m ∈ y.toNode 9, (LkpCmdClient.dispatcher.callbacks_ m.toPb.1).isSome = true := by
  obtain ⟨y, hy, hserver, hnode, hcli, hremote, hlocal⟩ :
      ∃ y, Runs step (start "" 3 fun _ => .joined []) [.server (.up 1 "10.0.0.1"), .server (.up 9 "127.0.0.1"),
        .command 9 { command := .RESULT, sendToAll := true } {}, .command 9 { command := .LIST } {},
        .node 1 .timer] y ∧ (y.toServer 1).length = 1 ∧ (y.toNode 1).length = 1 ∧ (y.toNode 9).length = 1 ∧
        (y.server.conns 1).peerIp ≠ "127.0.0.1" ∧ (y.server.conns 9).peerIp = "127.0.0.1" :=
    Runs.exists_of_run (by decide +kernel)
  exact ⟨y, hy, hserver, hnode, hcli, fun m hm => (no_unknown hy 1).1 m hm {},
    fun m hm => (no_unknown hy 1).2.1 hremote m hm {}, (no_unknown hy 9).2.2 hlocal⟩

end System

/-! ## The answers of a node -/

/-- The command of a message that is one. -/
def Message.command? : Message → Option CommandID
  | .command m => some m.command
  | _ => none

/-- The command that a node answers with the message: by an ACK, or by the beginning of its
    result. -/
def Message.answers? : Message → Option CommandID
  | .commandACK m => some m.command
  | .file m => if m.fileType = .RESULT ∧ m.firstPatch = true then some .RESULT else none
  | _ => none

/-- The command that an event hands to a node. -/
def ClientEvent.command? : ClientEvent → Option CommandID
  | .message m _ => m.command?
  | _ => none

/-- A node only answers the command that it handles. -/
theorem LkpClient.answers_of_sentBy {e : ClientEvent} {m : Message} (h : LkpClient.SentBy e m) {k : CommandID}
    (hm : m.answers? = some k) : e.command? = some k := by
  cases m with
  | commandACK a =>
    cases hm
    obtain ⟨r, env, rfl, ha⟩ := h
    rw [ha]; rfl
  | file f =>
    simp only [Message.answers?] at hm
    split_ifs at hm with hf
    cases hm
    rcases h with ⟨-, -, r, env, rfl, hr⟩ | ⟨-, hfirst, -⟩
    · rw [← hr]; rfl
    · rw [hf.2] at hfirst
      cases hfirst
  | _ => cases hm

namespace LkpServer

/-- What the server has sent on a connection, in order. -/
def sentTo (s : LkpServer) (c : ConnId) : List Message := (s.sent.filter fun it => it.1 = c).map Prod.snd

theorem sentTo_of_sent {s t : LkpServer} {its : List (ConnId × Message)} (h : t.sent = s.sent ++ its) (c : ConnId) :
    t.sentTo c = s.sentTo c ++ (its.filter fun it => it.1 = c).map Prod.snd := by
  rw [sentTo, h, List.filter_append, List.map_append]; rfl

end LkpServer

namespace System
variable {y z : System}

/-- Of what the server has sent to the node, `got` has arrived, and of what the node has sent,
    `arrived`; it has answered commands that it has got, in their order. -/
structure InOrder (y : System) (c : ConnId) (got arrived : List Message) : Prop where
  toNode : y.server.sentTo c = got ++ y.toNode c
  toServer : (y.node c).sent = arrived ++ y.toServer c
  answers : ((y.node c).sent.filterMap Message.answers?).Sublist (got.filterMap Message.command?)

variable {c : ConnId} {got arrived : List Message}

theorem InOrder.serverSends (h : y.InOrder c got arrived) {e : ServerEvent} {t : LkpServer}
    (ht : y.server.step e = some t) : (y.serverSends t).InOrder c got arrived := by
  obtain ⟨its, hsent, -⟩ := LkpServer.addresses_handle (LkpServer.step_eq_some.1 ht).2
  refine ⟨?_, h.toServer, h.answers⟩
  show t.sentTo c = got ++ (y.toNode c ++ _)
  rw [LkpServer.sentTo_of_sent hsent, h.toNode, hsent, List.drop_left, List.append_assoc]

theorem InOrder.popServer (h : y.InOrder c got arrived) {conn : ConnId} {m : Message} {rest : List Message}
    (hq : y.toServer conn = m :: rest) : ∃ arrived', (y.popServer conn rest).InOrder c got arrived' := by
  by_cases hc : c = conn
  · subst hc
    refine ⟨arrived ++ [m], h.toNode, ?_, h.answers⟩
    simp only [System.popServer, Function.update_self]
    rw [h.toServer, hq, List.append_assoc]
    rfl
  · refine ⟨arrived, h.toNode, ?_, h.answers⟩
    simp only [System.popServer, Function.update_of_ne hc]
    exact h.toServer

/-- What another node sends. -/
theorem InOrder.nodeSends_of_ne (h : y.InOrder c got arrived) {conn : ConnId} (hc : c ≠ conn) (d : LkpClient) :
    (y.nodeSends conn d).InOrder c got arrived := by
  refine ⟨h.toNode, ?_, ?_⟩
  · simp only [System.nodeSends, Function.update_of_ne hc]
    exact h.toServer
  · simp only [System.nodeSends, Function.update_of_ne hc]
    exact h.answers

/-- What the node sends when it handles an event, `x` being the system with what has arrived for
    it off its way. -/
theorem InOrder.nodeSends (h : y.InOrder c got arrived) {x : System} {e : ClientEvent} {d : LkpClient}
    {got' : List Message} (hserver : x.server = y.server) (hnode : x.node = y.node)
    (htoServer : x.toServer = y.toServer) (hgot : got ++ y.toNode c = got' ++ x.toNode c)
    (hd : (y.node c).step e = some d) (he : (got.filterMap Message.command? ++ e.command?.toList).Sublist
      (got'.filterMap Message.command?)) : (x.nodeSends c d).InOrder c got' arrived := by
  obtain ⟨o, hsent, ho⟩ := LkpClient.sentBy_handle (LkpClient.step_eq_some.1 hd).2
  refine ⟨?_, ?_, ?_⟩
  · show x.server.sentTo c = got' ++ x.toNode c
    rw [hserver, h.toNode, hgot]
  · simp only [System.nodeSends, Function.update_self, hnode, htoServer, hsent, List.drop_left]
    rw [h.toServer, List.append_assoc]
  · simp only [System.nodeSends, Function.update_self, hsent, List.filterMap_append]
    refine List.Sublist.trans (h.answers.append ?_) he
    cases o with
    | none => exact List.nil_sublist _
    | some m =>
      simp only [Option.toList_some, List.filterMap_cons, List.filterMap_nil]
      cases hm : m.answers? with
      | none => exact List.nil_sublist _
      | some k =>
        rw [LkpClient.answers_of_sentBy (ho m rfl) hm]
        exact List.Sublist.refl _

theorem inOrder_step {e : SystemEvent} (h : ∃ got arrived, y.InOrder c got arrived) (hs : y.step e = some z) :
    ∃ got arrived, z.InOrder c got arrived := by
  obtain ⟨got, arrived, h⟩ := h
  cases steps_of_step hs with
  | server _ ht => exact ⟨got, arrived, h.serverSends ht⟩
  | command ht => exact ⟨got, arrived, h.serverSends ht⟩
  | deliver hq ht =>
    obtain ⟨arrived', h'⟩ := h.popServer hq
    exact ⟨got, arrived', h'.serverSends ht⟩
  | @node conn e d he hd =>
    by_cases hc : c = conn
    · subst hc
      have hcommand : e.command? = none := by
        cases e with
        | message m env => cases he
        | _ => rfl
      refine ⟨got, arrived, h.nodeSends rfl rfl rfl rfl hd ?_⟩
      rw [hcommand, Option.toList_none, List.append_nil]
    · exact ⟨got, arrived, h.nodeSends_of_ne hc d⟩
  | @receive conn env m rest d hq hd =>
    by_cases hc : c = conn
    · subst hc
      refine ⟨got ++ [m], arrived, h.nodeSends rfl rfl rfl ?_ hd ?_⟩
      · simp only [System.popNode, Function.update_self]
        rw [hq, List.append_assoc]
        rfl
      · rw [List.filterMap_append]
        cases hm : m.command? with
        | none => simp [ClientEvent.command?, hm]
        | some k => simp [ClientEvent.command?, hm]
    · have hpop : (y.popNode conn rest).InOrder c got arrived := by
        refine ⟨?_, h.toServer, h.answers⟩
        simp only [System.popNode, Function.update_of_ne hc]
        exact h.toNode
      exact ⟨got, arrived, hpop.nodeSends_of_ne hc d⟩

/-- **A node answers in order, and nothing twice.**  What the server has sent to a node is what
    has arrived there and what is still on its way, in this order; what the node has sent
    likewise; and the commands that it has answered, each carried back by its answer, are some
    of those that have arrived, in their order. -/
theorem answers_in_order {root : String} {serverTimeControl : ℕ} {node : ConnId → LkpClient} {es : List SystemEvent}
    (h : Runs step (start root serverTimeControl node) es y) (c : ConnId) (hnew : (node c).sent = []) :
    ∃ got arrived, y.server.sentTo c = got ++ y.toNode c ∧ (y.node c).sent = arrived ++ y.toServer c ∧
      ((y.node c).sent.filterMap Message.answers?).Sublist (got.filterMap Message.command?) := by
  have hstart : (start root serverTimeControl node).InOrder c [] [] :=
    ⟨rfl, hnew, by show ((node c).sent.filterMap _).Sublist _; rw [hnew]; exact List.Sublist.refl _⟩
  obtain ⟨got, arrived, h⟩ := h.inv' (I := fun y => ∃ got arrived, y.InOrder c got arrived) ⟨[], [], hstart⟩
    fun _ _ _ hu hv => inOrder_step hu hv
  exact ⟨got, arrived, h.toNode, h.toServer, h.answers⟩

/-- A node that answers a RUN and an UPDATE, with a third command on its way. -/
theorem answers_in_order_two :
    ∃ y, Runs step (start "" 3 fun _ => .joined []) [.server (.up 1 "10.0.0.1"), .server (.up 9 "127.0.0.1"),
        .command 9 { command := .RUN, sendToAll := true, testcase := "t" } {},
        .command 9 { command := .UPDATE, sendToAll := true } {},
        .command 9 { command := .RUN, sendToAll := true, testcase := "u" } {}, .receive 1 {}, .receive 1 {}] y ∧
      (y.node 1).sent.filterMap Message.answers? = [.RUN, .UPDATE] ∧ (y.toNode 1).length = 1 ∧
      ∃ got arrived, y.server.sentTo 1 = got ++ y.toNode 1 ∧ (y.node 1).sent = arrived ++ y.toServer 1 ∧
        ((y.node 1).sent.filterMap Message.answers?).Sublist (got.filterMap Message.command?) := by
  obtain ⟨y, hy, hanswers, hway⟩ :
      ∃ y, Runs step (start "" 3 fun _ => .joined []) [.server (.up 1 "10.0.0.1"), .server (.up 9 "127.0.0.1"),
        .command 9 { command := .RUN, sendToAll := true, testcase := "t" } {},
        .command 9 { command := .UPDATE, sendToAll := true } {},
        .command 9 { command := .RUN, sendToAll := true, testcase := "u" } {}, .receive 1 {}, .receive 1 {}] y ∧
        (y.node 1).sent.filterMap Message.answers? = [.RUN, .UPDATE] ∧ (y.toNode 1).length = 1 :=
    Runs.exists_of_run (by decide +kernel)
  exact ⟨y, hy, hanswers, hway, answers_in_order hy 1 rfl⟩

end System

end LkpExtent
