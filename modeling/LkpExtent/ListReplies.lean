/-
  LkpExtent formalization — the Returns of LIST commands.

  A CommandACK carries back the command that came with the message that it answers, so
  a Return could name LIST without being the answer to one.

  * `echoes_step`: a client carries back only the command that it handles;
  * `NoListInFlight`: no message between the server and its nodes names LIST;
  * `listReplies_match`: every Return that names LIST counts the nodes that it lists,
    and the CLI can show it.
-/
import LkpExtent.Aggregation
import LkpExtent.CmdClient
import LkpExtent.NodeIDs
import LkpExtent.Outbox
import LkpExtent.System

namespace LkpExtent

open Lib

/-- A command or a CommandACK that names LIST. -/
def Message.namesList : Message → Bool
  | .command m => m.command = .LIST
  | .commandACK m => m.command = .LIST
  | _ => false

/-! ## What a client carries back -/

/-- What a client may send when it handles an event: no command, and a CommandACK only
    with the command that it handles. -/
def ClientEvent.Echoes (e : ClientEvent) : Message → Prop
  | .commandACK a => ∃ m env, e = .message (.command m) env ∧ a.command = m.command
  | .command _ => False
  | _ => True

namespace LkpClient
variable {c d : LkpClient} {P : Message → Prop}

/-- `d` has sent more than `c`, and all of this meets `P`. -/
def Posts (P : Message → Prop) (c d : LkpClient) : Prop :=
  ∃ ms, d.sent = c.sent ++ ms ∧ ∀ m ∈ ms, P m

theorem posts_of_eq (h : d.sent = c.sent) : Posts P c d := ⟨[], by rw [h, List.append_nil], nofun⟩

/-- What is sent after other fields have been changed. -/
theorem Posts.of_sent {c' : LkpClient} (h : Posts P c' d) (hs : c'.sent = c.sent) : Posts P c d := by
  rw [Posts, ← hs]; exact h

theorem posts_sendToServer {message : Message} (h : c.sendToServer message = .ok d) (hm : P message) :
    Posts P c d := by
  obtain ⟨-, -, hs | hs⟩ := sendToServer_sent h
  · refine ⟨[message], hs, ?_⟩
    intro m hmem
    rwa [List.mem_singleton.1 hmem]
  · exact posts_of_eq hs

theorem posts_onCommandMsg {message : Command} {env : ClientEnv} (h : c.onCommandMsg message env = .ok d) :
    Posts (ClientEvent.Echoes (.message (.command message) env)) c d := by
  have hack : ∀ a : CommandACK, a.command = message.command →
      ClientEvent.Echoes (.message (.command message) env) (.commandACK a) :=
    fun a ha => ⟨message, env, rfl, ha⟩
  have hfork : ∀ {c' : LkpClient} {ACK : CommandACK}, ACK.command = message.command →
      c'.forkChild ACK env = .ok d →
      Posts (ClientEvent.Echoes (.message (.command message) env)) c' d := by
    intro c' ACK hACK h
    simp only [forkChild] at h
    split_ifs at h
    · exact (posts_sendToServer h (hack _ hACK)).of_sent rfl
    · exact (posts_sendToServer h (hack _ hACK)).of_sent rfl
  simp only [onCommandMsg] at h
  split_ifs at h
  · exact posts_sendToServer h (hack _ rfl)
  · split at h
    · exact (hfork rfl h).of_sent rfl
    · exact (hfork rfl h).of_sent rfl
    · simp only [onResult] at h
      split at h
      · exact (posts_sendToServer h (hack _ rfl)).of_sent rfl
      · exact (posts_sendToServer h trivial).of_sent rfl
    · exact (posts_sendToServer h trivial).of_sent rfl
    · cases h; exact posts_of_eq rfl
    · cases h; exact posts_of_eq rfl

theorem posts_onFileMsg {message : File} {env : ClientEnv} {e : ClientEvent}
    (h : c.onFileMsg message env = .ok d) : Posts e.Echoes c d := by
  by_cases hend : message.fileType = .END
  · obtain ⟨c₁, c₂, _, _, h₁, -, h₂, hd⟩ := onFileMsg_end h hend
    obtain ⟨ms, hs, hms⟩ := (posts_sendToServer h₂ (P := e.Echoes) trivial).of_sent
      (congrArg sent (fcloseTestcase_eq h₁) :)
    exact ⟨ms, (congrArg sent hd :).trans hs, hms⟩
  · simp only [onFileMsg] at h
    rw [if_neg hend] at h
    split_ifs at h
    · have hopen : (c.openTestcase message).sent = c.sent := by rw [openTestcase]
      exact posts_of_eq ((congrArg sent (fwriteTestcase_eq h) :).trans hopen)
    · exact posts_of_eq (congrArg sent (fwriteTestcase_eq h) :)

theorem posts_onWriteComplete {stack : Bytes} {e : ClientEvent} (h : c.onWriteComplete stack = .ok d) :
    Posts e.Echoes c d := by
  simp only [onWriteComplete] at h
  split at h
  · cases h
  · split at h
    · exact (posts_sendToServer h trivial).of_sent rfl
    · exact (posts_sendToServer h trivial).of_sent rfl

/-- **A client carries back only the command that it handles.** -/
theorem echoes_step {e : ClientEvent} (hs : c.step e = some d) : Posts e.Echoes c d := by
  have h := (step_eq_some.1 hs).2
  cases e with
  | up => cases h; exact posts_of_eq rfl
  | down => cases h; exact posts_of_eq rfl
  | message m env =>
    cases m with
    | command m => exact posts_onCommandMsg h
    | file m => exact posts_onFileMsg h
    | _ => cases h
  | written => cases h; exact posts_of_eq rfl
  | writeComplete stack =>
    have h : { c with conn := c.conn.dequeue }.onWriteComplete stack = .ok d := h
    exact (posts_onWriteComplete h).of_sent rfl
  | timer =>
    have h : c.onTimer = .ok d := h
    simp only [onTimer] at h
    split_ifs at h
    exact posts_sendToServer h trivial
  | childExit => cases h; exact posts_of_eq rfl

end LkpClient

/-! ## The Return of a LIST command -/

/-- The Return counts the nodes that it lists, and lists them in the order of their IDs. -/
structure ListMatches (r : Return) : Prop where
  count : r.clientNum.toNat = r.nodeInfo.length
  sorted : (r.nodeInfo.map NodeInfo.nodeId).Pairwise (· < ·)

theorem LkpServer.listReturn_matches {s : LkpServer} (hb : s.members.Base)
    (hint : s.clientPool.nodeCount ≤ 2 ^ 31) (command : CommandID) : ListMatches (s.listReturn command) := by
  have hwf : s.clientPool.WF := ⟨hb.wf.count, hb.wf.range, hb.wf.disjoint⟩
  have hsize := hwf.size_le
  constructor
  · simp only [listReturn]
    rw [toNat_u32_of_lt (by omega), List.length_map, Std.TreeMap.length_toList]
    rfl
  · simp only [listReturn, List.map_map]
    rw [List.pairwise_map]
    refine Std.TreeMap.ordered_keys_toList.imp_of_mem ?_
    intro it it' hit hit' hlt
    have hrange : ∀ it : ℤ × ConnId, it ∈ s.clientPool.connections.toList → 0 ≤ it.1 ∧ it.1 < 2 ^ 31 := by
      intro it hit
      have hmem : it.1 ∈ s.clientPool.connections :=
        s.clientPool.mem_connections.2 ⟨it.2, s.clientPool.mem_toList.1 hit⟩
      obtain ⟨h₀, h⟩ := (hwf.range it.1).1 (.inr hmem)
      exact ⟨h₀, h.trans_le hint⟩
    exact u32_lt_u32 (hrange it hit) (hrange it' hit') (compare_lt_iff_lt.1 hlt)

theorem ListMatches.shown {r : Return} (h : ListMatches r) (hl : r.command = .LIST) :
    (LkpCmdClient.onReturnMsg r).isSome :=
  (LkpCmdClient.onReturnMsg_list hl).2 h.count.le

/-! ## Messages on the way -/

namespace System
variable {x y : System}

/-- No message between the server and its nodes names LIST, and the Returns sent for
    LIST are as they should be. -/
structure NoListInFlight (x : System) : Prop where
  base : x.server.members.Base
  toServer : ∀ c, ∀ m ∈ x.toServer c, m.namesList = false
  toNode : ∀ c, ∀ m ∈ x.toNode c, m.namesList = false
  returns : ∀ c r, (c, .ret r) ∈ x.server.sent → r.command = .LIST → ListMatches r

theorem noListInFlight_start (root : String) (serverTimeControl : ℕ) (node : ConnId → LkpClient) :
    NoListInFlight (start root serverTimeControl node) where
  base := LkpServer.base_start root serverTimeControl
  toServer := nofun
  toNode := nofun
  returns := nofun

theorem namesList_of_postedBy {s : LkpServer} {e : ServerEvent} {m : Message} (h : s.PostedBy e m) :
    m.namesList = false := by
  cases m with
  | command k =>
    obtain ⟨c, m, env, -, hk, hm⟩ := h
    have hcommand : k.command = m.command := by rw [hk]
    rcases hm with hm | hm | hm <;> simp [Message.namesList, hcommand, hm]
  | commandACK a => exact h.elim
  | _ => rfl

/-- The server handles an event, which is no answer that names LIST. -/
theorem NoListInFlight.server (hx : NoListInFlight x) {e : ServerEvent}
    (hint : x.server.clientPool.nodeCount ≤ 2 ^ 31) (h : x.serverStep e = some y)
    (hans : ∀ a, answer? e = some a → a.2.namesList = false) : NoListInFlight y := by
  obtain ⟨t, ht, rfl⟩ := Option.map_eq_some_iff.1 h
  obtain ⟨ms, hsent, hms⟩ := LkpServer.posts_step ht
  refine ⟨LkpServer.base_step hx.base ht, hx.toServer, ?_, ?_⟩
  · intro c m hm
    simp only [hsent, List.drop_left] at hm
    rcases List.mem_append.1 hm with hm | hm
    · exact hx.toNode c m hm
    · obtain ⟨it, hit, rfl⟩ := List.mem_map.1 hm
      exact namesList_of_postedBy (hms it (List.mem_of_mem_filter hit))
  · intro c r hr hl
    simp only [hsent] at hr
    rcases List.mem_append.1 hr with hr | hr
    · exact hx.returns c r hr hl
    · rcases hms _ hr with ⟨a, ha, hcommand⟩ | ⟨_, _, _, -, -, rfl⟩
      · -- an answer that completes a Return for LIST would name LIST itself
        have hno := hans a ha
        rw [hl] at hcommand
        obtain ⟨d, m⟩ := a
        cases m with
        | commandACK k => simp [Message.namesList, show k.command = .LIST from hcommand.symm] at hno
        | _ => cases hcommand
      · exact LkpServer.listReturn_matches hx.base hint .LIST

/-- A node handles an event. -/
theorem NoListInFlight.node (hx : NoListInFlight x) {conn : ConnId} {e : ClientEvent}
    (h : x.nodeStep conn e = some y)
    (hcommand : ∀ m env, e = .message (.command m) env → m.command ≠ .LIST) : NoListInFlight y := by
  obtain ⟨d, hd, rfl⟩ := Option.map_eq_some_iff.1 h
  obtain ⟨ms, hsent, hms⟩ := LkpClient.echoes_step hd
  refine ⟨hx.base, ?_, hx.toNode, hx.returns⟩
  intro c m hm
  rw [hsent, List.drop_left] at hm
  rcases mem_or_mem_of_sent hm with hm | hm
  · exact hx.toServer c m hm
  · have hecho := hms m hm
    cases m with
    | commandACK a =>
      obtain ⟨k, env, he, ha⟩ := hecho
      simp [Message.namesList, ha, hcommand k env he]
    | command k => exact hecho.elim
    | _ => rfl

theorem NoListInFlight.step (hx : NoListInFlight x) {e : SystemEvent}
    (hint : x.server.clientPool.nodeCount ≤ 2 ^ 31) (h : x.step e = some y) : NoListInFlight y := by
  cases e with
  | server e =>
    simp only [System.step] at h
    split_ifs at h with hm
    refine hx.server hint h ?_
    intro a ha
    obtain ⟨env, rfl⟩ := eq_message_of_answer ha
    exact absurd rfl hm
  | command conn m env =>
    simp only [System.step] at h
    split_ifs at h
    refine hx.server hint h ?_
    intro a ha
    cases ha
  | deliver conn env =>
    simp only [System.step] at h
    split at h
    · cases h
    · rename_i m rest hw
      have hhead : m.namesList = false := hx.toServer conn m (by rw [hw]; exact List.mem_cons_self)
      have hx' : NoListInFlight { x with toServer := Function.update x.toServer conn rest } := by
        refine ⟨hx.base, ?_, hx.toNode, hx.returns⟩
        intro c m' hm'
        exact hx.toServer c m' (mem_of_mem_rest hw hm')
      refine hx'.server hint h ?_
      intro a ha
      obtain ⟨env', he⟩ := eq_message_of_answer ha
      cases he
      exact hhead
  | node conn e =>
    simp only [System.step] at h
    split_ifs at h with hm
    refine hx.node h ?_
    rintro m env rfl
    exact absurd rfl hm
  | receive conn env =>
    simp only [System.step] at h
    split at h
    · cases h
    · rename_i m rest hw
      have hhead : m.namesList = false := hx.toNode conn m (by rw [hw]; exact List.mem_cons_self)
      have hx' : NoListInFlight { x with toNode := Function.update x.toNode conn rest } := by
        refine ⟨hx.base, hx.toServer, ?_, hx.returns⟩
        intro c m' hm'
        exact hx.toNode c m' (mem_of_mem_rest hw hm')
      refine hx'.node h ?_
      rintro k env' ⟨⟩
      simpa [Message.namesList] using hhead

/-- **Every Return that names LIST counts the nodes that it lists**, in the order of
    their IDs, so that the CLI shows it without reading out of range. -/
theorem listReplies_match {root : String} {serverTimeControl : ℕ} {node : ConnId → LkpClient}
    {es : List SystemEvent} (h : Runs step (start root serverTimeControl node) es x)
    (hint : EachState step (start root serverTimeControl node) es fun y =>
      y.server.clientPool.nodeCount ≤ 2 ^ 31) (cli : ConnId) (r : Return)
    (hr : (cli, .ret r) ∈ x.server.sent) (hl : r.command = .LIST) :
    ListMatches r ∧ (LkpCmdClient.onReturnMsg r).isSome := by
  have hx : NoListInFlight x := by
    refine h.inv (P := fun y _ => y.server.clientPool.nodeCount ≤ 2 ^ 31)
      (noListInFlight_start root serverTimeControl node) (fun _ _ _ hu hP hv => hu.step hP hv) ?_
    exact fun es₁ e es₂ y hes hy => hint es₁ (e :: es₂) y hes hy
  have hmatch := hx.returns cli r hr hl
  exact ⟨hmatch, hmatch.shown hl⟩

/-- The LIST of two nodes, one of which has left an UPDATE unanswered. -/
theorem listReplies_twoNodes : ∃ x r, Runs step (start "/lkp" 3 fun _ => .joined [])
    [.server (.up 1 "10.0.0.1"), .server (.up 2 "10.0.0.2"), .server (.up 9 "127.0.0.1"),
      .command 9 { command := .UPDATE, sendToAll := true } {}, .receive 1 {}, .deliver 1 {},
      .command 9 { command := .LIST } {}] x ∧
    (9, .ret r) ∈ x.server.sent ∧ r.nodeInfo = [⟨0, "10.0.0.1"⟩, ⟨1, "10.0.0.2"⟩] ∧ ListMatches r := by
  let es : List SystemEvent := [.server (.up 1 "10.0.0.1"), .server (.up 2 "10.0.0.2"),
    .server (.up 9 "127.0.0.1"), .command 9 { command := .UPDATE, sendToAll := true } {}, .receive 1 {},
    .deliver 1 {}, .command 9 { command := .LIST } {}]
  let r : Return := ⟨2, 2, .LIST, [⟨0, "10.0.0.1"⟩, ⟨1, "10.0.0.2"⟩]⟩
  obtain ⟨x, hx, hr⟩ : ∃ x, Runs step (start "/lkp" 3 fun _ => .joined []) es x ∧ (9, .ret r) ∈ x.server.sent :=
    Runs.exists_of_run (by decide +kernel)
  have hint : EachState step (start "/lkp" 3 fun _ => .joined []) es fun y =>
      y.server.clientPool.nodeCount ≤ 2 ^ 31 := .of_checkStates (by decide +kernel)
  exact ⟨x, r, hx, hr, rfl, (listReplies_match hx hint 9 r hr rfl).1⟩

end System

end LkpExtent
