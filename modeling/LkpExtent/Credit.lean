/-
  LkpExtent formalization — which command an answer is credited to.

  The messages do not say which command they answer.  `Ledger` adds to the state
  what they leave out: the commands are numbered, an answer carries the number of the
  command that it answers, and the answers handled since the last command are kept.

  `credited`: while every answer handled is the first one of a node to the last command, a
  Return is one to this command, it counts and lists answers to it only, and all its nodes
  have answered.
-/
import LkpExtent.Commands

namespace LkpExtent

open Lib

/-- An answer handled: of which node, to which command, under which node ID, and
    whether it was counted as a success. -/
structure Credit where
  conn : ConnId
  serial : ℕ
  nodeID : ℤ
  ok : Bool
  deriving DecidableEq

/-- The number of commands accepted, the last one, the nodes that were told of it, and the
    answers handled since. -/
structure Ledger where
  serial : ℕ := 0
  command : Option CommandID := none
  addressed : List ConnId := []
  handled : List Credit := []

/-- The answers to the last command. -/
def Ledger.own (g : Ledger) : List Credit := g.handled.filter fun a => a.serial = g.serial

/-- An event with the number of the command that it answers, if it is an answer. -/
structure Tagged where
  event : ServerEvent
  serial : ℕ := 0

/-- The node ID that an answer carries. -/
def nodeIDOf : Message → ℤ
  | .commandACK m => intOfU32 m.nodeId
  | .pushACK m => intOfU32 m.nodeId
  | .file m => intOfU32 m.nodeId
  | _ => 0

namespace LkpServer
variable {s t : LkpServer}

/-- The nodes that are told of a command: a push stops at the first that its file does
    not open for. -/
def addressedBy (s : LkpServer) (message : Command) (env : Env) : List ConnId :=
  match message.command with
  | .UPDATE | .RUN | .RESULT => (s.targets message).map Prod.snd
  | .PUSH => ((s.targets message).takeWhile fun it => env.opens it.1).map Prod.snd
  | .LIST | .other _ => []

/-- The ledger after a step of the server. -/
def ledgerAfter (s t : LkpServer) (g : Ledger) (a : Tagged) : Ledger :=
  match a.event with
  | .message _ (.command m) env => ⟨g.serial + 1, m.command, s.addressedBy m env, []⟩
  | e => match answer? e with
    | some (c, m) =>
      { g with handled := g.handled ++ [⟨c, a.serial, nodeIDOf m, decide (s.clientOKNum < t.clientOKNum)⟩] }
    | none => g

/-- A step of the server and its ledger. -/
def taggedStep (x : LkpServer × Ledger) (a : Tagged) : Option (LkpServer × Ledger) :=
  (x.1.step a.event).map fun t => (t, ledgerAfter x.1 t x.2 a)

/-! ## The properties of a step -/

/-- An answer is one to a command accepted before; to the last command, the nodes told
    of it answer, each once. -/
def Legit (x : LkpServer × Ledger) (a : Tagged) : Prop :=
  ∀ am ∈ answer? a.event, a.serial ≤ x.2.serial ∧
    (a.serial = x.2.serial → am.1 ∈ x.2.addressed ∧ am.1 ∉ x.2.own.map Credit.conn)

instance (x : LkpServer × Ledger) (a : Tagged) : Decidable (Legit x a) :=
  inferInstanceAs (Decidable (∀ am ∈ answer? a.event, _))

/-- An answer is one to the last command, of a node that was told of it and has not
    answered it before. -/
def FirstAnswer (x : LkpServer × Ledger) (a : Tagged) : Prop :=
  ∀ am ∈ answer? a.event, a.serial = x.2.serial ∧ x.2.command = some (commandOf am.2) ∧
    am.1 ∈ x.2.addressed ∧ am.1 ∉ x.2.own.map Credit.conn

instance (x : LkpServer × Ledger) (a : Tagged) : Decidable (FirstAnswer x a) :=
  inferInstanceAs (Decidable (∀ am ∈ answer? a.event, _))

/-- A Return sent for answers is one to the last command, it counts the successes among the
    answers to it and lists failures among them, and all nodes told of it have answered. -/
def Credited (x : LkpServer × Ledger) (a : Tagged) : Prop :=
  ∀ y, taggedStep x a = some y → (answer? a.event).isSome = true →
    ∀ cli r, y.1.returns = x.1.returns ++ [(cli, r)] →
      y.2.command = some r.command ∧ r.clientOkNum = u32 (y.2.own.countP Credit.ok) ∧
      (∀ i ∈ r.nodeInfo, ∃ c ∈ y.2.own, c.ok = false ∧ i.nodeId = u32 c.nodeID) ∧
      ∀ d ∈ y.2.addressed, ∃ c ∈ y.2.own, c.conn = d

/-! ## What the counters say of the ledger -/

/-- A command waits for the answers of at least the nodes told of it. -/
theorem length_addressedBy_le (message : Command) (env : Env) :
    (s.addressedBy message env).length ≤ s.awaited message := by
  have hle := length_targets_le (s := s) message
  unfold addressedBy awaited
  cases message.command with
  | PUSH =>
    rw [List.length_map]
    exact ((List.takeWhile_sublist _).length_le).trans hle
  | LIST | other _ => exact Nat.zero_le _
  | _ => rw [List.length_map]; exact hle

theorem key_of_votesAs {m : Message} {v : Vote ℤ String} (h : VotesAs m v) : v.key = nodeIDOf m := by
  cases m with
  | commandACK m => rw [show v = ackVote _ _ _ from h]; rfl
  | pushACK m => rw [show v = ackVote _ _ _ from h]; rfl
  | file m => exact h.1
  | _ => exact h.elim

/-- The counters are those of the answers handled since the last command. -/
structure Books (x : LkpServer × Ledger) : Prop where
  acks : x.1.tally.acks = x.2.handled.length
  ok : x.1.tally.ok = x.2.handled.countP Credit.ok
  info : ∀ id m, x.1.tally.info[id]? = some m → ∃ c ∈ x.2.handled, c.ok = false ∧ c.nodeID = id
  num : x.2.addressed.length ≤ x.1.tally.num
  fresh : ∀ c ∈ x.2.handled, c.serial = x.2.serial
  once : (x.2.handled.map Credit.conn).Nodup
  addressed : ∀ c ∈ x.2.handled, c.conn ∈ x.2.addressed

theorem Books.own {x : LkpServer × Ledger} (h : Books x) : x.2.own = x.2.handled :=
  List.filter_eq_self.2 fun c hc => decide_eq_true (h.fresh c hc)

theorem books_start (root : String) (serverTimeControl : ℕ) : Books (start root serverTimeControl, {}) where
  acks := rfl
  ok := rfl
  info id m h := by
    rw [show (start root serverTimeControl).tally.info[id]? = none from Std.TreeMap.getElem?_emptyc] at h
    cases h
  num := Nat.zero_le _
  fresh c hc := absurd hc List.not_mem_nil
  once := List.nodup_nil
  addressed c hc := absurd hc List.not_mem_nil

theorem ledgerAfter_answer {g : Ledger} {a : Tagged} {c : ConnId} {m : Message}
    (ha : answer? a.event = some (c, m)) : ledgerAfter s t g a =
      { g with handled := g.handled ++
          [⟨c, a.serial, nodeIDOf m, decide (s.clientOKNum < t.clientOKNum)⟩] } := by
  obtain ⟨event, serial⟩ := a
  obtain ⟨env, he⟩ := eq_message_of_answer ha
  simp only at he ha
  subst he
  simp only [ledgerAfter]
  cases m with
  | command m => cases ha
  | _ => simp only [ha]

theorem ledgerAfter_quiet {g : Ledger} {a : Tagged} (hc : isCommand a.event = false)
    (ha : answer? a.event = none) : ledgerAfter s t g a = g := by
  simp only [ledgerAfter]
  split
  · rename_i he; rw [he] at hc; cases hc
  · rw [ha]

theorem replyIfComplete_cases {command : CommandID} (h : s.replyIfComplete command = .ok t) :
    t.tally = s.tally ∧ (t.returns = s.returns ∨
      s.tally.acks = s.tally.num ∧ ∃ cli, t.returns = s.returns ++ [(cli, retOf s.tally command)]) := by
  simp only [replyIfComplete] at h
  split_ifs at h with hlast
  · simp only [sendToCmdClient] at h
    split at h
    · cases h
      split_ifs
      · exact ⟨rfl, .inr ⟨hlast, _, returns_send_ret _ _⟩⟩
      · exact ⟨rfl, .inl rfl⟩
    · cases h
  · cases h; exact ⟨rfl, .inl rfl⟩

/-- The books after an answer. -/
theorem Books.answer {x : LkpServer × Ledger} {a : Tagged} {c : ConnId} {m : Message} {v : Vote ℤ String}
    (h : Books x) (hf : FirstAnswer x a) (ha : answer? a.event = some (c, m))
    (hv : VotesAs m v) (ht : t.tally = x.1.tally.count v) : Books (t, ledgerAfter x.1 t x.2 a) := by
  obtain ⟨s, g⟩ := x
  have hafter : ledgerAfter s t g a =
      { g with handled := g.handled ++ [⟨c, a.serial, nodeIDOf m, v.fault.isNone⟩] } := by
    rw [ledgerAfter_answer ha, show t.clientOKNum = t.tally.ok from rfl, ht, Gather.count_ok,
      show s.tally.ok = s.clientOKNum from rfl]
    cases v.fault <;> simp
  obtain ⟨hfresh, -, haddr, hnot⟩ := hf (c, m) ha
  rw [h.own] at hnot
  rw [hafter]
  constructor
  · rw [ht, Gather.count_acks, List.length_append, h.acks]; rfl
  · rw [ht, Gather.count_ok, List.countP_append, h.ok, List.countP_singleton]
  · intro id msg hid
    rw [ht] at hid
    by_cases hk : id = v.key
    · subst hk
      rw [Gather.count_info_self] at hid
      cases hfault : v.fault with
      | none =>
        rw [hfault, Option.none_or] at hid
        obtain ⟨d, hd, hdok, hdid⟩ := h.info _ _ hid
        exact ⟨d, List.mem_append_left _ hd, hdok, hdid⟩
      | some _ => exact ⟨_, List.mem_append_right _ List.mem_cons_self, rfl, (key_of_votesAs hv).symm⟩
    · rw [Gather.count_info_of_ne v hk] at hid
      obtain ⟨d, hd, hdok, hdid⟩ := h.info _ _ hid
      exact ⟨d, List.mem_append_left _ hd, hdok, hdid⟩
  · rw [ht, Gather.count_num]; exact h.num
  · intro d hd
    rcases List.mem_append.1 hd with hd | hd
    · exact h.fresh d hd
    · rw [List.mem_singleton.1 hd]; exact hfresh
  · rw [List.map_append, List.map_singleton]
    exact List.nodup_append.2 ⟨h.once, List.nodup_singleton _, by
      rintro d hd d' hd' rfl
      rw [List.mem_singleton.1 hd'] at hd
      exact hnot hd⟩
  · intro d hd
    rcases List.mem_append.1 hd with hd | hd
    · exact h.addressed d hd
    · rw [List.mem_singleton.1 hd]; exact haddr

theorem Books.step {x y : LkpServer × Ledger} {a : Tagged} (h : Books x) (hf : FirstAnswer x a)
    (hs : taggedStep x a = some y) : Books y := by
  obtain ⟨t, ht, rfl⟩ := Option.map_eq_some_iff.1 hs
  cases ha : answer? a.event with
  | some am =>
    obtain ⟨u, v, hu, hreply⟩ := step_counts ht ha
    exact h.answer hf ha hu.votes ((replyIfComplete_cases hreply).1.trans hu.tally)
  | none =>
    cases hc : isCommand a.event with
    | false =>
      rw [ledgerAfter_quiet hc ha]
      have hq := (step_quiet ht hc ha).tally
      exact ⟨hq ▸ h.acks, hq ▸ h.ok, hq ▸ h.info, hq ▸ h.num, h.fresh, h.once, h.addressed⟩
    | true =>
      obtain ⟨event, serial⟩ := a
      cases event with
      | message c m env =>
        cases m with
        | command m =>
          have hn := tally_onCommandMsg (step_eq_some.1 ht).2
          refine ⟨by rw [hn]; rfl, by rw [hn]; rfl, fun id msg hid => ?_, by rw [hn]; exact length_addressedBy_le m env,
            fun d hd => absurd hd List.not_mem_nil, List.nodup_nil, fun d hd => absurd hd List.not_mem_nil⟩
          rw [hn, Gather.new_info] at hid
          cases hid
        | _ => cases hc
      | _ => cases hc

/-- An answer to the last command is credited to it. -/
theorem Books.credits {x : LkpServer × Ledger} {a : Tagged} (h : Books x) (hf : FirstAnswer x a) :
    Credited x a := by
  intro y hy hsome cli r hret
  have hbooks := h.step hf hy
  obtain ⟨t, ht, rfl⟩ := Option.map_eq_some_iff.1 hy
  obtain ⟨am, ha⟩ := Option.isSome_iff_exists.1 hsome
  obtain ⟨u, v, hu, hreply⟩ := step_counts ht ha
  obtain ⟨htally, hsame | ⟨hlast, cli', hnew⟩⟩ := replyIfComplete_cases hreply
  · rw [show t.returns = x.1.returns from hsame.trans hu.returns] at hret
    simp at hret
  · have hr : r = retOf t.tally (commandOf am.2) := by
      rw [show t.returns = x.1.returns ++ [(cli', retOf u.tally (commandOf am.2))] by rw [hnew, hu.returns],
        List.append_right_inj, List.singleton_inj] at hret
      rw [htally]; exact (Prod.ext_iff.1 hret).2.symm
    rw [hbooks.own, hr]
    refine ⟨?_, ?_, ?_, ?_⟩
    · obtain ⟨-, hcommand, -, -⟩ := hf am ha
      rw [ledgerAfter_answer ha]
      exact hcommand
    · show u32 t.tally.ok = _
      rw [hbooks.ok]
    · intro i hi
      obtain ⟨⟨k, msg⟩, hmem, rfl⟩ := List.mem_map.1 hi
      obtain ⟨c, hc, hok, rfl⟩ := hbooks.info k msg (Std.TreeMap.mem_toList_iff_getElem?_eq_some.1 hmem)
      exact ⟨c, hc, hok, rfl⟩
    · intro d hd
      -- as many answers as are expected, each of another of the nodes told
      have hlen : (ledgerAfter x.1 t x.2 a).addressed.length ≤
          ((ledgerAfter x.1 t x.2 a).handled.map Credit.conn).length := by
        rw [List.length_map, ← hbooks.acks]
        exact hbooks.num.trans (by rw [htally, hlast])
      have hsub : (ledgerAfter x.1 t x.2 a).handled.map Credit.conn ⊆
          (ledgerAfter x.1 t x.2 a).addressed := by
        intro d hd
        obtain ⟨c, hc, rfl⟩ := List.mem_map.1 hd
        exact hbooks.addressed c hc
      have hperm := (hbooks.once.subperm hsub).perm_of_length_le hlen
      obtain ⟨c, hc, rfl⟩ := List.mem_map.1 (hperm.mem_iff.2 hd)
      exact ⟨c, hc, rfl⟩

/-- **Answers are credited to the command that they answer** in a run in which every
    answer handled is the first one of a node to the last command. -/
theorem credited {root : String} {serverTimeControl : ℕ} {as : List Tagged}
    (hf : EachStep taggedStep (start root serverTimeControl, {}) as FirstAnswer) :
    EachStep taggedStep (start root serverTimeControl, {}) as Credited := by
  intro as₁ a as₂ x has hx
  subst has
  have hbooks : Books x := hx.inv (books_start root serverTimeControl)
    (fun _ _ _ hu hP hv => hu.step hP hv) hf.prefix_of
  exact hbooks.credits (hf as₁ a as₂ x rfl hx)

/-- The ACK of the node with this ID. -/
def okACK (command : CommandID) (nodeID : ℤ) : Message :=
  .commandACK { status := true, command, nodeId := u32 nodeID }

/-- Two nodes, and a CLI that broadcasts an UPDATE. -/
def updateTagged : List Tagged :=
  [⟨.up 1 "10.0.0.1", 0⟩, ⟨.up 2 "10.0.0.2", 0⟩, ⟨.up 9 "127.0.0.1", 0⟩,
    ⟨.message 9 (.command { command := .UPDATE, sendToAll := true }) {}, 0⟩]

/-- Both nodes answer before the next command. -/
theorem credited_inTime : EachStep taggedStep (start "/lkp" 3, {})
    (updateTagged ++ [⟨.message 2 (okACK .UPDATE 1) {}, 1⟩, ⟨.message 1 (okACK .UPDATE 0) {}, 1⟩,
      ⟨.message 9 (.command { command := .RUN, sendToAll := true }) {}, 0⟩]) Credited :=
  credited (.of_checkSteps (by decide +kernel))

/-- The CLI gives up, and the next one broadcasts a RUN; then the answers to the UPDATE
    come. -/
def lateTagged : List Tagged :=
  updateTagged ++ [⟨.down 9, 0⟩, ⟨.up 8 "127.0.0.1", 0⟩,
    ⟨.message 8 (.command { command := .RUN, sendToAll := true }) {}, 0⟩,
    ⟨.message 1 (okACK .UPDATE 0) {}, 1⟩]

/-- The Return that the CLI of the RUN gets counts the answers to the UPDATE. -/
theorem credited_late : ¬ ∀ (root : String) (serverTimeControl : ℕ) (as : List Tagged)
    (y : LkpServer × Ledger),
    Runs taggedStep (start root serverTimeControl, {}) as y →
    EachStep taggedStep (start root serverTimeControl, {}) as Legit →
    EachStep taggedStep (start root serverTimeControl, {}) as Credited := by
  intro h
  obtain ⟨x, hx, y, hy, hown, hret⟩ : ∃ x, Runs taggedStep (start "/lkp" 3, {}) lateTagged x ∧
      ∃ y ∈ taggedStep x ⟨.message 2 (okACK .UPDATE 1) {}, 1⟩, y.2.own = [] ∧
        y.1.returns = x.1.returns ++ [(8, { clientNum := 2, clientOkNum := 2, command := .UPDATE })] :=
    Runs.exists_of_run (by decide +kernel)
  have hcred := h _ _ _ y (hx.snoc hy) (.of_checkSteps (by decide +kernel)) lateTagged _ [] x rfl hx
  obtain ⟨-, hok, -, -⟩ := hcred y hy rfl 8 _ hret
  rw [hown] at hok
  exact absurd hok (by decide +kernel)

end LkpServer

end LkpExtent
