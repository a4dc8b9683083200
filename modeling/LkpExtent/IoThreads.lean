/-
  LkpExtent formalization — the command handler beside the handlers of answers.

  With several I/O threads the handlers of the answers run while the command handler
  is still sending.  Here the command handler takes one step at a time, and every other
  handler runs as a whole between two of them.

  * `commandSteps`: the steps of the handler of an UPDATE, RUN or RESULT;
  * `run_commandSteps`: without other handlers between them they are `onCommandMsg`;
  * `returned_iff`: the Return is sent iff an answer is handled after the command
    handler has set `clientNum_`.
-/
import LkpExtent.Aggregation

namespace LkpExtent

open Lib

/-- A step of the command handler. -/
inductive CommandStep where
  /-- the counters and the messages of the nodes are reset -/
  | reset
  /-- `SendToClient` -/
  | send (conn : Option ConnId) (message : Command)
  /-- `clientNum_ = 1`, or `clientNum_ = clientPool_.size()` -/
  | countNodes (sendToAll : Bool)

def CommandStep.run (s : LkpServer) : CommandStep → LkpServer
  | .reset => s.resetCounters
  | .send conn message => s.sendToClient (.command message) conn
  | .countNodes sendToAll => s.setClientNum (if sendToAll = false then 1 else s.clientPool.size)

/-- The step comes no later than the sending to this node. -/
def CommandStep.upTo (conn : ConnId) : CommandStep → Bool
  | .reset => true
  | .send conn' _ => conn' = some conn
  | .countNodes _ => false

namespace LkpServer
variable (s : LkpServer)

/-- The calls of `SendToClient`, from the handler itself or in `BroadToClients`. -/
def sends (message : Command) : List CommandStep :=
  if message.sendToAll = false then [.send (s.clientPool.getConn (intOfU32 message.nodeId)) message]
  else s.clientPool.connections.toList.map fun it => .send (some it.2) { message with nodeId := u32 it.1 }

/-- The steps of `onCommandMsg` for an UPDATE, RUN or RESULT. -/
def commandSteps (message : Command) : List CommandStep :=
  .reset :: (s.sends message ++ [.countNodes message.sendToAll])

variable {s} {t : LkpServer}

/-- **Undisturbed, the steps are the handler.** -/
theorem run_commandSteps {message : Command} (env : Env)
    (hcommand : message.command = .UPDATE ∨ message.command = .RUN ∨ message.command = .RESULT) :
    s.onCommandMsg message env = .ok ((s.commandSteps message).foldl CommandStep.run s) := by
  have hforward : (s.commandSteps message).foldl CommandStep.run s = s.resetCounters.forward message := by
    simp only [commandSteps, sends, forward]
    split_ifs with hall
    · simp only [List.cons_append, List.nil_append, List.foldl_cons, List.foldl_nil, CommandStep.run, if_pos hall]
      rfl
    · simp only [List.foldl_cons, List.foldl_append, List.foldl_nil, List.foldl_map, CommandStep.run, if_neg hall]
      rfl
  rw [hforward]
  simp only [onCommandMsg]
  rcases hcommand with hc | hc | hc <;> rw [hc]

/-- A message changes nothing in the number of the nodes. -/
theorem size_of_message {c : ConnId} {m : Message} {env : Env} (hs : s.step (.message c m env) = some t) :
    t.clientPool.size = s.clientPool.size := by
  cases step_move hs with
  | quiet _ _ _ hm => exact size_of_members hm
  | heartBeat _ _ _ _ hm => exact congrArg (fun m : Members => m.pool.size) hm

end LkpServer

/-! ## Interleaved handlers -/

/-- The server, and what the command handler has still to do. -/
structure Threads where
  server : LkpServer
  todo : List CommandStep

/-- The command handler takes a step, or a message of a node is handled. -/
inductive ThreadEvent where
  | command
  | message (conn : ConnId) (m : Message) (env : Env)

/-- The answer that is handled. -/
def ThreadEvent.answer : ThreadEvent → Option (ConnId × Message)
  | .command => none
  | .message conn m env => answer? (.message conn m env)

/-- The answers that are handled. -/
def handled (as : List ThreadEvent) : List (ConnId × Message) := as.filterMap ThreadEvent.answer

theorem handled_snoc (as : List ThreadEvent) (e : ThreadEvent) :
    handled (as ++ [e]) = handled as ++ e.answer.toList := by
  simp only [handled]
  rw [List.filterMap_append]
  cases h : e.answer <;> simp [h]

namespace Threads
variable {x y : Threads} {e : ThreadEvent} {as : List ThreadEvent}

def step (x : Threads) : ThreadEvent → Option Threads
  | .command =>
    match x.todo with
    | [] => none
    | a :: todo => some ⟨a.run x.server, todo⟩
  | .message conn m env => (x.server.step (.message conn m env)).map fun server => { x with server }

/-- The command has been sent to the node. -/
def Reached (x : Threads) (conn : ConnId) : Prop := ∀ a ∈ x.todo, a.upTo conn = false

instance (x : Threads) (conn : ConnId) : Decidable (x.Reached conn) :=
  inferInstanceAs (Decidable (∀ a ∈ x.todo, _))

/-- No other command is handled, and an answer is one of a node that has been reached. -/
def FromReached (x : Threads) : ThreadEvent → Prop
  | .command => True
  | .message conn m env => isCommand (.message conn m env) = false ∧
      ((answer? (.message conn m env)).isSome = true → x.Reached conn)

instance (x : Threads) (e : ThreadEvent) : Decidable (x.FromReached e) :=
  match e with
  | .command => inferInstanceAs (Decidable True)
  | .message _ _ _ => inferInstanceAs (Decidable (_ ∧ (_ → _)))

/-- Some answer is handled after the command handler has set `clientNum_`. -/
def SomeLate (x₀ : Threads) (as : List ThreadEvent) : Prop :=
  ∃ as₁ e as₂ x, as = as₁ ++ e :: as₂ ∧ Runs step x₀ as₁ x ∧ x.todo = [] ∧ e.answer.isSome = true

theorem someLate_snoc {x₀ : Threads} (h : Runs step x₀ as x) :
    SomeLate x₀ (as ++ [e]) ↔ SomeLate x₀ as ∨ (x.todo = [] ∧ e.answer.isSome = true) := by
  have hearly : ∀ as, SomeLate x₀ as ↔
      ¬ EachStep step x₀ as fun x e => ¬ (x.todo = [] ∧ e.answer.isSome = true) := by
    intro as
    simp only [SomeLate, EachStep]
    push Not
    rfl
  rw [hearly, hearly, EachStep.snoc_iff, not_and_or]
  refine or_congr Iff.rfl ⟨?_, ?_⟩
  · intro hlast
    by_contra hno
    exact hlast fun v hv => by rwa [hv.det h]
  · exact fun hlast hall => hall x h hlast

/-! ## The answers of a command -/

/-- The handler of a command runs beside those of the answers of its targets, each of
    which answers once; the CLI stays. -/
structure Race (s : LkpServer) (cli : ConnId) (message : Command) (as : List ThreadEvent) (y : Threads) : Prop where
  command : message.command = .UPDATE ∨ message.command = .RUN ∨ message.command = .RESULT
  targets : s.targets message ≠ []
  run : Runs step ⟨s, s.commandSteps message⟩ as y
  session : EachState step ⟨s, s.commandSteps message⟩ as fun x => x.server.SessionOpen cli
  reached : EachStep step ⟨s, s.commandSteps message⟩ as FromReached
  once : ((handled as).map Prod.fst).Perm ((s.targets message).map Prod.snd)
  finished : y.todo = []

/-- How far the handling of a command has come. -/
inductive Progress (s : LkpServer) (cli : ConnId) (message : Command) (as : List ThreadEvent) (x : Threads) : Prop
  | waiting (htodo : x.todo = s.commandSteps message) (hsize : x.server.clientPool.size = s.clientPool.size)
      (hret : x.server.returns = s.returns) (hnone : handled as = [])
  /-- the answers are counted, and compared with 0 -/
  | sending {rest : List CommandStep} (htodo : x.todo = rest ++ [.countNodes message.sendToAll])
      (hsends : ∀ a ∈ rest, ∃ conn m, a = .send conn m) (hsize : x.server.clientPool.size = s.clientPool.size)
      (hacks : x.server.ackTimes = (handled as).length) (hnum : x.server.clientNum = 0)
      (hret : x.server.returns = s.returns) (hearly : ¬ SomeLate ⟨s, s.commandSteps message⟩ as)
  | counting (htodo : x.todo = []) (hacks : x.server.ackTimes = (handled as).length)
      (hnum : x.server.clientNum = s.expected message) (hret : x.server.returns = s.returns)
      (hmore : SomeLate ⟨s, s.commandSteps message⟩ as → (handled as).length < s.expected message)
  | returned (htodo : x.todo = []) (hall : (handled as).length = s.expected message)
      (hlate : SomeLate ⟨s, s.commandSteps message⟩ as)
      (hret : ∃ r, r.clientNum = u32 (s.expected message : ℕ) ∧ x.server.returns = s.returns ++ [(cli, r)])

section
variable {s : LkpServer} {cli : ConnId} {message : Command}

theorem sends_send (s : LkpServer) (message : Command) : ∀ a ∈ s.sends message, ∃ conn m, a = .send conn m := by
  intro a ha
  simp only [LkpServer.sends] at ha
  split_ifs at ha
  · exact ⟨_, _, List.mem_singleton.1 ha⟩
  · obtain ⟨it, -, rfl⟩ := List.mem_map.1 ha
    exact ⟨_, _, rfl⟩

theorem told_send {s : LkpServer} (conn : Option ConnId) (m : Command) :
    (s.sendToClient (.command m) conn).returns = s.returns ∧
      (s.sendToClient (.command m) conn).tally = s.tally := by
  simp only [LkpServer.sendToClient]
  cases conn with
  | none => exact ⟨rfl, rfl⟩
  | some conn =>
    simp only
    split_ifs
    · exact ⟨LkpServer.returns_send_command conn m, rfl⟩
    · exact ⟨rfl, rfl⟩

theorem handled_command : handled (as ++ [.command]) = handled as := by
  rw [handled_snoc]
  exact List.append_nil _

/-- The command handler takes a step. -/
theorem Progress.command_step (h : Progress s cli message as x) (hx : Runs step ⟨s, s.commandSteps message⟩ as x)
    (hs : x.step .command = some y) : Progress s cli message (as ++ [.command]) y := by
  have hlate : SomeLate ⟨s, s.commandSteps message⟩ (as ++ [.command]) ↔
      SomeLate ⟨s, s.commandSteps message⟩ as := by
    rw [someLate_snoc hx]
    exact or_iff_left fun hno => by cases hno.2
  obtain ⟨server, todo⟩ := x
  cases h with
  | waiting htodo hsize hret hnone =>
    obtain rfl : todo = s.commandSteps message := htodo
    cases hs
    refine .sending rfl (sends_send s message) hsize ?_ rfl hret ?_
    · rw [handled_command, hnone]; rfl
    · rintro ⟨as₁, e, as₂, z, has, -, -, he⟩
      have hmem : e ∈ as ++ [.command] := by rw [has]; simp
      rcases List.mem_append.1 hmem with hmem | hmem
      · obtain ⟨a, ha⟩ := Option.isSome_iff_exists.1 he
        have : a ∈ handled as := List.mem_filterMap.2 ⟨e, hmem, ha⟩
        rw [hnone] at this
        cases this
      · rw [List.mem_singleton.1 hmem] at he
        cases he
  | @sending rest htodo hsends hsize hacks hnum hret hearly =>
    obtain rfl : todo = rest ++ [.countNodes message.sendToAll] := htodo
    cases rest with
    | nil =>
      cases hs
      refine .counting rfl (by rw [handled_command]; exact hacks) ?_ hret fun hl => absurd (hlate.1 hl) hearly
      show (if message.sendToAll = false then 1 else server.clientPool.size) = s.expected message
      rw [LkpServer.expected, hsize]
    | cons a rest =>
      obtain ⟨conn, m, rfl⟩ := hsends a List.mem_cons_self
      cases hs
      obtain ⟨hret', htally⟩ := told_send (s := server) conn m
      refine .sending rfl (fun a ha => hsends a (List.mem_cons_of_mem _ ha)) ?_ ?_ ?_ (hret'.trans hret)
        (mt hlate.1 hearly)
      · rw [← hsize]
        exact LkpServer.size_of_members (LkpServer.members_sendToClient _ _)
      · rw [handled_command, ← hacks]
        exact congrArg Gather.acks htally
      · rw [← hnum]
        exact congrArg Gather.num htally
  | counting htodo _ _ _ _ =>
    obtain rfl : todo = [] := htodo
    cases hs
  | returned htodo _ _ _ =>
    obtain rfl : todo = [] := htodo
    cases hs

/-- A message that is no answer is handled: nothing is counted. -/
theorem Progress.quiet_step {c : ConnId} {m : Message} {env : Env} {t : LkpServer}
    (h : Progress s cli message as x) (hx : Runs step ⟨s, s.commandSteps message⟩ as x)
    (hnode : isCommand (.message c m env) = false) (ha : answer? (.message c m env) = none)
    (ht : x.server.step (.message c m env) = some t) :
    Progress s cli message (as ++ [.message c m env]) ⟨t, x.todo⟩ := by
  have hsize := LkpServer.size_of_message ht
  have hq := LkpServer.step_quiet ht hnode ha
  have hacks : t.ackTimes = x.server.ackTimes := congrArg Gather.acks hq.tally
  have hnum : t.clientNum = x.server.clientNum := congrArg Gather.num hq.tally
  have hnone : ThreadEvent.answer (.message c m env) = none := ha
  have hsame : handled (as ++ [.message c m env]) = handled as := by
    rw [handled_snoc, hnone]
    exact List.append_nil _
  have hlate : SomeLate ⟨s, s.commandSteps message⟩ (as ++ [.message c m env]) ↔
      SomeLate ⟨s, s.commandSteps message⟩ as := by
    rw [someLate_snoc hx, hnone]
    exact or_iff_left fun hno => Bool.false_ne_true hno.2
  cases h with
  | waiting htodo hsize' hret hnone =>
    exact .waiting htodo (hsize.trans hsize') (hq.returns.trans hret) (hsame.trans hnone)
  | sending htodo hsends hsize' hacks' hnum' hret hearly =>
    exact .sending htodo hsends (hsize.trans hsize') (by rw [hsame, hacks, hacks']) (hnum.trans hnum')
      (hq.returns.trans hret) (mt hlate.1 hearly)
  | counting htodo hacks' hnum' hret hmore =>
    refine .counting htodo (by rw [hsame, hacks, hacks']) (hnum.trans hnum') (hq.returns.trans hret) ?_
    rw [hsame, hlate]
    exact hmore
  | returned htodo hall hlate' hret =>
    exact .returned htodo (by rw [hsame, hall]) (hlate.2 hlate') (by rw [hq.returns]; exact hret)

/-- An answer is handled: it is counted, and it completes the gathering iff it is the last
    one and `clientNum_` is set. -/
theorem Progress.answer_step {c : ConnId} {m : Message} {env : Env} {t : LkpServer} {a : ConnId × Message}
    (h : Progress s cli message as x) (hx : Runs step ⟨s, s.commandSteps message⟩ as x)
    (hopen : x.server.SessionOpen cli) (hreached : x.FromReached (.message c m env))
    (hle : (handled (as ++ [.message c m env])).length ≤ s.expected message)
    (ha : answer? (.message c m env) = some a) (ht : x.server.step (.message c m env) = some t) :
    Progress s cli message (as ++ [.message c m env]) ⟨t, x.todo⟩ := by
  have hsize := LkpServer.size_of_message ht
  have hlate := someLate_snoc (e := .message c m env) hx
  have hans : ThreadEvent.answer (.message c m env) = some a := ha
  obtain ⟨v, hv⟩ := LkpServer.step_answer ht ha hopen
  have hacks : t.ackTimes = x.server.ackTimes + 1 := by
    have := congrArg Gather.acks hv.tally
    rwa [Gather.count_acks] at this
  have hnum : t.clientNum = x.server.clientNum := by
    have := congrArg Gather.num hv.tally
    rwa [Gather.count_num] at this
  have hmore : (handled (as ++ [.message c m env])).length = (handled as).length + 1 := by
    rw [handled_snoc, hans, List.length_append]; rfl
  rw [hmore] at hle
  have hret' := hv.returns
  cases h with
  | waiting htodo _ _ _ =>
    have := hreached.2 (by rw [ha]; rfl) .reset (by rw [htodo]; exact List.mem_cons_self)
    cases this
  | sending htodo hsends hsize' hacks' hnum' hret hearly =>
    refine .sending htodo hsends (hsize.trans hsize') (by rw [hmore, hacks, hacks']) (hnum.trans hnum') ?_ ?_
    · rw [hret', if_neg, List.append_nil, hret]
      show ¬ x.server.ackTimes + 1 = x.server.clientNum
      omega
    · rw [hlate]
      rintro (hl | ⟨htodo', -⟩)
      · exact hearly hl
      · rw [htodo] at htodo'
        simp at htodo'
  | counting htodo hacks' hnum' hret hmore' =>
    have hnow : SomeLate ⟨s, s.commandSteps message⟩ (as ++ [.message c m env]) :=
      hlate.2 (.inr ⟨htodo, by rw [hans]; rfl⟩)
    by_cases hlast : (handled as).length + 1 = s.expected message
    · refine .returned htodo (hmore.trans hlast) hnow ⟨retOf t.tally (commandOf a.2), ?_, ?_⟩
      · show u32 t.clientNum = _
        rw [hnum, hnum']
      · rw [hret', if_pos, hret]
        show x.server.ackTimes + 1 = x.server.clientNum
        rw [hacks', hnum', hlast]
    · refine .counting htodo (by rw [hmore, hacks, hacks']) (hnum.trans hnum') ?_ fun _ => ?_
      · rw [hret', if_neg, List.append_nil, hret]
        show ¬ x.server.ackTimes + 1 = x.server.clientNum
        rw [hacks', hnum']
        exact hlast
      · rw [hmore]
        omega
  | returned _ hall _ _ => omega

/-- A message of a node is handled. -/
theorem Progress.message_step {c : ConnId} {m : Message} {env : Env} (h : Progress s cli message as x)
    (hx : Runs step ⟨s, s.commandSteps message⟩ as x) (hopen : x.server.SessionOpen cli)
    (hreached : x.FromReached (.message c m env))
    (hle : (handled (as ++ [.message c m env])).length ≤ s.expected message)
    (hs : x.step (.message c m env) = some y) : Progress s cli message (as ++ [.message c m env]) y := by
  obtain ⟨t, ht, rfl⟩ := Option.map_eq_some_iff.1 hs
  rcases ha : answer? (.message c m env) with - | a
  · exact h.quiet_step hx hreached.1 ha ht
  · exact h.answer_step hx hopen hreached hle ha ht

theorem Progress.of_runs (h : Runs step ⟨s, s.commandSteps message⟩ as x)
    (hopen : EachState step ⟨s, s.commandSteps message⟩ as fun x => x.server.SessionOpen cli)
    (hfrom : EachStep step ⟨s, s.commandSteps message⟩ as FromReached)
    (hle : (handled as).length ≤ s.expected message) : Progress s cli message as x := by
  induction h with
  | nil => exact .waiting rfl rfl rfl rfl
  | @snoc as x y e h he ih =>
    rw [EachState.snoc_iff (h.snoc he)] at hopen
    rw [EachStep.snoc_iff] at hfrom
    have hle' : (handled as).length ≤ s.expected message := by
      rw [handled_snoc, List.length_append] at hle
      omega
    have hx := ih hopen.1 hfrom.1 hle'
    cases e with
    | command => exact hx.command_step h he
    | message c m env => exact hx.message_step h (hopen.1 as [] x (List.append_nil _).symm h) (hfrom.2 x h) hle he

end

/-- **The Return of a command is sent** once all its targets have answered iff some
    answer is handled after `clientNum_` has been set. -/
theorem returned_iff {root : String} {serverTimeControl : ℕ} {es₀ : List ServerEvent} {s : LkpServer}
    {cli : ConnId} {message : Command} (hreach : Runs LkpServer.step (LkpServer.start root serverTimeControl) es₀ s)
    (hint : s.clientPool.nodeCount ≤ 2 ^ 31) (h : Race s cli message as y) :
    (∃ r, r.clientNum.toNat = (s.targets message).length ∧ y.server.returns = s.returns ++ [(cli, r)]) ↔
      SomeLate ⟨s, s.commandSteps message⟩ as := by
  have hlen : (s.targets message).length = s.expected message := LkpServer.length_targets (.inr h.targets)
  have hall : (handled as).length = s.expected message := by
    rw [← hlen, ← List.length_map (f := Prod.fst), h.once.length_eq, List.length_map]
  have hfit : s.expected message < 2 ^ 32 := by
    rw [← hlen]
    refine lt_of_le_of_lt (LkpServer.length_le_of_ids (LkpServer.targets_nodup message) ?_) (by norm_num)
    exact LkpServer.targets_range (LkpServer.base_of_runs hreach) hint message
  have htodo := h.finished
  cases Progress.of_runs h.run h.session h.reached hall.le with
  | waiting hw _ _ _ => rw [hw] at htodo; cases htodo
  | sending hw _ _ _ _ _ _ => rw [hw] at htodo; simp at htodo
  | counting _ _ _ hret hmore =>
    constructor
    · rintro ⟨r, -, hr⟩
      rw [hret] at hr
      simp at hr
    · intro hl
      have := hmore hl
      omega
  | returned _ _ hlate hret =>
    obtain ⟨r, hnum, hr⟩ := hret
    refine iff_of_true ⟨r, ?_, hr⟩ hlate
    rw [hnum, hlen]
    exact toNat_u32_of_lt hfit

/-- One of two nodes answers an UPDATE before it is sent to the other. -/
def oneEarly : List ThreadEvent :=
  [.command, .command, .message 1 (LkpServer.answerMessage .UPDATE 0 (true, "")) {}, .command, .command,
    .message 2 (LkpServer.answerMessage .UPDATE 1 (true, "")) {}]

theorem returned_oneEarly : ∃ s y r,
    Runs LkpServer.step (LkpServer.start "/lkp" 3) LkpServer.twoNodes s ∧
    Runs step ⟨s, s.commandSteps LkpServer.updateAll⟩ oneEarly y ∧ r.clientNum.toNat = 2 ∧
    y.server.returns = s.returns ++ [(9, r)] := by
  obtain ⟨s, hs, htargets, hcount, hopen, hfrom, ⟨y, hy, hdone⟩, x, hx, htodo⟩ : ∃ s,
      Runs LkpServer.step (LkpServer.start "/lkp" 3) LkpServer.twoNodes s ∧
      s.clientPool.connections.toList = [(0, 1), (1, 2)] ∧ s.clientPool.nodeCount ≤ 2 ^ 31 ∧
      checkStates step (fun x => x.server.SessionOpen 9) ⟨s, s.commandSteps LkpServer.updateAll⟩ oneEarly = true ∧
      checkSteps step FromReached ⟨s, s.commandSteps LkpServer.updateAll⟩ oneEarly = true ∧
      (∃ y ∈ runEvents step ⟨s, s.commandSteps LkpServer.updateAll⟩ oneEarly, y.todo.isEmpty = true) ∧
      ∃ x ∈ runEvents step ⟨s, s.commandSteps LkpServer.updateAll⟩ (oneEarly.take 5), x.todo.isEmpty = true :=
    Runs.exists_of_run (by decide +kernel)
  have htargets' : s.targets LkpServer.updateAll = [(0, 1), (1, 2)] := htargets
  have hrace : Race s 9 LkpServer.updateAll oneEarly y :=
    { command := .inl rfl, targets := by rw [htargets']; simp, run := .of_runEvents hy
      session := .of_checkStates hopen, reached := .of_checkSteps hfrom
      once := by rw [htargets']; exact .refl _
      finished := List.isEmpty_iff.1 hdone }
  have hlate : SomeLate ⟨s, s.commandSteps LkpServer.updateAll⟩ oneEarly :=
    ⟨oneEarly.take 5, _, [], x, rfl, .of_runEvents hx, List.isEmpty_iff.1 htodo, rfl⟩
  obtain ⟨r, hnum, hret⟩ := (returned_iff hs hcount hrace).2 hlate
  refine ⟨s, y, r, hs, .of_runEvents hy, ?_, hret⟩
  rw [hnum, htargets']
  rfl

/-- The only node answers before `clientNum_` is set, and the CLI gets no Return. -/
theorem returned_early : ¬ ∀ (root : String) (serverTimeControl : ℕ) (es₀ : List ServerEvent) (s : LkpServer)
    (cli : ConnId) (message : Command) (as : List ThreadEvent) (y : Threads),
    Runs LkpServer.step (LkpServer.start root serverTimeControl) es₀ s → s.clientPool.nodeCount ≤ 2 ^ 31 →
    Race s cli message as y →
    ∃ r, r.clientNum.toNat = (s.targets message).length ∧ y.server.returns = s.returns ++ [(cli, r)] := by
  intro h
  let as : List ThreadEvent :=
    [.command, .command, .message 1 (LkpServer.answerMessage .UPDATE 0 (true, "")) {}, .command]
  obtain ⟨s, hs, htargets, hcount, hopen, hfrom, y, hy, hdone, hret⟩ : ∃ s,
      Runs LkpServer.step (LkpServer.start "/lkp" 3) [.up 1 "10.0.0.1", .up 9 "127.0.0.1"] s ∧
      s.clientPool.connections.toList = [(0, 1)] ∧ s.clientPool.nodeCount ≤ 2 ^ 31 ∧
      checkStates step (fun x => x.server.SessionOpen 9) ⟨s, s.commandSteps LkpServer.updateAll⟩ as = true ∧
      checkSteps step FromReached ⟨s, s.commandSteps LkpServer.updateAll⟩ as = true ∧
      ∃ y ∈ runEvents step ⟨s, s.commandSteps LkpServer.updateAll⟩ as,
        y.todo.isEmpty = true ∧ y.server.returns = [] :=
    Runs.exists_of_run (by decide +kernel)
  have htargets' : s.targets LkpServer.updateAll = [(0, 1)] := htargets
  obtain ⟨r, -, hr⟩ := h "/lkp" 3 _ s 9 LkpServer.updateAll as y hs hcount
    { command := .inl rfl, targets := by rw [htargets']; simp, run := .of_runEvents hy
      session := .of_checkStates hopen, reached := .of_checkSteps hfrom
      once := by rw [htargets']; exact .refl _
      finished := List.isEmpty_iff.1 hdone }
  rw [hret] at hr
  simp at hr

end Threads

end LkpExtent
