/-
  LkpExtent formalization — the Return that the CLI gets for a command.

  * `fanOut`: every target is told of the command once, and when all have answered,
    in any order, the CLI gets one Return that says what they answered;
  * `answered_iff`: a broadcast command gets its Return iff there are nodes in the
    pool and none of them disconnects before it answers.
-/
import LkpExtent.Commands
import LkpExtent.NodeAnswers

namespace LkpExtent

open Lib

namespace LkpServer
variable {s t : LkpServer}

/-! ## The Return that says what the targets answered -/

/-- The answer of a node: whether it succeeded, and a text. -/
def answerMessage (command : CommandID) (nodeID : ℤ) (outcome : Bool × String) : Message :=
  if command = .PUSH then
    .pushACK { status := outcome.1, ackMessage := outcome.2, nodeId := u32 nodeID }
  else .commandACK { status := outcome.1, command, ackMessage := outcome.2, nodeId := u32 nodeID }

/-- What a Return has to say of the answers of the targets. -/
structure ReturnFor (command : CommandID) (targets : List (ℤ × ConnId)) (outcome : ℤ → Bool × String)
    (r : Return) : Prop where
  command : r.command = command
  clientNum : r.clientNum.toNat = targets.length
  clientOkNum : r.clientOkNum.toNat = targets.countP fun it => (outcome it.1).1
  sorted : r.nodeInfo.Pairwise fun i j => i.nodeId < j.nodeId
  nodeInfo : ∀ i, i ∈ r.nodeInfo ↔
    ∃ it ∈ targets, (outcome it.1).1 = false ∧ i = ⟨u32 it.1, (outcome it.1).2⟩

/-- The vote of a target. -/
def nodeVote (outcome : ℤ → Bool × String) (it : ℤ × ConnId) : Vote ℤ String :=
  ⟨it.1, if (outcome it.1).1 then none else some (outcome it.1).2⟩

theorem toNat_u32_of_range {x : ℤ} (h₀ : 0 ≤ x) (h : x < 2 ^ 31) : ((u32 x).toNat : ℤ) = x := by
  rw [toNat_u32]; omega

theorem intOfU32_u32_of_range {x : ℤ} (h₀ : 0 ≤ x) (h : x < 2 ^ 31) : intOfU32 (u32 x) = x := by
  rw [intOfU32_u32, toInt32_of_isInt32 ⟨by omega, h⟩]

theorem commandOf_answerMessage (command : CommandID) (nodeID : ℤ) (outcome : Bool × String) :
    commandOf (answerMessage command nodeID outcome) = command := by
  simp only [answerMessage]
  split_ifs with h
  · exact h.symm
  · rfl

/-- A node that is told of a command answers with the ID it was told under. -/
theorem echoedBy_announcement {message : Command} (env : Env) (nodeID : ℤ)
    (h : message.command = .UPDATE ∨ message.command = .RUN ∨ message.command = .PUSH) :
    EchoedBy (announcement message env nodeID) (answerMessage message.command nodeID) := by
  simp only [announcement]
  split_ifs with hpush
  · rw [hpush]
    exact echoedBy_file (by simp [pushPatch]) rfl
  · have hne : answerMessage message.command nodeID = fun outcome => .commandACK {
        status := outcome.1, command := message.command, ackMessage := outcome.2, nodeId := u32 nodeID } := by
      ext outcome
      exact if_neg hpush
    rw [hne]
    rcases h with h | h | h
    · exact echoedBy_command (m := { message with nodeId := u32 nodeID }) (Or.inl h)
    · exact echoedBy_command (m := { message with nodeId := u32 nodeID }) (Or.inr h)
    · exact absurd h hpush

theorem votesAs_answerMessage {command : CommandID} {outcome : ℤ → Bool × String} {it : ℤ × ConnId}
    {v : Vote ℤ String} (h₀ : 0 ≤ it.1) (h : it.1 < 2 ^ 31)
    (hv : VotesAs (answerMessage command it.1 (outcome it.1)) v) : v = nodeVote outcome it := by
  simp only [answerMessage] at hv
  simp only [nodeVote]
  split_ifs at hv
  · rw [show v = ackVote (outcome it.1).1 (u32 it.1) (outcome it.1).2 from hv, ackVote,
      intOfU32_u32_of_range h₀ h]
  · rw [show v = ackVote (outcome it.1).1 (u32 it.1) (outcome it.1).2 from hv, ackVote,
      intOfU32_u32_of_range h₀ h]

/-- Distinct numbers in a range are no more than the range is long. -/
theorem length_le_of_range {l : List ℤ} {b : ℕ} (hl : l.Nodup) (h : ∀ x ∈ l, 0 ≤ x ∧ x < b) :
    l.length ≤ b := by
  have hsub : (l.map Int.toNat) ⊆ List.range b := by
    intro n hn
    obtain ⟨x, hx, rfl⟩ := List.mem_map.1 hn
    obtain ⟨h₀, hb⟩ := h x hx
    exact List.mem_range.2 (by omega)
  have hnodup : (l.map Int.toNat).Nodup := by
    refine List.Nodup.map_on ?_ hl
    intro x hx y hy hxy
    have := (h x hx).1
    have := (h y hy).1
    omega
  have := (hnodup.subperm hsub).length_le
  simpa using this

section
variable {command : CommandID} {its : List (ℤ × ConnId)} {outcome : ℤ → Bool × String}

/-- The texts that are kept are those of the targets that failed. -/
theorem info_of_perm (hnodup : (its.map Prod.fst).Nodup) {vs : List (Vote ℤ String)}
    (hvs : vs.Perm (its.map (nodeVote outcome))) (k : ℤ) (m : String) :
    ((Gather.new its.length).counts vs).info[k]? = some m ↔
      ∃ it ∈ its, (outcome it.1).1 = false ∧ k = it.1 ∧ m = (outcome it.1).2 := by
  have hkeys : (vs.map Vote.key).Nodup := by
    rw [(hvs.map Vote.key).nodup_iff, List.map_map]
    exact hnodup
  rw [Gather.counts_info hkeys fun v _ => Gather.new_info _ _, Gather.new_info, hvs.mem_iff, List.mem_map]
  constructor
  · rintro (he | ⟨it, hit, he⟩)
    · cases he
    · refine ⟨it, hit, ?_⟩
      simp only [nodeVote] at he
      obtain ⟨rfl, hf⟩ := Vote.mk.inj he
      cases ho : (outcome it.1).1 with
      | true => rw [ho] at hf; cases hf
      | false => rw [ho] at hf; exact ⟨rfl, rfl, (Option.some.inj hf).symm⟩
  · rintro ⟨it, hit, ho, rfl, rfl⟩
    refine .inr ⟨it, hit, ?_⟩
    simp only [nodeVote, ho]
    rfl

theorem ok_of_perm {vs : List (Vote ℤ String)} (hvs : vs.Perm (its.map (nodeVote outcome))) :
    ((Gather.new its.length).counts vs).ok = its.countP fun it => (outcome it.1).1 := by
  rw [Gather.counts_ok, hvs.countP_eq, List.countP_map, Gather.new_ok, Nat.zero_add]
  refine List.countP_congr ?_
  intro it _
  simp only [Function.comp, nodeVote]
  cases ho : (outcome it.1).1 <;> simp

/-- There are no more targets than IDs. -/
theorem length_le_of_ids (hnodup : (its.map Prod.fst).Nodup) (hrange : ∀ it ∈ its, 0 ≤ it.1 ∧ it.1 < 2 ^ 31) :
    its.length ≤ 2 ^ 31 := by
  rw [show its.length = (its.map Prod.fst).length by rw [List.length_map]]
  refine length_le_of_range hnodup ?_
  intro x hx
  obtain ⟨it, hit, rfl⟩ := List.mem_map.1 hx
  exact hrange it hit

theorem u32_lt_u32 {x y : ℤ} (hx : 0 ≤ x ∧ x < 2 ^ 31) (hy : 0 ≤ y ∧ y < 2 ^ 31) (h : x < y) :
    u32 x < u32 y := by
  have e₁ := toNat_u32_of_range hx.1 hx.2
  have e₂ := toNat_u32_of_range hy.1 hy.2
  rw [UInt32.lt_iff_toNat_lt]
  omega

/-- **The Return says what the targets answered**, in whatever order the answers came. -/
theorem returnFor_of_perm (hnodup : (its.map Prod.fst).Nodup)
    (hrange : ∀ it ∈ its, 0 ≤ it.1 ∧ it.1 < 2 ^ 31) {vs : List (Vote ℤ String)}
    (hvs : vs.Perm (its.map (nodeVote outcome))) :
    ReturnFor command its outcome (retOf ((Gather.new its.length).counts vs) command) := by
  have hlen := length_le_of_ids hnodup hrange
  have hinfo := info_of_perm hnodup hvs
  refine ⟨rfl, ?_, ?_, ?_, ?_⟩
  · show (u32 ((Gather.new its.length).counts vs).num).toNat = _
    rw [Gather.counts_num]
    exact toNat_u32_of_lt (lt_of_le_of_lt hlen (by norm_num))
  · show (u32 ((Gather.new its.length).counts vs).ok).toNat = _
    rw [ok_of_perm hvs]
    exact toNat_u32_of_lt (lt_of_le_of_lt (List.countP_le_length.trans hlen) (by norm_num))
  · show List.Pairwise _ (List.map _ _)
    rw [List.pairwise_map]
    refine Std.TreeMap.ordered_keys_toList.imp_of_mem ?_
    intro a b ha hb hab
    obtain ⟨it, hit, -, hka, -⟩ := (hinfo a.1 a.2).1 (Std.TreeMap.mem_toList_iff_getElem?_eq_some.1 ha)
    obtain ⟨it', hit', -, hkb, -⟩ := (hinfo b.1 b.2).1 (Std.TreeMap.mem_toList_iff_getElem?_eq_some.1 hb)
    have hlt : a.1 < b.1 := Std.compare_eq_lt.1 hab
    rw [hka, hkb] at hlt
    show u32 a.1 < u32 b.1
    rw [hka, hkb]
    exact u32_lt_u32 (hrange it hit) (hrange it' hit') hlt
  · intro i
    show i ∈ List.map _ _ ↔ _
    rw [List.mem_map]
    constructor
    · rintro ⟨⟨k, m⟩, hmem, rfl⟩
      obtain ⟨it, hit, ho, rfl, rfl⟩ := (hinfo k m).1 (Std.TreeMap.mem_toList_iff_getElem?_eq_some.1 hmem)
      exact ⟨it, hit, ho, rfl⟩
    · rintro ⟨it, hit, ho, rfl⟩
      exact ⟨(it.1, (outcome it.1).2), Std.TreeMap.mem_toList_iff_getElem?_eq_some.2
        ((hinfo _ _).2 ⟨it, hit, ho, rfl, rfl⟩), rfl⟩

end

/-! ## Fan-out and aggregation -/

theorem answers_append (es es' : List ServerEvent) : answers (es ++ es') = answers es ++ answers es' :=
  List.filterMap_append

/-- **The answers that are waited for complete the gathering**: the CLI gets one Return,
    at the last of them. -/
theorem returns_of_all {es : List ServerEvent} {cli : ConnId} {command : CommandID} {n : ℕ}
    (hrun : Runs step s es t) (hopen : EachState step s es fun u => u.SessionOpen cli)
    (hno : ∀ e ∈ es, isCommand e = false) (hkind : ∀ a ∈ answers es, commandOf a.2 = command)
    (htally : s.tally = Gather.new n) (hlen : (answers es).length = n) (hpos : 0 < n) :
    t.returns = s.returns ++ [(cli, retOf t.tally command)] := by
  obtain ⟨vs, hvs, ht, -, hret⟩ := runs_answers hrun hopen hno hkind
  have hvlen : vs.length = n := hvs.length_eq.symm.trans hlen
  have hne : vs ≠ [] := List.ne_nil_of_length_pos (by omega)
  have hacks : s.tally.acks + vs.length = s.tally.num := by
    rw [htally, Gather.new_acks, Gather.new_num]
    omega
  rw [hret, Gather.completions_of_eq hne hacks, List.map_singleton, ht]

/-- The IDs of the pool fit into an `int`. -/
theorem targets_range (hb : s.members.Base) (hint : s.clientPool.nodeCount ≤ 2 ^ 31) (message : Command) :
    ∀ it ∈ s.targets message, 0 ≤ it.1 ∧ it.1 < 2 ^ 31 := by
  intro it hit
  have hmem : it.1 ∈ s.clientPool.connections :=
    s.clientPool.mem_connections.2 ⟨_, mem_targets hit⟩
  obtain ⟨h₀, h⟩ := (hb.wf.range it.1).1 (.inr hmem)
  exact ⟨h₀, lt_of_lt_of_le h hint⟩

/-- The votes cast by the answers of the targets. -/
theorem votes_perm {command : CommandID} {its : List (ℤ × ConnId)} {outcome : ℤ → Bool × String}
    (hrange : ∀ it ∈ its, 0 ≤ it.1 ∧ it.1 < 2 ^ 31) {as : List (ConnId × Message)} {vs : List (Vote ℤ String)}
    (has : as.Perm (its.map fun it => (it.2, answerMessage command it.1 (outcome it.1))))
    (hvs : List.Forall₂ (fun a v => VotesAs a.2 v) as vs) : vs.Perm (its.map (nodeVote outcome)) := by
  obtain ⟨vs', hvs', hperm⟩ := List.perm_comp_forall₂ has.symm hvs
  suffices h : vs' = its.map (nodeVote outcome) from h ▸ hperm.symm
  rw [List.forall₂_map_left_iff] at hvs'
  clear has hvs hperm
  induction hvs' with
  | nil => rfl
  | @cons it v its vs' hv _ ih =>
    obtain ⟨h₀, h⟩ := hrange it List.mem_cons_self
    rw [List.map_cons, votesAs_answerMessage h₀ h hv,
      ih fun it' hit => hrange it' (List.mem_cons_of_mem _ hit)]

/-- An answer of a target casts one vote. -/
theorem votes_unique {as : List (ConnId × Message)} {vs vs' : List (Vote ℤ String)}
    (hone : ∀ a ∈ as, ∀ v v', VotesAs a.2 v → VotesAs a.2 v' → v = v')
    (h : List.Forall₂ (fun a v => VotesAs a.2 v) as vs)
    (h' : List.Forall₂ (fun a v => VotesAs a.2 v) as vs') : vs = vs' := by
  induction h generalizing vs' with
  | nil => cases h'; rfl
  | cons hv _ ih =>
    cases h' with
    | cons hv' h' =>
      rw [hone _ List.mem_cons_self _ _ hv hv', ih (fun a ha => hone a (List.mem_cons_of_mem _ ha)) h']

/-- **Fan-out and aggregation.**  A command for nodes that are connected is sent once
    to each of them, with its ID, and with this ID the node answers.  When all of them
    have answered, each once and in any order, the CLI gets one Return, at the last
    answer, which says what they answered.  The IDs fit into an `int`. -/
theorem fanOut {root : String} {serverTimeControl : ℕ} {es₀ es : List ServerEvent} {s₀ : LkpServer}
    {cli : ConnId} {message : Command} {env : Env} {outcome : ℤ → Bool × String}
    (hreach : Runs step (start root serverTimeControl) es₀ s) (hint : s.clientPool.nodeCount ≤ 2 ^ 31)
    (hcommand : message.command = .UPDATE ∨ message.command = .RUN ∨ message.command = .PUSH)
    (hne : s.targets message ≠ []) (hup : ∀ it ∈ s.targets message, (s.conns it.2).connected = true)
    (hopens : ∀ it ∈ s.targets message, env.opens it.1 = true)
    (hsend : s.step (.message cli (.command message) env) = some s₀) (hrun : Runs step s₀ es t)
    (hopen : EachState step s₀ es fun u => u.SessionOpen cli) (hno : ∀ e ∈ es, isCommand e = false)
    (hans : (answers es).Perm ((s.targets message).map fun it =>
      (it.2, answerMessage message.command it.1 (outcome it.1)))) :
    ((s.targets message).map Prod.snd).Nodup ∧
    s₀.announced = s.announced ++
      ((s.targets message).map fun it => (it.2, announcement message env it.1)) ∧
    (∀ it ∈ s.targets message,
      EchoedBy (announcement message env it.1) (answerMessage message.command it.1)) ∧
    ∃ r, ReturnFor message.command (s.targets message) outcome r ∧
      ∀ es₁ es₂ u, es = es₁ ++ es₂ → Runs step s₀ es₁ u → u.announced = s₀.announced ∧
        u.returns = s.returns ++
          if (answers es₁).length = (s.targets message).length then [(cli, r)] else [] := by
  have hb := base_of_runs hreach
  have hrange := targets_range hb hint message
  have hlen : (answers es).length = (s.targets message).length := by simpa using hans.length_eq
  have hbegun : Begun s s₀ message env :=
    begun_onCommandMsg (by rcases hcommand with h | h | h <;> simp [CommandID.Answered, h]) hopens (.inr hne)
      (step_eq_some.1 hsend).2
  have htally : s₀.tally = Gather.new (s.targets message).length := by
    rw [hbegun.tally, length_targets (.inr hne)]
  have hkind : ∀ a ∈ answers es, commandOf a.2 = message.command := by
    intro a ha
    obtain ⟨it, -, rfl⟩ := List.mem_map.1 (hans.mem_iff.1 ha)
    exact commandOf_answerMessage _ _ _
  obtain ⟨vs, hvs, -, -, -⟩ := runs_answers hrun hopen hno hkind
  refine ⟨targets_conns_nodup hb message, by rw [hbegun.announced, tells_connected hup],
    fun it _ => echoedBy_announcement env it.1 hcommand, _,
    returnFor_of_perm (targets_nodup message) hrange (votes_perm hrange hans hvs), ?_⟩
  rintro es₁ es₂ u rfl hu
  obtain ⟨vs₁, hvs₁, -, hann, hret⟩ := runs_answers hu
    (fun a b v hab hv => hopen a (b ++ es₂) v (by rw [hab, List.append_assoc]) hv)
    (fun e he => hno e (List.mem_append_left _ he))
    fun a ha => hkind a (by rw [answers_append]; exact List.mem_append_left _ ha)
  refine ⟨hann, ?_⟩
  rw [hret, hbegun.returns, htally]
  congr 1
  have hle : (answers es₁).length ≤ (s.targets message).length := by
    rw [← hlen, answers_append, List.length_append]; omega
  have hvlen := hvs₁.length_eq
  by_cases hall : (answers es₁).length = (s.targets message).length
  · -- all the answers are in `es₁`, so the votes are those of the whole run
    have hes : answers (es₁ ++ es₂) = answers es₁ := by
      rw [answers_append, List.append_right_eq_self, List.eq_nil_iff_length_eq_zero]
      rw [answers_append, List.length_append] at hlen; omega
    have hone : ∀ a ∈ answers (es₁ ++ es₂), ∀ v v', VotesAs a.2 v → VotesAs a.2 v' → v = v' := by
      intro a ha v v' hv hv'
      obtain ⟨it, hit, rfl⟩ := List.mem_map.1 (hans.mem_iff.1 ha)
      obtain ⟨h₀, h⟩ := hrange it hit
      rw [votesAs_answerMessage h₀ h hv, votesAs_answerMessage h₀ h hv']
    obtain rfl : vs = vs₁ := votes_unique hone hvs (hes.symm ▸ hvs₁)
    have hacks : (Gather.new (s.targets message).length : Gather ℤ String).acks + vs.length =
        (Gather.new (s.targets message).length : Gather ℤ String).num := by
      rw [Gather.new_acks, Gather.new_num]
      omega
    have hvne : vs ≠ [] := by
      rintro rfl
      exact hne (List.eq_nil_iff_length_eq_zero.2 (by rw [← hall, hvlen]; rfl))
    rw [Gather.completions_of_eq hvne hacks, if_pos hall, List.map_singleton]
  · rw [Gather.completions_of_lt, if_neg hall]
    · rfl
    · rw [Gather.new_acks, Gather.new_num]
      omega

/-- Two nodes and a CLI. -/
def twoNodes : List ServerEvent := [.up 1 "10.0.0.1", .up 2 "10.0.0.2", .up 9 "127.0.0.1"]

def runAll : Command := { command := .RUN, sendToAll := true, testcase := "job" }

def runOutcome (nodeID : ℤ) : Bool × String := if nodeID = 0 then (true, "") else (false, "no docker")

/-- The nodes answer a RUN in the order opposite to their IDs. -/
def runAnswers : List ServerEvent :=
  [.message 2 (answerMessage .RUN 1 (runOutcome 1)) {}, .timer [],
    .message 1 (answerMessage .RUN 0 (runOutcome 0)) {}]

theorem fanOut_twoNodes : ∃ s s₀ t r, Runs step (start "/lkp" 3) twoNodes s ∧
    s.step (.message 9 (.command runAll) {}) = some s₀ ∧ Runs step s₀ runAnswers t ∧
    ReturnFor .RUN [(0, 1), (1, 2)] runOutcome r ∧ t.returns = s.returns ++ [(9, r)] := by
  obtain ⟨s, hs, hint, htargets, hup, s₀, hs₀, hopen, hrun⟩ : ∃ s, Runs step (start "/lkp" 3) twoNodes s ∧
      s.clientPool.nodeCount ≤ 2 ^ 31 ∧ s.targets runAll = [(0, 1), (1, 2)] ∧
      (∀ it ∈ s.targets runAll, (s.conns it.2).connected = true) ∧
      ∃ s₀ ∈ s.step (.message 9 (.command runAll) {}),
        checkStates step (fun u => u.SessionOpen 9) s₀ runAnswers = true ∧
        (runEvents step s₀ runAnswers).isSome = true :=
    Runs.exists_of_run (by decide +kernel)
  obtain ⟨t, ht⟩ := Option.isSome_iff_exists.1 hrun
  have hans : (answers runAnswers).Perm ((s.targets runAll).map fun it =>
      (it.2, answerMessage .RUN it.1 (runOutcome it.1))) := by
    rw [htargets]; exact List.Perm.swap ..
  obtain ⟨-, -, -, r, hr, hall⟩ := fanOut hs hint (.inr (.inl rfl)) (by rw [htargets]; exact nofun) hup
    (fun _ _ => rfl) hs₀ (.of_runEvents ht) (.of_checkStates hopen) (by decide) hans
  have hret := (hall runAnswers [] t rfl (.of_runEvents ht)).2
  rw [htargets] at hr hret
  exact ⟨s, s₀, t, r, hs, hs₀, .of_runEvents ht, hr, hret⟩

/-! ## Every command gets its Return, when nobody leaves -/

/-- The nodes that answer in a run, once for each answer. -/
def answerers (es : List ServerEvent) : List ConnId := (answers es).map Prod.fst

/-- The node disconnects before it has answered. -/
def LeavesFirst (s : LkpServer) (es : List ServerEvent) (c : ConnId) : Prop :=
  (s.conns c).isUp = false ∨ ∃ es₁ es₂, es = es₁ ++ .down c :: es₂ ∧ c ∉ answerers es₁

theorem gone_step {e : ServerEvent} {c : ConnId} (hs : s.step e = some t) (h : s.members.phase c = .gone) :
    t.members.phase c = .gone := by
  rw [phase_step hs c, h]
  cases e with
  | up d ip =>
    have hne : d ≠ c := by
      rintro rfl
      rw [waiting_of_up hs] at h; cases h
    exact if_neg hne
  | down d => exact ite_self _
  | _ => rfl

/-- A connection that has gone down answers nothing more. -/
theorem not_answers_of_gone {es : List ServerEvent} {c : ConnId} (hrun : Runs step s es t)
    (h : s.members.phase c = .gone) : c ∉ answerers es := by
  induction hrun with
  | nil => exact List.not_mem_nil
  | @snoc es t u e hrun he ih =>
    have hgone : t.members.phase c = .gone :=
      hrun.inv' (I := fun u => u.members.phase c = .gone) h fun _ _ _ hu hv => gone_step hv hu
    rw [answerers, answers_snoc, List.map_append, List.mem_append]
    rintro (hmem | hmem)
    · exact ih hmem
    · obtain ⟨a, ha, rfl⟩ := List.mem_map.1 hmem
      rw [Option.mem_toList] at ha
      obtain ⟨env, rfl⟩ := eq_message_of_answer ha
      have hup : (t.conns a.1).isUp = true := (step_eq_some.1 he).1
      rw [isUp_iff] at hup
      exact absurd (hup.symm.trans hgone) nofun

theorem not_answers_of_leavesFirst {es : List ServerEvent} {c : ConnId} (hrun : Runs step s es t)
    (hw : s.members.phase c ≠ .waiting) (h : LeavesFirst s es c) : c ∉ answerers es := by
  rcases h with hdown | ⟨es₁, es₂, rfl, hnot⟩
  · refine not_answers_of_gone hrun ?_
    rw [← Bool.not_eq_true, isUp_iff] at hdown
    cases hp : s.members.phase c with
    | waiting => exact absurd hp hw
    | up => exact absurd hp hdown
    | gone => rfl
  · obtain ⟨u, hu, hrest⟩ := hrun.split
    obtain ⟨v, hv, hrest⟩ := hrest.cons_inv
    have hgone : v.members.phase c = .gone := by
      cases step_move hv with
      | quiet _ hd _ _ => exact absurd rfl (hd c)
      | sessionDown _ _ hm => rw [hm]; exact Members.disconnect_phase_self
      | workerDown _ _ _ _ hm => rw [hm]; exact Members.disconnect_phase_self
    have hlast := not_answers_of_gone hrest hgone
    rw [answerers, answers_append, List.map_append, List.mem_append]
    rintro (hmem | hmem)
    · exact hnot hmem
    · exact hlast hmem

/-- A CLI broadcasts a command, and the nodes answer it, each once, or disconnect before
    they do; the CLI stays and no other command is given. -/
structure Broadcast (s s₀ t : LkpServer) (cli : ConnId) (message : Command) (env : Env)
    (es : List ServerEvent) : Prop where
  command : message.command.Answered
  broad : message.sendToAll = true
  opens : ∀ it ∈ s.targets message, env.opens it.1 = true
  send : s.step (.message cli (.command message) env) = some s₀
  run : Runs step s₀ es t
  session : EachState step s₀ es fun u => u.SessionOpen cli
  alone : ∀ e ∈ es, isCommand e = false
  kind : ∀ a ∈ answers es, commandOf a.2 = message.command
  once : (answerers es).Nodup
  addressed : ∀ c ∈ answerers es, ∃ id, s.clientPool.getConn id = some c
  all : ∀ id c, s.clientPool.getConn id = some c → LeavesFirst s₀ es c ∨ c ∈ answerers es

/-- A broadcast command is for all connections in the pool. -/
theorem mem_targets_conns {message : Command} (h : message.sendToAll = true) {c : ConnId} :
    c ∈ (s.targets message).map Prod.snd ↔ ∃ id, s.clientPool.getConn id = some c := by
  rw [targets_broadcast h, List.mem_map]
  constructor
  · rintro ⟨⟨id, d⟩, hit, rfl⟩
    exact ⟨id, s.clientPool.mem_toList.1 hit⟩
  · rintro ⟨id, hid⟩
    exact ⟨(id, c), s.clientPool.mem_toList.2 hid, rfl⟩

/-- The nodes in the pool have connected, also after a command. -/
theorem not_waiting_of_pool {message : Command} {env : Env} {cli : ConnId} {id : ℤ} {c : ConnId}
    (hb : s.members.Base) (hs : s.step (.message cli (.command message) env) = some t)
    (hid : s.clientPool.getConn id = some c) : t.members.phase c ≠ .waiting := by
  intro hw
  rw [members_onCommandMsg (step_eq_some.1 hs).2] at hw
  have := (hb.known id c hid).symm.trans (hb.fresh c hw)
  cases this

/-- **A broadcast command gets exactly one Return** iff there are nodes in the pool and
    none of them disconnects before it has answered. -/
theorem answered_iff {root : String} {serverTimeControl : ℕ} {es₀ es : List ServerEvent} {s₀ : LkpServer}
    {cli : ConnId} {message : Command} {env : Env} (hreach : Runs step (start root serverTimeControl) es₀ s)
    (h : Broadcast s s₀ t cli message env es) :
    (∃ r, r.command = message.command ∧ t.returns = s.returns ++ [(cli, r)]) ↔
      (∃ id c, s.clientPool.getConn id = some c) ∧
        ∀ id c, s.clientPool.getConn id = some c → ¬ LeavesFirst s₀ es c := by
  obtain ⟨hcommand, hbroad, hopens, hsend, hrun, hopen, hno, hkind, honce, hfrom, hall⟩ := h
  have hb := base_of_runs hreach
  have hbegun := begun_onCommandMsg hcommand hopens (.inl hbroad) (step_eq_some.1 hsend).2
  obtain ⟨vs, hvs, -, -, hret⟩ := runs_answers hrun hopen hno hkind
  have hmem : ∀ c, c ∈ (s.targets message).map Prod.snd ↔ ∃ id, s.clientPool.getConn id = some c :=
    fun _ => mem_targets_conns hbroad
  have hconns := targets_conns_nodup hb message
  have hsub : answerers es ⊆ (s.targets message).map Prod.snd := fun c hc => (hmem c).2 (hfrom c hc)
  have hvlen : vs.length = (answerers es).length := by rw [← hvs.length_eq, answerers, List.length_map]
  have hnum : (s.targets message).length = s.expected message := length_targets (.inl hbroad)
  have hle : vs.length ≤ s.expected message := by
    have := (honce.subperm hsub).length_le
    rw [List.length_map] at this
    omega
  have hacks : s₀.tally.acks + vs.length = vs.length := by rw [hbegun.tally]; exact Nat.zero_add _
  have hexp : s₀.tally.num = s.expected message := by rw [hbegun.tally]; rfl
  rw [hret, hbegun.returns]
  constructor
  · rintro ⟨r, -, hr⟩
    rw [List.append_right_inj] at hr
    have hfull : vs.length = s.expected message := by
      by_contra hne
      rw [Gather.completions_of_lt (by omega)] at hr
      cases hr
    have hvne : vs ≠ [] := by rintro rfl; cases hr
    have hperm : (answerers es).Perm ((s.targets message).map Prod.snd) :=
      (honce.subperm hsub).perm_of_length_le (by rw [List.length_map]; omega)
    constructor
    · have hpos : 0 < (answerers es).length := by rw [← hvlen]; exact List.length_pos_iff.2 hvne
      obtain ⟨c, hc⟩ := List.exists_mem_of_length_pos hpos
      obtain ⟨id, hid⟩ := hfrom c hc
      exact ⟨id, c, hid⟩
    · intro id c hid hl
      exact not_answers_of_leavesFirst hrun (not_waiting_of_pool hb hsend hid) hl
        (hperm.mem_iff.2 ((hmem c).2 ⟨id, hid⟩))
  · rintro ⟨⟨id, c, hid⟩, hstay⟩
    have hsub' : (s.targets message).map Prod.snd ⊆ answerers es := by
      intro c hc
      obtain ⟨id, hid⟩ := (hmem c).1 hc
      exact (hall id c hid).resolve_left (hstay id c hid)
    have hge := (hconns.subperm hsub').length_le
    rw [List.length_map] at hge
    have hfull : vs.length = s.expected message := by omega
    have hpos : 0 < vs.length := by
      rw [hvlen]
      exact List.length_pos_of_mem (hsub' ((hmem c).2 ⟨id, hid⟩))
    have hvne : vs ≠ [] := List.length_pos_iff.1 hpos
    rw [Gather.completions_of_eq hvne (by omega), List.map_singleton]
    exact ⟨_, rfl, rfl⟩

def updateAll : Command := { command := .UPDATE, sendToAll := true }

/-- Both nodes answer an UPDATE. -/
def bothAnswer : List ServerEvent :=
  [.message 2 (answerMessage .UPDATE 1 (true, "")) {}, .message 1 (answerMessage .UPDATE 0 (true, "")) {}]

theorem eq_of_twoNodes {id : ℤ} {c : ConnId} (h : s.clientPool.connections.toList = [(0, 1), (1, 2)])
    (hid : s.clientPool.getConn id = some c) : (id, c) = (0, 1) ∨ (id, c) = (1, 2) := by
  have := s.clientPool.mem_toList.2 hid
  rw [h] at this
  simpa using this

theorem answered_bothAnswer : ∃ (s t : LkpServer) (r : Return), Runs step (start "/lkp" 3) twoNodes s ∧
    r.command = .UPDATE ∧ t.returns = s.returns ++ [(9, r)] := by
  obtain ⟨s, hs, htargets, s₀, hs₀, hup₁, hup₂, hopen, hrun⟩ : ∃ s, Runs step (start "/lkp" 3) twoNodes s ∧
      s.clientPool.connections.toList = [(0, 1), (1, 2)] ∧ ∃ s₀ ∈ s.step (.message 9 (.command updateAll) {}),
        (s₀.conns 1).isUp = true ∧ (s₀.conns 2).isUp = true ∧
        checkStates step (fun u => u.SessionOpen 9) s₀ bothAnswer = true ∧
        (runEvents step s₀ bothAnswer).isSome = true :=
    Runs.exists_of_run (by decide +kernel)
  obtain ⟨t, ht⟩ := Option.isSome_iff_exists.1 hrun
  have hconns : answerers bothAnswer = [2, 1] := rfl
  have hb : Broadcast s s₀ t 9 updateAll {} bothAnswer :=
    { command := .inl rfl, broad := rfl, opens := fun _ _ => rfl, send := hs₀, run := .of_runEvents ht
      session := .of_checkStates hopen, alone := by decide, kind := by decide, once := by decide
      addressed := by
        intro c hc
        rw [hconns] at hc
        rcases List.mem_pair.1 hc with rfl | rfl
        · exact ⟨1, s.clientPool.mem_toList.1 (by rw [htargets]; decide)⟩
        · exact ⟨0, s.clientPool.mem_toList.1 (by rw [htargets]; decide)⟩
      all := by
        intro id c hid
        rw [hconns]
        rcases eq_of_twoNodes htargets hid with he | he <;> cases he <;> exact .inr (by decide) }
  have hstay : ∀ id c, s.clientPool.getConn id = some c → ¬ LeavesFirst s₀ bothAnswer c := by
    rintro id c hid (hdown | ⟨es₁, es₂, he, -⟩)
    · rcases eq_of_twoNodes htargets hid with h | h <;> cases h
      · rw [hup₁] at hdown; cases hdown
      · rw [hup₂] at hdown; cases hdown
    · have : ServerEvent.down c ∈ bothAnswer := by rw [he]; simp
      simp [bothAnswer] at this
  obtain ⟨r, hr, hret⟩ := (answered_iff hs hb).2
    ⟨⟨0, 1, s.clientPool.mem_toList.1 (by rw [htargets]; decide)⟩, hstay⟩
  exact ⟨s, t, r, hs, hr, hret⟩

/-- One of two nodes disconnects before it answers, and the CLI gets no Return. -/
theorem answered_leaver : ¬ ∀ (root : String) (serverTimeControl : ℕ) (es₀ es : List ServerEvent)
    (s s₀ t : LkpServer) (cli : ConnId) (message : Command) (env : Env),
    Runs step (start root serverTimeControl) es₀ s → Broadcast s s₀ t cli message env es →
    ∃ r, r.command = message.command ∧ t.returns = s.returns ++ [(cli, r)] := by
  intro h
  obtain ⟨s, hs, htargets, s₀, hs₀, hopen, t, ht, hret⟩ : ∃ s, Runs step (start "/lkp" 3) twoNodes s ∧
      s.clientPool.connections.toList = [(0, 1), (1, 2)] ∧ ∃ s₀ ∈ s.step (.message 9 (.command updateAll) {}),
        checkStates step (fun u => u.SessionOpen 9) s₀ (.down 2 :: bothAnswer.drop 1) = true ∧
        ∃ t ∈ runEvents step s₀ (.down 2 :: bothAnswer.drop 1), t.returns = [] :=
    Runs.exists_of_run (by decide +kernel)
  have hconns : answerers (.down 2 :: bothAnswer.drop 1) = [1] := rfl
  obtain ⟨r, -, hr⟩ := h _ _ _ _ s s₀ t 9 updateAll {} hs
    { command := .inl rfl, broad := rfl, opens := fun _ _ => rfl, send := hs₀, run := .of_runEvents ht
      session := .of_checkStates hopen, alone := by decide, kind := by decide, once := by decide
      addressed := by
        intro c hc
        rw [hconns, List.mem_singleton] at hc
        exact ⟨0, hc ▸ s.clientPool.mem_toList.1 (by rw [htargets]; decide)⟩
      all := by
        intro id c hid
        rcases eq_of_twoNodes htargets hid with he | he <;> cases he
        · exact .inr (by rw [hconns]; decide)
        · exact .inl (.inr ⟨[], _, rfl, List.not_mem_nil⟩) }
  rw [hret] at hr
  simp at hr

end LkpServer

end LkpExtent
