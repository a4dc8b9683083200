/-
  LkpExtent formalization — under which ID a RESULT that failed is reported.

  * `runs_answered`: the counters are those of the answers, each with its outcome: the
    status of an ACK, or the check of an END;
  * `passed_iff`: while transfers are apart, the check of an END is that of the sizes that
    its node has announced and sent, modulo `2 ^ 32`;
  * `resultReturn_iff`: the END of a client names no node, so that the file of a node
    that is not complete is reported under ID 0.
-/
import LkpExtent.Aggregation
import LkpExtent.ResultSizes

namespace LkpExtent

open Lib

namespace LkpServer
variable {s t : LkpServer}

/-! ## The answers with their outcome -/

/-- An answer, with its connection and its outcome. -/
structure Answered where
  conn : ConnId
  message : Message
  ok : Bool

/-- The answer that an event brings, in the state in which it is handled. -/
def answered (s : LkpServer) : ServerEvent → List Answered
  | .message c (.commandACK m) _ => [⟨c, .commandACK m, m.status⟩]
  | .message c (.pushACK m) _ => [⟨c, .pushACK m, m.status⟩]
  | .message c (.file m) env => if m.fileType = .END then [⟨c, .file m, s.passes c env⟩] else []
  | _ => []

/-- The ID that an answer names, and the text that is kept when it fails. -/
def Answered.vote (a : Answered) : Vote ℤ String :=
  match a.message with
  | .commandACK m => ⟨intOfU32 m.nodeId, if a.ok then none else some m.ackMessage⟩
  | .pushACK m => ⟨intOfU32 m.nodeId, if a.ok then none else some m.ackMessage⟩
  | .file m => ⟨intOfU32 m.nodeId, if a.ok then none else some "file is not completed"⟩
  | _ => ⟨0, none⟩

theorem answered_answer? (e : ServerEvent) :
    (s.answered e).map (fun a => (a.conn, a.message)) = (answer? e).toList := by
  cases e with
  | message c m env =>
    cases m with
    | file m =>
      simp only [answered, answer?]
      split_ifs <;> rfl
    | _ => rfl
  | _ => rfl

theorem touch_getD {α : Type} (m : ConnId → Option α) (conn : ConnId) (d : α) :
    ((touch m conn d) conn).getD d = (m conn).getD d := by
  simp [touch]

theorem tally_checkComplete_eq (conn : ConnId) (message : File) (env : Env) {g : Gather ℤ String} {ok : Bool}
    (hg : s.tally = { g with acks := g.acks + 1 })
    (hok : ok = true ↔
      toInt32 (s.disk.stSize ((s.fileNameMap conn).getD "") env.uninit) = (s.fileSizeMap conn).getD 0) :
    (s.checkComplete conn message env).tally = g.count (Answered.vote ⟨conn, .file message, ok⟩) := by
  simp only [checkComplete, touch_getD]
  split_ifs with h
  · rw [Bool.eq_false_iff.2 fun h' => h (hok.1 h')]
    show { s.tally with info := s.tally.info.insert (intOfU32 message.nodeId) "file is not completed" } = _
    rw [hg]; rfl
  · rw [hok.2 (not_not.1 h)]
    show { s.tally with ok := s.tally.ok + 1 } = _
    rw [hg]; rfl

/-- **What an event adds to the counters.** -/
theorem tally_step {e : ServerEvent} (hs : s.step e = some t) (hno : isCommand e = false) :
    t.tally = s.tally.counts ((s.answered e).map Answered.vote) := by
  cases ha : answer? e with
  | none =>
    have hnil : s.answered e = [] := by
      have hmap := answered_answer? (s := s) e
      rw [ha] at hmap
      exact List.map_eq_nil_iff.1 hmap
    rw [hnil]
    exact (step_quiet hs hno ha).tally
  | some a =>
    obtain ⟨-, h⟩ := step_eq_some.1 hs
    cases e with
    | message c m env =>
      cases m with
      | commandACK m => exact (tally_replyIfComplete h).trans (tally_countAnswer _ _ _)
      | pushACK m => exact (tally_replyIfComplete h).trans (tally_countAnswer _ _ _)
      | file m =>
        simp only [answer?] at ha
        split_ifs at ha with hend
        have h : s.onFileMsg c m env = .ok t := h
        simp only [onFileMsg] at h
        rw [if_pos hend] at h
        obtain ⟨u, hu, h⟩ := bind_ok h
        rw [tally_replyIfComplete h, answered, if_pos hend]
        refine tally_checkComplete_eq c m env ?_ ?_
        · obtain ⟨fp, -, rfl⟩ := fcloseOutput_eq hu
          rfl
        · exact passes_iff hu
      | command m => cases hno
      | heartBeat m => cases ha
      | ret m => cases ha
    | _ => cases ha

/-- **The counters after a run** are those of its answers. -/
theorem runs_answered {es : List ServerEvent} (h : Runs step s es t)
    (hno : ∀ e ∈ es, isCommand e = false) :
    (outputs step answered s es).map (fun a => (a.conn, a.message)) = answers es ∧
      t.tally = s.tally.counts ((outputs step answered s es).map Answered.vote) := by
  induction h with
  | nil => exact ⟨rfl, rfl⟩
  | @snoc es t u e h he ih =>
    obtain ⟨hans, htally⟩ := ih fun e' he' => hno e' (by simp [he'])
    rw [outputs_snoc h, answers_snoc, List.map_append, List.map_append, hans, answered_answer?]
    refine ⟨rfl, ?_⟩
    rw [tally_step he (hno e (by simp)), htally, Gather.counts_append]

/-- An ACK succeeds with its status. -/
theorem ok_of_ack {es : List ServerEvent} (h : Runs step s es t) {a : Answered} {m : CommandACK}
    (ha : a ∈ outputs step answered s es) (hm : a.message = .commandACK m) : a.ok = m.status := by
  induction h with
  | nil => cases ha
  | @snoc es t u e h _ ih =>
    rw [outputs_snoc h] at ha
    rcases List.mem_append.1 ha with ha | ha
    · exact ih ha
    · cases e with
      | message c m' env =>
        cases m' with
        | commandACK m' =>
          rw [List.mem_singleton.1 ha] at hm ⊢
          cases hm; rfl
        | pushACK m' =>
          rw [List.mem_singleton.1 ha] at hm
          cases hm
        | file m' =>
          simp only [answered] at ha
          split_ifs at ha
          · rw [List.mem_singleton.1 ha] at hm
            cases hm
          · cases ha
        | _ => cases ha
      | _ => cases ha

/-- The answer of the node in a run has been a good one. -/
def passed (s : LkpServer) (es : List ServerEvent) (conn : ConnId) : Bool :=
  (outputs step answered s es).any fun a => a.conn = conn && a.ok

/-- With one answer of each connection, its outcome is the one of the connection. -/
theorem passed_of_mem {es : List ServerEvent} (h : ((outputs step answered s es).map Answered.conn).Nodup)
    {a : Answered} (ha : a ∈ outputs step answered s es) : passed s es a.conn = a.ok := by
  rw [passed, Bool.eq_iff_iff, List.any_eq_true]
  constructor
  · rintro ⟨b, hb, hbok⟩
    simp only [Bool.and_eq_true, decide_eq_true_eq] at hbok
    rw [← List.inj_on_of_nodup_map h hb ha hbok.1]
    exact hbok.2
  · intro hok
    exact ⟨a, ha, by simp [hok]⟩

theorem answered_eq {es : List ServerEvent} (h : ((outputs step answered s es).map Answered.conn).Nodup) :
    outputs step answered s es = ((outputs step answered s es).map fun a => (a.conn, a.message)).map fun a =>
      ⟨a.1, a.2, passed s es a.1⟩ := by
  rw [List.map_map]
  refine (List.map_id _).symm.trans (List.map_congr_left ?_)
  intro a ha
  simp only [Function.comp, passed_of_mem h ha, id]

/-! ## The sizes behind the outcomes -/

/-- The received size of the transfer that has ended is the announced one. -/
def matched (es : List ServerEvent) (conn : ConnId) : Bool :=
  (ended conn es).any fun z => z.received = z.announced.toNat

theorem endOf_answer? {e : ServerEvent} {conn : ConnId} (h : endOf e = some conn) :
    ∃ m, answer? e = some (conn, .file m) := by
  cases e with
  | message c m env =>
    cases m with
    | file m =>
      simp only [endOf] at h
      split_ifs at h with hend
      cases h
      exact ⟨m, if_pos hend⟩
    | _ => cases h
  | _ => cases h

/-- A transfer that has ended is an answer. -/
theorem mem_answers_of_ended {es : List ServerEvent} {conn : ConnId} {z : Sizes} (h : ended conn es = some z) :
    ∃ m, (conn, .file m) ∈ answers es := by
  induction es using List.reverseRecOn with
  | nil => cases h
  | append_singleton es e ih =>
    rw [ended_snoc] at h
    rw [answers_snoc]
    split_ifs at h with hend
    · obtain ⟨m, hm⟩ := endOf_answer? hend
      exact ⟨m, List.mem_append_right _ (by rw [hm]; exact List.mem_singleton_self _)⟩
    · obtain ⟨m, hm⟩ := ih h
      exact ⟨m, List.mem_append_left _ hm⟩

/-- **The outcome of an END** is that of the sizes of its transfer, modulo `2 ^ 32`. -/
theorem ok_of_end {es : List ServerEvent} (h : Runs step s es t) (hapart : Apart es)
    (hconns : ((outputs step answered s es).map Answered.conn).Nodup) {a : Answered} {m : File}
    (ha : a ∈ outputs step answered s es) (hm : a.message = .file m) :
    ∃ z, ended a.conn es = some z ∧ (a.ok = true ↔ z.received % 2 ^ 32 = z.announced.toNat) := by
  induction h with
  | nil => cases ha
  | @snoc es u t e h _ ih =>
    rw [outputs_snoc h] at ha hconns
    rw [List.map_append] at hconns
    obtain ⟨hbefore, hlast⟩ := apart_snoc.1 hapart
    rw [ended_snoc]
    rcases List.mem_append.1 ha with ha | ha
    · -- the END of another connection
      rw [if_neg]
      · exact ih hbefore hconns.of_append_left ha
      · intro hend
        obtain ⟨m', hm'⟩ := endOf_answer? hend
        have hmem := congrArg (List.map Prod.fst) (answered_answer? (s := u) e)
        rw [hm', List.map_map] at hmem
        have hconn : (u.answered e).map Answered.conn = [a.conn] := hmem
        rw [hconn] at hconns
        exact (List.disjoint_of_nodup_append hconns) (List.mem_map_of_mem ha) (List.mem_singleton_self _)
    · cases e with
      | message c m' env =>
        cases m' with
        | file m' =>
          simp only [answered] at ha
          split_ifs at ha with hend
          · rw [List.mem_singleton.1 ha]
            have hendOf : endOf (.message c (.file m') env) = some c := if_pos hend
            rw [if_pos hendOf]
            exact ⟨_, rfl, passes_iff_of_alone h (hlast c hendOf)⟩
          · cases ha
        | commandACK m' =>
          rw [List.mem_singleton.1 ha] at hm
          cases hm
        | pushACK m' =>
          rw [List.mem_singleton.1 ha] at hm
          cases hm
        | _ => cases ha
      | _ => cases ha

/-! ## The answers to a RESULT -/

/-- What a node answers to a RESULT: a failing ACK under its ID, or, without a refusal,
    the END of its transfer, as the client sends it. -/
def resultAnswer (refusal : ℤ → Option String) (nodeID : ℤ) : Message :=
  match refusal nodeID with
  | some text =>
    .commandACK { status := false, command := .RESULT, ackMessage := text, nodeId := u32 nodeID }
  | none => .file endFile

/-- What the Return to a RESULT has to say: one entry for each target without success,
    under its own ID. -/
structure ResultReturn (s t : LkpServer) (cli : ConnId) (targets : List (ℤ × ConnId))
    (ok : ConnId → Bool) (r : Return) : Prop where
  returns : t.returns = s.returns ++ [(cli, r)]
  command : r.command = .RESULT
  clientNum : r.clientNum.toNat = targets.length
  clientOkNum : r.clientOkNum.toNat = targets.countP fun it => ok it.2
  nodeInfo : (r.nodeInfo.map NodeInfo.nodeId).Perm
    ((targets.filter fun it => ok it.2 = false).map fun it => u32 it.1)

theorem commandOf_resultAnswer (refusal : ℤ → Option String) (nodeID : ℤ) :
    commandOf (resultAnswer refusal nodeID) = .RESULT := by
  simp only [resultAnswer]
  cases refusal nodeID <;> rfl

/-- The ID under which the failure of a target is kept. -/
def reportedAs (refusal : ℤ → Option String) (nodeID : ℤ) : ℤ :=
  match refusal nodeID with
  | some _ => nodeID
  | none => 0

theorem vote_resultAnswer (refusal : ℤ → Option String) (ok : Bool) {it : ℤ × ConnId}
    (hrange : 0 ≤ it.1 ∧ it.1 < 2 ^ 31) :
    (Answered.vote ⟨it.2, resultAnswer refusal it.1, ok⟩).key = reportedAs refusal it.1 ∧
    ((Answered.vote ⟨it.2, resultAnswer refusal it.1, ok⟩).fault = none ↔ ok = true) := by
  simp only [resultAnswer, reportedAs]
  cases refusal it.1 with
  | some text =>
    refine ⟨intOfU32_u32_of_range hrange.1 hrange.2, ?_⟩
    cases ok <;> simp [Answered.vote]
  | none =>
    refine ⟨intOfU32_zero, ?_⟩
    cases ok <;> simp [Answered.vote]

section
variable {its : List (ℤ × ConnId)} {refusal : ℤ → Option String} {ok : ConnId → Bool}
  {vs : List (Vote ℤ String)}

/-- The votes of the targets, in the order of the targets. -/
def resultVotes (its : List (ℤ × ConnId)) (refusal : ℤ → Option String) (ok : ConnId → Bool) :
    List (Vote ℤ String) :=
  its.map fun it => Answered.vote ⟨it.2, resultAnswer refusal it.1, ok it.2⟩

theorem ok_resultVotes (hrange : ∀ it ∈ its, 0 ≤ it.1 ∧ it.1 < 2 ^ 31)
    (hvs : vs.Perm (resultVotes its refusal ok)) :
    ((Gather.new its.length).counts vs).ok = its.countP fun it => ok it.2 := by
  rw [Gather.counts_ok, hvs.countP_eq, resultVotes, List.countP_map, Gather.new_ok, Nat.zero_add]
  refine List.countP_congr ?_
  intro it hit
  rw [Function.comp, Option.isNone_iff_eq_none]
  exact (vote_resultAnswer refusal (ok it.2) (hrange it hit)).2

theorem mem_info_resultVotes (hrange : ∀ it ∈ its, 0 ≤ it.1 ∧ it.1 < 2 ^ 31)
    (hvs : vs.Perm (resultVotes its refusal ok)) (k : ℤ) :
    k ∈ ((Gather.new its.length).counts vs).info ↔
      ∃ it ∈ its, ok it.2 = false ∧ k = reportedAs refusal it.1 := by
  have hnew : k ∉ (Gather.new its.length : Gather ℤ String).info := Std.TreeMap.not_mem_emptyc
  rw [Gather.mem_counts_info, or_iff_right hnew]
  constructor
  · rintro ⟨v, hv, rfl, hfault⟩
    obtain ⟨it, hit, rfl⟩ := List.mem_map.1 (hvs.mem_iff.1 hv)
    obtain ⟨hkey, hok⟩ := vote_resultAnswer refusal (ok it.2) (hrange it hit)
    exact ⟨it, hit, Bool.eq_false_iff.2 fun h => hfault (hok.2 h), hkey⟩
  · rintro ⟨it, hit, hfalse, rfl⟩
    obtain ⟨hkey, hok⟩ := vote_resultAnswer refusal (ok it.2) (hrange it hit)
    refine ⟨_, hvs.mem_iff.2 (List.mem_map_of_mem hit), hkey, ?_⟩
    intro hfault
    rw [hok.1 hfault] at hfalse
    cases hfalse

end

theorem u32_inj_of_range {x y : ℤ} (hx : 0 ≤ x ∧ x < 2 ^ 31) (hy : 0 ≤ y ∧ y < 2 ^ 31)
    (h : u32 x = u32 y) : x = y := by
  rw [← toNat_u32_of_range hx.1 hx.2, ← toNat_u32_of_range hy.1 hy.2, h]

/-- The IDs that a Return names are the keys of the texts kept, each once. -/
theorem retOf_ids {g : Gather ℤ String} (hrange : ∀ k ∈ g.info, 0 ≤ k ∧ k < 2 ^ 31) (command : CommandID) :
    ((retOf g command).nodeInfo.map NodeInfo.nodeId).Nodup ∧
    ∀ x, x ∈ (retOf g command).nodeInfo.map NodeInfo.nodeId ↔ ∃ k ∈ g.info, x = u32 k := by
  have hids : (retOf g command).nodeInfo.map NodeInfo.nodeId = g.info.keys.map u32 := by
    rw [← Std.TreeMap.map_fst_toList_eq_keys]
    simp only [retOf, List.map_map]
    rfl
  rw [hids]
  constructor
  · refine List.Nodup.map_on ?_ ?_
    · intro x hx y hy hxy
      exact u32_inj_of_range (hrange x (Std.TreeMap.mem_keys.1 hx)) (hrange y (Std.TreeMap.mem_keys.1 hy)) hxy
    · exact Std.TreeMap.distinct_keys.imp fun h => by simpa using h
  · intro x
    rw [List.mem_map]
    constructor
    · rintro ⟨k, hk, rfl⟩
      exact ⟨k, Std.TreeMap.mem_keys.1 hk, rfl⟩
    · rintro ⟨k, hk, rfl⟩
      exact ⟨k, Std.TreeMap.mem_keys.2 hk, rfl⟩

/-- The IDs reported are those of the targets without success iff each of these is
    reported under its own ID. -/
theorem ids_perm_iff {its : List (ℤ × ConnId)} {refusal : ℤ → Option String} {ok : ConnId → Bool}
    {vs : List (Vote ℤ String)} (hnodup : (its.map Prod.fst).Nodup)
    (hrange : ∀ it ∈ its, 0 ≤ it.1 ∧ it.1 < 2 ^ 31) (hvs : vs.Perm (resultVotes its refusal ok)) :
    ((retOf ((Gather.new its.length).counts vs) .RESULT).nodeInfo.map NodeInfo.nodeId).Perm
        ((its.filter fun it => ok it.2 = false).map fun it => u32 it.1) ↔
      ∀ it ∈ its, refusal it.1 = none → ok it.2 = false → it.1 = 0 := by
  have hreported : ∀ it ∈ its, 0 ≤ reportedAs refusal it.1 ∧ reportedAs refusal it.1 < 2 ^ 31 := by
    intro it hit
    unfold reportedAs
    split
    · exact hrange it hit
    · exact ⟨le_rfl, by norm_num⟩
  have hinfo := mem_info_resultVotes hrange hvs
  obtain ⟨hids, hmem⟩ := retOf_ids (g := (Gather.new its.length).counts vs) (by
    intro k hk
    obtain ⟨it, hit, -, rfl⟩ := (hinfo k).1 hk
    exact hreported it hit) .RESULT
  have hfailed : ((its.filter fun it => ok it.2 = false).map fun it => u32 it.1).Nodup := by
    refine List.Nodup.map_on ?_ ((hnodup.of_map _).filter _)
    intro it hit it' hit' he
    have hit := (List.mem_filter.1 hit).1
    have hit' := (List.mem_filter.1 hit').1
    exact List.inj_on_of_nodup_map hnodup hit hit' (u32_inj_of_range (hrange it hit) (hrange it' hit') he)
  rw [List.perm_ext_iff_of_nodup hids hfailed]
  simp only [hmem, hinfo, List.mem_map, List.mem_filter, decide_eq_true_eq]
  constructor
  · intro h it hit hrefusal hfalse
    obtain ⟨k, ⟨it', hit', -, rfl⟩, hk⟩ := (h (u32 it.1)).2 ⟨it, ⟨hit, hfalse⟩, rfl⟩
    have heq := u32_inj_of_range (hrange it hit) (hreported it' hit') hk
    unfold reportedAs at heq
    split at heq
    · rename_i hrefusal'
      rw [← heq, hrefusal] at hrefusal'
      cases hrefusal'
    · exact heq
  · intro h x
    have hown : ∀ it ∈ its, ok it.2 = false → reportedAs refusal it.1 = it.1 := by
      intro it hit hfalse
      unfold reportedAs
      split
      · rfl
      · rename_i hrefusal
        exact (h it hit hrefusal hfalse).symm
    constructor
    · rintro ⟨k, ⟨it, hit, hfalse, rfl⟩, rfl⟩
      exact ⟨it, ⟨hit, hfalse⟩, by rw [hown it hit hfalse]⟩
    · rintro ⟨it, ⟨hit, hfalse⟩, rfl⟩
      exact ⟨it.1, ⟨it, hit, hfalse, (hown it hit hfalse).symm⟩, rfl⟩

/-- A target whose transfer has ended has sent no refusal, and its outcome is that of its sizes. -/
theorem passed_iff {es : List ServerEvent} {its : List (ℤ × ConnId)} {refusal : ℤ → Option String}
    (hrun : Runs step s es t) (hno : ∀ e ∈ es, isCommand e = false) (hapart : Apart es)
    (hnodup : (its.map Prod.snd).Nodup)
    (hconns : ((outputs step answered s es).map Answered.conn).Nodup)
    (hans : (answers es).Perm (its.map fun it => (it.2, resultAnswer refusal it.1))) {it : ℤ × ConnId} (hit : it ∈ its) :
    (refusal it.1 = none ↔ (ended it.2 es).isSome = true) ∧
    (passed s es it.2 = true ↔ ∃ z, ended it.2 es = some z ∧ z.received % 2 ^ 32 = z.announced.toNat) := by
  -- the answer of the target
  have hmem : (it.2, resultAnswer refusal it.1) ∈ answers es := hans.mem_iff.2 (List.mem_map_of_mem hit)
  rw [← (runs_answered hrun hno).1] at hmem
  obtain ⟨a, ha, hmessage⟩ := List.mem_map.1 hmem
  obtain ⟨hconn, hmessage⟩ := Prod.mk.inj hmessage
  rw [← hconn, passed_of_mem hconns ha]
  cases hrefusal : refusal it.1 with
  | none =>
    simp only [resultAnswer, hrefusal] at hmessage
    obtain ⟨z, hz, hok⟩ := ok_of_end hrun hapart hconns ha hmessage
    rw [hz]
    refine ⟨iff_of_true rfl rfl, hok.trans ⟨fun h => ⟨z, rfl, h⟩, ?_⟩⟩
    rintro ⟨z', hz', h⟩
    cases hz'
    exact h
  | some text =>
    have hnone : ended a.conn es = none := by
      by_contra hsome
      obtain ⟨z, hz⟩ := Option.ne_none_iff_exists'.1 hsome
      obtain ⟨m, hm⟩ := mem_answers_of_ended hz
      obtain ⟨it', hit', he⟩ := List.mem_map.1 (hans.mem_iff.1 hm)
      obtain ⟨hsame, he⟩ := Prod.mk.inj he
      rw [List.inj_on_of_nodup_map hnodup hit' hit (hsame.trans hconn), resultAnswer, hrefusal] at he
      cases he
    simp only [resultAnswer, hrefusal] at hmessage
    rw [hnone, ok_of_ack hrun ha hmessage]
    exact ⟨iff_of_false nofun nofun, iff_of_false nofun fun ⟨z, hz, _⟩ => by cases hz⟩

/-- The step of a RESULT begins a gathering. -/
theorem begun_result {cli : ConnId} {message : Command} {env : Env} (hcommand : message.command = .RESULT)
    (hsend : s.step (.message cli (.command message) env) = some t) : Begun s t message env := by
  have hstep : s.onCommandMsg message env = .ok t := (step_eq_some.1 hsend).2
  have hne : message.command ≠ .PUSH := by simp [hcommand]
  rw [onCommandMsg_forward env (.inr (.inr (.inl hcommand))) hne] at hstep
  cases hstep
  exact begun_forward env hne

/-- Of two predicates, one of which implies the other, that hold equally often. -/
theorem of_countP_eq {α : Type} {l : List α} {p q : α → Bool} (hpq : ∀ a ∈ l, p a = true → q a = true)
    (h : l.countP p = l.countP q) : ∀ a ∈ l, q a = true → p a = true := by
  induction l with
  | nil => exact nofun
  | cons b l ih =>
    rw [List.forall_mem_cons] at hpq
    have hle : l.countP p ≤ l.countP q := List.countP_mono_left hpq.2
    rw [List.countP_cons, List.countP_cons] at h
    rw [List.forall_mem_cons]
    cases hp : p b with
    | true =>
      rw [hp, hpq.1 hp] at h
      exact ⟨fun _ => rfl, ih hpq.2 (by omega)⟩
    | false =>
      cases hq : q b with
      | true => rw [hp, hq] at h; simp at h; omega
      | false =>
        rw [hp, hq] at h
        exact ⟨nofun, ih hpq.2 (by omega)⟩

/-- **The Return to a RESULT** has the votes of all targets, whatever the order of their answers. -/
theorem returns_result {es₀ es : List ServerEvent} {root : String} {serverTimeControl : ℕ} {s₀ : LkpServer}
    {cli : ConnId} {message : Command} {env : Env} {refusal : ℤ → Option String}
    (hreach : Runs step (start root serverTimeControl) es₀ s) (hcommand : message.command = .RESULT)
    (hne : s.targets message ≠ []) (hsend : s.step (.message cli (.command message) env) = some s₀)
    (hrun : Runs step s₀ es t) (hopen : EachState step s₀ es fun u => u.SessionOpen cli)
    (hno : ∀ e ∈ es, isCommand e = false)
    (hans : (answers es).Perm ((s.targets message).map fun it => (it.2, resultAnswer refusal it.1))) :
    ((outputs step answered s₀ es).map Answered.conn).Nodup ∧
    ∃ vs, vs.Perm (resultVotes (s.targets message) refusal (passed s₀ es)) ∧
      t.returns = s.returns ++ [(cli, retOf ((Gather.new (s.targets message).length).counts vs) .RESULT)] := by
  have hbegun := begun_result hcommand hsend
  have htally : s₀.tally = Gather.new (s.targets message).length := by
    rw [hbegun.tally, length_targets (.inr hne)]
  have hkind : ∀ a ∈ answers es, commandOf a.2 = .RESULT := by
    intro a ha
    obtain ⟨it, -, rfl⟩ := List.mem_map.1 (hans.mem_iff.1 ha)
    exact commandOf_resultAnswer _ _
  -- the counters are those of one answer of each target
  obtain ⟨hanswers, ht⟩ := runs_answered hrun hno
  have hconns : ((outputs step answered s₀ es).map Answered.conn).Nodup := by
    have hfst : (outputs step answered s₀ es).map Answered.conn = (answers es).map Prod.fst := by
      rw [← hanswers, List.map_map]; rfl
    rw [hfst, (hans.map Prod.fst).nodup_iff, List.map_map]
    exact targets_conns_nodup (base_of_runs hreach) message
  refine ⟨hconns, (outputs step answered s₀ es).map Answered.vote, ?_, ?_⟩
  · rw [answered_eq hconns, hanswers, List.map_map]
    refine (hans.map _).trans (List.Perm.of_eq ?_)
    rw [List.map_map]
    rfl
  · -- the last of them completes the gathering
    have hlen : (answers es).length = (s.targets message).length := by
      rw [hans.length_eq, List.length_map]
    have hret := returns_of_all hrun hopen hno hkind htally hlen (List.length_pos_iff.2 hne)
    rwa [ht, htally, hbegun.returns] at hret

/-- **RESULT failures are attributed to the node that failed**, while transfers are apart, iff a
    transfer whose received size is not the announced one is of the node with ID 0 and does not
    differ by a multiple of `2 ^ 32`.  Each target answers once, in any order; the IDs fit
    into an `int`. -/
theorem resultReturn_iff {root : String} {serverTimeControl : ℕ} {es₀ es : List ServerEvent}
    {s₀ : LkpServer} {cli : ConnId} {message : Command} {env : Env} {refusal : ℤ → Option String}
    (hreach : Runs step (start root serverTimeControl) es₀ s) (hint : s.clientPool.nodeCount ≤ 2 ^ 31)
    (hcommand : message.command = .RESULT) (hne : s.targets message ≠ [])
    (hsend : s.step (.message cli (.command message) env) = some s₀) (hrun : Runs step s₀ es t)
    (hopen : EachState step s₀ es fun u => u.SessionOpen cli) (hno : ∀ e ∈ es, isCommand e = false)
    (hans : (answers es).Perm ((s.targets message).map fun it => (it.2, resultAnswer refusal it.1)))
    (hapart : Apart es) :
    (∃ r, ResultReturn s t cli (s.targets message) (matched es) r) ↔
      ∀ it ∈ s.targets message, ∀ z, ended it.2 es = some z → z.received ≠ z.announced.toNat →
        it.1 = 0 ∧ z.received % 2 ^ 32 ≠ z.announced.toNat := by
  have hb := base_of_runs hreach
  have hrange := targets_range hb hint message
  have hsmall : (s.targets message).length < 2 ^ 32 :=
    lt_of_le_of_lt (length_le_of_ids (targets_nodup message) hrange) (by norm_num)
  obtain ⟨hconns, vs, hvotes, hret⟩ := returns_result hreach hcommand hne hsend hrun hopen hno hans
  have hok : (u32 ((Gather.new (s.targets message).length).counts vs).ok).toNat =
      (s.targets message).countP fun it => passed s₀ es it.2 := by
    rw [ok_resultVotes hrange hvotes]
    exact toNat_u32_of_lt (lt_of_le_of_lt List.countP_le_length hsmall)
  -- a transfer whose sizes are the same passes
  have hpassed := fun it (hit : it ∈ s.targets message) =>
    passed_iff hrun hno hapart (targets_conns_nodup hb message) hconns hans hit
  have hmatched : ∀ it ∈ s.targets message, matched es it.2 = true → passed s₀ es it.2 = true := by
    intro it hit hm
    obtain ⟨z, hz, hm⟩ := (Option.any_eq_true _ _).1 hm
    have hlt := z.announced.toNat_lt
    exact (hpassed it hit).2.2 ⟨z, hz, by rw [of_decide_eq_true hm, Nat.mod_eq_of_lt hlt]⟩
  -- and if no other one passes, the votes are those of the sizes
  have hvotes' : (∀ it ∈ s.targets message, passed s₀ es it.2 = true → matched es it.2 = true) →
      vs.Perm (resultVotes (s.targets message) refusal (matched es)) := by
    intro hback
    refine hvotes.trans (.of_eq (List.map_congr_left fun it hit => ?_))
    rw [Bool.eq_iff_iff.2 ⟨hback it hit, hmatched it hit⟩]
  constructor
  · rintro ⟨r, hreturns, -, -, hcount, hids⟩ it hit z hz hdiff
    rw [hret] at hreturns
    cases List.append_cancel_left hreturns
    have hfalse : matched es it.2 = false := by simp [matched, hz, hdiff]
    have hback := of_countP_eq hmatched (hcount.symm.trans hok)
    refine ⟨(ids_perm_iff (targets_nodup message) hrange (hvotes' hback)).1 hids it hit
      ((hpassed it hit).1.2 (by rw [hz]; rfl)) hfalse, fun hmod => ?_⟩
    rw [hback it hit ((hpassed it hit).2.2 ⟨z, hz, hmod⟩)] at hfalse
    cases hfalse
  · intro hzero
    have hback : ∀ it ∈ s.targets message, passed s₀ es it.2 = true → matched es it.2 = true := by
      intro it hit hp
      obtain ⟨z, hz, hmod⟩ := (hpassed it hit).2.1 hp
      have heq : z.received = z.announced.toNat := by
        by_contra hdiff
        exact (hzero it hit z hz hdiff).2 hmod
      simp [matched, hz, heq]
    refine ⟨_, hret, rfl, ?_, ?_, ?_⟩
    · show (u32 ((Gather.new (s.targets message).length).counts _).num).toNat = _
      rw [Gather.counts_num]
      exact toNat_u32_of_lt hsmall
    · exact hok.trans (List.countP_congr fun it hit => ⟨hback it hit, hmatched it hit⟩)
    · rw [ids_perm_iff (targets_nodup message) hrange (hvotes' hback)]
      intro it hit hrefusal hfalse
      obtain ⟨z, hz⟩ := Option.isSome_iff_exists.1 ((hpassed it hit).1.1 hrefusal)
      refine (hzero it hit z hz fun heq => ?_).1
      simp [matched, hz, heq] at hfalse

def resultAll : Command := { command := .RESULT, sendToAll := true }

/-- The only patch of a result, of one byte, with the size it announces. -/
def resultByte (fileSize : UInt32) : File :=
  { fileType := .RESULT, fileSize, patchLen := 1, firstPatch := true, content := [120], fileName := "result.tar" }

/-- The node with ID 0 sends less than it announces, the other one all. -/
def firstIncomplete : List ServerEvent :=
  [.message 1 (.file (resultByte 5)) {}, .message 1 (.file endFile) {},
    .message 2 (.file (resultByte 1)) {}, .message 2 (.file endFile) {}]

theorem resultReturn_firstIncomplete : ∃ s s₀ t r, Runs step (start "/lkp" 3) twoNodes s ∧
    s.step (.message 9 (.command resultAll) {}) = some s₀ ∧ Runs step s₀ firstIncomplete t ∧
    ResultReturn s t 9 [(0, 1), (1, 2)] (matched firstIncomplete) r := by
  obtain ⟨s, hs, hint, htargets, s₀, hs₀, hopen, hrun⟩ : ∃ s, Runs step (start "/lkp" 3) twoNodes s ∧
      s.clientPool.nodeCount ≤ 2 ^ 31 ∧ s.targets resultAll = [(0, 1), (1, 2)] ∧
      ∃ s₀ ∈ s.step (.message 9 (.command resultAll) {}),
        checkStates step (fun u => u.SessionOpen 9) s₀ firstIncomplete = true ∧
        (runEvents step s₀ firstIncomplete).isSome = true :=
    Runs.exists_of_run (by decide +kernel)
  obtain ⟨t, ht⟩ := Option.isSome_iff_exists.1 hrun
  have hans : (answers firstIncomplete).Perm ((s.targets resultAll).map fun it =>
      (it.2, resultAnswer (fun _ => none) it.1)) := by
    rw [htargets]; exact .refl _
  obtain ⟨r, hr⟩ := (resultReturn_iff hs hint rfl (by rw [htargets]; exact nofun) hs₀ (.of_runEvents ht)
    (.of_checkStates hopen) (by decide) hans (by decide)).2 (by
      rw [htargets]
      intro it hit z hz hdiff
      rcases List.mem_pair.1 hit with rfl | rfl
      · cases hz
        exact ⟨rfl, by decide⟩
      · cases hz
        exact absurd rfl hdiff)
  rw [htargets] at hr
  exact ⟨s, s₀, t, r, hs, hs₀, .of_runEvents ht, hr⟩

def refuseFirst (nodeID : ℤ) : Option String :=
  if nodeID = 0 then some "ERROR 14: No Result File in client" else none

/-- The node with ID 0 has no result file, the other one sends less than it announces. -/
def secondIncomplete : List ServerEvent :=
  [.message 1 (resultAnswer refuseFirst 0) {}, .message 2 (.file (resultByte 5)) {},
    .message 2 (resultAnswer refuseFirst 1) {}]

/-- Both nodes fail, and the Return has one entry, under ID 0. -/
theorem resultReturn_secondIncomplete : ∃ s s₀ t, Runs step (start "/lkp" 3) twoNodes s ∧
    s.step (.message 9 (.command resultAll) {}) = some s₀ ∧ Runs step s₀ secondIncomplete t ∧
    (answers secondIncomplete).Perm ((s.targets resultAll).map fun it =>
      (it.2, resultAnswer refuseFirst it.1)) ∧
    ¬ ∃ r, ResultReturn s t 9 (s.targets resultAll) (matched secondIncomplete) r := by
  obtain ⟨s, hs, htargets, hreturns, s₀, hs₀, t, ht, r₀, -, hr₀, hids⟩ :
      ∃ s, Runs step (start "/lkp" 3) twoNodes s ∧
      s.targets resultAll = [(0, 1), (1, 2)] ∧ s.returns = [] ∧
      ∃ s₀ ∈ s.step (.message 9 (.command resultAll) {}),
        ∃ t ∈ runEvents step s₀ secondIncomplete, ∃ r₀ ∈ t.returns.head?, t.returns = [r₀] ∧
          r₀.2.nodeInfo = [⟨0, "file is not completed"⟩] :=
    Runs.exists_of_run (by decide +kernel)
  refine ⟨s, s₀, t, hs, hs₀, .of_runEvents ht, by rw [htargets]; exact .refl _, ?_⟩
  rintro ⟨r, hr⟩
  have hret := hr.returns
  rw [hr₀, hreturns] at hret
  obtain rfl : r₀ = (9, r) := List.singleton_inj.1 hret
  have hlen := hr.nodeInfo.length_eq
  rw [hids, htargets] at hlen
  revert hlen
  decide

/-- Two complete results of which the second one comes into the first. -/
def overlapping : List ServerEvent :=
  [.message 1 (.file (resultByte 1)) {}, .message 2 (.file { resultByte 3 with patchLen := 3 }) {},
    .message 2 (.file endFile) {}, .message 1 (.file endFile) {}]

/-- Both results have been received whole, and the Return has an entry for the first. -/
theorem resultReturn_overlapping : ∃ s s₀ t r, Runs step (start "/lkp" 3) twoNodes s ∧
    s.step (.message 9 (.command resultAll) {}) = some s₀ ∧ Runs step s₀ overlapping t ∧
    (∀ c ∈ [1, 2], matched overlapping c = true) ∧ t.returns = [(9, r)] ∧
    r.nodeInfo = [⟨0, "file is not completed"⟩] := by
  obtain ⟨s, hs, s₀, hs₀, t, ht, hret⟩ : ∃ s, Runs step (start "/lkp" 3) twoNodes s ∧
      ∃ s₀ ∈ s.step (.message 9 (.command resultAll) {}), ∃ t ∈ runEvents step s₀ overlapping,
        t.returns = [(9, ⟨2, 1, .RESULT, [⟨0, "file is not completed"⟩]⟩)] :=
    Runs.exists_of_run (by decide +kernel)
  exact ⟨s, s₀, t, _, hs, hs₀, .of_runEvents ht, by decide, hret, rfl⟩

end LkpServer

end LkpExtent
