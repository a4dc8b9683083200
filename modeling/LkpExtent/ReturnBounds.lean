/-
  LkpExtent formalization — the Returns made of answers are never inflated or repeated.

  The messages are arbitrary here: answers that nobody asked for, twice the same, of
  nodes that do not exist.

  * `runs_gather`: between two commands the answers are counted, and a Return is sent
    at the completion of the gathering or not at all;
  * `returns_bounded`: a Return counts and lists at most as many nodes as it expects,
    and there is one at most between two commands.
-/
import LkpExtent.Credit

namespace LkpExtent

open Lib

namespace LkpServer
variable {s t : LkpServer} {es : List ServerEvent}

/-- The successes counted and the failures listed are no more than the answers. -/
def NotInflated (s : LkpServer) : Prop := s.clientOKNum + s.clientPool.nodeInfo.size ≤ s.ackTimes

instance : DecidablePred NotInflated := fun _ => inferInstanceAs (Decidable (_ ≤ _))

/-- A Return sent for an answer counts and lists at most as many nodes as it expects. -/
def ReturnsWithin (s : LkpServer) (e : ServerEvent) : Prop :=
  ∀ t, s.step e = some t → (answer? e).isSome = true → ∀ rs, t.returns = s.returns ++ rs →
    ∀ r ∈ rs, r.2.clientOkNum.toNat + r.2.nodeInfo.length ≤ r.2.clientNum.toNat

/-- There are fewer than `2 ^ 31` answers between two commands. -/
def AnswersFit (es : List ServerEvent) : Prop :=
  ∀ seg, seg <:+: es → (∀ e ∈ seg, isCommand e = false) → (answers seg).length < 2 ^ 31

/-! ## Between two commands -/

/-- What an answer does, whoever is connected. -/
theorem step_answer_cases {e : ServerEvent} {a : ConnId × Message} (hs : s.step e = some t)
    (ha : answer? e = some a) : ∃ v, t.tally = s.tally.count v ∧
      (t.returns = s.returns ∨
        t.tally.acks = t.tally.num ∧ ∃ cli, t.returns = s.returns ++ [(cli, retOf t.tally (commandOf a.2))]) := by
  obtain ⟨u, v, hu, hreply⟩ := step_counts hs ha
  obtain ⟨htally, hret⟩ := replyIfComplete_cases hreply
  refine ⟨v, htally.trans hu.tally, ?_⟩
  rw [hu.returns] at hret
  rcases hret with hret | ⟨hlast, cli, hret⟩
  · exact .inl hret
  · rw [htally]
    exact .inr ⟨hlast, cli, hret⟩

/-- **The answers between two commands** are counted, and the Returns sent for them are
    no more than the completions of the gathering. -/
theorem runs_gather (h : Runs step s es t) (hcmd : ∀ e ∈ es, isCommand e = false) :
    ∃ vs rs, t.tally = s.tally.counts vs ∧ vs.length = (answers es).length ∧
      t.returns = s.returns ++ rs ∧ rs.length ≤ (s.tally.completions vs).length := by
  induction h with
  | nil => exact ⟨[], [], rfl, rfl, (List.append_nil _).symm, Nat.zero_le _⟩
  | @snoc es t u e _ he ih =>
    obtain ⟨vs, rs, htally, hvs, hret, hrs⟩ := ih fun e' he' => hcmd e' (by simp [he'])
    cases ha : answer? e with
    | none =>
      have hq := step_quiet he (hcmd e (by simp)) ha
      refine ⟨vs, rs, hq.tally.trans htally, ?_, hq.returns.trans hret, hrs⟩
      rw [answers_snoc, ha, hvs]; simp
    | some a =>
      obtain ⟨v, hv, hsent⟩ := step_answer_cases he ha
      have hcounts : u.tally = s.tally.counts (vs ++ [v]) := by
        rw [hv, htally, Gather.counts_append]; rfl
      have hlen : (vs ++ [v]).length = (answers (es ++ [e])).length := by
        rw [answers_snoc, ha, List.length_append, List.length_append, hvs]; rfl
      rcases hsent with hsame | ⟨hlast, cli, hnew⟩
      · refine ⟨vs ++ [v], rs, hcounts, hlen, hsame.trans hret, hrs.trans ?_⟩
        rw [Gather.completions_append, List.length_append]
        exact Nat.le_add_right _ _
      · refine ⟨vs ++ [v], rs ++ [_], hcounts, hlen, by rw [hnew, hret, List.append_assoc], ?_⟩
        have hcompletes : s.tally.acks + vs.length + 1 = s.tally.num := by
          rw [hcounts, Gather.counts_acks, Gather.counts_num, List.length_append] at hlast
          exact hlast
        rw [Gather.completions_concat, if_pos hcompletes, List.length_append, List.length_append]
        exact Nat.add_le_add_right hrs 1

/-- Where the last command of a run leaves the counters. -/
theorem last_command {num : ℕ} (hs : s.tally = Gather.new num) (h : Runs step s es t) :
    ∃ es₀ seg u num', es = es₀ ++ seg ∧ (∀ e ∈ seg, isCommand e = false) ∧
      u.tally = Gather.new num' ∧ Runs step u seg t := by
  induction h with
  | nil => exact ⟨[], [], s, num, rfl, fun e he => absurd he List.not_mem_nil, hs, .nil⟩
  | @snoc es t v e _ he ih =>
    obtain ⟨es₀, seg, u, num', hes, hseg, hu, hrun⟩ := ih
    cases hc : isCommand e with
    | false =>
      refine ⟨es₀, seg ++ [e], u, num', by rw [hes, List.append_assoc], ?_, hu, hrun.snoc he⟩
      intro e' he'
      rcases List.mem_append.1 he' with he' | he'
      · exact hseg e' he'
      · rw [List.mem_singleton.1 he']; exact hc
    | true =>
      cases e with
      | message c m env =>
        cases m with
        | command m =>
          exact ⟨es ++ [_], [], v, _, (List.append_nil _).symm, fun e he => absurd he List.not_mem_nil,
            tally_onCommandMsg (step_eq_some.1 he).2, .nil⟩
        | _ => cases hc
      | _ => cases hc

/-! ## After the first command -/

theorem bounded_counts {num : ℕ} (vs : List (Vote ℤ String)) :
    ((Gather.new num : Gather ℤ String).counts vs).Bounded := by
  induction vs using List.reverseRecOn with
  | nil => exact Gather.bounded_new num
  | append_singleton vs v ih => rw [Gather.counts_append]; exact ih.count v

/-- A Return made of bounded counters, none of which leaves its range. -/
theorem retOf_within {g : Gather ℤ String} (h : g.Bounded) (hlast : g.acks = g.num) (hfit : g.num < 2 ^ 31)
    (command : CommandID) :
    (retOf g command).clientOkNum.toNat + (retOf g command).nodeInfo.length ≤
      (retOf g command).clientNum.toNat := by
  unfold Gather.Bounded at h
  show (u32 g.ok).toNat + (g.info.toList.map _).length ≤ (u32 g.num).toNat
  rw [toNat_u32_of_lt (by omega), toNat_u32_of_lt (by omega), List.length_map, Std.TreeMap.length_toList]
  omega

/-- **The Returns are never inflated or repeated.**  After a command has been accepted,
    in whatever state: the successes counted and the failures listed are no more than
    the answers, and so are those of a Return no more than it expects; between two
    commands there is one Return at most. -/
theorem returns_bounded {c : ConnId} {m : Command} {env : Env}
    (h : s.step (.message c (.command m) env) = some t) (hfit : AnswersFit es) :
    EachState step t es NotInflated ∧ EachStep step t es ReturnsWithin ∧
    ∀ es₁ seg es₂ u v, es = es₁ ++ seg ++ es₂ → (∀ e ∈ seg, isCommand e = false) →
      Runs step t es₁ u → Runs step u seg v → ∃ rs, v.returns = u.returns ++ rs ∧ rs.length ≤ 1 := by
  have hnew := tally_onCommandMsg (step_eq_some.1 h).2
  -- the counters in a state of the run, and how many answers they stand for
  have htally : ∀ {es₁ u}, Runs step t es₁ u → ∃ es₀ seg num' vs, es₁ = es₀ ++ seg ∧
      (∀ e ∈ seg, isCommand e = false) ∧ vs.length = (answers seg).length ∧
      u.tally = (Gather.new num').counts vs := by
    intro es₁ u hu
    obtain ⟨es₀, seg, w, num', hes, hseg, hw, hrun⟩ := last_command hnew hu
    obtain ⟨vs, -, hvs, hlen, -, -⟩ := runs_gather hrun hseg
    exact ⟨es₀, seg, num', vs, hes, hseg, hlen, by rw [hvs, hw]⟩
  refine ⟨?_, ?_, ?_⟩
  · intro es₁ es₂ u _ hu
    obtain ⟨_, _, _, vs, _, _, _, hut⟩ := htally hu
    have hbounded : u.tally.Bounded := hut ▸ bounded_counts vs
    exact hbounded
  · intro es₁ e es₂ u hes hu v hv hsome rs hrs
    obtain ⟨a, ha⟩ := Option.isSome_iff_exists.1 hsome
    obtain ⟨es₀, seg, num', vs, hes₁, hseg, hlen, hut⟩ := htally hu
    obtain ⟨vote, hcount, hsame | ⟨hlast, cli, hnewret⟩⟩ := step_answer_cases hv ha
    · rw [hsame, List.self_eq_append_right] at hrs
      subst hrs
      exact fun r hr => absurd hr List.not_mem_nil
    · rw [hnewret, List.append_cancel_left_eq] at hrs
      subst hrs
      intro r hr
      rw [List.mem_singleton.1 hr]
      have hbounded : u.tally.Bounded := hut ▸ bounded_counts vs
      have hseg' : ∀ e' ∈ seg ++ [e], isCommand e' = false := by
        intro e' he'
        rcases List.mem_append.1 he' with he' | he'
        · exact hseg e' he'
        · obtain ⟨env', he⟩ := eq_message_of_answer ha
          rw [List.mem_singleton.1 he']
          obtain ⟨d, m'⟩ := a
          subst he
          cases m' with
          | command m' => cases ha
          | _ => rfl
      have hlt := hfit (seg ++ [e]) ⟨es₀, es₂, by rw [hes, hes₁]; simp⟩ hseg'
      rw [answers_snoc, ha, List.length_append, ← hlen] at hlt
      have hacks : v.tally.acks = vs.length + 1 := by
        rw [hcount, Gather.count_acks, hut, Gather.counts_acks, Gather.new_acks, Nat.zero_add]
      refine retOf_within (hcount ▸ hbounded.count vote) hlast ?_ _
      rw [← hlast, hacks]
      exact hlt
  · intro es₁ seg es₂ u v _ hseg _ hv
    obtain ⟨vs, rs, -, -, hret, hrs⟩ := runs_gather hv hseg
    refine ⟨rs, hret, hrs.trans ((Gather.length_completions_le vs).trans ?_)⟩
    split_ifs <;> omega

theorem answersFit_of_length (h : es.length < 2 ^ 31) : AnswersFit es := by
  intro seg hseg _
  exact (List.length_filterMap_le _ _).trans_lt (hseg.length_le.trans_lt h)

/-- An UPDATE to two nodes, that the first of them answers three times, once with an ID
    that no node has. -/
theorem returns_bounded_twice :
    let again := [.message 1 (okACK .UPDATE 0) {}, .message 1 (okACK .UPDATE 0) {},
      .message 1 (okACK .UPDATE 7) {}]
    ∃ t u, Runs step (start "/lkp" 3) (updateTagged.map Tagged.event) t ∧ Runs step t again u ∧
      EachState step t again NotInflated ∧ ∃ r, u.returns = t.returns ++ [(9, r)] ∧
        r.clientOkNum.toNat + r.nodeInfo.length ≤ r.clientNum.toNat := by
  intro again
  obtain ⟨s, hs, t, ht, hret, u, hu, huret⟩ : ∃ s, Runs step (start "/lkp" 3)
      [.up 1 "10.0.0.1", .up 2 "10.0.0.2", .up 9 "127.0.0.1"] s ∧
      ∃ t ∈ s.step (.message 9 (.command { command := .UPDATE, sendToAll := true }) {}), t.returns = [] ∧
        ∃ u ∈ runEvents step t again, u.returns = [(9, { clientNum := 2, clientOkNum := 2, command := .UPDATE })] :=
    Runs.exists_of_run (by decide +kernel)
  have hfit : AnswersFit again := answersFit_of_length (by decide)
  obtain ⟨hstates, -, -⟩ := returns_bounded ht hfit
  exact ⟨t, u, hs.snoc ht, .of_runEvents hu, hstates, _, by rw [huret, hret]; rfl, by decide +kernel⟩

end LkpServer

end LkpExtent
