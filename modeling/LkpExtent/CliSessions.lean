/-
  LkpExtent formalization — the sessions of the command lines.

  `onConnection` takes every connection from the local host for the only command line,
  and the flag `hasCmdConnected_` for the session.

  * `CliTrace`: what the events say of the last command, and of its CLI;
  * `returns_answer`, `returns_command`: who gets a Return;
  * `exclusive_iff`: the sessions exclude each other iff no CLI connects and no worker
    goes down during one, and no CLI goes down between its command and the last answer
    to it if another one is connected by then.
-/
import LkpExtent.Commands
import LkpExtent.Membership
import LkpExtent.Outbox

namespace LkpExtent

open Lib

/-- An event with the CLI connection whose command it answers, if it is an answer. -/
structure Asked where
  event : ServerEvent
  cli : ConnId := 0

namespace LkpServer
variable {s t : LkpServer} {e : ServerEvent}

/-- The last command: the connection that sent it, how many answers it waits for, and how
    many answers have been handled since. -/
structure CliTrace where
  cli : Option ConnId := none
  awaited : ℕ := 0
  handled : ℕ := 0

/-- The trace after an event. -/
def traceAfter (s : LkpServer) (e : ServerEvent) (g : CliTrace) : CliTrace :=
  match e with
  | .message c (.command m) _ => ⟨some c, s.awaited m, 0⟩
  | e => if (answer? e).isSome then { g with handled := g.handled + 1 } else g

/-- A step of the server, with the trace. -/
def cliStep (x : LkpServer × CliTrace) (a : Asked) : Option (LkpServer × CliTrace) :=
  (x.1.step a.event).map fun t => (t, traceAfter x.1 a.event x.2)

/-! ## What the sessions should be -/

/-- The connection is registered and a CLI that is up. -/
def IsSession (s : LkpServer) (d : ConnId) : Prop :=
  s.CmdConnection = some d ∧ (s.conns d).isUp = true ∧ (s.conns d).peerIp = "127.0.0.1"

/-- `hasCmdConnected_` is true exactly when `CmdConnection_` is a CLI that is up. -/
def FlagExact (s : LkpServer) : Prop := s.hasCmdConnected = true ↔ ∃ d, s.IsSession d

/-- A second CLI is shut down, and the session is left as it is. -/
def SecondRefused (s : LkpServer) (e : ServerEvent) : Prop :=
  ∀ t c d, s.step e = some t → e = .up c "127.0.0.1" → s.IsSession d →
    (t.conns c).state = .kDisconnecting ∧ t.conns d = s.conns d ∧ t.CmdConnection = some d ∧
      t.hasCmdConnected = true

/-- A Return goes to the connection that sent the last command; if it is sent for an
    answer, this is one to a command of that connection. -/
def ReturnsToSender (x : LkpServer × CliTrace) (a : Asked) : Prop :=
  ∀ y, cliStep x a = some y → ∀ rs, y.1.returns = x.1.returns ++ rs →
    ∀ r ∈ rs, y.2.cli = some r.1 ∧ ((answer? a.event).isSome = true → a.cli = r.1)

/-- The connection that a command comes from. -/
def commander : ServerEvent → Option ConnId
  | .message c (.command _) _ => some c
  | _ => none

/-- Commands come from the local host, and those answered have come from there. -/
def FromCLI (s : LkpServer) (a : Asked) : Prop :=
  (∀ c ∈ commander a.event, (s.conns c).peerIp = "127.0.0.1") ∧
    ((answer? a.event).isSome = true → (s.conns a.cli).peerIp = "127.0.0.1")

instance (s : LkpServer) (a : Asked) : Decidable (FromCLI s a) :=
  inferInstanceAs (Decidable ((∀ c ∈ commander a.event, _) ∧ _))

/-- No CLI connects and no worker goes down during a session; and if a CLI is connected
    when the last answer awaited is handled, the CLI of the last command has not gone
    down, nor has the one whose command is answered. -/
def Exclusive (x : LkpServer × CliTrace) (a : Asked) : Prop :=
  NoIntrusion x.1 a.event ∧
    ((answer? a.event).isSome = true → x.2.handled + 1 = x.2.awaited →
      (∃ d ∈ x.1.CmdConnection, (x.1.conns d).connected = true) →
      (∃ c ∈ x.2.cli, (x.1.conns c).isUp = true) ∧ (x.1.conns a.cli).isUp = true)

instance (x : LkpServer × CliTrace) (a : Asked) : Decidable (Exclusive x a) :=
  inferInstanceAs (Decidable (_ ∧ (_ → _ → (∃ d ∈ x.1.CmdConnection, _) → (∃ c ∈ x.2.cli, _) ∧ _)))

/-! ## Who gets a Return -/

theorem returns_sendToCmdClient {r : Return} (h : s.sendToCmdClient (.ret r) = .ok t) :
    (t.returns = s.returns ∧ ∀ d, ¬ s.SessionOpen d) ∨
      ∃ d, s.SessionOpen d ∧ t.returns = s.returns ++ [(d, r)] := by
  simp only [sendToCmdClient] at h
  split at h
  · rename_i d hd
    cases h
    split_ifs with hc
    · exact .inr ⟨d, ⟨hd, hc⟩, returns_send_ret d r⟩
    · refine .inl ⟨rfl, ?_⟩
      rintro d' ⟨hd', hc'⟩
      cases hd.symm.trans hd'
      exact hc hc'
  · cases h

/-- **An answer sends a Return** iff it is the last one awaited and a session is open,
    and the Return goes to this session. -/
theorem returns_answer {a : ConnId × Message} (hs : s.step e = some t) (ha : answer? e = some a) :
    (t.returns = s.returns ∧ (s.ackTimes + 1 = s.clientNum → ∀ d, ¬ s.SessionOpen d)) ∨
      (s.ackTimes + 1 = s.clientNum ∧ ∃ d r, s.SessionOpen d ∧ t.returns = s.returns ++ [(d, r)]) := by
  obtain ⟨u, v, hu, hreply⟩ := step_counts hs ha
  have hopen : ∀ d, u.SessionOpen d ↔ s.SessionOpen d := by
    intro d
    simp only [SessionOpen, hu.cmd, hu.conns]
  have hacks : u.ackTimes = s.ackTimes + 1 := by
    have := congrArg Gather.acks hu.tally
    rwa [Gather.count_acks] at this
  have hnum : u.clientNum = s.clientNum := by
    have := congrArg Gather.num hu.tally
    rwa [Gather.count_num] at this
  simp only [replyIfComplete, hacks, hnum] at hreply
  split_ifs at hreply with hlast
  · rcases returns_sendToCmdClient hreply with ⟨hsame, hnone⟩ | ⟨d, hd, hnew⟩
    · refine .inl ⟨hsame.trans hu.returns, fun _ d hd => hnone d ((hopen d).2 hd)⟩
    · exact .inr ⟨hlast, d, _, (hopen d).1 hd, by rw [hnew, hu.returns]⟩
  · cases hreply
    exact .inl ⟨hu.returns, fun h => absurd h hlast⟩

theorem returns_of_posts {P : Message → Prop} (h : Posts P s t) (hP : ∀ r, ¬ P (.ret r)) :
    t.returns = s.returns := by
  obtain ⟨ms, hsent, hms⟩ := h
  have hnone : { s with sent := ms }.returns = [] := by
    rw [returns, List.filterMap_eq_nil_iff]
    rintro ⟨c, m⟩ hm
    cases m with
    | ret r => exact absurd (hms _ hm) (hP r)
    | _ => rfl
  calc t.returns = s.returns ++ { s with sent := ms }.returns := by
        rw [returns, hsent, List.filterMap_append]; rfl
    _ = s.returns := by rw [hnone, List.append_nil]

/-- **A command sends a Return** to the open session, if it sends one. -/
theorem returns_command {c : ConnId} {m : Command} {env : Env}
    (hs : s.step (.message c (.command m) env) = some t) :
    t.returns = s.returns ∨ ∃ d r, s.SessionOpen d ∧ t.returns = s.returns ++ [(d, r)] := by
  have h : s.onCommandMsg m env = .ok t := (step_eq_some.1 hs).2
  by_cases hlist : m.command = .LIST
  · simp only [onCommandMsg, hlist] at h
    rcases returns_sendToCmdClient h with ⟨hsame, -⟩ | ⟨d, hd, hnew⟩
    · exact .inl hsame
    · exact .inr ⟨d, _, hd, hnew⟩
  · refine .inl (returns_of_posts (posts_onCommandMsg (c := c) h) ?_)
    rintro r (⟨a, ha, -⟩ | ⟨c', m', env', he, hm', -⟩)
    · cases ha
    · cases he
      exact hlist hm'

/-! ## What the second CLI does -/

/-- The handler shuts the session down, not the second CLI. -/
theorem conns_secondCli {c d : ConnId} (hs : s.step (.up c "127.0.0.1") = some t)
    (hf : s.hasCmdConnected = true) (hd : s.CmdConnection = some d) (hne : c ≠ d) :
    (t.conns c).state = .kConnected ∧ t.conns d = (s.conns d).shutdown := by
  have h := (step_eq_some.1 hs).2
  simp only [handle] at h
  generalize hu : s.setConn c { s.conns c with state := .kConnected, peerIp := "127.0.0.1" } = u at h
  have huc : u.conns c = { s.conns c with state := .kConnected, peerIp := "127.0.0.1" } := by
    rw [← hu, setConn_conns]
  have hud : u.conns d = s.conns d := by rw [← hu, setConn_conns_of_ne hne.symm]
  have huf : u.hasCmdConnected = true := by rw [← hu]; exact hf
  have hucmd : u.CmdConnection = some d := by rw [← hu]; exact hd
  simp only [onConnection] at h
  rw [if_pos (by rw [huc]; rfl), if_pos (by rw [huc]), if_neg (by rw [huf]; decide), hucmd] at h
  cases h
  refine ⟨?_, ?_⟩
  · rw [setConn_conns_of_ne hne, huc]
  · rw [setConn_conns, hud]

/-! ## Exclusive sessions -/

theorem isSession_iff (s : LkpServer) (d : ConnId) : s.IsSession d ↔
    s.members.cmd = some d ∧ s.members.phase d = .up ∧ s.members.peerIp d = "127.0.0.1" := by
  simp only [IsSession, isUp_iff]
  rfl

theorem OneSession.flagExact (h : OneSession s.members) : FlagExact s := by
  simp only [FlagExact, isSession_iff]
  constructor
  · intro hf
    obtain ⟨d, hd⟩ := h.registered hf
    exact ⟨d, hd⟩
  · rintro ⟨d, -, hup, hlocal⟩
    exact (h.only d hup hlocal).1

/-- A step that treats the sessions as it should is no intrusion. -/
theorem noIntrusion_of_sessions (h : OneSession s.members) (hs : s.step e = some t) (hflag : FlagExact t)
    (hsecond : SecondRefused s e) : NoIntrusion s e := by
  cases step_move hs with
  | @cliRefused c _ hw hf hm =>
    -- the handler leaves the second CLI connected
    obtain ⟨d, hd, hup, hlocal⟩ := h.registered hf
    have hne : c ≠ d := by
      rintro rfl
      rw [hw] at hup; cases hup
    have hrefused := (hsecond t c d hs rfl ((isSession_iff s d).2 ⟨hd, hup, hlocal⟩)).1
    rw [(conns_secondCli hs hf hd hne).1] at hrefused
    cases hrefused
  | @sessionDown c _ _ hf hm =>
    intro hip
    -- the flag is cleared, and the CLI is still up
    obtain ⟨d, hd, hup, hlocal⟩ := h.registered hf
    have hne : d ≠ c := by
      rintro rfl
      exact hip hlocal
    have hsession : t.IsSession d := by
      rw [isSession_iff, hm]
      exact ⟨hd, (Members.disconnect_phase_of_ne hne).trans hup, hlocal⟩
    have htrue : t.members.flag = true := hflag.2 ⟨d, hsession⟩
    rw [hm] at htrue
    cases htrue
  | cliUp _ hf _ => exact fun _ => hf
  | workerUp _ hip _ _ => exact fun hlocal => absurd hlocal hip
  | workerDown _ hf _ _ _ => exact fun _ => hf
  | quiet hu hd _ _ =>
    cases e with
    | up c ip => exact absurd rfl (hu c ip)
    | down c => exact absurd rfl (hd c)
    | _ => trivial
  | heartBeat _ _ _ _ _ => trivial
  | timer _ _ => trivial

theorem secondRefused_of_noIntrusion (h : OneSession s.members) (hQ : NoIntrusion s e) : SecondRefused s e := by
  rintro t c d - rfl hd
  obtain ⟨-, hup, hlocal⟩ := (isSession_iff s d).1 hd
  have := (h.only d hup hlocal).1
  rw [show s.members.flag = false from hQ rfl] at this
  cases this

/-- The Returns that a step sends are those by which the log grows. -/
theorem returnsToSender_iff_of_returns {x y : LkpServer × CliTrace} {a : Asked} {new : List (ConnId × Return)}
    (hs : cliStep x a = some y) (hnew : y.1.returns = x.1.returns ++ new) :
    ReturnsToSender x a ↔ ∀ r ∈ new, y.2.cli = some r.1 ∧ ((answer? a.event).isSome = true → a.cli = r.1) := by
  constructor
  · exact fun h => h y hs new hnew
  · intro h z hz rs hrs
    rw [hs] at hz
    cases hz
    rw [hnew, List.append_cancel_left_eq] at hrs
    rwa [← hrs]

/-- One session, and a trace that fits it. -/
structure Traced (x : LkpServer × CliTrace) : Prop extends OneSession x.1.members where
  cli : ∀ c ∈ x.2.cli, x.1.Local c
  awaited : x.1.clientNum = x.2.awaited
  handled : x.1.ackTimes = x.2.handled

theorem traced_start (root : String) (serverTimeControl : ℕ) : Traced (start root serverTimeControl, {}) where
  toOneSession := (sessions_start root serverTimeControl).oneSession
  cli := nofun
  awaited := rfl
  handled := rfl

/-- A CLI that is up is the session. -/
theorem Traced.session {x : LkpServer × CliTrace} (h : Traced x) {c : ConnId} (hup : (x.1.conns c).isUp = true)
    (hlocal : (x.1.conns c).peerIp = "127.0.0.1") : x.1.CmdConnection = some c :=
  (h.only c ((isUp_iff _).1 hup) hlocal).2

theorem traceAfter_answer {g : CliTrace} {a : ConnId × Message} (ha : answer? e = some a) :
    traceAfter s e g = { g with handled := g.handled + 1 } := by
  obtain ⟨c, m⟩ := a
  obtain ⟨env, rfl⟩ := eq_message_of_answer ha
  cases m with
  | command m => cases ha
  | _ => simp only [traceAfter, ha, Option.isSome_some, if_true]

theorem traceAfter_quiet {g : CliTrace} (hc : isCommand e = false) (ha : answer? e = none) :
    traceAfter s e g = g := by
  cases e with
  | message c m env =>
    cases m with
    | command m => cases hc
    | _ => simp [traceAfter, ha]
  | _ => rfl

theorem Traced.step {x y : LkpServer × CliTrace} {a : Asked} (h : Traced x) (hcli : FromCLI x.1 a)
    (hQ : NoIntrusion x.1 a.event) (hs : cliStep x a = some y) : Traced y := by
  obtain ⟨t, ht, rfl⟩ := Option.map_eq_some_iff.1 hs
  have hone := h.toOneSession.step hQ ht
  have hlocal : ∀ c ∈ x.2.cli, t.Local c := fun c hc => (h.cli c hc).step ht
  cases ha : answer? a.event with
  | some am =>
    obtain ⟨u, v, hu, hreply⟩ := step_counts ht ha
    have htally : t.tally = x.1.tally.count v := (tally_replyIfComplete hreply).trans hu.tally
    rw [traceAfter_answer ha]
    refine ⟨hone, hlocal, ?_, ?_⟩
    · have hnum := congrArg Gather.num htally
      rw [Gather.count_num] at hnum
      exact hnum.trans h.awaited
    · have hacks := congrArg Gather.acks htally
      rw [Gather.count_acks] at hacks
      exact hacks.trans (congrArg (· + 1) h.handled)
  | none =>
    cases hc : isCommand a.event with
    | false =>
      have htally := (step_quiet ht hc ha).tally
      rw [traceAfter_quiet hc ha]
      exact ⟨hone, hlocal, (congrArg Gather.num htally).trans h.awaited, (congrArg Gather.acks htally).trans h.handled⟩
    | true =>
      obtain ⟨event, cli⟩ := a
      cases event with
      | message c m env =>
        cases m with
        | command m =>
          have hup : x.1.members.phase c = .up := (isUp_iff _).1 (step_eq_some.1 ht).1
          have htally := tally_onCommandMsg (step_eq_some.1 ht).2
          refine ⟨hone, ?_, congrArg Gather.num htally, congrArg Gather.acks htally⟩
          rintro c' ⟨⟩
          exact Local.step ⟨by rw [hup]; exact nofun, hcli.1 c rfl⟩ ht
        | _ => cases hc
      | _ => cases hc

/-- Who gets the Returns of a step. -/
theorem returnsToSender_iff {x y : LkpServer × CliTrace} {a : Asked} (h : Traced x) (hcli : FromCLI x.1 a)
    (hs : cliStep x a = some y) :
    ReturnsToSender x a ↔ ((answer? a.event).isSome = true → x.2.handled + 1 = x.2.awaited →
      (∃ d ∈ x.1.CmdConnection, (x.1.conns d).connected = true) →
      (∃ c ∈ x.2.cli, (x.1.conns c).isUp = true) ∧ (x.1.conns a.cli).isUp = true) := by
  obtain ⟨t, ht, rfl⟩ := Option.map_eq_some_iff.1 hs
  have hno : t.returns = x.1.returns → ReturnsToSender x a := by
    intro hsame
    rw [returnsToSender_iff_of_returns hs (hsame.trans (List.append_nil _).symm)]
    exact fun r hr => by cases hr
  cases ha : answer? a.event with
  | some am =>
    have hsame : (traceAfter x.1 a.event x.2).cli = x.2.cli := by rw [traceAfter_answer ha]
    rw [← h.handled, ← h.awaited]
    rcases returns_answer ht ha with ⟨hnone, hclosed⟩ | ⟨hlast, d, r, hd, hnew⟩
    · refine iff_of_true (hno hnone) fun _ hlast => ?_
      rintro ⟨d, hd, hc⟩
      exact absurd ⟨hd, hc⟩ (hclosed hlast d)
    · have hup : (x.1.conns d).isUp = true := (x.1.conns d).isUp_of_connected hd.2
      rw [returnsToSender_iff_of_returns hs hnew, List.forall_mem_singleton, hsame]
      constructor
      · rintro ⟨hsender, hown⟩ - - -
        exact ⟨⟨d, hsender, hup⟩, (hown (by rw [ha]; rfl)).symm ▸ hup⟩
      · intro hQ
        -- a CLI that has not gone down is the session
        obtain ⟨⟨c, hc, hcup⟩, haup⟩ := hQ rfl hlast ⟨d, hd.1, hd.2⟩
        have hcd := h.session hcup (h.cli c hc).2
        have had := h.session haup (hcli.2 (by rw [ha]; rfl))
        rw [hd.1] at hcd had
        cases hcd
        exact ⟨hc, fun _ => (Option.some.inj had).symm⟩
  | none =>
    refine iff_of_true ?_ (fun h => by cases h)
    cases hc : isCommand a.event with
    | false => exact hno (step_quiet ht hc ha).returns
    | true =>
      obtain ⟨event, cli⟩ := a
      cases event with
      | message c m env =>
        cases m with
        | command m =>
          rcases returns_command ht with hsame | ⟨d, r, hd, hnew⟩
          · exact hno hsame
          · -- the sender is up and from the local host, so it is the session
            rw [returnsToSender_iff_of_returns hs hnew, List.forall_mem_singleton]
            have hsession := h.session (step_eq_some.1 ht).1 (hcli.1 c rfl)
            cases hd.1.symm.trans hsession
            exact ⟨rfl, fun h => by cases h⟩
        | _ => cases hc
      | _ => cases hc

theorem exclusive_step {x y : LkpServer × CliTrace} {a : Asked} (h : Traced x) (hcli : FromCLI x.1 a)
    (hs : LkpServer.cliStep x a = some y) :
    ((∀ z, LkpServer.cliStep x a = some z → FlagExact z.1) ∧ SecondRefused x.1 a.event ∧
      ReturnsToSender x a) ↔ Exclusive x a := by
  have hreturns := returnsToSender_iff h hcli hs
  obtain ⟨t, ht, hy⟩ := Option.map_eq_some_iff.1 hs
  constructor
  · rintro ⟨hflag, hsecond, hret⟩
    refine ⟨noIntrusion_of_sessions h.toOneSession ht ?_ hsecond, hreturns.1 hret⟩
    have := hflag y hs
    rwa [← hy] at this
  · rintro ⟨hQ, hret⟩
    refine ⟨?_, secondRefused_of_noIntrusion h.toOneSession hQ, hreturns.2 hret⟩
    intro z hz
    exact (h.step hcli hQ hz).flagExact

/-- **The CLI sessions are exclusive** in a run iff it meets `Exclusive` at every step. -/
theorem exclusive_iff {root : String} {serverTimeControl : ℕ} {as : List Asked} {y : LkpServer × CliTrace}
    (h : Runs cliStep (start root serverTimeControl, {}) as y)
    (hcli : EachStep cliStep (start root serverTimeControl, {}) as fun x a => FromCLI x.1 a) :
    (EachState cliStep (start root serverTimeControl, {}) as (fun x => FlagExact x.1) ∧
      EachStep cliStep (start root serverTimeControl, {}) as fun x a =>
        SecondRefused x.1 a.event ∧ ReturnsToSender x a) ↔
      EachStep cliStep (start root serverTimeControl, {}) as Exclusive := by
  have hstart := traced_start root serverTimeControl
  rw [← h.eachStep_iff (I := Traced) (H := fun x a => FromCLI x.1 a) hstart hcli
    (fun u a v hu hc hP hv => hu.step hc ((exclusive_step hu hc hv).1 hP).1 hv)
    (fun u a v hu hc hv => exclusive_step hu hc hv), eachState_iff_eachStep]
  constructor
  · rintro ⟨⟨-, hflag⟩, hstep⟩
    exact hflag.and hstep
  · intro hP
    exact ⟨⟨hstart.flagExact, hP.imp fun _ _ h => h.1⟩, hP.imp fun _ _ h => h.2⟩

/-- A RUN of one session and a LIST of the next. -/
def twoSessions : List Asked :=
  [⟨.up 1 "10.0.0.1", 0⟩, ⟨.up 9 "127.0.0.1", 0⟩,
    ⟨.message 9 (.command { command := .RUN, sendToAll := true }) {}, 0⟩,
    ⟨.message 1 (.commandACK { command := .RUN, status := true }) {}, 9⟩, ⟨.down 9, 0⟩,
    ⟨.up 8 "127.0.0.1", 0⟩, ⟨.message 8 (.command { command := .LIST }) {}, 0⟩, ⟨.down 8, 0⟩, ⟨.down 1, 0⟩]

theorem exclusive_twoSessions :
    EachState cliStep (start "/lkp" 3, {}) twoSessions (fun x => FlagExact x.1) ∧
      EachStep cliStep (start "/lkp" 3, {}) twoSessions fun x a =>
        SecondRefused x.1 a.event ∧ ReturnsToSender x a := by
  obtain ⟨y, hy, -⟩ : ∃ y, Runs cliStep (start "/lkp" 3, {}) twoSessions y ∧ y.1.returns.map Prod.fst = [9, 8] :=
    Runs.exists_of_run (by decide +kernel)
  exact (exclusive_iff hy (.of_checkSteps (by decide +kernel))).2 (.of_checkSteps (by decide +kernel))

/-- The second CLI stays connected; a worker goes down, and the CLI is taken for gone;
    and a CLI gets the Return of the RUN that another one sent before. -/
theorem exclusive_broken :
    (¬ ∀ (root : String) (n : ℕ) (as : List Asked) (y : LkpServer × CliTrace),
      Runs cliStep (start root n, {}) as y →
      EachStep cliStep (start root n, {}) as (fun x a => FromCLI x.1 a) →
      EachStep cliStep (start root n, {}) as fun x a => SecondRefused x.1 a.event) ∧
    (¬ ∀ (root : String) (n : ℕ) (as : List Asked) (y : LkpServer × CliTrace),
      Runs cliStep (start root n, {}) as y →
      EachStep cliStep (start root n, {}) as (fun x a => FromCLI x.1 a) →
      EachState cliStep (start root n, {}) as fun x => FlagExact x.1) ∧
    ¬ ∀ (root : String) (n : ℕ) (as : List Asked) (y : LkpServer × CliTrace),
      Runs cliStep (start root n, {}) as y →
      EachStep cliStep (start root n, {}) as (fun x a => FromCLI x.1 a) →
      EachStep cliStep (start root n, {}) as ReturnsToSender := by
  refine ⟨?_, ?_, ?_⟩
  · intro h
    obtain ⟨x, hx, hcmd, hup, hip, y, hy, hc⟩ : ∃ x, Runs cliStep (start "/lkp" 3, {}) [⟨.up 8 "127.0.0.1", 0⟩] x ∧
        x.1.CmdConnection = some 8 ∧ (x.1.conns 8).isUp = true ∧ (x.1.conns 8).peerIp = "127.0.0.1" ∧
        ∃ y ∈ cliStep x ⟨.up 9 "127.0.0.1", 0⟩, (y.1.conns 9).state = .kConnected :=
      Runs.exists_of_run (by decide +kernel)
    obtain ⟨t, ht, rfl⟩ := Option.map_eq_some_iff.1 hy
    have hrefused := h "/lkp" 3 _ _ (hx.snoc hy) (.of_checkSteps (by decide +kernel)) _ ⟨.up 9 "127.0.0.1", 0⟩ []
      x rfl hx t 9 8 ht rfl ⟨hcmd, hup, hip⟩
    rw [hc] at hrefused
    cases hrefused.1
  · intro h
    obtain ⟨y, hy, hf, hcmd, hup, hip⟩ : ∃ y, Runs cliStep (start "/lkp" 3, {})
        [⟨.up 1 "10.0.0.1", 0⟩, ⟨.up 8 "127.0.0.1", 0⟩, ⟨.down 1, 0⟩] y ∧ y.1.hasCmdConnected = false ∧
        y.1.CmdConnection = some 8 ∧ (y.1.conns 8).isUp = true ∧ (y.1.conns 8).peerIp = "127.0.0.1" :=
      Runs.exists_of_run (by decide +kernel)
    have hflag := h "/lkp" 3 _ _ hy (.of_checkSteps (by decide +kernel)) _ [] y (List.append_nil _).symm hy
    rw [hflag.2 ⟨8, hcmd, hup, hip⟩] at hf
    cases hf
  · intro h
    let before : List Asked := [⟨.up 1 "10.0.0.1", 0⟩, ⟨.up 9 "127.0.0.1", 0⟩,
      ⟨.message 9 (.command { command := .RUN, sendToAll := true }) {}, 0⟩, ⟨.down 9, 0⟩, ⟨.up 8 "127.0.0.1", 0⟩]
    let answer : Asked := ⟨.message 1 (.commandACK { command := .RUN, status := true }) {}, 9⟩
    obtain ⟨x, hx, hno, y, hy, hret⟩ : ∃ x, Runs cliStep (start "/lkp" 3, {}) before x ∧ x.1.returns = [] ∧
        ∃ y ∈ cliStep x answer, y.1.returns = [(8, ⟨1, 1, .RUN, []⟩)] :=
      Runs.exists_of_run (by decide +kernel)
    obtain ⟨-, hown⟩ := h "/lkp" 3 (before ++ [answer]) _ (hx.snoc hy) (.of_checkSteps (by decide +kernel)) _ answer []
      x rfl hx y hy _ (by rw [hno, hret]; rfl) _ List.mem_cons_self
    exact absurd (hown rfl) (by decide)

end LkpServer

end LkpExtent
