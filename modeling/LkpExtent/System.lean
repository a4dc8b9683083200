/-
  LkpExtent formalization — the server, its nodes, and the messages between them.

  A node is a client and its connection to the server.  Messages arrive in the order
  in which they were sent on a connection, and at any later time.  The commands of the
  CLI come from outside.

  * `System.step`: one handler of the server or of one node runs;
  * `step_moves`: what a step is to the server;
  * `anonymous_step`: no `File` message on the way to the server names its node.
-/
import LkpExtent.ClientSteps
import LkpExtent.Received

namespace LkpExtent

open Lib

structure System where
  server : LkpServer
  node : ConnId → LkpClient
  /-- the messages on the way from a node, the oldest first -/
  toServer : ConnId → List Message := fun _ => []
  /-- the messages on the way to a node -/
  toNode : ConnId → List Message := fun _ => []

inductive SystemEvent where
  /-- an event of the server other than a message -/
  | server (e : ServerEvent)
  /-- a command from a CLI session -/
  | command (conn : ConnId) (m : Command) (env : Env)
  /-- the oldest message from a node arrives -/
  | deliver (conn : ConnId) (env : Env)
  /-- an event of a node other than a message -/
  | node (conn : ConnId) (e : ClientEvent)
  /-- the oldest message to a node arrives -/
  | receive (conn : ConnId) (env : ClientEnv)

def ServerEvent.isMessage : ServerEvent → Bool
  | .message _ _ _ => true
  | _ => false

def ClientEvent.isMessage : ClientEvent → Bool
  | .message _ _ => true
  | _ => false

namespace System
variable (x : System)

/-- The server handles an event, and what it sends is on its way. -/
def serverStep (e : ServerEvent) : Option System :=
  (x.server.step e).map fun t => { x with
    server := t
    toNode := fun c => x.toNode c ++
      ((t.sent.drop x.server.sent.length).filter fun it => it.1 = c).map Prod.snd }

/-- A node handles an event, and what it sends is on its way. -/
def nodeStep (conn : ConnId) (e : ClientEvent) : Option System :=
  ((x.node conn).step e).map fun d => { x with
    node := Function.update x.node conn d
    toServer := Function.update x.toServer conn
      (x.toServer conn ++ d.sent.drop (x.node conn).sent.length) }

def step : SystemEvent → Option System
  | .server e => if e.isMessage then none else x.serverStep e
  | .command conn m env =>
    if (x.server.conns conn).peerIp = "127.0.0.1" then x.serverStep (.message conn (.command m) env)
    else none
  | .deliver conn env =>
    match x.toServer conn with
    | [] => none
    | m :: rest =>
      { x with toServer := Function.update x.toServer conn rest }.serverStep (.message conn m env)
  | .node conn e => if e.isMessage then none else x.nodeStep conn e
  | .receive conn env =>
    match x.toNode conn with
    | [] => none
    | m :: rest =>
      { x with toNode := Function.update x.toNode conn rest }.nodeStep conn (.message m env)

/-- The server has been started; the nodes are as they are. -/
def start (root : String) (serverTimeControl : ℕ) (node : ConnId → LkpClient) : System :=
  { server := .start root serverTimeControl, node }

variable {x} {y : System}

/-! ## What is on the way to the server -/

theorem serverStep_eq {e : ServerEvent} (h : x.serverStep e = some y) :
    x.server.step e = some y.server ∧ y.toServer = x.toServer ∧ y.node = x.node := by
  obtain ⟨t, ht, rfl⟩ := Option.map_eq_some_iff.1 h
  exact ⟨ht, rfl, rfl⟩

theorem nodeStep_eq {conn : ConnId} {e : ClientEvent} (h : x.nodeStep conn e = some y) :
    y.server = x.server ∧ ∃ ms, (∀ m ∈ ms, LkpClient.Anonymous m) ∧
      y.toServer = Function.update x.toServer conn (x.toServer conn ++ ms) := by
  obtain ⟨d, hd, rfl⟩ := Option.map_eq_some_iff.1 h
  obtain ⟨ms, hs, hms⟩ := LkpClient.sends_step hd
  refine ⟨rfl, ms, hms, ?_⟩
  simp only [hs, List.drop_left]

/-- No `File` message on the way to the server names its node. -/
def AllAnonymous (x : System) : Prop := ∀ conn, ∀ m ∈ x.toServer conn, LkpClient.Anonymous m

/-- What happens to the server in a step of the system: nothing, or an event that is
    not a `File` message, or the oldest message of a node. -/
inductive Moves (x : System) (e : SystemEvent) (y : System) : Prop
  | still : y.server = x.server → (∀ conn env, e ≠ .deliver conn env) → Moves x e y
  | event (e' : ServerEvent) : x.server.step e' = some y.server → LkpServer.isFile e' = false →
      (∀ conn env f rest, e = .deliver conn env → x.toServer conn ≠ .file f :: rest) → Moves x e y
  | file (conn : ConnId) (env : Env) (f : File) (rest : List Message) : e = .deliver conn env →
      x.toServer conn = .file f :: rest →
      x.server.step (.message conn (.file f) env) = some y.server → Moves x e y

theorem step_moves {e : SystemEvent} (h : x.step e = some y) : Moves x e y := by
  cases e with
  | server e =>
    simp only [step] at h
    split_ifs at h with hm
    refine .event e (serverStep_eq h).1 ?_ nofun
    cases e <;> first | rfl | exact absurd rfl hm
  | command conn m env =>
    simp only [step] at h
    split_ifs at h
    exact .event _ (serverStep_eq h).1 rfl nofun
  | deliver conn env =>
    simp only [step] at h
    split at h
    · cases h
    · rename_i m rest hw
      have hs := (serverStep_eq h).1
      by_cases hf : LkpServer.isFile (.message conn m env) = true
      · cases m with
        | file f => exact .file conn env f rest rfl hw hs
        | command m | commandACK m | heartBeat m | pushACK m | ret m => cases hf
      · refine .event _ hs (by simpa using hf) ?_
        rintro _ _ f rest' ⟨⟩ hw'
        rw [hw] at hw'
        cases hw'
        exact hf rfl
  | node conn e =>
    simp only [step] at h
    split_ifs at h
    exact .still (nodeStep_eq h).1 nofun
  | receive conn env =>
    simp only [step] at h
    split at h
    · cases h
    · exact .still (nodeStep_eq h).1 nofun

/-- What is still on its way after the oldest message of one connection has arrived. -/
theorem mem_of_mem_rest {queue : ConnId → List Message} {conn c : ConnId} {m m' : Message} {rest : List Message}
    (hw : queue conn = m :: rest) (hm : m' ∈ Function.update queue conn rest c) : m' ∈ queue c := by
  by_cases hc : c = conn
  · subst hc
    rw [Function.update_self] at hm
    rw [hw]
    exact List.mem_cons_of_mem _ hm
  · rwa [Function.update_of_ne hc] at hm

/-- What is on its way after messages have been sent on one connection. -/
theorem mem_or_mem_of_sent {queue : ConnId → List Message} {conn c : ConnId} {m : Message} {ms : List Message}
    (hm : m ∈ Function.update queue conn (queue conn ++ ms) c) : m ∈ queue c ∨ m ∈ ms := by
  by_cases hc : c = conn
  · subst hc
    rw [Function.update_self] at hm
    exact List.mem_append.1 hm
  · rw [Function.update_of_ne hc] at hm
    exact Or.inl hm

theorem anonymous_step {e : SystemEvent} (hx : x.AllAnonymous) (h : x.step e = some y) : y.AllAnonymous := by
  have happend : ∀ {z : System} {conn : ConnId} {e : ClientEvent}, z.nodeStep conn e = some y →
      z.toServer = x.toServer → y.AllAnonymous := by
    intro z conn e h hz d m hm
    obtain ⟨-, ms, hms, hw⟩ := nodeStep_eq h
    rw [hw, hz] at hm
    rcases mem_or_mem_of_sent hm with hm | hm
    · exact hx d m hm
    · exact hms m hm
  cases e with
  | server e =>
    simp only [step] at h
    split_ifs at h
    intro d m hm
    exact hx d m (by rwa [(serverStep_eq h).2.1] at hm)
  | command conn m env =>
    simp only [step] at h
    split_ifs at h
    intro d m hm
    exact hx d m (by rwa [(serverStep_eq h).2.1] at hm)
  | deliver conn env =>
    simp only [step] at h
    split at h
    · cases h
    · rename_i m' rest hw
      intro d m hm
      rw [(serverStep_eq h).2.1] at hm
      exact hx d m (mem_of_mem_rest hw hm)
  | node conn e =>
    simp only [step] at h
    split_ifs at h
    exact happend h rfl
  | receive conn env =>
    simp only [step] at h
    split at h
    · cases h
    · exact happend h rfl

end System

end LkpExtent
