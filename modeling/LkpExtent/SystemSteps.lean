/-
  LkpExtent formalization — what a step of the system can do.

  * `System.serverSends`, `System.nodeSends`: a party has handled an event, and what it has
    sent is on its way;
  * `System.Steps`, `System.steps_of_step`: every step is one of these, some with a message taken
    off its way.
-/
import LkpExtent.System

namespace LkpExtent

namespace System
variable (y : System)

/-- The server has become `t`, and what it has sent is on its way. -/
def serverSends (t : LkpServer) : System := { y with
  server := t
  toNode := fun c => y.toNode c ++ ((t.sent.drop y.server.sent.length).filter fun it => it.1 = c).map Prod.snd }

/-- A node has become `d`, and what it has sent is on its way. -/
def nodeSends (conn : ConnId) (d : LkpClient) : System := { y with
  node := Function.update y.node conn d
  toServer := Function.update y.toServer conn
    (y.toServer conn ++ d.sent.drop (y.node conn).sent.length) }

/-- The oldest message from a node is off its way. -/
def popServer (conn : ConnId) (rest : List Message) : System :=
  { y with toServer := Function.update y.toServer conn rest }

/-- The oldest message to a node is off its way. -/
def popNode (conn : ConnId) (rest : List Message) : System :=
  { y with toNode := Function.update y.toNode conn rest }

/-- What a step can do. -/
inductive Steps : SystemEvent → System → Prop
  | server {e : ServerEvent} {t : LkpServer} (he : e.isMessage = false) (h : y.server.step e = some t) :
      Steps (.server e) (y.serverSends t)
  | command {conn : ConnId} {m : Command} {env : Env} {t : LkpServer}
      (h : y.server.step (.message conn (.command m) env) = some t) :
      Steps (.command conn m env) (y.serverSends t)
  | deliver {conn : ConnId} {env : Env} {m : Message} {rest : List Message} {t : LkpServer}
      (hq : y.toServer conn = m :: rest) (h : y.server.step (.message conn m env) = some t) :
      Steps (.deliver conn env) ((y.popServer conn rest).serverSends t)
  | node {conn : ConnId} {e : ClientEvent} {d : LkpClient} (he : e.isMessage = false)
      (h : (y.node conn).step e = some d) : Steps (.node conn e) (y.nodeSends conn d)
  | receive {conn : ConnId} {env : ClientEnv} {m : Message} {rest : List Message} {d : LkpClient}
      (hq : y.toNode conn = m :: rest) (h : (y.node conn).step (.message m env) = some d) :
      Steps (.receive conn env) ((y.popNode conn rest).nodeSends conn d)

variable {y} {z : System}

theorem serverStep_of_step {e : ServerEvent} {t : LkpServer} (h : y.server.step e = some t) :
    y.serverStep e = some (y.serverSends t) := by
  rw [serverStep, h]; rfl

theorem nodeStep_of_step {conn : ConnId} {e : ClientEvent} {d : LkpClient} (h : (y.node conn).step e = some d) :
    y.nodeStep conn e = some (y.nodeSends conn d) := by
  rw [nodeStep, h]; rfl

theorem steps_of_step {e : SystemEvent} (h : y.step e = some z) : y.Steps e z := by
  cases e with
  | server e =>
    simp only [step] at h
    split_ifs at h with he
    obtain ⟨t, ht, rfl⟩ := Option.map_eq_some_iff.1 h
    exact .server (by simpa using he) ht
  | command conn m env =>
    simp only [step] at h
    split_ifs at h
    obtain ⟨t, ht, rfl⟩ := Option.map_eq_some_iff.1 h
    exact .command ht
  | deliver conn env =>
    simp only [step] at h
    split at h
    · cases h
    · rename_i m rest hq
      obtain ⟨t, ht, rfl⟩ := Option.map_eq_some_iff.1 h
      exact .deliver hq ht
  | node conn e =>
    simp only [step] at h
    split_ifs at h with he
    obtain ⟨d, hd, rfl⟩ := Option.map_eq_some_iff.1 h
    exact .node (by simpa using he) hd
  | receive conn env =>
    simp only [step] at h
    split at h
    · cases h
    · rename_i m rest hq
      obtain ⟨d, hd, rfl⟩ := Option.map_eq_some_iff.1 h
      exact .receive hq hd

end System

end LkpExtent
