/-
  LkpExtent formalization — where the results of the nodes are stored.

  The path of a result is made of the node ID in the first patch, and no client ever
  sets it: the server writes every result at the path of node 0.

  * `Filed`: the invariant;
  * `keptApart_iff`: the results of a set of nodes are kept apart, each under the ID of
    its node, iff no other node than node 0 has its result stored.
-/
import LkpExtent.Lib.Runs
import LkpExtent.System
import Std.Data.String.ToInt

namespace LkpExtent

open Lib

theorem resultPath_inj {root fileName : String} {id id' : ℤ}
    (h : LkpServer.resultPath root id fileName = LkpServer.resultPath root id' fileName) : id = id' := by
  simp only [LkpServer.resultPath] at h
  rw [String.append_left_inj, String.append_left_inj, String.append_right_inj] at h
  exact Int.repr_injective h

/-! ## One path for all -/

/-- Every stream that has been opened is one of the file at `path`, which is also the
    name recorded for its connection. -/
def Received.Filed (path : String) (r : Received) : Prop :=
  ∀ conn fp, r.outputfp conn = some (some fp) → fp.path = path ∧ r.fileName conn = some path

/-- Only the entries of one connection change. -/
theorem Received.Filed.update {path : String} {r r' : Received} (h : r.Filed path) {conn : ConnId}
    (hname : r'.fileName conn = some path) (hnames : ∀ c, c ≠ conn → r'.fileName c = r.fileName c)
    (hfp : ∀ fp, r'.outputfp conn = some (some fp) → fp.path = path)
    (hfps : ∀ c, c ≠ conn → r'.outputfp c = r.outputfp c) : r'.Filed path := by
  intro c fp hc
  by_cases hcc : c = conn
  · subst hcc
    exact ⟨hfp fp hc, hname⟩
  · rw [hfps c hcc] at hc
    rw [hnames c hcc]
    exact h c fp hc

namespace LkpServer
variable {s : LkpServer} {conn : ConnId} {f : File} {env : Env} {r : Received} {path : String}

/-- A `File` message leaves every stream at the path, if a first patch announces it. -/
theorem FileStep.filed (h : FileStep s conn f env r) (hs : s.received.Filed path)
    (hpath : f.firstPatch = true → resultPath s.ROOT_DIR (intOfU32 f.nodeId) f.fileName = path) :
    r.Filed path := by
  cases h with
  | finish _ hfp hr =>
    obtain ⟨hp, hname⟩ := hs conn _ hfp
    have hname : s.fileNameMap conn = some path := hname
    rw [hr]
    refine hs.update ?_ (fun c hc => Function.update_of_ne hc ..) ?_ fun c hc => Function.update_of_ne hc ..
    · simp [touch, hname]
    · intro fp h
      simp only [Function.update_self, Option.some.injEq] at h
      rw [← h, FILE.fclose_path, hp]
  | refused _ hfirst _ hr =>
    rw [hr]
    refine hs.update ?_ (fun c hc => Function.update_of_ne hc ..) ?_ fun c _ => rfl
    · rw [← hpath hfirst]
      exact Function.update_self ..
    · intro fp h
      exact (hs conn fp h).1
  | @first fp _ hfirst _ hfp hr =>
    rw [hr]
    refine hs.update ?_ (fun c hc => Function.update_of_ne hc ..) ?_ fun c hc => Function.update_of_ne hc ..
    · rw [← hpath hfirst]
      exact Function.update_self ..
    · intro fp' h
      simp only [Function.update_self, Option.some.injEq] at h
      rw [← h, FILE.fwrite_path, hfp, hpath hfirst]
  | patch _ _ hfp hr =>
    obtain ⟨hp, hname⟩ := hs conn _ hfp
    rw [hr]
    refine hs.update hname (fun c _ => rfl) ?_ fun c hc => Function.update_of_ne hc ..
    intro fp h
    simp only [Function.update_self, Option.some.injEq] at h
    rw [← h, FILE.fwrite_path, hp]

/-- What is written is written at the path, and this is the name of the connection. -/
theorem FileStep.written (h : FileStep s conn f env r) (hs : s.received.Filed path)
    (hpath : f.firstPatch = true → resultPath s.ROOT_DIR (intOfU32 f.nodeId) f.fileName = path)
    {p : String} (hp : s.writesTo conn f env = some p) : p = path ∧ r.fileName conn = some path := by
  cases h with
  | finish hend hfp hr =>
    obtain ⟨hpath, hname⟩ := hs conn _ hfp
    have hname : s.fileNameMap conn = some path := hname
    rw [writesTo, if_pos hend, hfp] at hp
    obtain rfl := Option.some.inj hp
    rw [hr]
    exact ⟨hpath, by simp [touch, hname]⟩
  | refused hend hfirst hreceives _ =>
    rw [writesTo, if_neg hend, if_pos hfirst, hreceives] at hp
    cases hp
  | first hend hfirst hreceives _ hr =>
    rw [writesTo, if_neg hend, if_pos hfirst, if_pos hreceives, Option.some.injEq] at hp
    rw [← hp, hpath hfirst, hr]
    exact ⟨rfl, by rw [← hpath hfirst]; exact Function.update_self ..⟩
  | patch hend hfirst hfp hr =>
    obtain ⟨hpath, hname⟩ := hs conn _ hfp
    rw [writesTo, if_neg hend, if_neg (by rw [hfirst]; exact Bool.false_ne_true), hfp] at hp
    obtain rfl := Option.some.inj hp
    rw [hr]
    exact ⟨hpath, hname⟩

end LkpServer

namespace System
variable {x y : System} {root : String} {e : SystemEvent}

/-- The path of the result of node 0. -/
def zeroPath (root : String) : String := LkpServer.resultPath root 0 "result.tar"

/-- Every result is received at the path of node 0. -/
structure Filed (root : String) (x : System) : Prop where
  root_eq : x.server.ROOT_DIR = root
  anonymous : x.AllAnonymous
  stored : x.server.received.Filed (zeroPath root)

theorem filed_start (root : String) (serverTimeControl : ℕ) (node : ConnId → LkpClient) :
    Filed root (start root serverTimeControl node) where
  root_eq := rfl
  anonymous := nofun
  stored := nofun

/-- The path that a first patch announces. -/
theorem Filed.resultPath_eq (hx : Filed root x) {conn : ConnId} {f : File} {rest : List Message}
    (hw : x.toServer conn = .file f :: rest) (hfirst : f.firstPatch = true) :
    LkpServer.resultPath x.server.ROOT_DIR (intOfU32 f.nodeId) f.fileName = zeroPath root := by
  obtain ⟨hid, hname⟩ := hx.anonymous conn (.file f) (by rw [hw]; exact List.mem_cons_self) f rfl
  rw [hx.root_eq, hid, hname hfirst, intOfU32_zero]
  rfl

theorem filed_step (hx : Filed root x) (h : x.step e = some y) : Filed root y := by
  have ha := anonymous_step hx.anonymous h
  cases step_moves h with
  | still hs _ => exact ⟨by rw [hs]; exact hx.root_eq, ha, by rw [hs]; exact hx.stored⟩
  | event e' hs he _ =>
    have hr := LkpServer.received_step hs he
    exact ⟨(congrArg Received.root hr).trans hx.root_eq, ha, by rw [hr]; exact hx.stored⟩
  | file conn env f rest _ hw hs =>
    have hstep := LkpServer.fileStep_onFileMsg (LkpServer.step_eq_some.1 hs).2
    exact ⟨(LkpServer.root_fileStep hstep).trans hx.root_eq, ha,
      hstep.filed hx.stored fun hfirst => hx.resultPath_eq hw hfirst⟩

theorem filed_of_runs {serverTimeControl : ℕ} {node : ConnId → LkpClient} {es : List SystemEvent}
    (h : Runs step (start root serverTimeControl node) es x) : Filed root x :=
  h.inv' (filed_start root serverTimeControl node) fun _ _ _ hu hv => filed_step hu hv

/-! ## The writes of a run -/

/-- The `File` message that arrives in an event. -/
def arriving (x : System) : SystemEvent → Option (ConnId × Env × File)
  | .deliver conn env =>
    match x.toServer conn with
    | .file f :: _ => some (conn, env, f)
    | _ => none
  | _ => none

/-- The connection and the path that the server writes to in an event. -/
def writing (x : System) (e : SystemEvent) : Option (ConnId × String) :=
  (x.arriving e).bind fun a => (x.server.writesTo a.1 a.2.2 a.2.1).map fun path => (a.1, path)

/-- The connection alone, told from the message: it is written, or the rest of the stream is,
    unless it is a first patch whose file does not open. -/
def writer (x : System) (e : SystemEvent) : Option ConnId :=
  (x.arriving e).bind fun a =>
    if a.2.2.fileType ≠ .END → a.2.2.firstPatch = true → a.2.1.receives = true then some a.1 else none

theorem arriving_eq_some {conn : ConnId} {env : Env} {f : File} (h : x.arriving e = some (conn, env, f)) :
    ∃ rest, e = .deliver conn env ∧ x.toServer conn = .file f :: rest := by
  simp only [arriving] at h
  split at h
  · split at h
    · rename_i rest hq
      cases h
      exact ⟨rest, rfl, hq⟩
    · cases h
  · cases h

/-- What the server does with it. -/
theorem fileStep_arriving {conn : ConnId} {env : Env} {f : File} (h : x.step e = some y)
    (ha : x.arriving e = some (conn, env, f)) :
    LkpServer.FileStep x.server conn f env y.server.received := by
  obtain ⟨rest, rfl, hq⟩ := arriving_eq_some ha
  rw [step, hq] at h
  exact LkpServer.fileStep_onFileMsg (LkpServer.step_eq_some.1 (serverStep_eq h).1).2

/-- **Every write goes to the path of node 0.** -/
theorem writing_eq (hx : Filed root x) (h : x.step e = some y) {w : ConnId × String}
    (hw : x.writing e = some w) : w.2 = zeroPath root ∧ y.server.fileNameMap w.1 = some (zeroPath root) := by
  obtain ⟨⟨conn, env, f⟩, ha, hw⟩ := Option.bind_eq_some_iff.1 hw
  obtain ⟨path, hp, rfl⟩ := Option.map_eq_some_iff.1 hw
  obtain ⟨rest, -, hq⟩ := arriving_eq_some ha
  exact (fileStep_arriving h ha).written hx.stored (fun hfirst => hx.resultPath_eq hq hfirst) hp

theorem map_writing (h : x.step e = some y) : (x.writing e).map Prod.fst = x.writer e := by
  cases ha : x.arriving e with
  | none => rw [writing, writer, ha]; rfl
  | some a =>
    obtain ⟨conn, env, f⟩ := a
    have hwrites : (x.server.writesTo conn f env).isSome = true ↔
        (f.fileType ≠ .END → f.firstPatch = true → env.receives = true) := by
      simp only [LkpServer.writesTo]
      cases fileStep_arriving h ha with
      | finish hend hfp _ => simp [hend, hfp]
      | refused hend hfirst hreceives _ => simp [hend, hfirst, hreceives]
      | first hend hfirst hreceives _ _ => simp [hend, hfirst, hreceives]
      | patch hend hfirst hfp _ => simp [hend, hfirst, hfp]
    rw [writing, writer, ha, Option.bind_some, Option.bind_some, if_congr hwrites.symm rfl rfl]
    cases x.server.writesTo conn f env <;> rfl

/-! ## Results kept apart -/

/-- The connected nodes with their pool IDs. -/
def nodes (x : System) : List (ℤ × ConnId) := x.server.clientPool.connections.toList

/-- In the run of `es` from `x` the server writes to `path` for a connection. -/
def Wrote (x : System) (es : List SystemEvent) (conn : ConnId) (path : String) : Prop :=
  ∃ es₁ e es₂ z, es = es₁ ++ e :: es₂ ∧ Runs step x es₁ z ∧ z.writing e = some (conn, path)

/-- The results that are written in the run of `es` from `x` are kept apart. -/
structure KeptApart (root : String) (x : System) (es : List SystemEvent) : Prop where
  apart : ∀ conn conn' path, Wrote x es conn path → Wrote x es conn' path → conn = conn'
  /-- every result is stored under the pool ID of its node -/
  named : EachStep step x es fun z e => ∀ w ∈ z.writing e, ∀ z' ∈ z.step e,
    z'.server.fileNameMap w.1 = some w.2 ∧
      ∃ id, (id, w.1) ∈ z.nodes ∧ w.2 = LkpServer.resultPath root id "result.tar"

theorem eq_of_mem_nodes {id : ℤ} {conn conn' : ConnId} (h : (id, conn) ∈ x.nodes)
    (h' : (id, conn') ∈ x.nodes) : conn = conn' := by
  rw [nodes, LkpClientPool.mem_toList] at h h'
  exact Option.some.inj (h.symm.trans h')

/-- **The results of different nodes.**  While no node joins or leaves, the results are
    kept apart iff only the node with the pool ID 0 has its result written. -/
theorem keptApart_iff {serverTimeControl : ℕ} {node : ConnId → LkpClient} {es₀ es : List SystemEvent}
    (hreach : Runs step (start root serverTimeControl node) es₀ x) (h : Runs step x es y)
    (hnodes : EachState step x es fun z => z.nodes = x.nodes) :
    KeptApart root x es ↔ EachStep step x es fun z e => ∀ conn ∈ z.writer e, (0, conn) ∈ z.nodes := by
  have hfiled : ∀ {es₁ z}, Runs step x es₁ z → Filed root z := fun hz => filed_of_runs (hreach.append hz)
  have hnext : ∀ {es₁ e es₂ z}, es = es₁ ++ e :: es₂ → Runs step x es₁ z → ∃ z', z.step e = some z' := by
    intro es₁ e es₂ z hes hz
    rw [hes] at h
    obtain ⟨z₁, hz₁, h⟩ := h.split
    obtain ⟨z', hz', -⟩ := h.cons_inv
    exact ⟨z', hz.det hz₁ ▸ hz'⟩
  constructor
  · intro hk es₁ e es₂ z hes hz conn hconn
    obtain ⟨z', hz'⟩ := hnext hes hz
    rw [Option.mem_def, ← map_writing hz'] at hconn
    obtain ⟨w, hw, rfl⟩ := Option.map_eq_some_iff.1 hconn
    obtain ⟨-, id, hid, hpath⟩ := hk.named es₁ e es₂ z hes hz w hw z' hz'
    rw [(writing_eq (hfiled hz) hz' hw).1] at hpath
    rwa [← resultPath_inj hpath] at hid
  · intro hzero
    have hwriter : ∀ {es₁ e es₂ z w}, es = es₁ ++ e :: es₂ → Runs step x es₁ z → z.writing e = some w →
        (0, w.1) ∈ z.nodes := by
      intro es₁ e es₂ z w hes hz hw
      obtain ⟨z', hz'⟩ := hnext hes hz
      exact hzero es₁ e es₂ z hes hz w.1 (by rw [← map_writing hz', hw]; rfl)
    constructor
    · rintro conn conn' path ⟨es₁, e, es₂, z, hes, hz, hw⟩ ⟨es₁', e', es₂', z', hes', hz', hw'⟩
      have hc := hwriter hes hz hw
      have hc' := hwriter hes' hz' hw'
      rw [hnodes es₁ _ z hes hz] at hc
      rw [hnodes es₁' _ z' hes' hz'] at hc'
      exact eq_of_mem_nodes hc hc'
    · intro es₁ e es₂ z hes hz w hw z' hz'
      obtain ⟨hpath, hname⟩ := writing_eq (hfiled hz) hz' hw
      exact ⟨hname.trans (congrArg some hpath.symm), 0, hwriter hes hz hw, hpath⟩

/-- The result of the only node. -/
theorem keptApart_alone : ∃ x y es, Runs step (start "/lkp" 3 fun _ => .joined [7])
    [.server (.up 1 "10.0.0.1"), .server (.up 9 "127.0.0.1")] x ∧ Runs step x es y ∧
    KeptApart "/lkp" x es ∧ y.server.fileNameMap 1 = some "/lkp/results/remote/node0-result.tar" := by
  let es : List SystemEvent := [.command 9 { command := .RESULT, sendToAll := true } {}, .receive 1 {},
    .deliver 1 {}, .node 1 .written, .node 1 (.writeComplete []), .deliver 1 {}]
  obtain ⟨x, hreach, hnodes, hzero, y, h, hname⟩ : ∃ x, Runs step (start "/lkp" 3 fun _ => .joined [7])
      [.server (.up 1 "10.0.0.1"), .server (.up 9 "127.0.0.1")] x ∧
      checkStates step (fun z => z.nodes = x.nodes) x es = true ∧
      checkSteps step (fun z e => ∀ conn ∈ z.writer e, (0, conn) ∈ z.nodes) x es = true ∧
      ∃ y ∈ runEvents step x es,
        y.server.fileNameMap 1 = some "/lkp/results/remote/node0-result.tar" :=
    Runs.exists_of_run (by decide +kernel)
  exact ⟨x, y, es, hreach, .of_runEvents h, (keptApart_iff hreach (.of_runEvents h)
    (.of_checkStates hnodes)).2 (.of_checkSteps hzero), hname⟩

/-- Two nodes answer a RESULT command, and both results are written to one path. -/
theorem keptApart_twoNodes : ¬ ∀ (root : String) (serverTimeControl : ℕ) (node : ConnId → LkpClient)
    (es₀ es : List SystemEvent) (x y : System), Runs step (start root serverTimeControl node) es₀ x →
    Runs step x es y → (EachState step x es fun z => z.nodes = x.nodes) → KeptApart root x es := by
  intro hall
  let es : List SystemEvent := [.command 9 { command := .RESULT, sendToAll := true } {}, .receive 1 {},
    .receive 2 {}]
  let e₁ : SystemEvent := .deliver 1 {}
  let e₂ : SystemEvent := .deliver 2 {}
  obtain ⟨x, hreach, hnodes, z, hz, hw, z', hz', hw', hlast⟩ : ∃ x,
      Runs step (start "/lkp" 3 fun _ => .joined [7])
        [.server (.up 1 "10.0.0.1"), .server (.up 2 "10.0.0.2"), .server (.up 9 "127.0.0.1")] x ∧
      checkStates step (fun z => z.nodes = x.nodes) x (es ++ [e₁] ++ [e₂]) = true ∧
      ∃ z ∈ runEvents step x es, z.writing e₁ = some (1, zeroPath "/lkp") ∧
        ∃ z' ∈ z.step e₁, z'.writing e₂ = some (2, zeroPath "/lkp") ∧ (z'.step e₂).isSome = true :=
    Runs.exists_of_run (by decide +kernel)
  obtain ⟨y, hy⟩ := Option.isSome_iff_exists.1 hlast
  have h₁ : Runs step x es z := .of_runEvents hz
  have h₂ : Runs step x (es ++ [e₁]) z' := h₁.snoc hz'
  have hk := hall "/lkp" 3 _ _ _ x y hreach (h₂.snoc hy) (.of_checkStates hnodes)
  exact absurd (hk.apart 1 2 _ ⟨es, e₁, [e₂], z, by simp, h₁, hw⟩ ⟨_, e₂, [], z', rfl, h₂, hw'⟩)
    (by decide)

end System

end LkpExtent
