/-
  LkpExtent formalization — the lengths that are compared at the end of a transfer.

  The length of the sender's file goes from `off_t` to `int`, to the `uint32` of `file_size`
  and back to `int`; that of the received file from `off_t` to `int`.

  * `ResultTransfer`, `TestcaseTransfer`: a transfer, as far as its check is concerned: the
    message that announces the file, the receiver up to the END, and its verdict;
  * `kept_step`: what is announced stays until the next first patch;
  * `completeness_iff`: the check is exact iff the lengths do not differ by a multiple of
    `2 ^ 32`.
-/
import LkpExtent.ListReplies
import LkpExtent.ResultErrors
import LkpExtent.Transfer

namespace LkpExtent

open Lib

/-! ## Narrowing -/

/-- A check modulo `2 ^ 32` is exact unless it has to tell such lengths apart. -/
theorem exact_iff {L R : ℕ} {complete : Prop} (h : complete ↔ toInt32 R = toInt32 L) :
    (complete ↔ R = L) ↔ ¬ (R ≠ L ∧ R % 2 ^ 32 = L % 2 ^ 32) := by
  rw [h, toInt32_eq_iff]
  constructor
  · rintro hexact ⟨hne, hmod⟩
    exact hne (hexact.1 hmod)
  · intro hno
    exact ⟨fun hmod => by_contra fun hne => hno ⟨hne, hmod⟩, fun heq => by rw [heq]⟩

/-! ## Results -/

/-- A result on its way: the node announces its file, and the server takes the first patch, and
    no other one on the connection before the END. -/
structure ResultTransfer where
  {node node' : LkpClient}
  {command : Command}
  {nodeEnv : ClientEnv}
  {file : Bytes}
  {patch : File}
  hasFile : node.disk (LkpClient.resultFile node.ROOT_DIR) = some file
  announces : node.step (.message (.command command) nodeEnv) = some node'
  sends : node'.sent = node.sent ++ [.file patch]
  {root : String}
  {serverTimeControl : ℕ}
  {before during : List ServerEvent}
  {server taken last checked : LkpServer}
  {conn : ConnId}
  {env finalEnv : Env}
  reached : Runs LkpServer.step (LkpServer.start root serverTimeControl) before server
  takes : server.step (.message conn (.file patch) env) = some taken
  goesOn : Runs LkpServer.step taken during last
  noOther : ∀ m env, .message conn (.file m) env ∈ during → m.firstPatch = false
  {final : File}
  isEnd : final.fileType = .END
  checks : last.step (.message conn (.file final) finalEnv) = some checked
  {received : Bytes}
  stored : checked.disk (LkpServer.resultPath server.ROOT_DIR (intOfU32 patch.nodeId) patch.fileName) =
    some received

/-- The node counts as a successful one. -/
def ResultTransfer.complete (x : ResultTransfer) : Prop := x.checked.clientOKNum = x.last.clientOKNum + 1

namespace LkpClient
variable {c d : LkpClient}

/-- The file that a command makes a client send is announced with the length of the result. -/
theorem patch_of_step {m : Command} {env : ClientEnv} {file : Bytes} {patch : File}
    (hs : c.step (.message (.command m) env) = some d) (hsent : d.sent = c.sent ++ [.file patch])
    (hfile : c.disk (resultFile c.ROOT_DIR) = some file) :
    patch = resultPatch (toInt32 file.length) file env.stack := by
  obtain ⟨-, h⟩ := step_eq_some.1 hs
  have h : c.onMessage (.command m) env = .ok d := h
  cases hb : c.begins (.message (.command m) env) with
  | false =>
    obtain ⟨ms, hms, hnone⟩ := (aside_onMessage h hb).sent
    rw [hsent, List.append_cancel_left_eq] at hms
    have hitem := hnone (.file patch) (hms ▸ List.mem_singleton_self _)
    cases hitem
  | true =>
    simp only [begins, Bool.and_eq_true, decide_eq_true_eq] at hb
    obtain ⟨⟨⟨hm, hchild⟩, hopens⟩, -⟩ := hb
    have h : c.onCommandMsg m env = .ok d := h
    simp only [onCommandMsg] at h
    rw [if_neg (by omega)] at h
    simp only [hm, onResult, hopens, if_true, hfile] at h
    have hsize : c.disk.stSize (resultFile c.ROOT_DIR) env.uninit = file.length := by
      rw [Disk.stSize, hfile]
    obtain ⟨-, -, hs | hs⟩ := sendToServer_sent h
    · rw [hsent, hsize, List.append_cancel_left_eq] at hs
      exact Message.file.inj (List.singleton_inj.1 hs)
    · rw [hsent, List.append_right_eq_self] at hs
      cases hs

end LkpClient

namespace LkpServer
variable {s t : LkpServer} {conn : ConnId} {path : String} {size : ℤ} {patch : File} {env : Env}
  {e : ServerEvent}
  {es : List ServerEvent}

/-- The first patch leaves the announced path and length in the tables. -/
theorem announced_step (hs : s.step (.message conn (.file patch) env) = some t) (hend : patch.fileType ≠ .END)
    (hfirst : patch.firstPatch = true) :
    t.fileNameMap conn = some (resultPath s.ROOT_DIR (intOfU32 patch.nodeId) patch.fileName) ∧
      t.fileSizeMap conn = some (intOfU32 patch.fileSize) := by
  obtain ⟨-, h⟩ := step_eq_some.1 hs
  have h : s.onFileMsg conn patch env = .ok t := h
  have hannounce : t.received.fileName = (s.announce conn patch).fileNameMap ∧
      t.received.fileSize = (s.announce conn patch).fileSizeMap := by
    cases fileStep_onFileMsg h with
    | finish hend' => exact absurd hend' hend
    | refused _ _ _ hr => rw [hr]; exact ⟨rfl, rfl⟩
    | first _ _ _ _ hr => rw [hr]; exact ⟨rfl, rfl⟩
    | patch _ hnot => rw [hfirst] at hnot; cases hnot
  have hname : t.fileNameMap = _ := hannounce.1
  have hsize : t.fileSizeMap = _ := hannounce.2
  rw [hname, hsize]
  exact ⟨Function.update_self .., Function.update_self ..⟩

theorem touch_of_some {α : Type} {m : ConnId → Option α} {a : α} (h : m conn = some a) (c : ConnId) (d : α) :
    touch m c d conn = some a := by
  by_cases hc : conn = c
  · subst hc
    rw [touch, Function.update_self, h]
    rfl
  · rw [touch, Function.update_of_ne hc, h]

/-- The tables have another path and length for a connection after its first patches only. -/
theorem FileStep.keeps {c : ConnId} {m : File} {r : Received} (h : FileStep s c m env r)
    (hno : c = conn → m.firstPatch = false) (hname : s.fileNameMap conn = some path)
    (hsize : s.fileSizeMap conn = some size) : r.fileName conn = some path ∧ r.fileSize conn = some size := by
  have hother : m.firstPatch = true → conn ≠ c := by
    rintro hfirst rfl
    rw [hno rfl] at hfirst
    cases hfirst
  cases h with
  | finish _ _ hr =>
    rw [hr]
    exact ⟨touch_of_some hname c _, touch_of_some hsize c _⟩
  | refused _ hfirst _ hr =>
    rw [hr]
    exact ⟨(Function.update_of_ne (hother hfirst) ..).trans hname,
      (Function.update_of_ne (hother hfirst) ..).trans hsize⟩
  | first _ hfirst _ _ hr =>
    rw [hr]
    exact ⟨(Function.update_of_ne (hother hfirst) ..).trans hname,
      (Function.update_of_ne (hother hfirst) ..).trans hsize⟩
  | patch _ _ _ hr =>
    rw [hr]
    exact ⟨hname, hsize⟩

/-- **What is announced stays** until the next first patch. -/
theorem kept_step (hs : s.step e = some t)
    (hno : ∀ m env, e = .message conn (.file m) env → m.firstPatch = false)
    (hname : s.fileNameMap conn = some path) (hsize : s.fileSizeMap conn = some size) :
    t.fileNameMap conn = some path ∧ t.fileSizeMap conn = some size := by
  cases he : isFile e with
  | false =>
    have hsame := received_step hs he
    have hname' : t.fileNameMap = s.fileNameMap := congrArg Received.fileName hsame
    have hsize' : t.fileSizeMap = s.fileSizeMap := congrArg Received.fileSize hsame
    rw [hname', hsize']
    exact ⟨hname, hsize⟩
  | true =>
    obtain ⟨c, m, env, rfl⟩ : ∃ c m env, e = .message c (.file m) env := by
      cases e with
      | message c m env =>
        cases m with
        | file m => exact ⟨c, m, env, rfl⟩
        | _ => cases he
      | _ => cases he
    have h : s.onFileMsg c m env = .ok t := (step_eq_some.1 hs).2
    exact (fileStep_onFileMsg h).keeps (fun hc => hno m env (by rw [hc])) hname hsize

theorem kept_of_runs (h : Runs step s es t)
    (hno : ∀ m env, .message conn (.file m) env ∈ es → m.firstPatch = false)
    (hname : s.fileNameMap conn = some path) (hsize : s.fileSizeMap conn = some size) :
    t.fileNameMap conn = some path ∧ t.fileSizeMap conn = some size := by
  induction h with
  | nil => exact ⟨hname, hsize⟩
  | snoc h he ih =>
    obtain ⟨hname, hsize⟩ := ih fun m env hmem => hno m env (List.mem_append_left _ hmem)
    refine kept_step he (fun m env heq => hno m env ?_) hname hsize
    rw [heq]
    exact List.mem_append_right _ (List.mem_singleton_self _)

/-- An END counts the node iff the file that it leaves has the announced length. -/
theorem clientOKNum_end (hs : s.step (.message conn (.file patch) env) = some t)
    (hend : patch.fileType = .END) (hname : s.fileNameMap conn = some path)
    (hsize : s.fileSizeMap conn = some size) :
    t.clientOKNum = s.clientOKNum + 1 ↔ toInt32 (t.disk.stSize path env.uninit) = size := by
  have h : s.onFileMsg conn patch env = .ok t := (step_eq_some.1 hs).2
  simp only [onFileMsg] at h
  rw [if_pos hend] at h
  obtain ⟨u, hu, h⟩ := bind_ok h
  have hpasses : s.passes conn env = true ↔ toInt32 (t.disk.stSize path env.uninit) = size := by
    have hdisk : t.disk = u.disk := congrArg Received.disk
      ((received_of_transfers (transfers_replyIfComplete h)).trans (received_checkComplete _ _))
    obtain ⟨fp, -, hrfl⟩ := fcloseOutput_eq hu
    have hnames : u.fileNameMap = s.fileNameMap := by rw [hrfl]
    have hsizes : u.fileSizeMap = s.fileSizeMap := by rw [hrfl]
    rw [passes_iff hu, hnames, hsizes, hname, hsize, hdisk]
    rfl
  have htally : t.clientOKNum = _ := congrArg Gather.ok (tally_step hs rfl)
  rw [answered, if_pos hend] at htally
  rw [htally, ← hpasses]
  cases s.passes conn env with
  | true => exact iff_of_true rfl rfl
  | false => exact iff_of_false (Nat.succ_ne_self _).symm Bool.false_ne_true

end LkpServer

theorem ResultTransfer.complete_iff (x : ResultTransfer) :
    x.complete ↔ toInt32 x.received.length = toInt32 x.file.length := by
  have hpatch := LkpClient.patch_of_step x.announces x.sends x.hasFile
  have htaken := LkpServer.announced_step x.takes (by rw [hpatch]; simp [LkpClient.resultPatch])
    (by rw [hpatch]; rfl)
  obtain ⟨hname, hsize⟩ := LkpServer.kept_of_runs x.goesOn x.noOther htaken.1 htaken.2
  rw [complete, LkpServer.clientOKNum_end x.checks x.isEnd hname hsize, Disk.stSize, x.stored, hpatch]
  show toInt32 x.received.length = intOfU32 (u32 (toInt32 x.file.length)) ↔ _
  rw [intOfU32_u32, toInt32_toInt32]

/-! ## Test cases -/

/-- A test case on its way: the server announces it, and the client takes the first patch, and
    no other one before the END. -/
structure TestcaseTransfer where
  {server server' : LkpServer}
  {cli target : ConnId}
  {command : Command}
  {env : Env}
  {pushed : List (ConnId × Message)}
  {patch : File}
  announces : server.step (.message cli (.command command) env) = some server'
  sends : server'.sent = server.sent ++ pushed
  mem_pushed : (target, .file patch) ∈ pushed
  {node taken last checked : LkpClient}
  {nodeEnv finalEnv : ClientEnv}
  {during : List ClientEvent}
  takes : node.step (.message (.file patch) nodeEnv) = some taken
  goesOn : Runs LkpClient.step taken during last
  noOther : ∀ m env, .message (.file m) env ∈ during → m.firstPatch = false
  {final : File}
  {ack : PushACK}
  isEnd : final.fileType = .END
  checks : last.step (.message (.file final) finalEnv) = some checked
  answers : checked.sent = last.sent ++ [.pushACK ack]
  {received : Bytes}
  stored : checked.disk (node.ROOT_DIR ++ "/testcases/" ++ patch.fileName) = some received

/-- The client reports success. -/
def TestcaseTransfer.complete (x : TestcaseTransfer) : Prop := x.ack.status = true

/-- All the files that a command makes the server send are first patches of its test case. -/
theorem LkpServer.patch_of_step {s t : LkpServer} {c target : ConnId} {m : Command} {env : Env} {patch : File}
    {ms : List (ConnId × Message)} (hs : s.step (.message c (.command m) env) = some t)
    (hsent : t.sent = s.sent ++ ms) (hmem : (target, .file patch) ∈ ms) : ∃ id, patch = pushPatch m env id := by
  have hposts : Posts (fun message => ∀ f, message = .file f → ∃ id, f = pushPatch m env id) s t := by
    have h : s.onCommandMsg m env = .ok t := (step_eq_some.1 hs).2
    have hcmd : ∀ (k : Command) (f : File), Message.command k = .file f → ∃ id, f = pushPatch m env id :=
      fun k f heq => by cases heq
    simp only [onCommandMsg] at h
    split at h
    · cases h
      exact Posts.trans (t := s.resetCounters) (posts_of_eq rfl) (posts_forward fun _ => hcmd _)
    · cases h
      exact Posts.trans (t := s.resetCounters) (posts_of_eq rfl) (posts_forward fun _ => hcmd _)
    · cases h
      exact Posts.trans (t := s.resetCounters) (posts_of_eq rfl) (posts_forward fun _ => hcmd _)
    · refine Posts.trans (t := s.resetCounters) (posts_of_eq rfl) (posts_pushToClient (fun id f heq => ?_) h)
      exact ⟨id, (Message.file.inj heq).symm⟩
    · refine Posts.trans (t := s.resetCounters) (posts_of_eq rfl) (posts_sendToCmdClient (fun f heq => ?_) h)
      cases heq
    · cases h
      exact posts_of_eq rfl
  obtain ⟨ms', hms', hall⟩ := hposts
  rw [hsent, List.append_cancel_left_eq] at hms'
  exact hall _ (hms' ▸ hmem) patch rfl

namespace LkpClient
variable {c d : LkpClient} {patch : File} {env : ClientEnv} {e : ClientEvent} {es : List ClientEvent}

/-- The test case that is received has the same path and the same length. -/
structure SameFile (c d : LkpClient) : Prop where
  fileName : d.fileName = c.fileName
  fileSize : d.fileSize = c.fileSize

theorem SameFile.refl (c : LkpClient) : SameFile c c := ⟨rfl, rfl⟩

theorem SameFile.trans {c' : LkpClient} (h : SameFile c c') (h' : SameFile c' d) : SameFile c d :=
  ⟨h'.fileName.trans h.fileName, h'.fileSize.trans h.fileSize⟩

/-- Other fields have been changed before. -/
theorem SameFile.of_eq {c' : LkpClient} (h : SameFile c' d) (hname : c'.fileName = c.fileName)
    (hsize : c'.fileSize = c.fileSize) : SameFile c d := ⟨h.fileName.trans hname, h.fileSize.trans hsize⟩

theorem sameFile_sendToServer {m : Message} (h : c.sendToServer m = .ok d) : SameFile c d := by
  simp only [sendToServer] at h
  split_ifs at h
  · cases h; exact ⟨rfl, rfl⟩
  · cases h; exact .refl _

theorem disk_sendToServer {m : Message} (h : c.sendToServer m = .ok d) : d.disk = c.disk := by
  simp only [sendToServer] at h
  split_ifs at h
  · cases h; rfl
  · cases h; rfl

theorem sameFile_fwriteTestcase {m : File} (h : c.fwriteTestcase m env = .ok d) : SameFile c d :=
  ⟨(congrArg fileName (fwriteTestcase_eq h) :), (congrArg LkpClient.fileSize (fwriteTestcase_eq h) :)⟩

theorem sameFile_onResult {m : Command} (h : c.onResult m env = .ok d) : SameFile c d := by
  simp only [onResult] at h
  split at h
  · exact (sameFile_sendToServer h).of_eq rfl rfl
  · exact (sameFile_sendToServer h).of_eq rfl rfl

theorem sameFile_onCommandMsg {m : Command} (h : c.onCommandMsg m env = .ok d) : SameFile c d := by
  have hfork : ∀ {c' : LkpClient} {ACK : CommandACK}, c'.forkChild ACK env = .ok d → SameFile c' d := by
    intro c' ACK h
    simp only [forkChild] at h
    split_ifs at h
    · exact (sameFile_sendToServer h).of_eq rfl rfl
    · exact (sameFile_sendToServer h).of_eq rfl rfl
  simp only [onCommandMsg] at h
  split_ifs at h
  · exact sameFile_sendToServer h
  · split at h
    · exact (hfork h).of_eq rfl rfl
    · exact (hfork h).of_eq rfl rfl
    · exact (sameFile_onResult h).of_eq rfl rfl
    · exact (sameFile_sendToServer h).of_eq rfl rfl
    · cases h; exact ⟨rfl, rfl⟩
    · cases h; exact ⟨rfl, rfl⟩

/-- An END is answered with the result of the check. -/
theorem answer_of_end (h : c.onFileMsg patch env = .ok d) (hend : patch.fileType = .END) :
    SameFile c d ∧ ∃ ack : PushACK,
      (ack.status = true ↔ toInt32 (d.disk.stSize c.fileName env.uninit) = c.fileSize) ∧
      (d.sent = c.sent ++ [.pushACK ack] ∨ d.sent = c.sent) := by
  obtain ⟨c₁, c₂, status, text, h₁, hstatus, h₂, hd⟩ := onFileMsg_end h hend
  have heq := fcloseTestcase_eq h₁
  have hsame : SameFile c c₁ := ⟨(congrArg fileName heq :), (congrArg LkpClient.fileSize heq :)⟩
  have hdisk : d.disk = c₁.disk := by
    rw [hd]
    exact (disk_sendToServer h₂ :)
  rw [hdisk, ← hsame.fileName, ← hsame.fileSize]
  have hsent₁ : c₁.sent = c.sent := (congrArg sent heq :)
  refine ⟨?_, { status, ackMessage := text, nodeId := u32 c₁.nodeID }, hstatus, ?_⟩
  · rw [hd]
    exact (hsame.trans (sameFile_sendToServer h₂)).trans ⟨rfl, rfl⟩
  · rw [hd, ← hsent₁]
    exact (sendToServer_sent h₂).2.2

/-- **They change with a first patch only.** -/
theorem sameFile_step (hs : c.step e = some d)
    (hno : ∀ m env, e = .message (.file m) env → m.firstPatch = false) : SameFile c d := by
  obtain ⟨-, h⟩ := step_eq_some.1 hs
  cases e with
  | up | down | written | childExit => cases h; exact ⟨rfl, rfl⟩
  | message m env =>
    cases m with
    | command m => exact sameFile_onCommandMsg h
    | file m =>
      have h : c.onFileMsg m env = .ok d := h
      by_cases hend : m.fileType = .END
      · exact (answer_of_end h hend).1
      · rw [onFileMsg, if_neg hend, if_neg (by rw [hno m env rfl]; exact Bool.false_ne_true)] at h
        exact sameFile_fwriteTestcase h
    | _ => cases h
  | writeComplete stack =>
    have h : { c with conn := c.conn.dequeue }.onWriteComplete stack = .ok d := h
    simp only [onWriteComplete] at h
    split at h
    · cases h
    · split at h
      · exact (sameFile_sendToServer h).of_eq rfl rfl
      · exact (sameFile_sendToServer h).of_eq rfl rfl
  | timer =>
    have h : c.onTimer = .ok d := h
    simp only [onTimer] at h
    split_ifs at h
    exact sameFile_sendToServer h

theorem sameFile_of_runs (h : Runs step c es d)
    (hno : ∀ m env, .message (.file m) env ∈ es → m.firstPatch = false) : SameFile c d := by
  induction h with
  | nil => exact .refl c
  | snoc h he ih =>
    refine (ih fun m env hmem => hno m env (List.mem_append_left _ hmem)).trans
      (sameFile_step he fun m env heq => hno m env ?_)
    rw [heq]
    exact List.mem_append_right _ (List.mem_singleton_self _)

/-- The first patch sets them as announced. -/
theorem file_of_first (hs : c.step (.message (.file patch) env) = some d) (hend : patch.fileType ≠ .END)
    (hfirst : patch.firstPatch = true) :
    d.fileName = c.ROOT_DIR ++ "/testcases/" ++ patch.fileName ∧ d.fileSize = intOfU32 patch.fileSize := by
  have h : c.onFileMsg patch env = .ok d := (step_eq_some.1 hs).2
  rw [onFileMsg, if_neg hend, if_pos hfirst] at h
  split_ifs at h
  obtain ⟨hname, hsize⟩ := sameFile_fwriteTestcase h
  exact ⟨hname, hsize⟩

end LkpClient

theorem TestcaseTransfer.complete_iff (x : TestcaseTransfer) :
    x.complete ↔ toInt32 x.received.length = toInt32 x.env.testcase.length := by
  obtain ⟨id, hpatch⟩ := LkpServer.patch_of_step x.announces x.sends x.mem_pushed
  have htaken := LkpClient.file_of_first x.takes (by rw [hpatch]; simp [LkpServer.pushPatch])
    (by rw [hpatch]; rfl)
  have hsame := LkpClient.sameFile_of_runs x.goesOn x.noOther
  have hname := hsame.fileName.trans htaken.1
  have hsize := hsame.fileSize.trans htaken.2
  have h : x.last.onFileMsg x.final x.finalEnv = .ok x.checked := (LkpClient.step_eq_some.1 x.checks).2
  obtain ⟨-, ack, hstatus, hsent | hsent⟩ := LkpClient.answer_of_end h x.isEnd
  · rw [x.answers, List.append_cancel_left_eq] at hsent
    obtain rfl := Message.pushACK.inj (List.singleton_inj.1 hsent)
    rw [complete, hstatus, hname, hsize, Disk.stSize, x.stored, hpatch]
    show _ = intOfU32 (u32 (toInt32 x.env.testcase.length)) ↔ _
    rw [intOfU32_u32, toInt32_toInt32]
  · rw [x.answers, List.append_right_eq_self] at hsent
    cases hsent

/-! ## Both directions -/

/-- A transfer of a result to the server, or of a test case to a node. -/
inductive FileTransfer where
  | result (x : ResultTransfer)
  | testcase (x : TestcaseTransfer)

namespace FileTransfer

/-- The file that is sent. -/
def file : FileTransfer → Bytes
  | result x => x.file
  | testcase x => x.env.testcase

/-- The file that has been received when the END is handled. -/
def received : FileTransfer → Bytes
  | result x => x.received
  | testcase x => x.received

/-- What is received is taken for the whole file. -/
def complete : FileTransfer → Prop
  | result x => x.complete
  | testcase x => x.complete

theorem complete_iff (x : FileTransfer) :
    x.complete ↔ toInt32 x.received.length = toInt32 x.file.length := by
  cases x with
  | result x => exact x.complete_iff
  | testcase x => exact x.complete_iff

end FileTransfer

/-- **When the check at the end of a transfer is exact**: unless the lengths differ by a
    multiple of `2 ^ 32`. -/
theorem completeness_iff (x : FileTransfer) : (x.complete ↔ x.received.length = x.file.length) ↔
    ¬ (x.received.length ≠ x.file.length ∧ x.received.length % 2 ^ 32 = x.file.length % 2 ^ 32) :=
  exact_iff x.complete_iff

/-- A test case of two bytes arrives. -/
theorem completeness_short : ∃ x : FileTransfer, x.file = [1, 2] ∧ x.received = [1, 2] ∧
    (x.complete ↔ x.received.length = x.file.length) := by
  let command : Command := { command := .PUSH, sendToAll := true, testcase := "t" }
  let patch : File := { fileName := "t", patchLen := 2, fileSize := 2, firstPatch := true, content := [1, 2] }
  obtain ⟨server', hserver, hsends⟩ : ∃ s, Runs LkpServer.step (.start "/lkp" 3)
      ([.up 1 "10.0.0.1", .up 9 "127.0.0.1"] ++
        [.message 9 (.command command) { testcase := [1, 2] }]) s ∧ s.sent = [(1, .file patch)] :=
    Runs.exists_of_run (by decide +kernel)
  obtain ⟨server, hbefore, hannounces⟩ := hserver.snoc_inv
  obtain ⟨server₀, hbefore₀, hnil⟩ : ∃ s, Runs LkpServer.step (.start "/lkp" 3)
      [.up 1 "10.0.0.1", .up 9 "127.0.0.1"] s ∧ s.sent = [] := Runs.exists_of_run (by decide +kernel)
  rw [hbefore₀.det hbefore] at hnil
  obtain ⟨checked, hnode, hanswers, hstored⟩ : ∃ c, Runs LkpClient.step (LkpClient.joined [])
      ([.message (.file patch) {}] ++ [.message (.file endFile) {}]) c ∧
      c.sent = [.pushACK { status := true, ackMessage := "push recv success" }] ∧
      c.disk "/testcases/t" = some [1, 2] :=
    Runs.exists_of_run (by decide +kernel)
  obtain ⟨taken, htakes, hchecks⟩ := hnode.snoc_inv
  obtain ⟨taken₀, htakes₀, hnone⟩ : ∃ c, Runs LkpClient.step (LkpClient.joined [])
      [.message (.file patch) {}] c ∧ c.sent = [] := Runs.exists_of_run (by decide +kernel)
  rw [htakes₀.det htakes] at hnone
  obtain ⟨taken', htakes', hnil'⟩ := htakes.cons_inv
  obtain rfl := Runs.nil_inv hnil'
  have hsends : server'.sent = server.sent ++ [(1, .file patch)] := by rw [hnil, hsends, List.nil_append]
  have hanswers : checked.sent =
      taken.sent ++ [.pushACK { status := true, ackMessage := "push recv success" }] := by
    rw [hnone, hanswers, List.nil_append]
  let x : TestcaseTransfer := {
    announces := hannounces, sends := hsends, mem_pushed := List.mem_singleton_self _, takes := htakes'
    goesOn := .nil, noOther := by simp, isEnd := rfl, checks := hchecks, answers := hanswers
    stored := hstored }
  exact ⟨.testcase x, rfl, rfl, (completeness_iff (.testcase x)).2 fun hdiff => hdiff.1 rfl⟩

/-- Of a result of `2 ^ 32` bytes and one chunk only the chunk arrives. -/
theorem completeness_wraps : ¬ ∀ x : FileTransfer, x.file.length < 2 ^ 63 → x.received.length < 2 ^ 63 →
    (x.complete ↔ x.received.length = x.file.length) := by
  intro hclaim
  obtain ⟨file, hlen⟩ : ∃ file : Bytes, file.length = 2 ^ 32 + kBufSize :=
    ⟨.replicate _ 1, List.length_replicate⟩
  have hsize : kBufSize = 65536 := rfl
  obtain ⟨server, hserver, hup, hcmd⟩ : ∃ s, Runs LkpServer.step (.start "/lkp" 3)
      [.up 1 "10.0.0.1", .up 9 "127.0.0.1"] s ∧ (s.conns 1).isUp = true ∧ s.CmdConnection.isSome = true :=
    Runs.exists_of_run (by decide +kernel)
  have hnode : (LkpClient.joined file).step (.message (.command { command := .RESULT }) {}) = some _ :=
    LkpClient.step_result rfl rfl rfl rfl rfl rfl
  obtain ⟨taken, htakes, hrec⟩ : ∃ t, server.step (.message 1
      (.file (LkpClient.resultPatch (toInt32 file.length) file [])) {}) = some t ∧ t.Receiving 1 _ _ _ _ :=
    LkpServer.receiving_first hup hcmd (by simp [LkpClient.resultPatch]) rfl rfl
  obtain ⟨checked, hchecks, -, hstored, -⟩ := hrec.finish {}
  let y : ResultTransfer := {
    hasFile := rfl, announces := hnode, sends := rfl, reached := hserver, takes := htakes, goesOn := .nil
    noOther := by simp, isEnd := rfl, checks := hchecks, stored := hstored }
  let x : FileTransfer := .result y
  have hreceived : x.received.length = kBufSize := by
    show (cBytes _ _ (u32 (min kBufSize file.length : ℕ)).toNat).length = _
    rw [length_cBytes, hlen, toNat_u32_of_lt (by omega)]
    omega
  have hfile : x.file.length = 2 ^ 32 + kBufSize := hlen
  have hcomplete : x.complete := by
    rw [x.complete_iff, toInt32_eq_iff, hreceived, hfile, Nat.add_mod_left]
  have heq := (hclaim x (by rw [hfile, hsize]; decide) (by rw [hreceived, hsize]; decide)).1 hcomplete
  omega

end LkpExtent
