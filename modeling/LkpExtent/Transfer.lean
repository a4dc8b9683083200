/-
  LkpExtent formalization — one undisturbed transfer of a result file.

  The content of a chunk is sent as a C string, its length as `patch_len`.  The
  server writes `patch_len` bytes from the string on, so a chunk arrives as it was
  read iff it has no NUL before its last byte.

  * `Sending`, `Receiving`: the client and the server between two messages;
  * `Transferred`: a transfer, from the RESULT command to the END message;
  * `byteExact_iff`: the stored file is the client's, whatever lies in memory behind
    the buffers, iff every chunk is free of inner NULs.
-/
import LkpExtent.ClientSteps
import LkpExtent.Lib.Runs
import LkpExtent.Lib.Sender
import LkpExtent.Server

namespace LkpExtent

open Lib

/-! ## The messages of a transfer -/

/-- The messages for the chunks that are left and for the end, one for each call of
    `onWriteComplete`. -/
def patches (fileType : FileType) : List Bytes → List Bytes → List File
  | chunk :: chunks, stack :: bufs => patchOf fileType chunk stack :: patches fileType chunks bufs
  | [], _ :: _ => [endFile]
  | _, [] => []

/-- The bytes that the handling of the messages writes. -/
def receivedBytes : List File → List Env → Bytes
  | f :: files, env :: envs => cBytes f.content env.beyond f.patchLen.toNat ++ receivedBytes files envs
  | _, _ => []

theorem receivedBytes_nil (files : List File) : receivedBytes files [] = [] := by
  cases files <;> rfl

/-- The messages for the chunks, without the end. -/
def chunkPatches (fileType : FileType) (chunks bufs : List Bytes) : List File :=
  List.zipWith (patchOf fileType) chunks bufs

theorem patches_eq_feed (fileType : FileType) (chunks bufs : List Bytes) :
    patches fileType chunks bufs = feed (patchOf fileType) endFile chunks bufs := by
  induction chunks generalizing bufs with
  | nil => cases bufs <;> rfl
  | cons chunk chunks ih =>
    cases bufs with
    | nil => rfl
    | cons stack bufs => rw [patches, feed, ih]

theorem map_patches {μ : Type} (g : File → μ) (fileType : FileType) (chunks bufs : List Bytes) :
    (patches fileType chunks bufs).map g =
      feed (fun chunk stack => g (patchOf fileType chunk stack)) (g endFile) chunks bufs := by
  induction chunks generalizing bufs with
  | nil => cases bufs <;> rfl
  | cons chunk chunks ih =>
    cases bufs with
    | nil => rfl
    | cons stack bufs => rw [patches, feed, List.map_cons, ih]

theorem patches_of_eq (fileType : FileType) {chunks bufs : List Bytes}
    (h : bufs.length = chunks.length + 1) :
    patches fileType chunks bufs = chunkPatches fileType chunks bufs ++ [endFile] := by
  rw [patches_eq_feed, feed_of_eq h, chunkPatches]

theorem mem_chunkPatches {fileType : FileType} {chunks bufs : List Bytes} {f : File}
    (h : f ∈ chunkPatches fileType chunks bufs) :
    ∃ chunk ∈ chunks, ∃ stack ∈ bufs, f = patchOf fileType chunk stack := by
  rw [chunkPatches, ← List.map_uncurry_zip_eq_zipWith] at h
  obtain ⟨⟨chunk, stack⟩, hmem, rfl⟩ := List.mem_map.1 h
  obtain ⟨hc, hs⟩ := List.of_mem_zip hmem
  exact ⟨chunk, hc, stack, hs, rfl⟩

/-! ## The client -/

namespace LkpClient
variable {c c' : LkpClient}

/-- The client has sent a message of a transfer and nothing else; `rest` is not read yet. -/
structure Sending (c : LkpClient) (rest : Bytes) : Prop where
  connection : c.connection = true
  connected : c.conn.connected = true
  callback : c.conn.writeCompleteCallback = true
  output : c.conn.output = true
  queued : c.conn.queued = 0
  context : c.conn.context = some rest

/-- The output is written, and the callback runs. -/
def completion (stack : Bytes) : List ClientEvent := [.written, .writeComplete stack]

theorem Sending.written {rest : Bytes} (h : c.Sending rest) :
    c.step .written = some { c with conn := c.conn.written } := by
  have hup : c.conn.isUp = true := c.conn.isUp_of_connected h.connected
  simp [step, enabled, handle, hup, h.output, Except.toOption]

theorem Sending.written_queued {rest : Bytes} (h : c.Sending rest) : c.conn.written.queued = 1 := by
  simp [TcpConnection.written, h.callback, h.queued]

theorem Sending.chunk {rest : Bytes} (h : c.Sending rest) (hr : rest ≠ []) (stack : Bytes) :
    ∃ c', Runs step c (completion stack) c' ∧ c'.Sending (rest.drop kBufSize) ∧
      c'.sent = c.sent ++ [.file (patchOf .RESULT (rest.take kBufSize) stack)] := by
  have hq := h.written_queued
  have hstep : step { c with conn := c.conn.written } (.writeComplete stack) = _ :=
    step_chunk (by simp [hq]) h.connection h.connected h.context hr
  refine ⟨_, .append (.single h.written) (.single hstep), ?_, rfl⟩
  exact ⟨h.connection, h.connected, h.callback, rfl, by simp [hq], rfl⟩

/-- At the end of the file the callback is cleared, and no further one is queued. -/
theorem Sending.finish (h : c.Sending []) (stack : Bytes) :
    ∃ c', Runs step c (completion stack) c' ∧ c'.sent = c.sent ++ [.file endFile] ∧
      c'.conn.writeCompleteCallback = false ∧ c'.conn.queued = 0 := by
  have hq := h.written_queued
  have hstep : step { c with conn := c.conn.written } (.writeComplete stack) = _ :=
    step_end (by simp [hq]) h.connection h.connected h.context
  exact ⟨_, .append (.single h.written) (.single hstep), rfl, rfl, by simp [hq]⟩

theorem not_runs_completion (hcb : c.conn.writeCompleteCallback = false) (hq : c.conn.queued = 0)
    (stack : Bytes) (es : List ClientEvent) : ¬ Runs step c (completion stack ++ es) c' := by
  intro h
  obtain ⟨c₁, h₁, h⟩ := h.cons_inv
  obtain ⟨c₂, h₂, -⟩ := h.cons_inv
  have hen : c.enabled .written = true := by
    by_contra hno
    simp [step, hno] at h₁
  simp only [step, hen, handle, if_true, Except.toOption, Option.some.injEq] at h₁
  subst h₁
  simp [step, enabled, TcpConnection.written, hcb, hq] at h₂

/-- The client is a sender. -/
theorem sender : Sender step completion sent kBufSize (fun chunk stack => .file (patchOf .RESULT chunk stack))
    (.file endFile) Sending fun c => c.conn.writeCompleteCallback = false ∧ c.conn.queued = 0 where
  piece h hr stack := h.chunk hr stack
  finish h stack := by
    obtain ⟨c', hruns, hsent, hcb, hq⟩ := h.finish stack
    exact ⟨c', hruns, ⟨hcb, hq⟩, hsent⟩
  stop h stack es _ := not_runs_completion h.1 h.2 stack es

/-- **The messages that the callbacks send.**  Every completion but the last sends a
    chunk, and there is none after the END. -/
theorem Sending.runs {rest : Bytes} (h : c.Sending rest) {bufs : List Bytes}
    (hruns : Runs step c (bufs.flatMap completion) c') :
    c'.sent = c.sent ++ (patches .RESULT (chunks kBufSize rest) bufs).map .file ∧
      bufs.length ≤ (chunks kBufSize rest).length + 1 := by
  rw [map_patches]
  exact sender.runs kBufSize_pos h hruns

/-- The transfer goes on until its end. -/
theorem Sending.exists_runs {rest : Bytes} (h : c.Sending rest) {bufs : List Bytes}
    (hlen : bufs.length = (chunks kBufSize rest).length + 1) :
    ∃ c', Runs step c (bufs.flatMap completion) c' := sender.exists_runs kBufSize_pos h hlen

end LkpClient

/-! ## The server -/

namespace LkpServer
variable {s t : LkpServer} {conn : ConnId} {path : String} {size : ℤ} {ok : ℕ} {data : Bytes}

/-- The handling of the messages of a connection. -/
def deliveries (conn : ConnId) (files : List File) (envs : List Env) : List ServerEvent :=
  List.zipWith (fun f env => .message conn (.file f) env) files envs

/-- The file at `path` is being received on the connection; `data` is what has come of it. -/
structure Receiving (s : LkpServer) (conn : ConnId) (path : String) (size : ℤ) (ok : ℕ)
    (data : Bytes) : Prop where
  up : (s.conns conn).isUp = true
  cmd : s.CmdConnection.isSome = true
  name : s.fileNameMap conn = some path
  announced : s.fileSizeMap conn = some size
  stream : ∃ fp, s.outputfpMap conn = some (some fp) ∧ fp.Holds s.disk path data
  counted : s.clientOKNum = ok

theorem step_file {f : File} {env : Env} (hup : (s.conns conn).isUp = true)
    (h : s.onFileMsg conn f env = .ok t) : s.step (.message conn (.file f) env) = some t := by
  simp [step, enabled, handle, onMessage, hup, h, Except.toOption]

/-- A write to a stream that holds what has come before. -/
theorem fwriteOutput_ok {old : Bytes} {fp : FILE} (f : File) (env : Env)
    (hstream : s.outputfpMap conn = some (some fp)) (hholds : fp.Holds s.disk path old) :
    ∃ t, s.fwriteOutput conn f env = .ok t ∧
      t = { s with disk := t.disk, outputfpMap := t.outputfpMap } ∧
      ∃ fp, t.outputfpMap conn = some (some fp) ∧
        fp.Holds t.disk path (old ++ cBytes f.content env.beyond f.patchLen.toNat) := by
  simp only [fwriteOutput, hstream, hholds.isOpen, if_true]
  exact ⟨_, rfl, rfl, _, Function.update_self .., hholds.fwrite _ _⟩

theorem receiving_first {f : File} {env : Env} (hup : (s.conns conn).isUp = true)
    (hcmd : s.CmdConnection.isSome = true) (hend : f.fileType ≠ .END) (hfirst : f.firstPatch = true)
    (hreceives : env.receives = true) :
    ∃ t, s.step (.message conn (.file f) env) = some t ∧
      t.Receiving conn (resultPath s.ROOT_DIR (intOfU32 f.nodeId) f.fileName) (intOfU32 f.fileSize)
        s.clientOKNum (cBytes f.content env.beyond f.patchLen.toNat) := by
  have hname : (s.announce conn f).fileNameMap conn =
      some (resultPath s.ROOT_DIR (intOfU32 f.nodeId) f.fileName) := Function.update_self ..
  have hstream : ((s.announce conn f).openOutput conn).outputfpMap conn = some (some
      { path := resultPath s.ROOT_DIR (intOfU32 f.nodeId) f.fileName }) := by
    simp [openOutput, hname]
  have hempty : ((s.announce conn f).openOutput conn).disk =
      s.disk.truncate (resultPath s.ROOT_DIR (intOfU32 f.nodeId) f.fileName) := by
    simp [openOutput, announce]
  obtain ⟨t, ht, heq, hstream⟩ := fwriteOutput_ok f env hstream (hempty ▸ FILE.holds_truncate s.disk _)
  refine ⟨t, step_file hup ?_, ?_⟩
  · rw [onFileMsg, if_neg hend, if_pos hfirst, if_pos hreceives, ht]
  · rw [heq] at *
    exact ⟨hup, hcmd, hname, Function.update_self .., hstream, rfl⟩

theorem Receiving.patch (h : s.Receiving conn path size ok data) {f : File} (hend : f.fileType ≠ .END)
    (hfirst : f.firstPatch = false) (env : Env) :
    ∃ t, s.step (.message conn (.file f) env) = some t ∧
      t.Receiving conn path size ok (data ++ cBytes f.content env.beyond f.patchLen.toNat) := by
  obtain ⟨fp, hfp, hholds⟩ := h.stream
  obtain ⟨t, ht, heq, hstream⟩ := fwriteOutput_ok f env hfp hholds
  refine ⟨t, step_file h.up ?_, ?_⟩
  · rw [onFileMsg, if_neg hend, if_neg (by simp [hfirst]), ht]
  · rw [heq] at *
    exact ⟨h.up, h.cmd, h.name, h.announced, hstream, h.counted⟩

theorem Receiving.runs (h : s.Receiving conn path size ok data) {files : List File} {envs : List Env}
    (hlen : envs.length = files.length) (hend : ∀ f ∈ files, f.fileType ≠ .END)
    (hfirst : ∀ f ∈ files, f.firstPatch = false) :
    ∃ t, Runs step s (deliveries conn files envs) t ∧
      t.Receiving conn path size ok (data ++ receivedBytes files envs) := by
  induction files generalizing s data envs with
  | nil =>
    obtain rfl := List.eq_nil_of_length_eq_zero hlen
    exact ⟨s, .nil, by simpa [receivedBytes] using h⟩
  | cons f files ih =>
    obtain ⟨env, envs, rfl⟩ := List.exists_cons_of_length_eq_add_one hlen
    rw [List.forall_mem_cons] at hend hfirst
    obtain ⟨u, hu, hrec⟩ := h.patch hend.1 hfirst.1 env
    obtain ⟨t, ht, hrec⟩ := ih hrec (by simpa using hlen) hend.2 hfirst.2
    exact ⟨t, Runs.append (.single hu) ht, by simpa [receivedBytes] using hrec⟩

theorem replyIfComplete_ok (command : CommandID) (hcmd : s.CmdConnection.isSome = true) :
    ∃ t, s.replyIfComplete command = .ok t ∧ t.fileNameMap = s.fileNameMap ∧ t.disk = s.disk ∧
      t.clientOKNum = s.clientOKNum := by
  obtain ⟨cmd, hcmd⟩ := Option.isSome_iff_exists.1 hcmd
  simp only [replyIfComplete, sendToCmdClient, hcmd]
  split_ifs <;> exact ⟨_, rfl, rfl, rfl, rfl⟩

theorem checkComplete_ok (hname : s.fileNameMap conn = some path) (hsize : s.fileSizeMap conn = some size)
    (hstored : s.disk path = some data) (f : File) (env : Env) :
    (s.checkComplete conn f env).fileNameMap conn = some path ∧
      (s.checkComplete conn f env).disk = s.disk ∧
      (s.checkComplete conn f env).CmdConnection = s.CmdConnection ∧
      (s.checkComplete conn f env).clientOKNum =
        if toInt32 data.length = size then s.clientOKNum + 1 else s.clientOKNum := by
  by_cases hs : toInt32 data.length = size <;>
    simp [checkComplete, touch, hname, hsize, Disk.stSize, hstored, hs]

/-- The check of the size, before the Return. -/
theorem Receiving.checked (h : s.Receiving conn path size ok data) (env : Env) :
    ∃ u : LkpServer, s.onFileMsg conn endFile env = u.replyIfComplete .RESULT ∧
      u.fileNameMap conn = some path ∧ u.disk path = some data ∧
      u.clientOKNum = (if toInt32 data.length = size then ok + 1 else ok) ∧
      u.CmdConnection.isSome = true := by
  obtain ⟨v, hv, hstored, heq⟩ : ∃ v, ({ s with ackTimes := s.ackTimes + 1 } : LkpServer).fcloseOutput conn = .ok v ∧
      v.disk path = some data ∧
      v = { s with ackTimes := v.ackTimes, outputfpMap := v.outputfpMap, disk := v.disk } := by
    obtain ⟨fp, hfp, hholds⟩ := h.stream
    simp only [fcloseOutput, hfp, hholds.isOpen, if_true]
    exact ⟨_, rfl, hholds.fclose, rfl⟩
  obtain ⟨hname, hdisk, hcmd, hok⟩ :=
    checkComplete_ok (s := v) (by rw [heq]; exact h.name) (by rw [heq]; exact h.announced) hstored endFile env
  refine ⟨v.checkComplete conn endFile env, ?_, hname, ?_, ?_, ?_⟩
  · rw [onFileMsg, if_pos (show endFile.fileType = .END from rfl), hv]
    rfl
  · rw [hdisk, hstored]
  · rw [hok, heq, ← h.counted]
  · rw [hcmd, heq]; exact h.cmd

/-- The END message: the file has all that has come, and its size is checked. -/
theorem Receiving.finish (h : s.Receiving conn path size ok data) (env : Env) :
    ∃ t, s.step (.message conn (.file endFile) env) = some t ∧ t.fileNameMap conn = some path ∧
      t.disk path = some data ∧
      t.clientOKNum = if toInt32 data.length = size then ok + 1 else ok := by
  obtain ⟨u, hu, hname, hstored, hcounted, hcmd⟩ := h.checked env
  obtain ⟨t, ht, hn, hd, hok⟩ := replyIfComplete_ok .RESULT hcmd
  refine ⟨t, step_file h.up (hu.trans ht), ?_, ?_, ?_⟩
  · rw [hn, hname]
  · rw [hd, hstored]
  · rw [hok, hcounted]

end LkpServer

/-! ## What arrives of the chunks -/

section
variable {fileType : FileType} {pieces bufs : List Bytes} {envs : List Env}

/-- The bytes written for a chunk. -/
theorem receivedBytes_cons (piece buf : Bytes) (env : Env) (hle : piece.length ≤ kBufSize) :
    receivedBytes (chunkPatches fileType (piece :: pieces) (buf :: bufs)) (env :: envs) =
      cBytes (cString (piece ++ buf)) env.beyond piece.length ++
        receivedBytes (chunkPatches fileType pieces bufs) envs := by
  have hk : kBufSize = 65536 := rfl
  have hlen : (u32 (piece.length : ℕ)).toNat = piece.length := toNat_u32_of_lt (by omega)
  simp only [chunkPatches, List.zipWith_cons_cons, receivedBytes, patchOf, hlen]

theorem length_receivedBytes (hbufs : pieces.length ≤ bufs.length) (henvs : envs.length = pieces.length)
    (hle : ∀ piece ∈ pieces, piece.length ≤ kBufSize) :
    (receivedBytes (chunkPatches fileType pieces bufs) envs).length = pieces.flatten.length := by
  induction pieces generalizing bufs envs with
  | nil => simp [chunkPatches, receivedBytes]
  | cons piece pieces ih =>
    obtain ⟨buf, bufs, rfl⟩ := List.exists_cons_of_length_pos (Nat.zero_lt_of_lt hbufs)
    obtain ⟨env, envs, rfl⟩ := List.exists_cons_of_length_eq_add_one henvs
    rw [List.forall_mem_cons] at hle
    rw [receivedBytes_cons piece buf env hle.1, List.length_append, length_cBytes,
      ih (by simpa using hbufs) (by simpa using henvs) hle.2, List.flatten_cons, List.length_append]

theorem receivedBytes_of_no_nul (hbufs : pieces.length ≤ bufs.length) (henvs : envs.length = pieces.length)
    (hle : ∀ piece ∈ pieces, piece.length ≤ kBufSize) (hnul : ∀ piece ∈ pieces, 0 ∉ piece.dropLast) :
    receivedBytes (chunkPatches fileType pieces bufs) envs = pieces.flatten := by
  induction pieces generalizing bufs envs with
  | nil => simp [chunkPatches, receivedBytes]
  | cons piece pieces ih =>
    obtain ⟨buf, bufs, rfl⟩ := List.exists_cons_of_length_pos (Nat.zero_lt_of_lt hbufs)
    obtain ⟨env, envs, rfl⟩ := List.exists_cons_of_length_eq_add_one henvs
    rw [List.forall_mem_cons] at hle hnul
    rw [receivedBytes_cons piece buf env hle.1, cBytes_cString hnul.1,
      ih (by simpa using hbufs) (by simpa using henvs) hle.2 hnul.2, List.flatten_cons]

/-- If the file arrives, so does every piece of it. -/
theorem piece_of_receivedBytes {b : UInt8} (hbufs : pieces.length ≤ bufs.length)
    (henvs : envs.length = pieces.length) (hle : ∀ piece ∈ pieces, piece.length ≤ kBufSize)
    (hb : ∀ env ∈ envs, env.beyond = fun _ => b)
    (h : receivedBytes (chunkPatches fileType pieces bufs) envs = pieces.flatten) :
    ∀ piece ∈ pieces, ∃ buf, cBytes (cString (piece ++ buf)) (fun _ => b) piece.length = piece := by
  induction pieces generalizing bufs envs with
  | nil => simp
  | cons piece pieces ih =>
    obtain ⟨buf, bufs, rfl⟩ := List.exists_cons_of_length_pos (Nat.zero_lt_of_lt hbufs)
    obtain ⟨env, envs, rfl⟩ := List.exists_cons_of_length_eq_add_one henvs
    rw [List.forall_mem_cons] at hle hb
    rw [receivedBytes_cons piece buf env hle.1, List.flatten_cons] at h
    obtain ⟨h₁, h₂⟩ := List.append_inj h (length_cBytes _ _ _)
    rw [List.forall_mem_cons]
    exact ⟨⟨buf, by rw [← hb.1]; exact h₁⟩, ih (by simpa using hbufs) (by simpa using henvs) hle.2 hb.2 h₂⟩

end

/-! ## A transfer -/

/-- The client is connected and neither runs a child nor is in a transfer. -/
structure LkpClient.Ready (c : LkpClient) : Prop where
  connection : c.connection = true
  connected : c.conn.connected = true
  noChild : c.childNum = 0
  idle : c.conn.queued = 0

/-- A command and the completions after it. -/
def transferEvents (m : Command) (env : ClientEnv) (bufs : List Bytes) : List ClientEvent :=
  .message (.command m) env :: bufs.flatMap LkpClient.completion

/-- An undisturbed transfer: the client handles the command and then one completion
    for each write until it has sent the END, and the server, where the result file
    can be opened, handles the messages in order. -/
def Transferred (c : LkpClient) (m : Command) (s : LkpServer) (conn : ConnId) (t : LkpServer) : Prop :=
  ∃ (env : ClientEnv) (bufs : List Bytes) (c' : LkpClient) (files : List File) (envs : List Env),
    env.opens = true ∧ Runs LkpClient.step c (transferEvents m env bufs) c' ∧
      c'.sent = c.sent ++ (files ++ [endFile]).map .file ∧
      envs.length = files.length + 1 ∧ (∀ e ∈ envs, e.receives = true) ∧
      Runs LkpServer.step s (LkpServer.deliveries conn (files ++ [endFile]) envs) t

/-- The file stored for a connection. -/
def LkpServer.storedFile (s : LkpServer) (conn : ConnId) : Option Bytes := (s.fileNameMap conn).bind s.disk

/-- Every transfer leaves the client's file on the server, and counts only if it does. -/
def ByteExact (c : LkpClient) (m : Command) (s : LkpServer) (conn : ConnId) : Prop :=
  ∀ t, Transferred c m s conn t →
    t.storedFile conn = c.disk (LkpClient.resultFile c.ROOT_DIR) ∧
      (t.clientOKNum ≠ s.clientOKNum → t.storedFile conn = c.disk (LkpClient.resultFile c.ROOT_DIR))

section
variable {c c' : LkpClient} {m : Command} {s t : LkpServer} {conn : ConnId} {data : Bytes}
  {env : ClientEnv} {bufs : List Bytes} {envs : List Env}

/-- The messages of a transfer. -/
def transferFiles (data : Bytes) (env : ClientEnv) (bufs : List Bytes) : List File :=
  LkpClient.resultPatch (toInt32 data.length) data env.stack ::
    chunkPatches .RESULT (chunks kBufSize (data.drop kBufSize)) bufs

theorem receivedBytes_transferFiles (envs : List Env) :
    receivedBytes (transferFiles data env bufs) envs =
      receivedBytes (chunkPatches .RESULT (piecesOf data) (env.stack :: bufs)) envs := by
  rw [piecesOf, chunkPatches, List.zipWith_cons_cons, transferFiles]
  cases envs with
  | nil => rw [receivedBytes_nil, receivedBytes_nil]
  | cons e envs => rw [receivedBytes, receivedBytes, LkpClient.resultPatch, patchOf, List.length_take]; rfl

theorem LkpClient.Ready.sending (hc : c.Ready) (hm : m.command = .RESULT)
    (hdata : c.disk (resultFile c.ROOT_DIR) = some data) (ho : env.opens = true) :
    ∃ c₁, c.step (.message (.command m) env) = some c₁ ∧ c₁.Sending (data.drop kBufSize) ∧
      c₁.sent = c.sent ++ [.file (resultPatch (toInt32 data.length) data env.stack)] :=
  ⟨_, step_result hm hc.connection hc.connected hc.noChild ho hdata,
    ⟨hc.connection, hc.connected, rfl, rfl, hc.idle, rfl⟩, rfl⟩

/-- The messages sent up to the END are those of the transfer. -/
theorem LkpClient.Ready.files_eq (hc : c.Ready) (hm : m.command = .RESULT)
    (hdata : c.disk (resultFile c.ROOT_DIR) = some data) (ho : env.opens = true) {files : List File}
    (hruns : Runs step c (transferEvents m env bufs) c')
    (hsent : c'.sent = c.sent ++ (files ++ [endFile]).map .file) :
    files = transferFiles data env bufs ∧ bufs.length = (chunks kBufSize (data.drop kBufSize)).length + 1 := by
  obtain ⟨c₁, h₁, hsending, hs₁⟩ := hc.sending hm hdata ho
  obtain ⟨c₂, h₂, hruns⟩ := hruns.cons_inv
  obtain rfl := Option.some.inj (h₁.symm.trans h₂)
  obtain ⟨hs, hle⟩ := hsending.runs hruns
  have heq : files ++ [endFile] = resultPatch (toInt32 data.length) data env.stack ::
      patches .RESULT (chunks kBufSize (data.drop kBufSize)) bufs := by
    rw [hsent, hs₁, List.append_assoc, List.append_cancel_left_eq, List.singleton_append,
      ← List.map_cons] at hs
    exact List.map_injective_iff.2 (fun f g h => Message.file.inj h) hs
  rw [patches_eq_feed] at heq
  have hfirst : resultPatch (toInt32 data.length) data env.stack ≠ endFile := by
    intro h
    cases congrArg File.fileType h
  have hmsg : ∀ chunk stack, patchOf .RESULT chunk stack ≠ endFile := by
    intro chunk stack h
    cases congrArg File.fileType h
  obtain ⟨hlen, rfl⟩ := feed_end hfirst hmsg hle heq
  exact ⟨rfl, hlen⟩

theorem LkpClient.Ready.exists_runs (hc : c.Ready) (hm : m.command = .RESULT)
    (hdata : c.disk (resultFile c.ROOT_DIR) = some data) (ho : env.opens = true)
    (hlen : bufs.length = (chunks kBufSize (data.drop kBufSize)).length + 1) :
    ∃ c', Runs step c (transferEvents m env bufs) c' ∧
      c'.sent = c.sent ++ (transferFiles data env bufs ++ [endFile]).map .file := by
  obtain ⟨c₁, h₁, hsending, hs₁⟩ := hc.sending hm hdata ho
  obtain ⟨c', hruns⟩ := hsending.exists_runs hlen
  obtain ⟨hs, -⟩ := hsending.runs hruns
  refine ⟨c', Runs.append (.single h₁) hruns, ?_⟩
  rw [hs, hs₁, patches_of_eq _ hlen, transferFiles, List.append_assoc, List.singleton_append,
    List.cons_append, List.map_cons]

theorem length_transferFiles (hlen : bufs.length = (chunks kBufSize (data.drop kBufSize)).length + 1) :
    (transferFiles data env bufs).length = (piecesOf data).length := by
  rw [transferFiles, piecesOf, List.length_cons, List.length_cons, chunkPatches, List.length_zipWith, hlen,
    Nat.min_eq_left (Nat.le_succ _)]

theorem length_piecesOf_le (hlen : bufs.length = (chunks kBufSize (data.drop kBufSize)).length + 1)
    (buf : Bytes) : (piecesOf data).length ≤ (buf :: bufs).length := by
  rw [piecesOf, List.length_cons, List.length_cons, hlen]
  exact Nat.le_add_right _ 1

/-- **The server's side of a transfer**: what is written is stored, and counted. -/
theorem LkpServer.exists_deliveries (hup : (s.conns conn).isUp = true) (hcmd : s.CmdConnection.isSome = true)
    (hlen : bufs.length = (chunks kBufSize (data.drop kBufSize)).length + 1)
    (henvs : envs.length = (transferFiles data env bufs).length) (hr : ∀ e ∈ envs, e.receives = true)
    (last : Env) :
    ∃ t, Runs step s (deliveries conn (transferFiles data env bufs ++ [endFile]) (envs ++ [last])) t ∧
      t.storedFile conn = some (receivedBytes (transferFiles data env bufs) envs) ∧
      t.clientOKNum = s.clientOKNum + 1 := by
  have hall := henvs.trans (length_transferFiles hlen)
  obtain ⟨e, envs, rfl⟩ := List.exists_cons_of_length_eq_add_one henvs
  rw [List.forall_mem_cons] at hr
  have hend : ∀ f ∈ chunkPatches .RESULT (chunks kBufSize (data.drop kBufSize)) bufs, f.fileType ≠ .END := by
    intro f hf
    obtain ⟨_, -, _, -, rfl⟩ := mem_chunkPatches hf
    nofun
  have hfirst : ∀ f ∈ chunkPatches .RESULT (chunks kBufSize (data.drop kBufSize)) bufs,
      f.firstPatch = false := by
    intro f hf
    obtain ⟨_, -, _, -, rfl⟩ := mem_chunkPatches hf
    rfl
  obtain ⟨u, hu, hrec⟩ := receiving_first hup hcmd
    (show (LkpClient.resultPatch (toInt32 data.length) data env.stack).fileType ≠ .END from nofun) rfl hr.1
  obtain ⟨v, hv, hrec⟩ := hrec.runs (Nat.add_right_cancel henvs) hend hfirst
  obtain ⟨t, ht, hname, hstored, hok⟩ := hrec.finish last
  refine ⟨t, ?_, ?_, ?_⟩
  · rw [deliveries, List.zipWith_append henvs.symm, transferFiles, List.zipWith_cons_cons]
    exact ((Runs.single hu).append hv).append (.single ht)
  · rw [storedFile, hname, Option.bind_some, hstored, transferFiles, receivedBytes]
  · -- as many bytes are written as were announced
    have hsum : (receivedBytes (transferFiles data env bufs) (e :: envs)).length = data.length := by
      rw [receivedBytes_transferFiles, length_receivedBytes (length_piecesOf_le hlen _) hall
        (fun _ => length_le_of_mem_piecesOf), flatten_piecesOf]
    rw [transferFiles, receivedBytes] at hsum
    rw [hok, hsum, if_pos]
    rw [show (LkpClient.resultPatch (toInt32 data.length) data env.stack).fileSize =
      u32 (toInt32 data.length) from rfl, intOfU32_u32, toInt32_toInt32]

/-- Whatever was behind the buffers, an undisturbed transfer comes to its end. -/
theorem exists_transferred (hc : c.Ready) (hm : m.command = .RESULT)
    (hdata : c.disk (LkpClient.resultFile c.ROOT_DIR) = some data) (hup : (s.conns conn).isUp = true)
    (hcmd : s.CmdConnection.isSome = true) (b : UInt8) :
    ∃ (t : LkpServer) (bufs : List Bytes) (envs : List Env), Transferred c m s conn t ∧
      (piecesOf data).length ≤ bufs.length ∧ envs.length = (piecesOf data).length ∧
      (∀ e ∈ envs, e.beyond = fun _ => b) ∧
      t.storedFile conn = some (receivedBytes (chunkPatches .RESULT (piecesOf data) bufs) envs) ∧
      t.clientOKNum = s.clientOKNum + 1 := by
  let bufs : List Bytes := List.replicate ((chunks kBufSize (data.drop kBufSize)).length + 1) []
  let e : Env := { beyond := fun _ => b }
  let envs := List.replicate (piecesOf data).length e
  have hlen : bufs.length = (chunks kBufSize (data.drop kBufSize)).length + 1 := List.length_replicate
  have henvs : envs.length = (piecesOf data).length := List.length_replicate
  have he : ∀ e' ∈ envs, e' = e := fun e' h => List.eq_of_mem_replicate h
  have hfiles : (transferFiles data {} bufs).length = (piecesOf data).length := length_transferFiles hlen
  obtain ⟨c', hc', hsent⟩ : ∃ c', Runs LkpClient.step c (transferEvents m {} bufs) c' ∧
      c'.sent = c.sent ++ (transferFiles data {} bufs ++ [endFile]).map .file :=
    hc.exists_runs hm hdata rfl hlen
  obtain ⟨t, ht, hstored, hok⟩ := LkpServer.exists_deliveries hup hcmd hlen (henvs.trans hfiles.symm)
    (fun e' h => by rw [he e' h]) e
  refine ⟨t, [] :: bufs, envs, ?_, length_piecesOf_le hlen [], henvs, fun e' h => by rw [he e' h], ?_, hok⟩
  · refine ⟨{}, bufs, c', _, envs ++ [e], rfl, hc', hsent, ?_, ?_, ht⟩
    · rw [List.length_append, henvs, hfiles]
      rfl
    · intro e' h
      rcases List.mem_append.1 h with h | h
      · rw [he e' h]
      · rw [List.mem_singleton.1 h]
  · rw [hstored, show envs = e :: List.replicate (chunks kBufSize (data.drop kBufSize)).length e from rfl,
      receivedBytes_transferFiles]

/-- **When result files arrive.**  A transfer comes to its end, and whatever lies behind
    the buffers it leaves the client's file on the server, iff no chunk of the file has
    a NUL before its last byte. -/
theorem byteExact_iff (hc : c.Ready) (hm : m.command = .RESULT)
    (hdata : c.disk (LkpClient.resultFile c.ROOT_DIR) = some data) (hup : (s.conns conn).isUp = true)
    (hcmd : s.CmdConnection.isSome = true) :
    (∃ t, Transferred c m s conn t) ∧
      (ByteExact c m s conn ↔ ∀ chunk ∈ chunks kBufSize data, 0 ∉ chunk.dropLast) := by
  rw [← forall_mem_piecesOf (P := fun chunk => 0 ∉ chunk.dropLast) (by simp)]
  refine ⟨?_, ?_, ?_⟩
  · obtain ⟨t, -, -, ht, -⟩ := exists_transferred hc hm hdata hup hcmd 0
    exact ⟨t, ht⟩
  · intro hexact piece hpiece hnul
    -- the memory behind the string can differ from the piece
    obtain ⟨b, hb⟩ := exists_cBytes_ne hnul
    obtain ⟨t, bufs, envs, ht, hbufs, henvs, he, hstored, -⟩ := exists_transferred hc hm hdata hup hcmd b
    have heq := (hexact t ht).1
    rw [hstored, hdata, Option.some.injEq] at heq
    obtain ⟨buf, hbuf⟩ := piece_of_receivedBytes hbufs henvs (fun _ => length_le_of_mem_piecesOf) he
      (heq.trans (flatten_piecesOf data).symm) piece hpiece
    exact hb buf hbuf
  · rintro hnul t ⟨env, bufs, c', files, envs, ho, hruns, hsent, henvs, hr, ht⟩
    obtain ⟨rfl, hlen⟩ := hc.files_eq hm hdata ho hruns hsent
    rcases List.eq_nil_or_concat envs with rfl | ⟨envs, last, rfl⟩
    · cases henvs
    rw [List.concat_eq_append] at henvs hr ht
    rw [List.length_append] at henvs
    have henvs := Nat.add_right_cancel henvs
    obtain ⟨t', ht', hstored, -⟩ := LkpServer.exists_deliveries hup hcmd hlen henvs
      (fun e he => hr e (List.mem_append_left _ he)) last
    obtain rfl := ht.det ht'
    rw [receivedBytes_transferFiles, receivedBytes_of_no_nul (length_piecesOf_le hlen _)
      (henvs.trans (length_transferFiles hlen)) (fun _ => length_le_of_mem_piecesOf) hnul,
      flatten_piecesOf, ← hdata] at hstored
    exact ⟨hstored, fun _ => hstored⟩

end

/-- A text arrives. -/
theorem byteExact_text : ∃ s, Runs LkpServer.step (.start "/lkp" 3) [.up 1 "10.0.0.1", .up 9 "127.0.0.1"] s ∧
    ByteExact (LkpClient.joined [104, 105, 10]) { command := .RESULT } s 1 := by
  obtain ⟨s, hs, hup, hcmd⟩ : ∃ s, Runs LkpServer.step (.start "/lkp" 3)
      [.up 1 "10.0.0.1", .up 9 "127.0.0.1"] s ∧ (s.conns 1).isUp = true ∧ s.CmdConnection.isSome = true :=
    Runs.exists_of_run (by decide +kernel)
  exact ⟨s, hs, (byteExact_iff ⟨rfl, rfl, rfl, rfl⟩ rfl rfl hup hcmd).2.2 (by decide +kernel)⟩

/-- A file with a NUL is damaged, and counted. -/
theorem byteExact_nul : ¬ ∀ (c : LkpClient) (m : Command) (s : LkpServer) (conn : ConnId), c.Ready →
    m.command = .RESULT → (c.disk (LkpClient.resultFile c.ROOT_DIR)).isSome = true →
    (s.conns conn).isUp = true → s.CmdConnection.isSome = true → ByteExact c m s conn := by
  intro h
  obtain ⟨c', hc', hsent⟩ : ∃ c', Runs LkpClient.step (LkpClient.joined [65, 0, 66])
      (transferEvents { command := .RESULT } {} [[]]) c' ∧ c'.sent =
        [.file (LkpClient.resultPatch 3 [65, 0, 66] []), .file endFile] :=
    Runs.exists_of_run (by decide +kernel)
  obtain ⟨s, -, ⟨hup, hcmd⟩, t, ht, hstored⟩ : ∃ s, Runs LkpServer.step (.start "/lkp" 3)
      [.up 1 "10.0.0.1", .up 9 "127.0.0.1"] s ∧
      ((s.conns 1).isUp = true ∧ s.CmdConnection.isSome = true) ∧
      ∃ t ∈ runEvents LkpServer.step s (LkpServer.deliveries 1
        [LkpClient.resultPatch 3 [65, 0, 66] [], endFile] [{}, {}]),
        t.storedFile 1 = some [65, 0, 0] ∧ t.clientOKNum ≠ s.clientOKNum :=
    Runs.exists_of_run (by decide +kernel)
  have hexact := h (LkpClient.joined [65, 0, 66]) { command := .RESULT } s 1 ⟨rfl, rfl, rfl, rfl⟩ rfl rfl hup
    hcmd t ⟨{}, [[]], c', [LkpClient.resultPatch 3 [65, 0, 66] []], [{}, {}], rfl, hc', hsent, rfl,
      by simp, .of_runEvents ht⟩
  rw [hstored.1] at hexact
  exact absurd (hexact.2 hstored.2) (by decide +kernel)

end LkpExtent
