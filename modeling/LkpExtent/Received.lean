/-
  LkpExtent formalization — the result files that the server receives.

  `Received` is the part of the server's state through which result files are
  received.

  * `transfers_*`: what belongs to no transfer leaves it unchanged, and the streams of the
    files being pushed;
  * `received_step`: everything but a `File` message leaves it unchanged;
  * `writesTo`, `FileStep`: what a `File` message writes, and where.
-/
import LkpExtent.Members

namespace LkpExtent

open Lib

structure Received where
  root : String
  fileName : ConnId → Option String
  fileSize : ConnId → Option ℤ
  outputfp : ConnId → Option (Option FILE)
  disk : Disk

namespace LkpServer
variable {s t : LkpServer} {conn : ConnId}

def received (s : LkpServer) : Received where
  root := s.ROOT_DIR
  fileName := s.fileNameMap
  fileSize := s.fileSizeMap
  outputfp := s.outputfpMap
  disk := s.disk

/-- The part of the state that transfers in both directions use. -/
structure Transfers where
  fp : ConnId → Option (Option Bytes)
  received : Received

def transfers (s : LkpServer) : Transfers := ⟨s.fpMap, s.received⟩

theorem received_of_transfers (h : t.transfers = s.transfers) : t.received = s.received :=
  congrArg Transfers.received h

theorem fpMap_of_transfers (h : t.transfers = s.transfers) : t.fpMap = s.fpMap := congrArg Transfers.fp h

theorem inTables_eq (s : LkpServer) (conn : ConnId) : s.inTables conn =
    ((s.fpMap conn).isSome || (s.received.fileName conn).isSome || (s.received.fileSize conn).isSome ||
      (s.received.outputfp conn).isSome) := rfl

theorem inTables_of_transfers (h : t.transfers = s.transfers) (conn : ConnId) :
    t.inTables conn = s.inTables conn := by
  rw [inTables_eq, inTables_eq, fpMap_of_transfers h, received_of_transfers h]

/-! ## What leaves the transfers unchanged -/

@[simp] theorem transfers_setConn (c : TcpConnection Entry) : (s.setConn conn c).transfers = s.transfers := rfl

@[simp] theorem transfers_send (m : Message) : (s.send conn m).transfers = s.transfers := rfl

@[simp] theorem transfers_setClientNum (n : ℕ) : (s.setClientNum n).transfers = s.transfers := rfl

@[simp] theorem transfers_resetCounters : s.resetCounters.transfers = s.transfers := rfl

@[simp] theorem transfers_pushBucket : s.pushBucket.transfers = s.transfers := rfl

@[simp] theorem transfers_sendToClient (m : Message) (c : Option ConnId) :
    (s.sendToClient m c).transfers = s.transfers := by
  simp only [sendToClient]
  cases c with
  | none => rfl
  | some c => simp only; split_ifs <;> simp

theorem transfers_sendToCmdClient {m : Message} (h : s.sendToCmdClient m = .ok t) :
    t.transfers = s.transfers := by
  simp only [sendToCmdClient] at h
  split at h
  · cases h; split_ifs <;> simp
  · cases h

theorem transfers_replyIfComplete {command : CommandID} (h : s.replyIfComplete command = .ok t) :
    t.transfers = s.transfers := by
  simp only [replyIfComplete] at h
  split_ifs at h
  · exact transfers_sendToCmdClient h
  · cases h; rfl

@[simp] theorem transfers_countAnswer (status : Bool) (nodeID : UInt32) (ackMessage : String) :
    (s.countAnswer status nodeID ackMessage).transfers = s.transfers := by
  simp only [countAnswer]
  cases status <;> rfl

theorem transfers_insertEntry {entry : Entry} (h : s.insertEntry entry = .ok t) :
    t.transfers = s.transfers := by
  obtain ⟨back, rest, -, rfl⟩ := insertEntry_ok h
  rfl

theorem transfers_onConnection (h : s.onConnection conn = .ok t) : t.transfers = s.transfers := by
  simp only [onConnection] at h
  split_ifs at h
  · cases h; rfl
  · split at h <;> cases h
    rfl
  · rcases hadd : s.clientPool.add conn with ⟨nodeID, clientPool⟩
    rw [hadd] at h
    obtain ⟨u, hu, h⟩ := bind_ok h
    cases h
    rw [transfers_setConn, transfers_insertEntry hu]
    rfl
  · cases h; rfl
  · split at h
    · cases h
    · split_ifs at h
      cases h; rfl

theorem transfers_onHeartBeat (h : s.onHeartBeat conn = .ok t) : t.transfers = s.transfers := by
  simp only [onHeartBeat] at h
  split at h
  · cases h
  · split_ifs at h
    · exact transfers_insertEntry h
    · cases h; rfl

@[simp] theorem transfers_destroy (entry : Entry) : (s.destroy entry).transfers = s.transfers := by
  simp only [destroy]
  split_ifs <;> rfl

@[simp] theorem transfers_onTimer (order : List Entry) : (s.onTimer order).transfers = s.transfers := by
  have hfold : ∀ u : LkpServer, (order.foldl destroy u).transfers = u.transfers := by
    induction order with
    | nil => intro u; rfl
    | cons entry order ih => intro u; rw [List.foldl_cons, ih, transfers_destroy]
  rw [onTimer, hfold, transfers_pushBucket]

@[simp] theorem transfers_broadToClients (m : Command) : (s.broadToClients m).transfers = s.transfers := by
  simp only [broadToClients]
  generalize s.clientPool.connections.toList = its
  induction its generalizing s with
  | nil => rfl
  | cons it its ih => rw [List.foldl_cons, ih, transfers_sendToClient]

@[simp] theorem transfers_forward (m : Command) : (s.forward m).transfers = s.transfers := by
  simp only [forward]
  split_ifs <;> simp

theorem transfers_onCommandMsg {m : Command} {env : Env} (h : s.onCommandMsg m env = .ok t)
    (hm : m.command ≠ .PUSH) : t.transfers = s.transfers := by
  simp only [onCommandMsg] at h
  split at h
  · cases h; rw [transfers_forward, transfers_resetCounters]
  · cases h; rw [transfers_forward, transfers_resetCounters]
  · cases h; rw [transfers_forward, transfers_resetCounters]
  · exact absurd (by assumption) hm
  · rw [transfers_sendToCmdClient h, transfers_resetCounters]
  · cases h; rfl

/-- The events of a transfer: a `File` message, the command that starts a push, and a call
    of the callback. -/
def ofTransfer : ServerEvent → Bool
  | .message _ (.file _) _ => true
  | .message _ (.command m) _ => m.command = .PUSH
  | .writeComplete _ _ => true
  | _ => false

theorem transfers_step {e : ServerEvent} (hs : s.step e = some t) (he : ofTransfer e = false) :
    t.transfers = s.transfers := by
  obtain ⟨-, h⟩ := step_eq_some.1 hs
  cases e with
  | up c ip => exact (transfers_onConnection h).trans (transfers_setConn _)
  | down c => exact (transfers_onConnection h).trans (transfers_setConn _)
  | message c m env =>
    cases m with
    | command m => exact transfers_onCommandMsg h (of_decide_eq_false he)
    | file m => cases he
    | commandACK m => exact (transfers_replyIfComplete h).trans (transfers_countAnswer _ _ _)
    | heartBeat m => exact transfers_onHeartBeat h
    | pushACK m => exact (transfers_replyIfComplete h).trans (transfers_countAnswer _ _ _)
    | ret m => cases h; rfl
  | written c => cases h; rfl
  | writeComplete c stack => cases he
  | timer order => cases h; exact transfers_onTimer order

/-! ## What leaves the received files unchanged -/

theorem received_sendToClient (m : Message) (c : Option ConnId) :
    (s.sendToClient m c).received = s.received := received_of_transfers (transfers_sendToClient m c)

theorem received_startPush (m : Command) (env : Env) (nodeID : ℤ) (c : ConnId) :
    (s.startPush m env nodeID c).received = s.received := by
  simp only [startPush]
  rw [received_sendToClient]
  rfl

theorem received_startPushes (m : Command) (env : Env) (its : List (ℤ × ConnId)) :
    (startPushes m env its s).received = s.received := by
  induction its generalizing s with
  | nil => rfl
  | cons it its ih =>
    rw [startPushes]
    split_ifs
    · rw [ih, received_startPush]
    · rfl

theorem received_pushToClient {m : Command} {env : Env} (h : s.pushToClient m env = .ok t) :
    t.received = s.received := by
  simp only [pushToClient] at h
  split_ifs at h
  · split at h <;> cases h
    exact received_startPush m env _ _
  · cases h; rfl
  · cases h; exact received_startPushes m env _

theorem received_onWriteComplete {stack : Bytes} (h : s.onWriteComplete conn stack = .ok t) :
    t.received = s.received := by
  simp only [onWriteComplete] at h
  split at h
  · split at h <;> cases h <;> rw [received_sendToClient] <;> rfl
  · cases h

def isFile : ServerEvent → Bool
  | .message _ (.file _) _ => true
  | _ => false

/-- **Only a `File` message changes the files.** -/
theorem received_step {e : ServerEvent} (hs : s.step e = some t) (he : isFile e = false) :
    t.received = s.received := by
  by_cases ht : ofTransfer e = true
  · obtain ⟨-, h⟩ := step_eq_some.1 hs
    cases e with
    | message c m env =>
      cases m with
      | command m =>
        have h : s.onCommandMsg m env = .ok t := h
        simp only [onCommandMsg] at h
        rw [of_decide_eq_true ht] at h
        exact received_pushToClient (s := s.resetCounters) h
      | file m => cases he
      | _ => cases ht
    | writeComplete c stack => exact (received_onWriteComplete h).trans rfl
    | _ => cases ht
  · exact received_of_transfers (transfers_step hs (Bool.eq_false_iff.2 ht))

/-! ## What a `File` message does -/

/-- The path that a `File` message is written to; an END writes what the stream has kept. -/
def writesTo (s : LkpServer) (conn : ConnId) (message : File) (env : Env) : Option String :=
  if message.fileType = .END then (s.outputfpMap conn).join.map FILE.path
  else if message.firstPatch then
    if env.receives then some (resultPath s.ROOT_DIR (intOfU32 message.nodeId) message.fileName) else none
  else (s.outputfpMap conn).join.map FILE.path

/-- The bytes that a patch writes. -/
def bytesOf (message : File) (env : Env) : Bytes := cBytes message.content env.beyond message.patchLen.toNat

theorem fcloseOutput_eq (h : s.fcloseOutput conn = .ok t) : ∃ fp, s.outputfpMap conn = some (some fp) ∧
    t = { s with
      disk := s.disk.write fp fp.buffer
      outputfpMap := Function.update s.outputfpMap conn (some (some fp.fclose)) } := by
  simp only [fcloseOutput] at h
  split at h
  · rename_i fp hfp
    split_ifs at h
    cases h; exact ⟨fp, hfp, rfl⟩
  · cases h

theorem fwriteOutput_eq {message : File} {env : Env} (h : s.fwriteOutput conn message env = .ok t) :
    ∃ fp, s.outputfpMap conn = some (some fp) ∧ t = { s with
      disk := s.disk.write fp (fp.flushed (bytesOf message env) env.kept)
      outputfpMap := Function.update s.outputfpMap conn
        (some (some (fp.fwrite (bytesOf message env) env.kept))) } := by
  simp only [fwriteOutput] at h
  split at h
  · rename_i fp hfp
    split_ifs at h
    cases h; exact ⟨fp, hfp, rfl⟩
  · cases h

theorem received_checkComplete (message : File) (env : Env) :
    (s.checkComplete conn message env).received = { s.received with
      fileName := touch s.fileNameMap conn ""
      fileSize := touch s.fileSizeMap conn 0 } := by
  simp only [checkComplete]
  split_ifs <;> rfl

theorem openOutput_announce (message : File) : (s.announce conn message).openOutput conn =
    { s.announce conn message with
      disk := s.disk.truncate (resultPath s.ROOT_DIR (intOfU32 message.nodeId) message.fileName)
      outputfpMap := Function.update s.outputfpMap conn
        (some (some { path := resultPath s.ROOT_DIR (intOfU32 message.nodeId) message.fileName })) } := by
  have hname : (s.announce conn message).fileNameMap conn =
      some (resultPath s.ROOT_DIR (intOfU32 message.nodeId) message.fileName) := Function.update_self ..
  rw [openOutput, hname]
  rfl

/-- The handling of a `File` message, as far as the files are concerned: the end of a
    transfer, a first patch whose file does not open, or a write. -/
inductive FileStep (s : LkpServer) (conn : ConnId) (message : File) (env : Env) (r : Received) : Prop
  | finish {fp : FILE} : message.fileType = .END → s.outputfpMap conn = some (some fp) →
      r = { s.received with
        fileName := touch s.fileNameMap conn ""
        fileSize := touch s.fileSizeMap conn 0
        outputfp := Function.update s.outputfpMap conn (some (some fp.fclose))
        disk := s.disk.write fp fp.buffer } →
      FileStep s conn message env r
  | refused : message.fileType ≠ .END → message.firstPatch = true → env.receives = false →
      r = (s.announce conn message).received → FileStep s conn message env r
  | first {fp : FILE} : message.fileType ≠ .END → message.firstPatch = true → env.receives = true →
      fp = { path := resultPath s.ROOT_DIR (intOfU32 message.nodeId) message.fileName } →
      r = { (s.announce conn message).received with
        disk := (s.disk.truncate fp.path).write fp (fp.flushed (bytesOf message env) env.kept)
        outputfp := Function.update s.outputfpMap conn
          (some (some (fp.fwrite (bytesOf message env) env.kept))) } →
      FileStep s conn message env r
  | patch {fp : FILE} : message.fileType ≠ .END → message.firstPatch = false →
      s.outputfpMap conn = some (some fp) →
      r = { s.received with
        disk := s.disk.write fp (fp.flushed (bytesOf message env) env.kept)
        outputfp := Function.update s.outputfpMap conn
          (some (some (fp.fwrite (bytesOf message env) env.kept))) } →
      FileStep s conn message env r

theorem fileStep_onFileMsg {message : File} {env : Env} (h : s.onFileMsg conn message env = .ok t) :
    FileStep s conn message env t.received := by
  simp only [onFileMsg] at h
  split_ifs at h with hend hfirst hreceives
  · obtain ⟨u, hu, h⟩ := bind_ok h
    obtain ⟨fp, hfp, rfl⟩ := fcloseOutput_eq hu
    exact .finish hend hfp
      ((received_of_transfers (transfers_replyIfComplete h)).trans (received_checkComplete _ _))
  · simp only [openOutput_announce] at h
    obtain ⟨fp, hfp, rfl⟩ := fwriteOutput_eq h
    simp only [Function.update_self, Option.some.injEq] at hfp
    refine .first hend hfirst hreceives hfp.symm ?_
    rw [← hfp]
    simp only [received, Function.update_idem]
  · cases h
    exact .refused hend hfirst (by simpa using hreceives) rfl
  · obtain ⟨fp, hfp, rfl⟩ := fwriteOutput_eq h
    exact .patch hend (by simpa using hfirst) hfp rfl

theorem root_fileStep {message : File} {env : Env} {r : Received} (h : FileStep s conn message env r) :
    r.root = s.ROOT_DIR := by
  cases h with
  | finish _ _ hr => rw [hr]; rfl
  | refused _ _ _ hr => rw [hr]; rfl
  | first _ _ _ _ hr => rw [hr]; rfl
  | patch _ _ _ hr => rw [hr]; rfl

end LkpServer

end LkpExtent
