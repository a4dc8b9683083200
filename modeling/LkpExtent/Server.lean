/-
  LkpExtent formalization — `lkpServer` of `lkpServer.h` and `lkpServer.cc`.

  One handler runs at a time.  A handler is a function on the state of the server,
  its connections, the result files and the log of the messages sent.  What the
  environment decides while a handler runs (which files open, the bytes that lie
  in memory behind a buffer) is in `Env`.
-/
import LkpExtent.Patch
import LkpExtent.Pool
import Mathlib.Data.Finset.Dedup
import Mathlib.Data.Finset.Insert
import Mathlib.Data.Finset.Filter

namespace LkpExtent

open Lib

/-- `lkpServer::Entry`: a weak reference to a connection, and its node ID.  There is
    one for each connection of a client, owned by the buckets that contain it. -/
structure Entry where
  weakConn : ConnId
  nodeID : ℤ
  deriving DecidableEq, Repr

structure LkpServer where
  ROOT_DIR : String := ""
  CmdConnection : Option ConnId := none
  hasCmdConnected : Bool := false
  clientPool : LkpClientPool := {}
  /-- the streams of the files being pushed, as the bytes not yet read -/
  fpMap : ConnId → Option (Option Bytes) := fun _ => none
  fileNameMap : ConnId → Option String := fun _ => none
  fileSizeMap : ConnId → Option ℤ := fun _ => none
  outputfpMap : ConnId → Option (Option FILE) := fun _ => none
  clientNum : ℕ := 0
  clientOKNum : ℕ := 0
  ackTimes : ℕ := 0
  /-- the circular buffer, its back first; it is always full -/
  connectionBuckets : List (Finset Entry) := []
  conns : ConnId → TcpConnection Entry := fun _ => {}
  disk : Disk := fun _ => none
  sent : List (ConnId × Message) := []

/-- What the environment decides while a message is handled. -/
structure Env where
  /-- the test case to push -/
  testcase : Bytes := []
  /-- whether the test case can be opened for the push to this node -/
  opens : ℤ → Bool := fun _ => true
  /-- what lies in the buffer and after it behind the bytes read for this node -/
  stack : ℤ → Bytes := fun _ => []
  /-- whether the result file can be opened for writing -/
  receives : Bool := true
  /-- what lies in memory behind the NUL of a received content -/
  beyond : ℕ → UInt8 := fun _ => 0
  /-- how many of the last bytes written a stream keeps in its buffer -/
  kept : ℕ := 4096
  /-- the size found in `statbuf` when `stat` fails -/
  uninit : ℤ := 0

/-- `m[conn]` of an `unordered_map`: a missing key gets the default value `d`. -/
def touch {α : Type} (m : ConnId → Option α) (conn : ConnId) (d : α) : ConnId → Option α :=
  Function.update m conn (some ((m conn).getD d))

namespace LkpServer
variable (s : LkpServer)

/-- Change a connection. -/
def setConn (conn : ConnId) (c : TcpConnection Entry) : LkpServer :=
  { s with conns := Function.update s.conns conn c }

/-- `codec_.send`. -/
def send (conn : ConnId) (message : Message) : LkpServer :=
  { s.setConn conn (s.conns conn).send with sent := s.sent ++ [(conn, message)] }

/-- `lkpServer::SendToClient`. -/
def sendToClient (message : Message) : Option ConnId → LkpServer
  | some conn => if (s.conns conn).connected then s.send conn message else s
  | none => s

/-- `lkpServer::SendToCmdClient`. -/
def sendToCmdClient (message : Message) : Except Fault LkpServer :=
  match s.CmdConnection with
  | some conn => .ok (if (s.conns conn).connected then s.send conn message else s)
  | none => .error .nullConn

/-! ## Connections and the time wheel -/

/-- An `Entry` lives as long as some bucket contains it. -/
def entryAlive (entry : Entry) : Bool := s.connectionBuckets.any fun bucket => entry ∈ bucket

/-- The connection is a value of the pool. -/
def inPool (conn : ConnId) : Bool := s.clientPool.connections.toList.any fun c => c.2 = conn

/-- The connection is a key of one of the transfer tables. -/
def inTables (conn : ConnId) : Bool :=
  (s.fpMap conn).isSome || (s.fileNameMap conn).isSome || (s.fileSizeMap conn).isSome ||
    (s.outputfpMap conn).isSome

/-- `weakConn_.lock()` is not null: the TCP server holds a connection until it has
    gone down, the pool and the tables hold it as long as they contain it. -/
def connAlive (conn : ConnId) : Bool := (s.conns conn).isUp || s.inPool conn || s.inTables conn

/-- `connectionBuckets_.back().insert(entry)`. -/
def insertEntry (entry : Entry) : Except Fault LkpServer :=
  match s.connectionBuckets with
  | [] => .error .noBucket
  | back :: rest => .ok { s with connectionBuckets := insert entry back :: rest }

/-- `lkpServer::onConnection`. -/
def onConnection (conn : ConnId) : Except Fault LkpServer :=
  if (s.conns conn).connected then
    if (s.conns conn).peerIp = "127.0.0.1" then
      if s.hasCmdConnected = false then
        .ok { s with CmdConnection := some conn, hasCmdConnected := true }
      else
        match s.CmdConnection with
        | some cmd => .ok (s.setConn cmd (s.conns cmd).shutdown)
        | none => .error .nullConn
    else do
      let (nodeID, clientPool) := s.clientPool.add conn
      let entry : Entry := ⟨conn, nodeID⟩
      let s ← { s with clientPool }.insertEntry entry
      .ok (s.setConn conn { s.conns conn with context := some entry })
  else if s.hasCmdConnected then
    .ok { s with hasCmdConnected := false }
  else
    match (s.conns conn).context with
    | none => .error .badAnyCast
    | some entry =>
      if s.entryAlive entry then .ok { s with clientPool := (s.clientPool.del entry.nodeID).2 }
      else .error .nullEntry

/-- `lkpServer::onHeartBeat`. -/
def onHeartBeat (conn : ConnId) : Except Fault LkpServer :=
  match (s.conns conn).context with
  | none => .error .badAnyCast
  | some entry => if s.entryAlive entry then s.insertEntry entry else .ok s

/-- `lkpServer::Entry::~Entry`. -/
def destroy (entry : Entry) : LkpServer :=
  if s.connAlive entry.weakConn then
    { s.setConn entry.weakConn (s.conns entry.weakConn).shutdown with
      clientPool := (s.clientPool.del entry.nodeID).2 }
  else s

/-- The entries that only the oldest bucket contains. -/
def expiring : Finset Entry :=
  (s.connectionBuckets.getLast?.getD ∅).filter fun entry =>
    ∀ bucket ∈ s.connectionBuckets.dropLast, entry ∉ bucket

/-- `connectionBuckets_.push_back(Bucket())` on the full buffer, its entries not yet
    destroyed. -/
def pushBucket : LkpServer :=
  { s with connectionBuckets := match s.connectionBuckets with
    | [] => []
    | back :: rest => ∅ :: (back :: rest).dropLast }

/-- `lkpServer::onTimer`; the entries that expire are destroyed in the given order. -/
def onTimer (order : List Entry) : LkpServer := order.foldl destroy s.pushBucket

/-! ## Answers and Returns -/

/-- The `Return` made of the counters and of the messages of the nodes. -/
def returnOf (command : CommandID) : Return where
  command
  clientNum := u32 s.clientNum
  clientOkNum := u32 s.clientOKNum
  nodeInfo := s.clientPool.nodeInfo.toList.map fun info => ⟨u32 info.1, info.2⟩

/-- The end of every answer handler: the Return is sent when all answers are in. -/
def replyIfComplete (command : CommandID) : Except Fault LkpServer :=
  if s.ackTimes = s.clientNum then s.sendToCmdClient (.ret (s.returnOf command)) else .ok s

/-- The beginning of the two ACK handlers. -/
def countAnswer (status : Bool) (nodeID : UInt32) (ackMessage : String) : LkpServer :=
  let s := { s with ackTimes := s.ackTimes + 1 }
  if status then { s with clientOKNum := s.clientOKNum + 1 }
  else { s with clientPool := s.clientPool.updateInfo (intOfU32 nodeID) ackMessage }

/-- `lkpServer::onPushACK`. -/
def onPushACK (message : PushACK) : Except Fault LkpServer :=
  (s.countAnswer message.status message.nodeId message.ackMessage).replyIfComplete .PUSH

/-- `lkpServer::onCommandACK`. -/
def onCommandACK (message : CommandACK) : Except Fault LkpServer :=
  (s.countAnswer message.status message.nodeId message.ackMessage).replyIfComplete message.command

/-! ## Result files -/

/-- The path of the result of a node. -/
def resultPath (root : String) (nodeID : ℤ) (fileName : String) : String :=
  root ++ "/results/remote/node" ++ toString nodeID ++ "-" ++ fileName

/-- `::fclose(outputfpMap_[conn])`. -/
def fcloseOutput (conn : ConnId) : Except Fault LkpServer :=
  match s.outputfpMap conn with
  | some (some fp) =>
    if fp.isOpen then
      .ok { s with
        disk := s.disk.write fp fp.buffer
        outputfpMap := Function.update s.outputfpMap conn (some (some fp.fclose)) }
    else .error .closedFile
  | _ => .error .nullFile

/-- `fwrite(message->content().c_str(), 1, message->patch_len(), outputfpMap_[conn])`. -/
def fwriteOutput (conn : ConnId) (message : File) (env : Env) : Except Fault LkpServer :=
  match s.outputfpMap conn with
  | some (some fp) =>
    if fp.isOpen then
      let data := cBytes message.content env.beyond message.patchLen.toNat
      .ok { s with
        disk := s.disk.write fp (fp.flushed data env.kept)
        outputfpMap := Function.update s.outputfpMap conn (some (some (fp.fwrite data env.kept))) }
    else .error .closedFile
  | _ => .error .nullFile

/-- The first patch: the tables get the path and the announced size. -/
def announce (conn : ConnId) (message : File) : LkpServer :=
  { s with
    fileNameMap := Function.update s.fileNameMap conn
      (some (resultPath s.ROOT_DIR (intOfU32 message.nodeId) message.fileName))
    fileSizeMap := Function.update s.fileSizeMap conn (some (intOfU32 message.fileSize)) }

/-- `fopen(fileNameMap_[conn].c_str(), "wb")`, stored in `outputfpMap_`. -/
def openOutput (conn : ConnId) : LkpServer :=
  let path := (s.fileNameMap conn).getD ""
  { s with
    disk := s.disk.truncate path
    outputfpMap := Function.update s.outputfpMap conn (some (some { path })) }

/-- The completeness check of an END message. -/
def checkComplete (conn : ConnId) (message : File) (env : Env) : LkpServer :=
  let s := { s with
    fileNameMap := touch s.fileNameMap conn ""
    fileSizeMap := touch s.fileSizeMap conn 0 }
  let recvSize := toInt32 (s.disk.stSize ((s.fileNameMap conn).getD "") env.uninit)
  if recvSize ≠ (s.fileSizeMap conn).getD 0 then
    { s with clientPool := s.clientPool.updateInfo (intOfU32 message.nodeId) "file is not completed" }
  else { s with clientOKNum := s.clientOKNum + 1 }

/-- `lkpServer::onFileMsg`. -/
def onFileMsg (conn : ConnId) (message : File) (env : Env) : Except Fault LkpServer :=
  if message.fileType = .END then do
    let s ← { s with ackTimes := s.ackTimes + 1 }.fcloseOutput conn
    (s.checkComplete conn message env).replyIfComplete .RESULT
  else if message.firstPatch then
    let s := s.announce conn message
    if env.receives then (s.openOutput conn).fwriteOutput conn message env else .ok s
  else s.fwriteOutput conn message env

/-! ## Commands -/

/-- `lkpServer::BroadToClients`. -/
def broadToClients (message : Command) : LkpServer :=
  s.clientPool.connections.toList.foldl
    (fun s it => s.sendToClient (.command { message with nodeId := u32 it.1 }) (some it.2)) s

/-- The first patch of a push to a node. -/
def pushPatch (message : Command) (env : Env) (nodeID : ℤ) : File where
  fileType := .TESTCASE
  nodeId := u32 nodeID
  fileSize := u32 (toInt32 env.testcase.length)
  patchLen := u32 (min kBufSize env.testcase.length : ℕ)
  firstPatch := true
  content := cString (env.testcase.take kBufSize ++ env.stack nodeID)
  fileName := message.testcase

/-- The start of a push to a node whose file has been opened. -/
def startPush (message : Command) (env : Env) (nodeID : ℤ) (conn : ConnId) : LkpServer :=
  let s := { s with
    fpMap := Function.update s.fpMap conn (some (some (env.testcase.drop kBufSize))) }
  let s := s.setConn conn { s.conns conn with writeCompleteCallback := true }
  s.sendToClient (.file (pushPatch message env nodeID)) (some conn)

/-- The loop of a broadcast push, left at the first file that does not open. -/
def startPushes (message : Command) (env : Env) : List (ℤ × ConnId) → LkpServer → LkpServer
  | [], s => s
  | (nodeID, conn) :: rest, s =>
    if env.opens nodeID then startPushes message env rest (s.startPush message env nodeID conn) else s

def setClientNum (n : ℕ) : LkpServer := { s with clientNum := n }

/-- `lkpServer::pushToClient`. -/
def pushToClient (message : Command) (env : Env) : Except Fault LkpServer :=
  if message.sendToAll = false then
    let s := s.setClientNum 1
    let nodeID := intOfU32 message.nodeId
    if env.opens nodeID then
      match s.clientPool.getConn nodeID with
      | some conn => .ok (s.startPush message env nodeID conn)
      | none => .error .nullConn
    else .ok s
  else
    let s := s.setClientNum s.clientPool.size
    .ok (startPushes message env s.clientPool.connections.toList s)

/-- The forwarding of an UPDATE, RUN or RESULT command. -/
def forward (message : Command) : LkpServer :=
  if message.sendToAll = false then
    (s.sendToClient (.command message) (s.clientPool.getConn (intOfU32 message.nodeId))).setClientNum 1
  else
    let s := s.broadToClients message
    s.setClientNum s.clientPool.size

/-- The Return of a LIST command. -/
def listReturn (command : CommandID) : Return where
  command
  clientNum := u32 s.clientPool.size
  clientOkNum := u32 s.clientPool.size
  nodeInfo := s.clientPool.connections.toList.map fun it => ⟨u32 it.1, (s.conns it.2).peerIp⟩

/-- The beginning of `onCommandMsg`. -/
def resetCounters : LkpServer :=
  { s with clientNum := 0, clientOKNum := 0, ackTimes := 0, clientPool := s.clientPool.clearInfo }

/-- `lkpServer::onCommandMsg`.  The Return prepared for an unknown node ID is not
    sent, and `node_id() >= 0` holds of every unsigned ID. -/
def onCommandMsg (message : Command) (env : Env) : Except Fault LkpServer :=
  let s := s.resetCounters
  match message.command with
  | .UPDATE | .RUN | .RESULT => .ok (s.forward message)
  | .PUSH => s.pushToClient message env
  | .LIST => s.sendToCmdClient (.ret (s.listReturn message.command))
  | .other _ => .ok s

/-- `lkpServer::onWriteComplete`. -/
def onWriteComplete (conn : ConnId) (stack : Bytes) : Except Fault LkpServer :=
  let s := { s with fpMap := touch s.fpMap conn none }
  match s.fpMap conn with
  | some (some fp) =>
    match nextPatch .TESTCASE fp stack with
    | some (fileMessage, rest) =>
      let s := { s with fpMap := Function.update s.fpMap conn (some (some rest)) }
      .ok (s.sendToClient (.file fileMessage) (some conn))
    | none =>
      let s := s.setConn conn { s.conns conn with writeCompleteCallback := false }
      .ok (s.sendToClient (.file endFile) (some conn))
  | _ => .error .nullFile

/-- `lkpServer::onUnknownMsg`. -/
def onUnknownMsg (conn : ConnId) : LkpServer := s.setConn conn (s.conns conn).shutdown

/-- The dispatcher: the handler registered for the type of the message. -/
def onMessage (conn : ConnId) (message : Message) (env : Env) : Except Fault LkpServer :=
  match message with
  | .command m => s.onCommandMsg m env
  | .commandACK m => s.onCommandACK m
  | .pushACK m => s.onPushACK m
  | .file m => s.onFileMsg conn m env
  | .heartBeat _ => s.onHeartBeat conn
  | .ret _ => .ok (s.onUnknownMsg conn)

end LkpServer

/-! ## Events -/

/-- What can happen to the server. -/
inductive ServerEvent where
  | up (conn : ConnId) (peerIp : String)
  | down (conn : ConnId)
  | message (conn : ConnId) (m : Message) (env : Env)
  | written (conn : ConnId)
  | writeComplete (conn : ConnId) (stack : Bytes)
  | timer (order : List Entry)

namespace LkpServer
variable (s : LkpServer)

/-- Whether the event can happen. -/
def enabled : ServerEvent → Bool
  | .up conn _ => (s.conns conn).state = .kConnecting
  | .down conn => (s.conns conn).isUp
  | .message conn _ _ => (s.conns conn).isUp
  | .written conn => (s.conns conn).isUp && (s.conns conn).output
  | .writeComplete conn _ => 0 < (s.conns conn).queued
  | .timer order => order.Nodup ∧ order.toFinset = s.expiring

/-- The handling of an event. -/
def handle : ServerEvent → Except Fault LkpServer
  | .up conn peerIp =>
    (s.setConn conn { s.conns conn with state := .kConnected, peerIp }).onConnection conn
  | .down conn => (s.setConn conn { s.conns conn with state := .kDisconnected }).onConnection conn
  | .message conn m env => s.onMessage conn m env
  | .written conn => .ok (s.setConn conn (s.conns conn).written)
  | .writeComplete conn stack => (s.setConn conn (s.conns conn).dequeue).onWriteComplete conn stack
  | .timer order => .ok (s.onTimer order)

/-- A step of the server: an event that can happen and whose handling is defined. -/
def step (e : ServerEvent) : Option LkpServer := if s.enabled e then (s.handle e).toOption else none

/-- The server after its constructor and `start`, with `ServerTimeControl` buckets. -/
def start (root : String) (serverTimeControl : ℕ) : LkpServer :=
  { ROOT_DIR := root, connectionBuckets := List.replicate serverTimeControl ∅ }

end LkpServer

end LkpExtent
