/-
  LkpExtent formalization — `lkpClient` of `lkpClient.h` and `lkpClient.cc`.

  The process that runs the event loop.  A child that it forks to run `lkp-ctl` is
  seen through the outcome of `fork` and through the signal of its end.
-/
import LkpExtent.Patch

namespace LkpExtent

open Lib

structure LkpClient where
  ROOT_DIR : String := ""
  /-- the connection to the server; its context is the result file being sent, as
      the bytes not yet read -/
  conn : TcpConnection Bytes := {}
  /-- whether `connection_` points to it -/
  connection : Bool := false
  fileSize : ℤ := 0
  fileName : String := ""
  nodeID : ℤ := 0
  fp : Option FILE := none
  lastCmdString : String := ""
  childNum : ℕ := 0
  disk : Disk := fun _ => none
  /-- the commands that `system` has run -/
  shell : List String := []
  sent : List Message := []

/-- What the environment decides while a message is handled. -/
structure ClientEnv where
  /-- whether `fork` succeeds -/
  forks : Bool := true
  /-- whether the result file can be opened -/
  opens : Bool := true
  /-- what lies in the buffer and after it behind the bytes read -/
  stack : Bytes := []
  /-- whether the test case can be opened for writing -/
  receives : Bool := true
  /-- what lies in memory behind the NUL of a received content -/
  beyond : ℕ → UInt8 := fun _ => 0
  /-- how many of the last bytes written the stream keeps in its buffer -/
  kept : ℕ := 4096
  /-- the size found in `statbuf` when `stat` fails -/
  uninit : ℤ := 0

/-- `lkpEnumToCmds`, which leaves the string as it is for an unknown command. -/
def lkpEnumToCmds (lkpEnum : CommandID) (lkpCmdString : String) : String :=
  match lkpEnum with
  | .UPDATE => "UPDATE"
  | .RUN => "RUN"
  | .RESULT => "RESULT"
  | .PUSH => "PUSH"
  | .LIST => "LIST"
  | .other _ => lkpCmdString

namespace LkpClient
variable (c : LkpClient)

/-- `lkpClient::SendToServer`. -/
def sendToServer (message : Message) : Except Fault LkpClient :=
  if c.connection then
    .ok (if c.conn.connected then { c with conn := c.conn.send, sent := c.sent ++ [message] } else c)
  else .error .nullConn

/-- `lkpClient::onConnection`. -/
def onConnection : LkpClient := { c with connection := c.conn.connected }

/-! ## Commands -/

/-- The path of the local result file. -/
def resultFile (root : String) : String := root ++ "/results/local/result.tar"

/-- The first patch of a result file. -/
def resultPatch (fileSize : ℤ) (data stack : Bytes) : File where
  fileType := .RESULT
  fileSize := u32 fileSize
  patchLen := u32 (min kBufSize data.length : ℕ)
  firstPatch := true
  content := cString (data.take kBufSize ++ stack)
  fileName := "result.tar"

/-- `lkpClient::onResult`. -/
def onResult (message : Command) (env : ClientEnv) : Except Fault LkpClient :=
  let c := { c with nodeID := intOfU32 message.nodeId }
  let fileSize := toInt32 (c.disk.stSize (resultFile c.ROOT_DIR) env.uninit)
  match if env.opens then c.disk (resultFile c.ROOT_DIR) else none with
  | none =>
    c.sendToServer (.commandACK {
      command := message.command, nodeId := u32 c.nodeID, status := false
      ackMessage := "ERROR 14: No Result File in client" })
  | some data =>
    let conn := { c.conn with context := some (data.drop kBufSize), writeCompleteCallback := true }
    { c with conn }.sendToServer (.file (resultPatch fileSize data env.stack))

/-- The fork of `UPDATE` and `RUN`, as the parent sees it. -/
def forkChild (ACK : CommandACK) (env : ClientEnv) : Except Fault LkpClient :=
  let c := { c with childNum := c.childNum + 1 }
  if env.forks then c.sendToServer (.commandACK { ACK with status := true })
  else c.sendToServer (.commandACK { ACK with status := false, ackMessage := "ERROR 11: Fork Error!" })

/-- `lkpClient::onCommandMsg`. -/
def onCommandMsg (message : Command) (env : ClientEnv) : Except Fault LkpClient :=
  let ACK : CommandACK := { command := message.command, nodeId := message.nodeId }
  if c.childNum ≥ 1 then
    c.sendToServer (.commandACK { ACK with
      status := false
      ackMessage := "ERROR 10: Command " ++ c.lastCmdString ++ " is still running!" })
  else
    let c := { c with lastCmdString := lkpEnumToCmds message.command c.lastCmdString }
    match message.command with
    | .UPDATE | .RUN => c.forkChild ACK env
    | .RESULT => c.onResult message env
    | .PUSH => c.sendToServer (.pushACK { status := true })
    | .LIST | .other _ => .ok c

/-- `lkpClient::onWriteComplete`. -/
def onWriteComplete (stack : Bytes) : Except Fault LkpClient :=
  match c.conn.context with
  | none => .error .badAnyCast
  | some fp =>
    match nextPatch .RESULT fp stack with
    | some (fileMessage, rest) =>
      { c with conn := { c.conn with context := some rest } }.sendToServer (.file fileMessage)
    | none =>
      { c with conn := { c.conn with writeCompleteCallback := false } }.sendToServer (.file endFile)

/-! ## Test cases -/

/-- `fclose(fp_)`. -/
def fcloseTestcase : Except Fault LkpClient :=
  match c.fp with
  | some fp =>
    if fp.isOpen then .ok { c with disk := c.disk.write fp fp.buffer, fp := some fp.fclose }
    else .error .closedFile
  | none => .error .nullFile

/-- `fwrite(message->content().c_str(), 1, message->patch_len(), fp_)`. -/
def fwriteTestcase (message : File) (env : ClientEnv) : Except Fault LkpClient :=
  match c.fp with
  | some fp =>
    if fp.isOpen then
      let data := cBytes message.content env.beyond message.patchLen.toNat
      .ok { c with
        disk := c.disk.write fp (fp.flushed data env.kept)
        fp := some (fp.fwrite data env.kept) }
    else .error .closedFile
  | none => .error .nullFile

/-- The first patch: the announced ID, path and size, and `fopen(fileName_.c_str(), "wb")`. -/
def openTestcase (message : File) : LkpClient :=
  let fileName := c.ROOT_DIR ++ "/testcases/" ++ message.fileName
  { c with
    nodeID := intOfU32 message.nodeId
    fileName
    fileSize := intOfU32 message.fileSize
    disk := c.disk.truncate fileName
    fp := some { path := fileName } }

/-- `system`, whose child is seen through the signal of its end. -/
def system (command : String) : LkpClient := { c with shell := c.shell ++ [command] }

/-- The copy of a complete test case to the jobs. -/
def copyToJobs : String := "cp " ++ c.fileName ++ " " ++ c.ROOT_DIR ++ "/lkp-tests/jobs"

/-- `lkpClient::onFileMsg`. -/
def onFileMsg (message : File) (env : ClientEnv) : Except Fault LkpClient :=
  if message.fileType = .END then do
    let c ← c.fcloseTestcase
    if toInt32 (c.disk.stSize c.fileName env.uninit) ≠ c.fileSize then
      c.sendToServer (.pushACK {
        status := false, ackMessage := "push recv fail", nodeId := u32 c.nodeID })
    else
      let c ← c.sendToServer (.pushACK {
        status := true, ackMessage := "push recv success", nodeId := u32 c.nodeID })
      .ok (c.system c.copyToJobs)
  else if message.firstPatch then
    if env.receives then (c.openTestcase message).fwriteTestcase message env else .error .assertion
  else c.fwriteTestcase message env

/-! ## The other handlers -/

/-- `lkpClient::onTimer`. -/
def onTimer : Except Fault LkpClient :=
  if c.connection then c.sendToServer (.heartBeat { status := true }) else .error .exit

/-- `handleChildExit`, as far as the client sees it. -/
def handleChildExit : LkpClient := { c with childNum := c.childNum - 1 }

/-- The dispatcher: the handler registered for the type of the message, else
    `lkpClient::onUnknownMsg`. -/
def onMessage (message : Message) (env : ClientEnv) : Except Fault LkpClient :=
  match message with
  | .command m => c.onCommandMsg m env
  | .file m => c.onFileMsg m env
  | .commandACK _ | .pushACK _ | .heartBeat _ | .ret _ => .error .exit

end LkpClient

/-! ## Events -/

/-- What can happen to the client. -/
inductive ClientEvent where
  | up
  | down
  | message (m : Message) (env : ClientEnv)
  | written
  | writeComplete (stack : Bytes)
  | timer
  | childExit

namespace LkpClient
variable (c : LkpClient)

/-- Whether the event can happen. -/
def enabled : ClientEvent → Bool
  | .up => c.conn.state = .kConnecting
  | .down | .message _ _ => c.conn.isUp
  | .written => c.conn.isUp && c.conn.output
  | .writeComplete _ => 0 < c.conn.queued
  | .timer | .childExit => true

/-- The handling of an event. -/
def handle : ClientEvent → Except Fault LkpClient
  | .up => .ok { c with conn := { c.conn with state := .kConnected } }.onConnection
  | .down => .ok { c with conn := { c.conn with state := .kDisconnected } }.onConnection
  | .message m env => c.onMessage m env
  | .written => .ok { c with conn := c.conn.written }
  | .writeComplete stack => { c with conn := c.conn.dequeue }.onWriteComplete stack
  | .timer => c.onTimer
  | .childExit => .ok c.handleChildExit

/-- A step of the client: an event that can happen and whose handling is defined. -/
def step (e : ClientEvent) : Option LkpClient := if c.enabled e then (c.handle e).toOption else none

/-- A client that has connected, with a result file. -/
def joined (data : Bytes) : LkpClient where
  conn := { state := .kConnected }
  connection := true
  disk _ := some data

end LkpClient

end LkpExtent
