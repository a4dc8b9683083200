/-
  LkpExtent formalization — the messages of the handlers, in the generated classes.

  The handlers have enumerations by name and text as strings; the generated classes hold
  integers and bytes.

  * `Message.toPb`, `ofPb`: a message in its generated class, and back;
  * `LkpServer.dispatch_eq`, `LkpClient.dispatch_eq`: the tables of callbacks that the
    constructors fill are the handlers' `onMessage`.
-/
import LkpExtent.Dispatcher
import LkpExtent.PbCodec
import LkpExtent.CmdClient
import LkpExtent.Server

namespace LkpExtent

open Lib

/-! ## Enumerations -/

namespace CommandID

def toInt : CommandID → ℤ
  | UPDATE => 0
  | RUN => 1
  | RESULT => 2
  | PUSH => 3
  | LIST => 4
  | other value => value

def ofInt (value : ℤ) : CommandID :=
  if value = 0 then UPDATE
  else if value = 1 then RUN
  else if value = 2 then RESULT
  else if value = 3 then PUSH
  else if value = 4 then LIST
  else other value

/-- A listed value, or another one that an `int` can have. -/
def Proper : CommandID → Prop
  | other value => IsInt32 value ∧ ¬ (0 ≤ value ∧ value ≤ 4)
  | _ => True

theorem proper_ofInt (n : Int32) : (ofInt n.toInt).Proper := by
  have hn : IsInt32 n.toInt := ⟨n.le_toInt, n.toInt_lt⟩
  unfold ofInt
  split_ifs
  any_goals trivial
  exact ⟨hn, by omega⟩

theorem ofInt_toInt {c : CommandID} (h : c.Proper) : ofInt (Int32.ofInt c.toInt).toInt = c := by
  cases c with
  | other value =>
    obtain ⟨⟨hmin, hmax⟩, hother⟩ := h
    rw [toInt, Int32.toInt_ofInt_of_le hmin hmax]
    unfold ofInt
    split_ifs <;> first | rfl | omega
  | _ => rfl

end CommandID

namespace FileType

def toInt : FileType → ℤ
  | TESTCASE => 0
  | RESULT => 1
  | END => 2
  | other value => value

def ofInt (value : ℤ) : FileType :=
  if value = 0 then TESTCASE
  else if value = 1 then RESULT
  else if value = 2 then END
  else other value

def Proper : FileType → Prop
  | other value => IsInt32 value ∧ ¬ (0 ≤ value ∧ value ≤ 2)
  | _ => True

theorem ofInt_toInt {t : FileType} (h : t.Proper) : ofInt (Int32.ofInt t.toInt).toInt = t := by
  cases t with
  | other value =>
    obtain ⟨⟨hmin, hmax⟩, hother⟩ := h
    rw [toInt, Int32.toInt_ofInt_of_le hmin hmax]
    unfold ofInt
    split_ifs <;> first | rfl | omega
  | _ => rfl

end FileType

/-! ## Strings -/

namespace Pb

/-- The text of bytes that a parser has accepted. -/
def text (bs : Bytes) : String := (String.fromUTF8? ⟨bs.toArray⟩).getD ""

@[simp] theorem text_stringBytes (s : String) : text (stringBytes s) = s := by
  have h : ByteArray.IsValidUTF8 ⟨(stringBytes s).toArray⟩ := by simpa [stringBytes] using s.isValidUTF8
  simp only [text, String.fromUTF8?, dif_pos h, Option.getD_some]
  simp [stringBytes, String.fromUTF8]

@[simp] theorem valid_stringBytes (s : String) : IsStructurallyValidUTF8 (stringBytes s) = true := by
  have h : s.toByteArray.validateUTF8 = true := ByteArray.validateUTF8_eq_true_iff.2 s.isValidUTF8
  simpa [IsStructurallyValidUTF8, stringBytes] using h

end Pb

/-! ## Messages -/

def Command.toPb (m : Command) : Pb.Command where
  command := .ofInt m.command.toInt
  sendToAll := m.sendToAll
  testcase := Pb.stringBytes m.testcase
  dockerNum := m.dockerNum
  nodeId := m.nodeId

def Command.ofPb (m : Pb.Command) : Command where
  command := .ofInt m.command.toInt
  sendToAll := m.sendToAll
  testcase := Pb.text m.testcase
  dockerNum := m.dockerNum
  nodeId := m.nodeId

def File.toPb (m : File) : Pb.File where
  fileType := .ofInt m.fileType.toInt
  fileName := Pb.stringBytes m.fileName
  patchLen := m.patchLen
  fileSize := m.fileSize
  firstPatch := m.firstPatch
  content := m.content
  nodeId := m.nodeId

def File.ofPb (m : Pb.File) : File where
  fileType := .ofInt m.fileType.toInt
  fileName := Pb.text m.fileName
  patchLen := m.patchLen
  fileSize := m.fileSize
  firstPatch := m.firstPatch
  content := m.content
  nodeId := m.nodeId

def CommandACK.toPb (m : CommandACK) : Pb.CommandACK where
  status := m.status
  command := .ofInt m.command.toInt
  ackMessage := Pb.stringBytes m.ackMessage
  nodeId := m.nodeId

def CommandACK.ofPb (m : Pb.CommandACK) : CommandACK where
  status := m.status
  command := .ofInt m.command.toInt
  ackMessage := Pb.text m.ackMessage
  nodeId := m.nodeId

def HeartBeat.toPb (m : HeartBeat) : Pb.HeartBeat := ⟨m.status⟩

def HeartBeat.ofPb (m : Pb.HeartBeat) : HeartBeat := ⟨m.status⟩

def PushACK.toPb (m : PushACK) : Pb.PushACK := ⟨m.status, Pb.stringBytes m.ackMessage, m.nodeId⟩

def PushACK.ofPb (m : Pb.PushACK) : PushACK := ⟨m.status, Pb.text m.ackMessage, m.nodeId⟩

def NodeInfo.toPb (m : NodeInfo) : Pb.NodeInfo := ⟨m.nodeId, Pb.stringBytes m.nodeMsg⟩

def NodeInfo.ofPb (m : Pb.NodeInfo) : NodeInfo := ⟨m.nodeId, Pb.text m.nodeMsg⟩

def Return.toPb (m : Return) : Pb.Return where
  clientNum := m.clientNum
  clientOkNum := m.clientOkNum
  command := .ofInt m.command.toInt
  nodeInfo := m.nodeInfo.map NodeInfo.toPb

def Return.ofPb (m : Pb.Return) : Return where
  clientNum := m.clientNum
  clientOkNum := m.clientOkNum
  command := .ofInt m.command.toInt
  nodeInfo := m.nodeInfo.map NodeInfo.ofPb

theorem Command.ofPb_toPb {m : Command} (h : m.command.Proper) : ofPb m.toPb = m := by
  simp only [ofPb, toPb, Pb.text_stringBytes, CommandID.ofInt_toInt h]

theorem File.ofPb_toPb {m : File} (h : m.fileType.Proper) : ofPb m.toPb = m := by
  simp only [ofPb, toPb, Pb.text_stringBytes, FileType.ofInt_toInt h]

theorem CommandACK.ofPb_toPb {m : CommandACK} (h : m.command.Proper) : ofPb m.toPb = m := by
  simp only [ofPb, toPb, Pb.text_stringBytes, CommandID.ofInt_toInt h]

theorem PushACK.ofPb_toPb (m : PushACK) : ofPb m.toPb = m := by
  simp only [ofPb, toPb, Pb.text_stringBytes]

theorem NodeInfo.ofPb_toPb (m : NodeInfo) : ofPb m.toPb = m := by
  simp only [ofPb, toPb, Pb.text_stringBytes]

theorem Return.ofPb_toPb {m : Return} (h : m.command.Proper) : ofPb m.toPb = m := by
  have hinfo : NodeInfo.ofPb ∘ NodeInfo.toPb = id := funext NodeInfo.ofPb_toPb
  simp only [ofPb, toPb, CommandID.ofInt_toInt h, List.map_map, hinfo, List.map_id]

namespace Message

/-- The message as the sender hands it to the codec. -/
def toPb : Message → Pb.AnyMessage
  | command m => ⟨.command, m.toPb⟩
  | file m => ⟨.file, m.toPb⟩
  | commandACK m => ⟨.commandACK, m.toPb⟩
  | heartBeat m => ⟨.heartBeat, m.toPb⟩
  | pushACK m => ⟨.pushACK, m.toPb⟩
  | ret m => ⟨.ret, m.toPb⟩

/-- A received message; no handler takes a `NodeInfo` outside a `Return`. -/
def ofPb : Pb.AnyMessage → Option Message
  | ⟨.command, m⟩ => some (command (.ofPb m))
  | ⟨.file, m⟩ => some (file (.ofPb m))
  | ⟨.commandACK, m⟩ => some (commandACK (.ofPb m))
  | ⟨.heartBeat, m⟩ => some (heartBeat (.ofPb m))
  | ⟨.pushACK, m⟩ => some (pushACK (.ofPb m))
  | ⟨.ret, m⟩ => some (ret (.ofPb m))
  | ⟨.nodeInfo, _⟩ => none

/-- The enumerations of the message are what an `int` can hold. -/
def Proper : Message → Prop
  | command m => m.command.Proper
  | file m => m.fileType.Proper
  | commandACK m => m.command.Proper
  | ret m => m.command.Proper
  | heartBeat _ | pushACK _ => True

theorem ofPb_toPb {m : Message} (h : m.Proper) : ofPb m.toPb = some m := by
  cases m with
  | command m => exact congrArg (some ∘ command) (Command.ofPb_toPb h)
  | file m => exact congrArg (some ∘ file) (File.ofPb_toPb h)
  | commandACK m => exact congrArg (some ∘ commandACK) (CommandACK.ofPb_toPb h)
  | heartBeat m => rfl
  | pushACK m => exact congrArg (some ∘ pushACK) (PushACK.ofPb_toPb m)
  | ret m => exact congrArg (some ∘ ret) (Return.ofPb_toPb h)

/-- The text that a handler sends is UTF-8. -/
theorem validStrings_toPb (m : Message) : Pb.validStrings m.toPb = true := by
  cases m <;> simp [Pb.validStrings, toPb, Pb.strings, Command.toPb, File.toPb, CommandACK.toPb, PushACK.toPb,
    Return.toPb, NodeInfo.toPb]

/-- The length field of the frame of the message. -/
def frameLen (m : Message) : ℤ := messageLen Pb.protobuf m.toPb

/-- The frame of a message that fits is found wherever a buffer starts with it. -/
theorem frameHead_toPb {m : Message} (h : m.frameLen ≤ kMaxMessageLen) (ys : Bytes) :
    frameHead Pb.protobuf (fillEmptyBuffer Pb.protobuf m.toPb ++ ys) =
      .item m.toPb (fillEmptyBuffer Pb.protobuf m.toPb).length :=
  frameHead_fillEmptyBuffer (Pb.sendable h m.validStrings_toPb) ys

end Message

/-! ## The callbacks of the three programs -/

/-- What the constructor of `lkpServer` registers. -/
def LkpServer.dispatcher (s : LkpServer) (conn : ConnId) (env : Env) :
    Dispatcher Pb.MessageType.Class (Except Fault LkpServer) :=
  Dispatcher.registerAll { defaultCallback_ := fun _ => .ok (s.onUnknownMsg conn) } [
    ⟨.command, fun m => s.onCommandMsg (.ofPb m) env⟩,
    ⟨.commandACK, fun m => s.onCommandACK (.ofPb m)⟩,
    ⟨.pushACK, fun m => s.onPushACK (.ofPb m)⟩,
    ⟨.file, fun m => s.onFileMsg conn (.ofPb m) env⟩,
    ⟨.heartBeat, fun _ => s.onHeartBeat conn⟩]

/-- What the constructor of `lkpClient` registers; `onUnknownMsg` leaves the process. -/
def LkpClient.dispatcher (c : LkpClient) (env : ClientEnv) :
    Dispatcher Pb.MessageType.Class (Except Fault LkpClient) :=
  Dispatcher.registerAll { defaultCallback_ := fun _ => .error .exit } [
    ⟨.command, fun m => c.onCommandMsg (.ofPb m) env⟩,
    ⟨.file, fun m => c.onFileMsg (.ofPb m) env⟩]

/-- What the constructor of `lkpCmdClient` registers. -/
def LkpCmdClient.dispatcher : Dispatcher Pb.MessageType.Class (Option Shown) :=
  Dispatcher.registerAll { defaultCallback_ := fun _ => some ⟨["Error!"], false⟩ } [
    ⟨.ret, fun m => onReturnMsg (.ofPb m)⟩]

/-- The callbacks of the server are the cases of its `onMessage`. -/
theorem LkpServer.dispatch_eq (s : LkpServer) (conn : ConnId) (env : Env) (p : Pb.AnyMessage) :
    (s.dispatcher conn env).onProtobufMessage p = some (match Message.ofPb p with
      | some m => s.onMessage conn m env
      | none => .ok (s.onUnknownMsg conn)) := by
  obtain ⟨t, p⟩ := p
  cases t <;> rfl

/-- The callbacks of the client are the cases of its `onMessage`. -/
theorem LkpClient.dispatch_eq (c : LkpClient) (env : ClientEnv) (p : Pb.AnyMessage) :
    (c.dispatcher env).onProtobufMessage p = some (match Message.ofPb p with
      | some m => c.onMessage m env
      | none => .error .exit) := by
  obtain ⟨t, p⟩ := p
  cases t <;> rfl

end LkpExtent
