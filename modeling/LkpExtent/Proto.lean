/-
  LkpExtent formalization — the messages of `lkpProto.proto`.

  proto3 enums are open: a received value outside the listed ones is kept, which
  is the constructor `other`.  `Command.tesetcase_len` is left out, nothing reads
  or sets it.
-/
import LkpExtent.Lib.CMem

namespace LkpExtent

open Lib

/-- `lkpMessage::commandID`. -/
inductive CommandID where
  | UPDATE
  | RUN
  | RESULT
  | PUSH
  | LIST
  | other (value : ℤ)
  deriving DecidableEq, Repr

/-- `lkpMessage::File::filetype`. -/
inductive FileType where
  | TESTCASE
  | RESULT
  | END
  | other (value : ℤ)
  deriving DecidableEq, Repr

structure Command where
  command : CommandID := .UPDATE
  sendToAll : Bool := false
  testcase : String := ""
  dockerNum : UInt32 := 0
  nodeId : UInt32 := 0
  deriving DecidableEq, Repr

structure File where
  fileType : FileType := .TESTCASE
  fileName : String := ""
  patchLen : UInt32 := 0
  fileSize : UInt32 := 0
  firstPatch : Bool := false
  content : Bytes := []
  nodeId : UInt32 := 0
  deriving DecidableEq, Repr

structure CommandACK where
  status : Bool := false
  command : CommandID := .UPDATE
  ackMessage : String := ""
  nodeId : UInt32 := 0
  deriving DecidableEq, Repr

structure HeartBeat where
  status : Bool := false
  deriving DecidableEq, Repr

structure PushACK where
  status : Bool := false
  ackMessage : String := ""
  nodeId : UInt32 := 0
  deriving DecidableEq, Repr

/-- `lkpMessage::Return::NodeInfo`. -/
structure NodeInfo where
  nodeId : UInt32 := 0
  nodeMsg : String := ""
  deriving DecidableEq, Repr

structure Return where
  clientNum : UInt32 := 0
  clientOkNum : UInt32 := 0
  command : CommandID := .UPDATE
  nodeInfo : List NodeInfo := []
  deriving DecidableEq, Repr

inductive Message where
  | command (m : Command)
  | file (m : File)
  | commandACK (m : CommandACK)
  | heartBeat (m : HeartBeat)
  | pushACK (m : PushACK)
  | ret (m : Return)
  deriving DecidableEq, Repr

end LkpExtent
