/-
  LkpExtent formalization — the message classes of `lkpProto.pb.cc`.

  A class holds its fields as the generated code does: enumerations as `int`, strings as
  bytes, whatever they contain.  What the generated functions do with each field is in a
  table, in the order of their blocks.

  * `Pb.MessageType`: the types of the generated pool, `Pb.code` their tables;
  * `Pb.ParseFromArray_Serialize`: a message is parsed back from its bytes, unless one of
    its strings is not UTF-8;
  * `Pb.Merge_eq_plain`: the jumps in the generated parsers change nothing;
  * `Pb.ParseFromArray_mixed`: messages behind one another are merged, and fields of a newer
    protocol are skipped wherever they stand;
  * `Pb.ParseFromArray_reparse`: what a parser accepts can be sent on.

  All of it is about streams within protobuf's limit of 64 MB.
-/
import LkpExtent.Lib.FieldTypes
import LkpExtent.Proto

namespace LkpExtent.Pb

open Lib

/-! ## Classes and tables -/

structure Command where
  command : Int32 := 0
  sendToAll : Bool := false
  testcase : Bytes := []
  dockerNum : UInt32 := 0
  tesetcaseLen : UInt32 := 0
  nodeId : UInt32 := 0
  deriving DecidableEq

structure File where
  fileType : Int32 := 0
  fileName : Bytes := []
  patchLen : UInt32 := 0
  fileSize : UInt32 := 0
  firstPatch : Bool := false
  content : Bytes := []
  nodeId : UInt32 := 0
  deriving DecidableEq

structure CommandACK where
  status : Bool := false
  command : Int32 := 0
  ackMessage : Bytes := []
  nodeId : UInt32 := 0
  deriving DecidableEq

structure HeartBeat where
  status : Bool := false
  deriving DecidableEq

structure PushACK where
  status : Bool := false
  ackMessage : Bytes := []
  nodeId : UInt32 := 0
  deriving DecidableEq

/-- `Return_NodeInfo`. -/
structure NodeInfo where
  nodeId : UInt32 := 0
  nodeMsg : Bytes := []
  deriving DecidableEq

structure Return where
  clientNum : UInt32 := 0
  clientOkNum : UInt32 := 0
  command : Int32 := 0
  nodeInfo : List NodeInfo := []
  deriving DecidableEq

def Command.code : MessageCode Command where
  default := {}
  fields := [
    .scalar enumCode 1 (·.command) fun v m => { m with command := v },
    .scalar boolCode 2 (·.sendToAll) fun v m => { m with sendToAll := v },
    .scalar stringCode 3 (·.testcase) fun v m => { m with testcase := v },
    .scalar uint32Code 4 (·.dockerNum) fun v m => { m with dockerNum := v },
    .scalar uint32Code 5 (·.tesetcaseLen) fun v m => { m with tesetcaseLen := v },
    .scalar uint32Code 6 (·.nodeId) fun v m => { m with nodeId := v }]
  depth := 0
  nodup := by decide
  depth_le := by simp [FieldCode.scalar]
  merge_default m := by
    rw [foldl_scalar, foldl_scalar, foldl_scalar, foldl_scalar, foldl_scalar, foldl_scalar]
    all_goals rfl

def File.code : MessageCode File where
  default := {}
  fields := [
    .scalar enumCode 1 (·.fileType) fun v m => { m with fileType := v },
    .scalar stringCode 2 (·.fileName) fun v m => { m with fileName := v },
    .scalar uint32Code 3 (·.patchLen) fun v m => { m with patchLen := v },
    .scalar uint32Code 4 (·.fileSize) fun v m => { m with fileSize := v },
    .scalar boolCode 5 (·.firstPatch) fun v m => { m with firstPatch := v },
    .scalar bytesCode 6 (·.content) fun v m => { m with content := v },
    .scalar uint32Code 7 (·.nodeId) fun v m => { m with nodeId := v }]
  depth := 0
  nodup := by decide
  depth_le := by simp [FieldCode.scalar]
  merge_default m := by
    rw [foldl_scalar, foldl_scalar, foldl_scalar, foldl_scalar, foldl_scalar, foldl_scalar, foldl_scalar]
    all_goals rfl

def CommandACK.code : MessageCode CommandACK where
  default := {}
  fields := [
    .scalar boolCode 1 (·.status) fun v m => { m with status := v },
    .scalar enumCode 2 (·.command) fun v m => { m with command := v },
    .scalar stringCode 3 (·.ackMessage) fun v m => { m with ackMessage := v },
    .scalar uint32Code 4 (·.nodeId) fun v m => { m with nodeId := v }]
  depth := 0
  nodup := by decide
  depth_le := by simp [FieldCode.scalar]
  merge_default m := by
    rw [foldl_scalar, foldl_scalar, foldl_scalar, foldl_scalar]
    all_goals rfl

def HeartBeat.code : MessageCode HeartBeat where
  default := {}
  fields := [.scalar boolCode 1 (·.status) fun v m => { m with status := v }]
  depth := 0
  nodup := by decide
  depth_le := by simp [FieldCode.scalar]
  merge_default m := by
    rw [foldl_scalar]
    all_goals rfl

def PushACK.code : MessageCode PushACK where
  default := {}
  fields := [
    .scalar boolCode 1 (·.status) fun v m => { m with status := v },
    .scalar stringCode 2 (·.ackMessage) fun v m => { m with ackMessage := v },
    .scalar uint32Code 3 (·.nodeId) fun v m => { m with nodeId := v }]
  depth := 0
  nodup := by decide
  depth_le := by simp [FieldCode.scalar]
  merge_default m := by
    rw [foldl_scalar, foldl_scalar, foldl_scalar]
    all_goals rfl

def NodeInfo.code : MessageCode NodeInfo where
  default := {}
  fields := [
    .scalar uint32Code 1 (·.nodeId) fun v m => { m with nodeId := v },
    .scalar stringCode 2 (·.nodeMsg) fun v m => { m with nodeMsg := v }]
  depth := 0
  nodup := by decide
  depth_le := by simp [FieldCode.scalar]
  merge_default m := by
    rw [foldl_scalar, foldl_scalar]
    all_goals rfl

def Return.code : MessageCode Return where
  default := {}
  fields := [
    .scalar uint32Code 1 (·.clientNum) fun v m => { m with clientNum := v },
    .scalar uint32Code 2 (·.clientOkNum) fun v m => { m with clientOkNum := v },
    .scalar enumCode 3 (·.command) fun v m => { m with command := v },
    .messages NodeInfo.code 4 (·.nodeInfo) (fun xs m => { m with nodeInfo := m.nodeInfo ++ xs })
      (fun m => by simp) (fun x xs m => by simp)]
  depth := 1
  nodup := by decide
  depth_le := by simp [FieldCode.scalar, FieldCode.messages, NodeInfo.code]
  merge_default m := by
    rw [foldl_scalar, foldl_scalar, foldl_scalar]
    all_goals rfl

/-! ## All types of the pool -/

inductive MessageType where
  | command
  | file
  | commandACK
  | heartBeat
  | pushACK
  | ret
  | nodeInfo
  deriving DecidableEq

namespace MessageType

/-- The generated class of a type. -/
abbrev Class : MessageType → Type
  | command => Command
  | file => File
  | commandACK => CommandACK
  | heartBeat => HeartBeat
  | pushACK => PushACK
  | ret => Return
  | nodeInfo => NodeInfo

/-- `Descriptor::full_name`. -/
def fullName : MessageType → String
  | command => "lkpMessage.Command"
  | file => "lkpMessage.File"
  | commandACK => "lkpMessage.CommandACK"
  | heartBeat => "lkpMessage.HeartBeat"
  | pushACK => "lkpMessage.PushACK"
  | ret => "lkpMessage.Return"
  | nodeInfo => "lkpMessage.Return.NodeInfo"

def all : List MessageType := [command, file, commandACK, heartBeat, pushACK, ret, nodeInfo]

end MessageType

/-- The generated code of each type. -/
def code : (t : MessageType) → MessageCode t.Class
  | .command => Command.code
  | .file => File.code
  | .commandACK => CommandACK.code
  | .heartBeat => HeartBeat.code
  | .pushACK => PushACK.code
  | .ret => Return.code
  | .nodeInfo => NodeInfo.code

/-- The string fields of a message, those of its messages included. -/
def strings : (t : MessageType) → t.Class → List Bytes
  | .command, m => [Command.testcase m]
  | .file, m => [File.fileName m]
  | .commandACK, m => [CommandACK.ackMessage m]
  | .heartBeat, _ => []
  | .pushACK, m => [PushACK.ackMessage m]
  | .ret, m => (Return.nodeInfo m).map (·.nodeMsg)
  | .nodeInfo, m => [NodeInfo.nodeMsg m]

/-! ## What was written is read -/

theorem depth_le (t : MessageType) : (code t).depth ≤ MessageCode.kRecursionLimit := by
  cases t <;> decide

theorem NodeInfo.valid_eq : NodeInfo.code.valid = IsStructurallyValidUTF8 ∘ (·.nodeMsg) := by
  funext m
  simp [MessageCode.valid, NodeInfo.code]

/-- What the parsers check is that the strings are UTF-8. -/
theorem valid_eq (t : MessageType) (m : t.Class) :
    (code t).valid m = (strings t m).all IsStructurallyValidUTF8 := by
  cases t with
  | command => simp [MessageCode.valid, code, Command.code, strings]
  | file => simp [MessageCode.valid, code, File.code, strings]
  | commandACK => simp [MessageCode.valid, code, CommandACK.code, strings]
  | heartBeat => simp [MessageCode.valid, code, HeartBeat.code, strings]
  | pushACK => simp [MessageCode.valid, code, PushACK.code, strings]
  | ret => simp [MessageCode.valid, code, Return.code, FieldCode.messages, strings, List.all_map, ← NodeInfo.valid_eq]
  | nodeInfo => simp [code, strings, NodeInfo.valid_eq]

/-- **A message is parsed back from its bytes**, unless one of its strings is not UTF-8. -/
theorem ParseFromArray_Serialize (t : MessageType) (m : t.Class) (h : (code t).ByteSize m ≤ kDefaultTotalBytesLimit) :
    (code t).ParseFromArray ((code t).serialized m h) =
      if (strings t m).all IsStructurallyValidUTF8 then some m else none := by
  rw [MessageCode.parse_serialize _ (depth_le t) h, valid_eq]

/-- A command whose test case is not UTF-8 is refused, one with an unknown command is not. -/
theorem ParseFromArray_Serialize_command :
    let good : Command := { command := -7, testcase := [0x65, 0x62], nodeId := 300 }
    let bad : Command := { testcase := [0x65, 0xff] }
    ∃ (hgood : Command.code.ByteSize good ≤ kDefaultTotalBytesLimit)
      (hbad : Command.code.ByteSize bad ≤ kDefaultTotalBytesLimit),
      Command.code.ParseFromArray (Command.code.serialized good hgood) = some good ∧
        Command.code.ParseFromArray (Command.code.serialized bad hbad) = none :=
  ⟨by decide, by decide,
    ParseFromArray_Serialize .command { command := -7, testcase := [0x65, 0x62], nodeId := 300 } (by decide),
    ParseFromArray_Serialize .command { testcase := [0x65, 0xff] } (by decide)⟩

/-- **The jumps in the generated parsers change nothing**: on every input they do what a
    loop does that reads one tag and one value each turn. -/
theorem Merge_eq_plain (t : MessageType) (b : ℕ) (m : t.Class) (buf : FlatStream) :
    (code t).MergePartialFromCodedStream b m buf.1 = plainLoop (code t).fields b (m, buf.1) :=
  mergeLoop_eq_plainLoop b (code t).nodup (m, buf.1)

/-- **Messages behind one another are merged, and what is not known is skipped**: `ps` are the
    blocks of the messages `ms`, in their order, and between them unknown fields of any kind, as
    a newer protocol may have them. -/
theorem ParseFromArray_mixed (t : MessageType) (ms : List t.Class) (ps : List (Piece t.Class))
    (hlen : (ps.flatMap Piece.bytes).length ≤ kDefaultTotalBytesLimit)
    (hknown : ps.filter Piece.known = ms.flatMap (code t).pieces)
    (hunknown : ∀ u, .unknown u ∈ ps → u.WF MessageCode.kRecursionLimit ∧ ∀ f ∈ (code t).fields, f.tag ≠ u.tag) :
    (code t).ParseFromArray ⟨ps.flatMap Piece.bytes, hlen⟩ =
      if (ms.flatMap (strings t)).all IsStructurallyValidUTF8
      then some (ms.foldl (code t).MergeFrom (code t).default) else none := by
  have hms : ∀ m ∈ ms, ((code t).SerializeWithCachedSizesToArray m).length < 2 ^ 31 := by
    intro m hm
    have hall : ((code t).pieces m).Sublist (ms.flatMap (code t).pieces) :=
      List.flatMap_def ▸ List.sublist_flatten_of_mem (List.mem_map_of_mem hm)
    rw [← hknown] at hall
    rw [← MessageCode.pieces_bytes]
    have hle := ((hall.trans List.filter_sublist).flatMap Piece.bytes).length_le
    exact (hle.trans hlen).trans_lt (by decide)
  have hok : ∀ p ∈ ps, p.OK (code t).fields MessageCode.kRecursionLimit := by
    intro p hp
    cases p with
    | unknown u => exact hunknown u hp
    | field f m =>
      have hmem : Piece.field f m ∈ ms.flatMap (code t).pieces :=
        hknown ▸ List.mem_filter.2 ⟨hp, rfl⟩
      obtain ⟨m', hm', hpm⟩ := List.mem_flatMap.1 hmem
      exact (code t).pieces_ok (depth_le t) (hms m' hm') _ hpm
  have hvalid : ms.all (code t).valid = (ms.flatMap (strings t)).all IsStructurallyValidUTF8 := by
    rw [List.all_flatMap]
    exact congrArg _ (funext (valid_eq t))
  rw [MessageCode.ParseFromArray_pieces _ hok, ← Piece.foldlM_known, hknown,
    MessageCode.pieces_flatMap_effect, hvalid]

/-- Two heartbeats, and between them a group and a string that the type does not know. -/
theorem ParseFromArray_mixed_heartBeat :
    let unknown : List Field := [.group 9 [.varint 1 5, .fixed32 2 [1, 2, 3, 4]], .bytes 1 [7]]
    let pieces := HeartBeat.code.pieces ⟨true⟩ ++ (unknown.map Piece.unknown ++ HeartBeat.code.pieces ⟨false⟩)
    ∃ hlen : (pieces.flatMap Piece.bytes).length ≤ kDefaultTotalBytesLimit,
      HeartBeat.code.ParseFromArray ⟨pieces.flatMap Piece.bytes, hlen⟩ = some ⟨true⟩ := by
  intro unknown pieces
  have hlen : (pieces.flatMap Piece.bytes).length ≤ kDefaultTotalBytesLimit := by decide +kernel
  have hn : ∀ {n : ℕ}, 0 < n ∧ n < 10 → IsFieldNumber n := fun h => ⟨h.1, by omega⟩
  refine ⟨hlen, ParseFromArray_mixed .heartBeat [⟨true⟩, ⟨false⟩] pieces hlen rfl ?_⟩
  intro u hu
  have hu' : u = .group 9 [.varint 1 5, .fixed32 2 [1, 2, 3, 4]] ∨ u = .bytes 1 [7] := by
    simpa [pieces, unknown, MessageCode.pieces, HeartBeat.code] using hu
  rcases hu' with rfl | rfl
  · refine ⟨.group (hn (by decide)) ?_, by decide⟩
    simp only [List.forall_mem_cons, List.not_mem_nil, false_implies, implies_true, and_true]
    exact ⟨.varint (hn (by decide)) (by decide), .fixed32 (hn (by decide)) rfl⟩
  · exact ⟨.bytes (hn (by decide)) (by decide), by decide⟩

/-! ## What was read can be written -/

/-- The strings of the message are UTF-8. -/
def StringsValid (t : MessageType) (m : t.Class) : Prop := (strings t m).all IsStructurallyValidUTF8

/-- Every block of a parser leaves the strings UTF-8. -/
theorem fields_keep (t : MessageType) : ∀ f ∈ (code t).fields, f.Keeps (StringsValid t) := by
  have hone : ∀ {bs : Bytes}, stringCode.valid bs → [bs].all IsStructurallyValidUTF8 := fun h => by simpa using h
  cases t with
  | command =>
    simp only [code, Command.code, List.forall_mem_cons]
    exact ⟨scalar_keeps fun _ _ _ h => h, scalar_keeps fun _ _ _ h => h, scalar_keeps fun _ _ hv _ => hone hv,
      scalar_keeps fun _ _ _ h => h, scalar_keeps fun _ _ _ h => h, scalar_keeps fun _ _ _ h => h, nofun⟩
  | file =>
    simp only [code, File.code, List.forall_mem_cons]
    exact ⟨scalar_keeps fun _ _ _ h => h, scalar_keeps fun _ _ hv _ => hone hv, scalar_keeps fun _ _ _ h => h,
      scalar_keeps fun _ _ _ h => h, scalar_keeps fun _ _ _ h => h, scalar_keeps fun _ _ _ h => h,
      scalar_keeps fun _ _ _ h => h, nofun⟩
  | commandACK =>
    simp only [code, CommandACK.code, List.forall_mem_cons]
    exact ⟨scalar_keeps fun _ _ _ h => h, scalar_keeps fun _ _ _ h => h, scalar_keeps fun _ _ hv _ => hone hv,
      scalar_keeps fun _ _ _ h => h, nofun⟩
  | heartBeat =>
    simp only [code, HeartBeat.code, List.forall_mem_cons]
    exact ⟨scalar_keeps fun _ _ _ h => h, nofun⟩
  | pushACK =>
    simp only [code, PushACK.code, List.forall_mem_cons]
    exact ⟨scalar_keeps fun _ _ _ h => h, scalar_keeps fun _ _ hv _ => hone hv, scalar_keeps fun _ _ _ h => h,
      nofun⟩
  | nodeInfo =>
    simp only [code, NodeInfo.code, List.forall_mem_cons]
    exact ⟨scalar_keeps fun _ _ _ h => h, scalar_keeps fun _ _ hv _ => hone hv, nofun⟩
  | ret =>
    have hinfo : ∀ f ∈ NodeInfo.code.fields, f.Keeps fun n => IsStructurallyValidUTF8 n.nodeMsg := by
      simp only [NodeInfo.code, List.forall_mem_cons]
      exact ⟨scalar_keeps fun _ _ _ h => h, scalar_keeps fun _ _ hv _ => hv, nofun⟩
    simp only [code, Return.code, List.forall_mem_cons]
    refine ⟨scalar_keeps fun _ _ _ h => h, scalar_keeps fun _ _ _ h => h, scalar_keeps fun _ _ _ h => h,
      messages_keeps hinfo (by decide) fun x m hx hm => ?_, nofun⟩
    simp only [StringsValid, strings, List.map_append, List.all_append, Bool.and_eq_true] at hm ⊢
    exact ⟨hm, by simpa using hx⟩

/-- **What a parser accepts has UTF-8 strings only**, so it can be sent on: its bytes parse to
    the same message again, whatever bytes it came from. -/
theorem ParseFromArray_reparse (t : MessageType) {buf : FlatStream} {m : t.Class}
    (h : (code t).ParseFromArray buf = some m) (hsize : (code t).ByteSize m ≤ kDefaultTotalBytesLimit) :
    StringsValid t m ∧ (code t).ParseFromArray ((code t).serialized m hsize) = some m := by
  have hvalid : StringsValid t m := by
    refine (code t).MergePartial_keeps (fields_keep t) h ?_
    cases t <;> rfl
  refine ⟨hvalid, ?_⟩
  rw [MessageCode.parse_serialize _ (depth_le t) hsize, valid_eq]
  exact if_pos hvalid

/-- A command with its fields in another order, and a length of two bytes where one is enough. -/
theorem ParseFromArray_reparse_command :
    let m : Command := { command := 1, testcase := [0x65, 0x62], nodeId := 5 }
    let buf : FlatStream := ⟨[0x30, 5, 0x1a, 0x82, 0, 0x65, 0x62, 8, 1], by decide⟩
    ∃ hsize : Command.code.ByteSize m ≤ kDefaultTotalBytesLimit, Command.code.ParseFromArray buf = some m ∧
      Command.code.ParseFromArray (Command.code.serialized m hsize) = some m := by
  intro m buf
  have h : Command.code.ParseFromArray buf = some m := by decide +kernel
  exact ⟨by decide, h, (ParseFromArray_reparse .command h (by decide)).2⟩

end LkpExtent.Pb
