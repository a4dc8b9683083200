/-
  LkpExtent formalization — the codec with the generated messages and Adler-32.

  * `Pb.protobuf`: the parameter of the codec, as the generated pool and zlib are;
  * `Pb.frameHead_frame`: what a receiver makes of the frame of a message: it is delivered, or
    refused with the error that `Pb.refusal` names;
  * `Pb.onReads_frames`: of a stream of frames, the messages before the first refused one are
    delivered, and the connection is stuck there.
-/
import LkpExtent.Pb
import LkpExtent.RoundTrip

namespace LkpExtent.Pb

open Lib

/-! ## The pool -/

/-- `google::protobuf::Message`. -/
abbrev AnyMessage := (t : MessageType) × t.Class

/-- The bytes of a string. -/
def stringBytes (s : String) : Bytes := s.toUTF8.data.toList

/-- `FindMessageTypeByName`; the types of protobuf itself are left out, no callback is
    registered for them. -/
def findType (typeName : Bytes) : Option MessageType :=
  MessageType.all.find? fun t => stringBytes t.fullName = typeName

/-- protobuf with the messages of `lkpProto.proto`, and zlib.  What a failed parse has set is
    left out, the codec drops the message; and so is what protobuf makes of more bytes than it
    reads of a stream, the codec parses at most `kMaxMessageLen`. -/
def protobuf : Libs where
  Msg := AnyMessage
  GetTypeName m := stringBytes m.1.fullName
  serialize m := (code m.1).SerializeWithCachedSizesToArray m.2
  createMessage typeName := (findType typeName).map fun t => ⟨t, (code t).default⟩
  ParseFromArray m data :=
    if h : data.length ≤ kDefaultTotalBytesLimit then
      match (code m.1).ParseFromArray ⟨data, h⟩ with
      | some v => (true, ⟨m.1, v⟩)
      | none => (false, m)
    else (false, m)
  adler32 := adler32

theorem findType_fullName (t : MessageType) : findType (stringBytes t.fullName) = some t := by
  cases t <;> rfl

theorem fullName_length (t : MessageType) :
    0 < (stringBytes t.fullName).length ∧ (stringBytes t.fullName).length < 30 := by
  cases t <;> decide

/-- The strings of a message are UTF-8. -/
def validStrings (m : AnyMessage) : Bool := (strings m.1 m.2).all IsStructurallyValidUTF8

/-- Why a receiver refuses the frame of `m`, if it does. -/
def refusal (m : AnyMessage) : Option ErrorCode :=
  if messageLen protobuf m ≤ kMaxMessageLen then if validStrings m then none else some .kParseError
  else some .kInvalidLength

section
variable {m : AnyMessage}

theorem messageLen_eq (m : AnyMessage) :
    messageLen protobuf m = 4 + ((stringBytes m.1.fullName).length + 1) + (code m.1).ByteSize m.2 + 4 := by
  rw [← MessageCode.length_Serialize]; rfl

/-- What fits in a frame is within the limit of a stream. -/
theorem byteSize_le (h : messageLen protobuf m ≤ kMaxMessageLen) :
    (code m.1).ByteSize m.2 ≤ kDefaultTotalBytesLimit := by
  have hmax : kMaxMessageLen = (kDefaultTotalBytesLimit : ℕ) := rfl
  have := messageLen_eq m
  omega

theorem parse_serialized (h : messageLen protobuf m ≤ kMaxMessageLen) :
    protobuf.ParseFromArray ⟨m.1, (code m.1).default⟩ (protobuf.serialize m) =
      if validStrings m then (true, m) else (false, ⟨m.1, (code m.1).default⟩) := by
  have hp := (code m.1).parse_serialize (depth_le m.1) (byteSize_le h)
  have hlen := ((code m.1).serialized m.2 (byteSize_le h)).2
  rw [valid_eq] at hp
  simp only [MessageCode.serialized] at hp hlen
  simp only [protobuf, dif_pos hlen, hp, validStrings]
  by_cases hv : (strings m.1 m.2).all IsStructurallyValidUTF8 = true
  · simp only [if_pos hv]
    exact (if_pos hv).symm
  · simp only [if_neg hv]
    exact (if_neg hv).symm

/-- **Every message with UTF-8 strings that fits is one that the codec can send.** -/
theorem sendable (h : messageLen protobuf m ≤ kMaxMessageLen) (hv : validStrings m) : Sendable protobuf m where
  name_ne := List.length_pos_iff.1 (fullName_length m.1).1
  create := by
    refine ⟨⟨m.1, (code m.1).default⟩, ?_, ?_⟩
    · simp only [protobuf, findType_fullName, Option.map_some]
    · exact (parse_serialized h).trans (if_pos hv)
  fits := h

end

/-! ## Frames that are refused -/

section
variable (L : Libs)

/-- The codec of messages that are a new message of a type and the bytes to parse into it. -/
def raw : Libs where
  Msg := L.Msg × Bytes
  GetTypeName m := L.GetTypeName m.1
  serialize m := m.2
  createMessage typeName := (L.createMessage typeName).map fun p => (p, [])
  ParseFromArray m data := (true, (m.1, data))
  adler32 := L.adler32

/-- Parsing into the new message, behind everything else. -/
def finish : ErrorCode × Option (L.Msg × Bytes) → ErrorCode × Option L.Msg
  | (.kNoError, some (p, data)) =>
    let (ok, m) := L.ParseFromArray p data
    (if ok then .kNoError else .kParseError, some m)
  | (e, _) => (e, none)

theorem bind_eq_map {α β γ : Type} {x : Option α} {f : α → Option β} {g : α → Option γ} {h : γ → β}
    (hfg : ∀ a, f a = (g a).map h) : (x >>= f) = (x >>= g).map h := by
  cases x with
  | none => rfl
  | some a => exact hfg a

theorem ite_eq_map {β γ : Type} {c : Prop} [Decidable c] {x y : Option β} {x' y' : Option γ} {h : γ → β}
    (hx : x = x'.map h) (hy : y = y'.map h) : (if c then x else y) = (if c then x' else y').map h := by
  split_ifs
  · exact hx
  · exact hy

/-- `parse` finds the bytes of the message, and then parses them. -/
theorem parse_eq_finish (buf : Bytes) (len : ℤ) : parse L buf len = (parse (raw L) buf len).map (finish L) := by
  unfold parse
  refine bind_eq_map fun body => bind_eq_map fun sum => bind_eq_map fun summed => ite_eq_map ?_ rfl
  refine bind_eq_map fun nameLen => bind_eq_map fun room => ite_eq_map ?_ rfl
  refine bind_eq_map fun typeName => ?_
  cases hcreate : L.createMessage typeName with
  | none =>
    have hraw : (raw L).createMessage typeName = none := congrArg (Option.map _) hcreate
    rw [hraw]; rfl
  | some p =>
    have hraw : (raw L).createMessage typeName = some (p, []) := congrArg (Option.map _) hcreate
    rw [hraw]
    exact bind_eq_map fun dataLen => bind_eq_map fun data => rfl

/-- The front of the buffer, the message in it parsed. -/
def parsedHead : Head (L.Msg × Bytes) ErrorCode → Head L.Msg ErrorCode
  | .more => .more
  | .bad e => .bad e
  | .item (p, data) n =>
    if (L.ParseFromArray p data).1 then .item (L.ParseFromArray p data).2 n else .bad .kParseError

/-- What the loop finds, given the outcome of `parse`. -/
def headOf {Msg : Type} (r : Option (ErrorCode × Option Msg)) (n : ℕ) : Head Msg ErrorCode :=
  match r with
  | some (.kNoError, some message) => .item message n
  | some (errorCode, _) => .bad errorCode
  | none => .more

theorem headOf_finish (r : Option (ErrorCode × Option (L.Msg × Bytes))) (n : ℕ) :
    headOf (r.map (finish L)) n = parsedHead L (headOf r n) := by
  match r with
  | none => rfl
  | some (.kNoError, some (p, data)) =>
    rcases hp : L.ParseFromArray p data with ⟨_ | _, m⟩ <;> simp [headOf, finish, parsedHead, hp]
  | some (.kNoError, none) | some (.kInvalidLength, _) | some (.kCheckSumError, _) | some (.kInvalidNameLen, _)
  | some (.kUnknownMessageType, _) | some (.kParseError, _) => rfl

theorem frameHeadOf_eq (buf : Bytes) (len : ℤ) : frameHeadOf L buf len =
    if LenOK len then
      if (buf.length : ℤ) ≥ len + kHeaderLen then
        headOf (parse L (buf.drop kHeaderLen.toNat) len) (kHeaderLen + len).toNat
      else .more
    else .bad .kInvalidLength := by
  unfold frameHeadOf
  split_ifs
  · rcases parse L (buf.drop kHeaderLen.toNat) len with _ | ⟨_ | _, _ | m⟩ <;> rfl
  · rfl
  · rfl

theorem frameHead_eq_parsed (buf : Bytes) : frameHead L buf = parsedHead L (frameHead (raw L) buf) := by
  simp only [frameHead]
  split_ifs
  swap
  · rfl
  rw [frameHeadOf_eq, frameHeadOf_eq]
  split_ifs
  · rw [parse_eq_finish]
    exact headOf_finish L _ _
  · rfl
  · rfl

end

/-! ## Frames -/

section
variable {m : AnyMessage}

/-- The frame of a message, as the frame of its bytes. -/
theorem frame_raw (m : AnyMessage) : fillEmptyBuffer protobuf m =
    fillEmptyBuffer (raw protobuf) (⟨m.1, (code m.1).default⟩, protobuf.serialize m) := rfl

theorem sendable_raw (h : messageLen protobuf m ≤ kMaxMessageLen) :
    Sendable (raw protobuf) (⟨m.1, (code m.1).default⟩, protobuf.serialize m) where
  name_ne := List.length_pos_iff.1 (fullName_length m.1).1
  create := by
    refine ⟨(⟨m.1, (code m.1).default⟩, []), ?_, rfl⟩
    show (((findType (stringBytes m.1.fullName)).map fun t => (⟨t, (code t).default⟩ : AnyMessage)).map _) = _
    rw [findType_fullName]
    rfl
  fits := h

/-- A message longer than a frame may be has its length in the frame's length field. -/
theorem frameHead_long (hmax : kMaxMessageLen < messageLen protobuf m) (hlen : messageLen protobuf m < 2 ^ 31)
    (ys : Bytes) : frameHead protobuf (fillEmptyBuffer protobuf m ++ ys) = .bad .kInvalidLength := by
  have hM : kMaxMessageLen = 67108864 := rfl
  have hmin : kMinMessageLen + kHeaderLen = 14 := rfl
  have hrest := length_frameRest (L := protobuf) m
  have hfl : frameLen (fillEmptyBuffer protobuf m ++ ys) = messageLen protobuf m := by
    have hread : readInt32 (fillEmptyBuffer protobuf m ++ ys) 0 = some (toInt32 (messageLen protobuf m)) :=
      readInt32_be32 (a := []) (by rw [fillEmptyBuffer_layout hlen, List.append_assoc, List.nil_append]) rfl
    rw [readInt32_frameLen (by rw [fillEmptyBuffer_layout hlen]; simp),
      toInt32_of_isInt32 ⟨by omega, by omega⟩] at hread
    exact Option.some.inj hread
  have hbig : ((fillEmptyBuffer protobuf m ++ ys).length : ℤ) ≥ kMinMessageLen + kHeaderLen := by
    rw [fillEmptyBuffer_layout hlen]; simp; omega
  rw [frameHead, if_pos hbig, hfl, frameHeadOf, if_neg fun h => absurd h.2 (by omega)]

/-- **What a receiver makes of a frame**, whatever follows it: the message is delivered, or
    refused. -/
theorem frameHead_frame (h : messageLen protobuf m < 2 ^ 31) (ys : Bytes) :
    frameHead protobuf (fillEmptyBuffer protobuf m ++ ys) =
      .judged m (fillEmptyBuffer protobuf m).length (refusal m) := by
  rw [refusal]
  by_cases hmax : messageLen protobuf m ≤ kMaxMessageLen
  swap
  · rw [if_neg hmax]
    exact frameHead_long (by omega) h ys
  have hhead : frameHead protobuf (fillEmptyBuffer protobuf m ++ ys) = parsedHead protobuf
      (.item (⟨m.1, (code m.1).default⟩, protobuf.serialize m) (fillEmptyBuffer protobuf m).length) := by
    rw [frameHead_eq_parsed, frame_raw]
    exact congrArg _ (frameHead_fillEmptyBuffer (sendable_raw hmax) ys)
  rw [hhead, if_pos hmax]
  show (if (protobuf.ParseFromArray ⟨m.1, (code m.1).default⟩ (protobuf.serialize m)).1 then _ else _) = _
  rw [parse_serialized hmax]
  cases validStrings m <;> rfl

end

/-- **Of a stream of frames**, however it is cut into reads, the messages before the first
    refused one are delivered; its error is reported first, and it and all behind it stay in the
    buffer. -/
theorem onReads_frames (ms : List AnyMessage) (h : ∀ m ∈ ms, messageLen protobuf m < 2 ^ 31) (reads : List Bytes)
    (hreads : reads.flatten = (ms.map (fillEmptyBuffer protobuf)).flatten) :
    ∃ s, onReads protobuf reads = some s ∧ s.delivered = ms.takeWhile (fun m => (refusal m).isNone) ∧
      s.errors.head? = ms.findSome? refusal ∧
      s.buf = ((ms.dropWhile fun m => (refusal m).isNone).map (fillEmptyBuffer protobuf)).flatten := by
  have hdecode := Decoder.decode_refused (D := codec protobuf) (fillEmptyBuffer protobuf) refusal
    fun m hm ys => (codec_head _).trans (frameHead_frame (h m hm) ys)
  rw [← hreads] at hdecode
  refine ⟨_, onReads_eq reads, ?_, ?_, ?_⟩
  · exact (Decoder.session_items reads).trans (congrArg Decoded.items hdecode)
  · exact (Decoder.session_error reads).trans (congrArg Decoded.error hdecode)
  · exact (Decoder.session_buf reads).trans (congrArg Decoded.rest hdecode)

/-- A heartbeat, a command whose test case is not UTF-8, and a heartbeat. -/
theorem onReads_frames_command :
    let good : AnyMessage := ⟨.heartBeat, ⟨true⟩⟩
    let bad : AnyMessage := ⟨.command, { testcase := [0x65, 0xff] }⟩
    let frames := ([good, bad, good].map (fillEmptyBuffer protobuf)).flatten
    ∃ s, onReads protobuf [frames.take 3, frames.drop 3] = some s ∧ s.delivered = [good] ∧
      s.errors.head? = some .kParseError ∧ s.buf = ([bad, good].map (fillEmptyBuffer protobuf)).flatten := by
  intro good bad frames
  have hgood : refusal good = none := by decide +kernel
  have hbad : refusal bad = some .kParseError := by decide +kernel
  have h : ∀ m ∈ [good, bad, good], messageLen protobuf m < 2 ^ 31 := by
    simp only [List.forall_mem_cons]
    exact ⟨by decide +kernel, by decide +kernel, by decide +kernel, nofun⟩
  have hmain := onReads_frames [good, bad, good] h [frames.take 3, frames.drop 3] (by simp [frames])
  simpa [hgood, hbad] using hmain

end LkpExtent.Pb
