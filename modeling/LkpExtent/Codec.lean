/-
  LkpExtent formalization — the codec of `lkpCodec.cc`.

  A frame is `len nameLen typeName NUL payload checkSum`, the three integers being
  32-bit in network byte order and `len` counting everything behind it.

  Reads of the buffer and signed arithmetic are in `Option`: `none` is a read
  outside the bytes of the frame, an `int` overflow or a `retrieve` of more than
  is readable, all of them undefined in C++.
-/
import LkpExtent.Lib.CMem

namespace LkpExtent

open Lib

/-- `lkpCodec::ErrorCode`. -/
inductive ErrorCode where
  | kNoError
  | kInvalidLength
  | kCheckSumError
  | kInvalidNameLen
  | kUnknownMessageType
  | kParseError
  deriving DecidableEq, Repr

def kHeaderLen : ℤ := 4
def kMinMessageLen : ℤ := 2 * kHeaderLen + 2
def kMaxMessageLen : ℤ := 64 * 1024 * 1024

/-- What the codec takes from protobuf and zlib: the full type name of a message,
    its serialization, a new message of a named type (if the generated pool knows
    the name), parsing into a message, and the checksum from the initial value 1. -/
structure Libs where
  Msg : Type
  GetTypeName : Msg → Bytes
  serialize : Msg → Bytes
  createMessage : Bytes → Option Msg
  ParseFromArray : Msg → Bytes → Bool × Msg
  adler32 : Bytes → ℕ

section
variable (L : Libs)

/-- `lkpCodec::fillEmptyBuffer`: what the empty buffer holds afterwards. -/
def fillEmptyBuffer (message : L.Msg) : Bytes :=
  let typeName := L.GetTypeName message
  let nameLen := toInt32 (typeName.length + 1)
  -- append(typeName.c_str(), nameLen)
  let buf := be32 nameLen ++ (typeName ++ [0]).take nameLen.toNat
  let buf := buf ++ L.serialize message
  let checkSum := toInt32 (L.adler32 buf)
  let buf := buf ++ be32 checkSum
  -- the length is prepended
  be32 (toInt32 buf.length) ++ buf

/-- `lkpCodec::parse` on the `len` bytes at `buf`. -/
def parse (buf : Bytes) (len : ℤ) : Option (ErrorCode × Option L.Msg) := do
  let frame := buf.take len.toNat
  let body ← cint (len - kHeaderLen)
  let expectedCheckSum ← readInt32 frame body
  let summed ← slice frame 0 body
  if toInt32 (L.adler32 summed) = expectedCheckSum then
    let nameLen ← readInt32 frame 0
    let room ← cint (len - 2 * kHeaderLen)
    if nameLen ≥ 2 ∧ nameLen ≤ room then
      let typeName ← slice frame kHeaderLen (nameLen - 1)
      match L.createMessage typeName with
      | some message =>
        let dataLen ← cint (len - nameLen - 2 * kHeaderLen)
        let data ← slice frame (kHeaderLen + nameLen) dataLen
        let (ok, message) := L.ParseFromArray message data
        pure (if ok then .kNoError else .kParseError, some message)
      | none => pure (.kUnknownMessageType, none)
    else pure (.kInvalidNameLen, none)
  else pure (.kCheckSumError, none)

/-- `Buffer::retrieve`, which asserts that so much is readable. -/
def retrieve (buf : Bytes) (n : ℤ) : Option Bytes :=
  if 0 ≤ n ∧ n ≤ buf.length then some (buf.drop n.toNat) else none

theorem retrieve_length {buf rest : Bytes} {n : ℤ} (h : retrieve buf n = some rest) :
    (rest.length : ℤ) = buf.length - n := by
  simp only [retrieve] at h
  split_ifs at h with hc
  cases h
  simp only [List.length_drop]; omega

/-- How the body of the loop of `onMessage` ends: the loop is left, with an error
    or without, or a message was delivered and `rest` is left in the buffer. -/
inductive Iteration where
  | leave (error : Option ErrorCode)
  | next (message : L.Msg) (rest : Bytes)

/-- The test and the body of the loop of `lkpCodec::onMessage`. -/
def iteration (buf : Bytes) : Option (Iteration L) :=
  if (buf.length : ℤ) ≥ kMinMessageLen + kHeaderLen then do
    let len ← readInt32 buf 0
    if len > kMaxMessageLen ∨ len < kMinMessageLen then
      pure (.leave (some .kInvalidLength))
    else
      let total ← cint (len + kHeaderLen)
      -- total is positive here, so comparing it as size_t is comparing the numbers
      if (buf.length : ℤ) ≥ total then
        match ← parse L (buf.drop kHeaderLen.toNat) len with
        | (.kNoError, some message) =>
          let rest ← retrieve buf (kHeaderLen + len)
          pure (.next message rest)
        | (errorCode, _) => pure (.leave (some errorCode))
      else pure (.leave none)
  else pure (.leave none)

theorem iteration_next {buf rest : Bytes} {m : L.Msg} (h : iteration L buf = some (.next m rest)) :
    rest.length < buf.length := by
  have hH : kHeaderLen = 4 := rfl
  have hM : kMinMessageLen = 10 := rfl
  simp only [iteration] at h
  split_ifs at h
  · obtain ⟨len, -, h⟩ := Option.bind_eq_some_iff.1 h
    split_ifs at h
    · cases h
    · obtain ⟨total, -, h⟩ := Option.bind_eq_some_iff.1 h
      split_ifs at h
      · obtain ⟨r, -, h⟩ := Option.bind_eq_some_iff.1 h
        split at h
        · obtain ⟨rest', hr, h⟩ := Option.bind_eq_some_iff.1 h
          cases h
          have := retrieve_length hr
          omega
        · cases h
      · cases h
  · cases h

/-- One call of `lkpCodec::onMessage`: the messages given to the message callback
    in order, the error given to the error callback if any, and the buffer left. -/
structure OnMessage where
  messages : List L.Msg
  error : Option ErrorCode
  buf : Bytes

/-- `lkpCodec::onMessage`. -/
def onMessage (buf : Bytes) : Option (OnMessage L) :=
  match _h : iteration L buf with
  | none => none
  | some (.leave error) => some ⟨[], error, buf⟩
  | some (.next message rest) =>
    (onMessage rest).map fun o => { o with messages := message :: o.messages }
termination_by buf.length
decreasing_by exact iteration_next L _h

/-- A connection's buffer and what its codec has done so far. -/
structure CodecState where
  delivered : List L.Msg
  errors : List ErrorCode
  buf : Bytes

/-- One read: the bytes are appended to the buffer and `onMessage` runs. -/
def onRead (s : CodecState L) (read : Bytes) : Option (CodecState L) :=
  (onMessage L (s.buf ++ read)).map fun o =>
    ⟨s.delivered ++ o.messages, s.errors ++ o.error.toList, o.buf⟩

/-- The reads of a new connection. -/
def onReads (reads : List Bytes) : Option (CodecState L) := reads.foldlM (onRead L) ⟨[], [], []⟩

end

end LkpExtent
