/-
  LkpExtent formalization — what `fillEmptyBuffer` encodes, `onMessage` decodes.

  * `Sendable`: what the codec relies on for one message: its type name is not
    empty and is found again, parsing inverts serialization, and the frame length
    is admissible;
  * `parse_fillEmptyBuffer`, `frameHead_fillEmptyBuffer`: the frame of a message is
    found at the front of every buffer that starts with it;
  * `onReads_fillEmptyBuffer`: a stream of frames, however it is cut into reads, is
    decoded to its messages.
-/
import LkpExtent.Decode
import LkpExtent.Proto
import LkpExtent.Lib.Adler

namespace LkpExtent

open Lib

variable {L : Libs}

/-- The length field of the frame of a message. -/
def messageLen (L : Libs) (m : L.Msg) : ℤ :=
  4 + ((L.GetTypeName m).length + 1) + (L.serialize m).length + 4

/-- What the codec relies on for the message `m`. -/
structure Sendable (L : Libs) (m : L.Msg) : Prop where
  name_ne : L.GetTypeName m ≠ []
  create : ∃ p, L.createMessage (L.GetTypeName m) = some p ∧
    L.ParseFromArray p (L.serialize m) = (true, m)
  fits : messageLen L m ≤ kMaxMessageLen

section
variable {m : L.Msg} (h : Sendable L m)
include h

theorem Sendable.lenOK : LenOK (messageLen L m) := by
  refine ⟨?_, h.fits⟩
  have := List.length_pos_iff.2 h.name_ne
  simp only [messageLen, kMinMessageLen, kHeaderLen]
  omega

theorem Sendable.name_lt : ((L.GetTypeName m).length : ℤ) + 1 < 2 ^ 31 := by
  obtain ⟨-, hmax⟩ := h.lenOK.bounds
  simp only [messageLen] at hmax
  omega

end

/-- The checksummed part of the frame. -/
def frameBody (L : Libs) (m : L.Msg) : Bytes :=
  be32 ((L.GetTypeName m).length + 1) ++ (L.GetTypeName m ++ [0]) ++ L.serialize m

/-- The part of the frame that the length field counts. -/
def frameRest (L : Libs) (m : L.Msg) : Bytes :=
  frameBody L m ++ be32 (toInt32 (L.adler32 (frameBody L m)))

theorem length_frameBody (m : L.Msg) : ((frameBody L m).length : ℤ) = messageLen L m - 4 := by
  simp only [frameBody, List.length_append, length_be32, List.length_singleton, messageLen]
  omega

theorem length_frameRest (m : L.Msg) : ((frameRest L m).length : ℤ) = messageLen L m := by
  rw [frameRest, List.length_append, length_be32]
  have := length_frameBody m
  omega

/-- The layout of a frame. -/
theorem fillEmptyBuffer_layout {m : L.Msg} (h : messageLen L m < 2 ^ 31) :
    fillEmptyBuffer L m = be32 (messageLen L m) ++ frameRest L m := by
  have hpos : messageLen L m = 4 + ((L.GetTypeName m).length + 1) + (L.serialize m).length + 4 := rfl
  have hname : toInt32 ((L.GetTypeName m).length + 1) = (L.GetTypeName m).length + 1 :=
    toInt32_of_isInt32 ⟨by omega, by omega⟩
  have hlen : toInt32 (frameRest L m).length = messageLen L m := by
    rw [length_frameRest, toInt32_of_isInt32 ⟨by omega, by omega⟩]
  have htake : (L.GetTypeName m ++ [0]).take (((L.GetTypeName m).length : ℤ) + 1).toNat =
      L.GetTypeName m ++ [0] := List.take_of_length_le (by simp)
  simp only [fillEmptyBuffer, hname, htake]
  rw [← hlen]
  rfl

theorem fillEmptyBuffer_eq {m : L.Msg} (h : messageLen L m ≤ kMaxMessageLen) :
    fillEmptyBuffer L m = be32 (messageLen L m) ++ frameRest L m := by
  have hmax : kMaxMessageLen = 67108864 := rfl
  exact fillEmptyBuffer_layout (by omega)

theorem length_fillEmptyBuffer {m : L.Msg} (h : Sendable L m) :
    ((fillEmptyBuffer L m).length : ℤ) = 4 + messageLen L m := by
  rw [fillEmptyBuffer_eq h.fits, List.length_append, length_be32]
  have := length_frameRest m
  omega

/-- **`parse` inverts the encoding of one frame.** -/
theorem parse_fillEmptyBuffer {m : L.Msg} (h : Sendable L m) (ys : Bytes) :
    parse L (frameRest L m ++ ys) (messageLen L m) = some (.kNoError, some m) := by
  obtain ⟨p, hp, hparse⟩ := h.create
  have hH : kHeaderLen = 4 := rfl
  have hlen := length_frameRest m
  have hbody := length_frameBody m
  have hok := h.lenOK
  obtain ⟨hmin, hmax⟩ := hok.bounds
  have hname := List.length_pos_iff.2 h.name_ne
  have hpos : messageLen L m = 4 + ((L.GetTypeName m).length + 1) + (L.serialize m).length + 4 := rfl
  rw [parse_append ys (by omega)]
  unfold parse
  rw [List.take_of_length_le (by omega), bind_of_some (hok.cint_sub (by decide) (by omega))]
  -- the checksum field, and the bytes it sums
  have hsum : readInt32 (frameRest L m) (messageLen L m - kHeaderLen) =
      some (toInt32 (toInt32 (L.adler32 (frameBody L m)))) :=
    readInt32_be32 (List.append_nil _).symm (by omega)
  have hsummed : slice (frameRest L m) 0 (messageLen L m - kHeaderLen) = some (frameBody L m) :=
    slice_mid (a := []) rfl rfl (by omega)
  rw [bind_of_some hsum, bind_of_some hsummed, if_pos (toInt32_toInt32 _).symm]
  -- the name and the payload behind it
  have hnl : readInt32 (frameRest L m) 0 = some (toInt32 ((L.GetTypeName m).length + 1)) :=
    readInt32_be32 (a := []) (by simp only [frameRest, frameBody, List.append_assoc]; rfl) rfl
  rw [toInt32_of_isInt32 ⟨by omega, h.name_lt⟩] at hnl
  have hntype : slice (frameRest L m) kHeaderLen ((L.GetTypeName m).length + 1 - 1) =
      some (L.GetTypeName m) :=
    slice_mid (a := be32 ((L.GetTypeName m).length + 1))
      (by simp only [frameRest, frameBody, List.append_assoc]; rfl) rfl (by omega)
  have hdata : slice (frameRest L m) (kHeaderLen + ((L.GetTypeName m).length + 1))
      (messageLen L m - ((L.GetTypeName m).length + 1) - 2 * kHeaderLen) = some (L.serialize m) :=
    slice_mid (a := be32 ((L.GetTypeName m).length + 1) ++ (L.GetTypeName m ++ [0])) rfl
      (by simp; omega) (by omega)
  rw [bind_of_some hnl, bind_of_some (hok.cint_sub (by decide) (by omega)),
    if_pos ⟨by omega, by omega⟩, bind_of_some hntype, hp]
  refine (bind_of_some (cint_of_isInt32 ⟨by omega, by omega⟩)).trans ((bind_of_some hdata).trans ?_)
  rw [hparse]
  rfl

/-- The frame of a message is found wherever a buffer starts with it. -/
theorem frameHead_fillEmptyBuffer {m : L.Msg} (h : Sendable L m) (ys : Bytes) :
    frameHead L (fillEmptyBuffer L m ++ ys) = .item m (fillEmptyBuffer L m).length := by
  have hH : kHeaderLen = 4 := rfl
  have hM : kMinMessageLen = 10 := rfl
  have hlen := length_fillEmptyBuffer h
  obtain ⟨hmin, hmax⟩ := h.lenOK.bounds
  have hfl : frameLen (fillEmptyBuffer L m ++ ys) = messageLen L m := by
    have hread : readInt32 (fillEmptyBuffer L m ++ ys) 0 = some (toInt32 (messageLen L m)) :=
      readInt32_be32 (a := []) (by rw [fillEmptyBuffer_eq h.fits, List.append_assoc]; rfl) rfl
    rw [readInt32_frameLen (by simp; omega), toInt32_of_isInt32 ⟨by omega, by omega⟩] at hread
    exact Option.some.inj hread
  have hdrop : (fillEmptyBuffer L m ++ ys).drop kHeaderLen.toNat = frameRest L m ++ ys := by
    rw [fillEmptyBuffer_eq h.fits, List.append_assoc]; rfl
  simp only [frameHead]
  rw [if_pos (by simp; omega), hfl]
  simp only [frameHeadOf]
  rw [if_pos h.lenOK, if_pos (by simp; omega), hdrop, parse_fillEmptyBuffer h]
  exact congrArg (Head.item m) (by omega)

/-- **Stream round trip.**  The frames of the messages `ms`, cut into reads in any
    way, are delivered as `ms`, with no error and nothing left in the buffer. -/
theorem onReads_fillEmptyBuffer (ms : List L.Msg) (h : ∀ m ∈ ms, Sendable L m) (reads : List Bytes)
    (hreads : reads.flatten = (ms.map (fillEmptyBuffer L)).flatten) :
    onReads L reads = some ⟨ms, [], []⟩ := by
  have hhead : ∀ m ∈ ms, ∀ ys, (codec L).head (fillEmptyBuffer L m ++ ys) =
      .item m (fillEmptyBuffer L m).length := by
    intro m hm ys
    rw [codec_head, frameHead_fillEmptyBuffer (h m hm)]
  rw [onReads_eq, Decoder.session_encode (fillEmptyBuffer L) hhead hreads]
  rfl

/-- protobuf and zlib on `HeartBeat` messages: field 1 is a varint, absent when false. -/
def heartBeatLibs : Libs where
  Msg := HeartBeat
  GetTypeName _ := "lkpMessage.HeartBeat".toList.map fun c => c.val.toUInt8
  serialize m := if m.status then [8, 1] else []
  createMessage name :=
    if name = "lkpMessage.HeartBeat".toList.map fun c => c.val.toUInt8 then some ⟨false⟩ else none
  ParseFromArray m data := match data with
    | [] => (true, ⟨false⟩)
    | [8, b] => (b < 128, ⟨b ≠ 0⟩)
    | _ => (false, m)
  adler32 := adler32

/-- Two heartbeats, the second with an empty payload, in three reads: the cuts are
    inside the length field and inside the second frame. -/
theorem onReads_heartBeats :
    let stream := fillEmptyBuffer heartBeatLibs ⟨true⟩ ++ fillEmptyBuffer heartBeatLibs ⟨false⟩
    onReads heartBeatLibs [stream.take 3, (stream.drop 3).take 50, (stream.drop 3).drop 50] =
      some ⟨[⟨true⟩, ⟨false⟩], [], []⟩ := by
  have hm : ∀ m : HeartBeat, m ∈ [⟨true⟩, ⟨false⟩] → m = ⟨true⟩ ∨ m = ⟨false⟩ := by simp
  refine onReads_fillEmptyBuffer (L := heartBeatLibs) [⟨true⟩, ⟨false⟩] (fun m h => ?_) _ ?_
  swap
  · have hpair : ∀ a b : heartBeatLibs.Msg, ([a, b].map (fillEmptyBuffer heartBeatLibs)).flatten =
        fillEmptyBuffer heartBeatLibs a ++ fillEmptyBuffer heartBeatLibs b := by simp
    simp only [List.flatten_cons, List.flatten_nil, List.append_nil, List.take_append_drop]
    exact (hpair _ _).symm
  rcases hm m h with rfl | rfl
  · exact ⟨by decide, ⟨⟨false⟩, rfl, rfl⟩, by decide⟩
  · exact ⟨by decide, ⟨⟨false⟩, rfl, rfl⟩, by decide⟩

end LkpExtent
