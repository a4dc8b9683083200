/-
  LkpExtent formalization — `lkpCodec::parse` stays inside the frame.

  * `LoopHead`: the buffers at which the loop of `onMessage` stands, and
    `ParseCalled`: the guards under which its body calls `parse`;
  * `iteration_parseCalled`, `iteration_not_parseCalled`: these guards are the ones
    of the body, which goes on only behind a message that it has parsed;
  * `FrameFields`: an accepted name length cuts the frame into its fields;
  * `onMessage_insideFrame`: what holds of every call of `parse`.
-/
import LkpExtent.RoundTrip

namespace LkpExtent

open Lib

variable {L : Libs}

/-! ## The calls of parse -/

/-- The buffers at which the test of the loop of `onMessage` is made. -/
inductive LoopHead (L : Libs) (buf : Bytes) : Bytes → Prop where
  | start : LoopHead L buf buf
  | next {b rest : Bytes} {m : L.Msg} : LoopHead L buf b → iteration L b = some (.next m rest) →
      LoopHead L buf rest

/-- `len` was read from the buffer and passed the test on the length. -/
structure LenRead (b : Bytes) (len : ℤ) : Prop where
  long : (b.length : ℤ) ≥ kMinMessageLen + kHeaderLen
  read : readInt32 b 0 = some len
  valid : ¬ (len > kMaxMessageLen ∨ len < kMinMessageLen)

/-- The body of the loop calls `parse(buf->peek() + kHeaderLen, len)`. -/
structure ParseCalled (b : Bytes) (len : ℤ) : Prop extends LenRead b len where
  there : ∃ total, cint (len + kHeaderLen) = some total ∧ (b.length : ℤ) ≥ total

theorem LenRead.lenOK {b : Bytes} {len : ℤ} (h : LenRead b len) : LenOK len := by
  have := h.valid
  unfold LenOK
  omega

theorem LenRead.cint_total {b : Bytes} {len : ℤ} (h : LenRead b len) :
    cint (len + kHeaderLen) = some (len + kHeaderLen) := by
  obtain ⟨hmin, hmax⟩ := h.lenOK.bounds
  have hH : kHeaderLen = 4 := rfl
  exact cint_of_isInt32 ⟨by omega, by omega⟩

theorem ParseCalled.le_length {b : Bytes} {len : ℤ} (h : ParseCalled b len) :
    kHeaderLen + len ≤ b.length := by
  obtain ⟨total, htotal, hle⟩ := h.there
  rw [h.cint_total] at htotal
  cases htotal
  omega

/-- What the body does with the outcome of `parse`. -/
theorem iteration_parseCalled {b : Bytes} {len : ℤ} (h : ParseCalled b len) :
    iteration L b = (parse L (b.drop kHeaderLen.toNat) len).bind fun r => match r with
      | (.kNoError, some message) =>
        (retrieve b (kHeaderLen + len)).bind fun rest => some (.next message rest)
      | (errorCode, _) => some (.leave (some errorCode)) := by
  have hle := h.le_length
  simp only [iteration]
  rw [if_pos h.long, bind_of_some h.read, if_neg h.valid, bind_of_some h.cint_total,
    if_pos (by omega)]
  rcases parse L (b.drop kHeaderLen.toNat) len with _ | ⟨_ | _, _ | m⟩ <;> rfl

/-- Where the guards fail the loop is left, whatever the libraries do. -/
theorem iteration_not_parseCalled {b : Bytes} (h : ∀ len, ¬ ParseCalled b len) :
    ∃ error, ∀ L, iteration L b = some (.leave error) := by
  by_cases hlong : (b.length : ℤ) ≥ kMinMessageLen + kHeaderLen
  swap
  · exact ⟨none, fun L => by simp only [iteration]; rw [if_neg hlong]; rfl⟩
  have hread : readInt32 b 0 = some (frameLen b) := by
    refine readInt32_frameLen ?_
    have hM : kMinMessageLen + kHeaderLen = 14 := rfl
    omega
  by_cases hvalid : frameLen b > kMaxMessageLen ∨ frameLen b < kMinMessageLen
  · refine ⟨some .kInvalidLength, fun L => ?_⟩
    simp only [iteration]
    rw [if_pos hlong, bind_of_some hread, if_pos hvalid]
    rfl
  · have hlen : LenRead b (frameLen b) := ⟨hlong, hread, hvalid⟩
    have hthere : ¬ (b.length : ℤ) ≥ frameLen b + kHeaderLen :=
      fun hle => h _ ⟨hlen, _, hlen.cint_total, hle⟩
    refine ⟨none, fun L => ?_⟩
    simp only [iteration]
    rw [if_pos hlong, bind_of_some hread, if_neg hvalid, bind_of_some hlen.cint_total,
      if_neg hthere]
    rfl

/-- A body that does not leave the loop has parsed a message, which it takes off the buffer. -/
theorem parseCalled_of_next {b rest : Bytes} {m : L.Msg} (h : iteration L b = some (.next m rest)) :
    ∃ len, ParseCalled b len ∧ rest = b.drop (kHeaderLen + len).toNat := by
  by_cases hno : ∀ len, ¬ ParseCalled b len
  · obtain ⟨error, hleave⟩ := iteration_not_parseCalled hno
    rw [hleave] at h
    cases h
  · obtain ⟨len, hcalled⟩ := not_forall_not.1 hno
    refine ⟨len, hcalled, ?_⟩
    rw [iteration_parseCalled hcalled] at h
    obtain ⟨⟨errorCode, message⟩, -, h⟩ := Option.bind_eq_some_iff.1 h
    cases errorCode with
    | kNoError =>
      cases message with
      | some message =>
        obtain ⟨rest', hrest, h⟩ := Option.bind_eq_some_iff.1 h
        cases h
        simp only [retrieve] at hrest
        split_ifs at hrest
        cases hrest
        rfl
      | none => cases h
    | _ => cases h

/-- The loop only moves towards the end of the buffer. -/
theorem LoopHead.suffix {buf b : Bytes} (h : LoopHead L buf b) : b <:+ buf := by
  induction h with
  | start => exact List.suffix_rfl
  | next _ hnext ih =>
    obtain ⟨len, -, rfl⟩ := parseCalled_of_next hnext
    exact (List.drop_suffix _ _).trans ih

/-! ## The fields of a frame -/

/-- The fields of a frame of `len` bytes with the name length `nameLen`. -/
structure FrameFields (frame : Bytes) (len nameLen : ℤ) : Prop where
  rest : IsInt32 (len - nameLen)
  dataLen : IsInt32 (len - nameLen - 2 * kHeaderLen)
  dataLen_nonneg : 0 ≤ len - nameLen - 2 * kHeaderLen
  /-- The name length, the name with its NUL, the payload and the checksum are the
      whole frame, one behind the other. -/
  cut : ∃ lenField name data sum, slice frame 0 kHeaderLen = some lenField ∧
    slice frame kHeaderLen nameLen = some name ∧
    slice frame (kHeaderLen + nameLen) (len - nameLen - 2 * kHeaderLen) = some data ∧
    slice frame (len - kHeaderLen) kHeaderLen = some sum ∧
    frame = lenField ++ name ++ data ++ sum

/-- Four consecutive pieces of a list. -/
theorem take_drop_four {α : Type} (xs : List α) (i j k : ℕ) :
    xs = xs.take i ++ (xs.drop i).take j ++ (xs.drop (i + j)).take k ++ xs.drop (i + j + k) := by
  have hdrop : xs.drop (i + j) = (xs.drop (i + j)).take k ++ xs.drop (i + j + k) := by
    have htake := List.take_append_drop k (xs.drop (i + j))
    rw [List.drop_drop] at htake
    exact htake.symm
  have hmid : xs.drop i = (xs.drop i).take j ++ xs.drop (i + j) := by
    rw [← List.drop_drop, List.take_append_drop]
  rw [List.append_assoc, ← hdrop, List.append_assoc, ← hmid, List.take_append_drop]

/-- **An accepted name length cuts the frame into its fields.** -/
theorem FrameFields.of_accepted {frame : Bytes} {len nameLen : ℤ} (hlen : LenOK len)
    (hframe : (frame.length : ℤ) = len) (h₂ : nameLen ≥ 2) (hle : nameLen ≤ len - 2 * kHeaderLen) :
    FrameFields frame len nameLen := by
  obtain ⟨hmin, hmax⟩ := hlen.bounds
  have hH : kHeaderLen = 4 := rfl
  refine ⟨⟨by omega, by omega⟩, ⟨by omega, by omega⟩, by omega, _, _, _, _,
    slice_isSome (by omega) (by omega) (by omega), slice_isSome (by omega) (by omega) (by omega),
    slice_isSome (by omega) (by omega) (by omega), slice_isSome (by omega) (by omega) (by omega), ?_⟩
  have hname : (kHeaderLen + nameLen).toNat = kHeaderLen.toNat + nameLen.toNat := by omega
  have hsum : (len - kHeaderLen).toNat =
      kHeaderLen.toNat + nameLen.toNat + (len - nameLen - 2 * kHeaderLen).toNat := by omega
  have hlast : ((frame.drop (len - kHeaderLen).toNat).take kHeaderLen.toNat) =
      frame.drop (len - kHeaderLen).toNat := by
    refine List.take_of_length_le ?_
    rw [List.length_drop]
    omega
  rw [hlast, hsum, hname]
  exact take_drop_four frame _ _ _

/-! ## Every call -/

/-- What holds of a call of `parse` on the frame behind the length field of `b`. -/
structure InsideFrame (L : Libs) (b : Bytes) (len : ℤ) : Prop where
  /-- The frame is all in the buffer, so that `retrieve` finds what it takes. -/
  present : kHeaderLen + len ≤ b.length
  /-- `parse` reads nothing but the `len` bytes of the frame. -/
  reads : ∀ c : Bytes, c.take len.toNat = (b.drop kHeaderLen.toNat).take len.toNat →
    parse L c len = parse L (b.drop kHeaderLen.toNat) len
  /-- None of its reads is outside of them, and nothing it computes overflows. -/
  defined : (parse L (b.drop kHeaderLen.toNat) len).isSome
  total : IsInt32 (len + kHeaderLen)
  body : IsInt32 (len - kHeaderLen)
  room : IsInt32 (len - 2 * kHeaderLen)
  fields : ∀ nameLen, readInt32 ((b.drop kHeaderLen.toNat).take len.toNat) 0 = some nameLen →
    nameLen ≥ 2 → nameLen ≤ len - 2 * kHeaderLen →
    FrameFields ((b.drop kHeaderLen.toNat).take len.toNat) len nameLen

theorem ParseCalled.insideFrame {b : Bytes} {len : ℤ} (h : ParseCalled b len) :
    InsideFrame L b len := by
  have hle := h.le_length
  have hlen := h.lenOK
  obtain ⟨hmin, hmax⟩ := hlen.bounds
  have hH : kHeaderLen = 4 := rfl
  have hdrop : len ≤ ((b.drop kHeaderLen.toNat).length : ℤ) := by
    rw [List.length_drop]
    omega
  refine ⟨hle, ?_, parse_isSome hlen hdrop, ⟨by omega, by omega⟩, ⟨by omega, by omega⟩,
    ⟨by omega, by omega⟩, ?_⟩
  · intro c hc
    simp only [parse, hc]
  · intro nameLen _ h₂ hroom
    refine .of_accepted hlen ?_ h₂ hroom
    rw [List.length_take]
    omega

/-- **The decoder stays inside the frame.**  `onMessage` is defined on every buffer;
    wherever its loop stands the rest of the buffer is there, the test for a whole
    frame does not overflow, and each call of `parse` is inside its frame. -/
theorem onMessage_insideFrame (L : Libs) (buf : Bytes) :
    (onMessage L buf).isSome ∧
    ∀ b, LoopHead L buf b → b <:+ buf ∧
      (∀ len, LenRead b len → IsInt32 (len + kHeaderLen)) ∧
      ∀ len, ParseCalled b len → InsideFrame L b len := by
  refine ⟨by rw [onMessage_eq]; rfl, ?_⟩
  rintro b hb
  refine ⟨hb.suffix, ?_, ?_⟩
  · rintro len hlen
    obtain ⟨hmin, hmax⟩ := hlen.lenOK.bounds
    have hH : kHeaderLen = 4 := rfl
    exact ⟨by omega, by omega⟩
  · rintro len hcalled
    exact hcalled.insideFrame

/-- A heartbeat with its frame cut off in the buffer behind it: the first frame is parsed. -/
theorem onMessage_insideFrame_heartBeat :
    let frame := fillEmptyBuffer heartBeatLibs ⟨true⟩
    InsideFrame heartBeatLibs (frame ++ frame.take 20) (messageLen heartBeatLibs ⟨true⟩) :=
  ((onMessage_insideFrame heartBeatLibs _).2 _ .start).2.2 _
    ⟨⟨by decide +kernel, by decide +kernel, by decide⟩, _, cint_of_isInt32 (by decide),
      by decide +kernel⟩

end LkpExtent
