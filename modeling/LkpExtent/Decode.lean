/-
  LkpExtent formalization — `lkpCodec::onMessage` as an incremental decoder.

  * `parse_isSome`: on a frame of admissible length `parse` reads inside the frame
    and computes no `int` that overflows;
  * `frameHead`: what the front of the buffer holds, and `codec`, the decoder it
    makes: neither a frame found nor an error is undone by later bytes;
  * `onMessage_eq`, `onReads_eq`: `onMessage` is the loop of that decoder, and a
    sequence of reads is one of its sessions.
-/
import LkpExtent.Codec
import LkpExtent.Lib.Decoder

namespace LkpExtent

open Lib

variable {L : Libs}

/-! ## parse -/

/-- `parse` only looks at the `len` bytes it is given. -/
theorem parse_append {buf : Bytes} {len : ℤ} (ys : Bytes) (h : len ≤ buf.length) :
    parse L (buf ++ ys) len = parse L buf len := by
  simp only [parse]
  rw [List.take_append_of_le_length (by omega)]

/-- The lengths that `onMessage` lets through. -/
def LenOK (len : ℤ) : Prop := kMinMessageLen ≤ len ∧ len ≤ kMaxMessageLen

instance (len : ℤ) : Decidable (LenOK len) := inferInstanceAs (Decidable (_ ∧ _))

theorem LenOK.bounds {len : ℤ} (h : LenOK len) : 10 ≤ len ∧ len ≤ 67108864 := h

theorem LenOK.cint_sub {len k : ℤ} (h : LenOK len) (h₀ : 0 ≤ k) (hk : k ≤ len) :
    cint (len - k) = some (len - k) := by
  obtain ⟨hmin, hmax⟩ := h.bounds
  exact cint_of_isInt32 ⟨by omega, by omega⟩

/-- `parse` is defined on every frame of admissible length that is all there. -/
theorem parse_isSome {buf : Bytes} {len : ℤ} (hlen : LenOK len) (h : len ≤ buf.length) :
    (parse L buf len).isSome := by
  obtain ⟨hmin, hmax⟩ := hlen.bounds
  have hH : kHeaderLen = 4 := rfl
  have hfl : ((buf.take len.toNat).length : ℤ) = len := by simp; omega
  simp only [parse]
  generalize buf.take len.toNat = frame at hfl
  have hsum : ∃ x, readInt32 frame (len - kHeaderLen) = some x ∧ IsInt32 x :=
    readInt32_isSome (by omega) (by omega)
  have hname : ∃ x, readInt32 frame 0 = some x ∧ IsInt32 x := readInt32_isSome le_rfl (by omega)
  have hbody : ∃ bs, slice frame 0 (len - kHeaderLen) = some bs :=
    slice_defined le_rfl (by omega) (by omega)
  obtain ⟨sum, hsum, -⟩ := hsum
  obtain ⟨nameLen, hname, hrange⟩ := hname
  obtain ⟨summed, hbody⟩ := hbody
  refine isSome_bind (hlen.cint_sub (by decide) (by omega)) (isSome_bind hsum (isSome_bind hbody ?_))
  split_ifs with hc
  · refine isSome_bind hname (isSome_bind (hlen.cint_sub (by decide) (by omega)) ?_)
    split_ifs with hn
    · obtain ⟨typeName, htype⟩ : ∃ bs, slice frame kHeaderLen (nameLen - 1) = some bs :=
        slice_defined (by omega) (by omega) (by omega)
      refine isSome_bind htype ?_
      split
      · have hdl : IsInt32 (len - nameLen - 2 * kHeaderLen) := ⟨by omega, by omega⟩
        obtain ⟨data, hdata⟩ :
            ∃ bs, slice frame (kHeaderLen + nameLen) (len - nameLen - 2 * kHeaderLen) = some bs :=
          slice_defined (by omega) (by omega) (by omega)
        exact isSome_bind (cint_of_isInt32 hdl) (isSome_bind hdata rfl)
      · rfl
    · rfl
  · rfl

/-! ## The front of the buffer -/

/-- The length field at the front of the buffer. -/
def frameLen (buf : Bytes) : ℤ := toInt32 (ofBE (buf.take 4))

theorem frameLen_append {buf : Bytes} (ys : Bytes) (h : 4 ≤ buf.length) :
    frameLen (buf ++ ys) = frameLen buf := by
  unfold frameLen; rw [List.take_append_of_le_length h]

theorem readInt32_frameLen {buf : Bytes} (h : 4 ≤ buf.length) :
    readInt32 buf 0 = some (frameLen buf) := by
  rw [readInt32, slice_isSome le_rfl (by omega) (by omega)]; rfl

/-- What the front of the buffer holds, given its length field. -/
def frameHeadOf (L : Libs) (buf : Bytes) (len : ℤ) : Head L.Msg ErrorCode :=
  if LenOK len then
    if (buf.length : ℤ) ≥ len + kHeaderLen then
      match parse L (buf.drop kHeaderLen.toNat) len with
      | some (.kNoError, some message) => .item message (kHeaderLen + len).toNat
      | some (errorCode, _) => .bad errorCode
      | none => .more
    else .more
  else .bad .kInvalidLength

/-- What the front of the buffer holds. -/
def frameHead (L : Libs) (buf : Bytes) : Head L.Msg ErrorCode :=
  if (buf.length : ℤ) ≥ kMinMessageLen + kHeaderLen then frameHeadOf L buf (frameLen buf) else .more

/-- **More bytes do not change what was found at the front.** -/
theorem frameHead_append {buf : Bytes} (ys : Bytes) (h : frameHead L buf ≠ .more) :
    frameHead L (buf ++ ys) = frameHead L buf := by
  have hH : kHeaderLen = 4 := rfl
  have hM : kMinMessageLen = 10 := rfl
  unfold frameHead at h ⊢
  by_cases h₁ : (buf.length : ℤ) ≥ kMinMessageLen + kHeaderLen
  swap
  · rw [if_neg h₁] at h; exact absurd rfl h
  rw [if_pos h₁] at h
  rw [frameLen_append ys (by omega), if_pos (by simp; omega), if_pos h₁]
  generalize frameLen buf = len at h ⊢
  unfold frameHeadOf at h ⊢
  split_ifs at h with h₂ h₃
  · rw [if_pos h₂, if_pos (by simp; omega), if_pos h₂, if_pos h₃,
      List.drop_append_of_le_length (by omega), parse_append ys (by simp; omega)]
  · exact absurd rfl h
  · rw [if_neg h₂, if_neg h₂]

theorem frameHead_item {buf : Bytes} {m : L.Msg} {n : ℕ} (h : frameHead L buf = .item m n) :
    (n : ℤ) = kHeaderLen + frameLen buf ∧ 14 ≤ n ∧ n ≤ buf.length := by
  have hH : kHeaderLen = 4 := rfl
  simp only [frameHead] at h
  split_ifs at h with h₁
  generalize frameLen buf = len at h ⊢
  simp only [frameHeadOf] at h
  split_ifs at h with h₂ h₃
  obtain ⟨hmin, hmax⟩ := h₂.bounds
  split at h
  · cases h; omega
  · cases h
  · cases h

variable (L) in
/-- The codec as an incremental decoder. -/
def codec : Decoder UInt8 L.Msg ErrorCode where
  head := frameHead L
  nil := rfl
  consumes h := by have := frameHead_item h; omega
  item_stable ys h := by rw [frameHead_append ys (by rw [h]; exact nofun), h]
  bad_stable ys h := by rw [frameHead_append ys (by rw [h]; exact nofun), h]

@[simp] theorem codec_head (buf : Bytes) : (codec L).head buf = frameHead L buf := rfl

/-! ## onMessage -/

/-- What the body of the loop does with the front of the buffer. -/
def Iteration.of (buf : Bytes) : Head L.Msg ErrorCode → Iteration L
  | .more => .leave none
  | .bad e => .leave (some e)
  | .item m n => .next m (buf.drop n)

theorem iteration_eq (buf : Bytes) :
    iteration L buf = some (.of buf (frameHead L buf)) := by
  have hH : kHeaderLen = 4 := rfl
  have hM : kMinMessageLen = 10 := rfl
  simp only [iteration, frameHead]
  by_cases h₁ : (buf.length : ℤ) ≥ kMinMessageLen + kHeaderLen
  swap
  · rw [if_neg h₁, if_neg h₁]; rfl
  rw [if_pos h₁, if_pos h₁, bind_of_some (readInt32_frameLen (by omega))]
  generalize frameLen buf = len
  simp only [frameHeadOf]
  by_cases h₂ : LenOK len
  swap
  · rw [if_neg h₂, if_pos (by unfold LenOK at h₂; omega)]; rfl
  obtain ⟨hmin, hmax⟩ := h₂.bounds
  rw [if_pos h₂, if_neg (by unfold LenOK at h₂; omega),
    bind_of_some (cint_of_isInt32 ⟨by omega, by omega⟩)]
  by_cases h₃ : (buf.length : ℤ) ≥ len + kHeaderLen
  swap
  · rw [if_neg h₃, if_neg h₃]; rfl
  rw [if_pos h₃, if_pos h₃]
  have hsome : (parse L (buf.drop kHeaderLen.toNat) len).isSome :=
    parse_isSome h₂ (by simp; omega)
  obtain ⟨⟨ec, om⟩, hp⟩ := Option.isSome_iff_exists.1 hsome
  have hr : retrieve buf (kHeaderLen + len) = some (buf.drop (kHeaderLen + len).toNat) :=
    if_pos ⟨by omega, by omega⟩
  rw [bind_of_some hp, hp]
  cases ec <;> cases om <;> first | rfl | exact bind_of_some hr

/-- What the loop of the decoder yields, as an outcome of `onMessage`. -/
def OnMessage.of (o : Decoded UInt8 L.Msg ErrorCode) : OnMessage L := ⟨o.items, o.error, o.rest⟩

/-- **`onMessage` is the loop of the decoder**, and is defined on every buffer. -/
theorem onMessage_eq (buf : Bytes) : onMessage L buf = some (.of ((codec L).decode buf)) := by
  induction hl : buf.length using Nat.strongRecOn generalizing buf with
  | _ k ih =>
    have hit := iteration_eq (L := L) buf
    rw [onMessage]
    cases hh : frameHead L buf with
    | more =>
      rw [Decoder.decode_more (D := codec L) hh]
      rw [hh] at hit
      split <;> simp_all [Iteration.of, OnMessage.of]
    | bad e =>
      rw [Decoder.decode_bad (D := codec L) hh]
      rw [hh] at hit
      split <;> simp_all [Iteration.of, OnMessage.of]
    | item m n =>
      obtain ⟨-, hn, hle⟩ := frameHead_item hh
      have hrec := ih (buf.drop n).length (by simp; omega) (buf.drop n) rfl
      rw [Decoder.decode_item (D := codec L) hh]
      rw [hh] at hit
      split <;> simp_all [Iteration.of, OnMessage.of]

/-- What a session of the decoder is, as the state of a connection. -/
def CodecState.of (s : Session UInt8 L.Msg ErrorCode) : CodecState L := ⟨s.items, s.errors, s.buf⟩

theorem onRead_eq (s : Session UInt8 L.Msg ErrorCode) (read : Bytes) :
    onRead L (.of s) read = some (.of ((codec L).feed s read)) := by
  rw [onRead, onMessage_eq]; rfl

/-- **The reads of a connection are a session of the decoder.** -/
theorem onReads_eq (reads : List Bytes) :
    onReads L reads = some (.of ((codec L).session reads)) := by
  suffices ∀ s, reads.foldlM (onRead L) (CodecState.of s) =
      some (.of (reads.foldl (codec L).feed s)) from this ⟨[], [], []⟩
  induction reads with
  | nil => intro s; rfl
  | cons r rs ih => intro s; rw [List.foldlM_cons, onRead_eq]; exact ih _

end LkpExtent
