/-
  LkpExtent formalization — small corruptions of a frame are caught.

  * `Corrupted`: one byte behind the length prefix replaced, or two neighbours of
    the checksummed region exchanged;
  * `Damaged`: the same seen from the fields, a change of the checksum of the region
    or of the checksum field;
  * `parse_damaged`, `parse_corrupted`: `parse` then finds a wrong checksum, before
    it looks at the name length.
-/
import LkpExtent.RoundTrip

namespace LkpExtent

open Lib

variable {L : Libs}

/-- The small corruptions of a frame: behind the 4 bytes of the length prefix, and
    for an exchange also before the 4 bytes of the checksum. -/
inductive Corrupted : Bytes → Bytes → Prop where
  | replaced {before after : Bytes} {b c : UInt8} : 4 ≤ before.length → b ≠ c →
      Corrupted (before ++ b :: after) (before ++ c :: after)
  | swapped {before after : Bytes} {b c : UInt8} : 4 ≤ before.length → 4 ≤ after.length → b ≠ c →
      Corrupted (before ++ b :: c :: after) (before ++ c :: b :: after)

/-- What a small corruption does to the checksummed `body` and the checksum field. -/
inductive Damaged (body field : Bytes) : Bytes → Prop where
  | body {body' : Bytes} : body'.length = body.length → adler32 body' ≠ adler32 body →
      Damaged body field (body' ++ field)
  | field {field' : Bytes} : field'.length = field.length → field' ≠ field →
      Damaged body field (body ++ field')

theorem replaced_damaged {body field before after : Bytes} {b c : UInt8} (hne : b ≠ c)
    (h : body ++ field = before ++ b :: after) : Damaged body field (before ++ c :: after) := by
  rcases List.append_eq_append_iff.1 h with ⟨as, rfl, rfl⟩ | ⟨cs, rfl, hafter⟩
  · -- the byte is in the checksum field
    rw [List.append_assoc]
    exact .field (by simp) (by simpa using hne.symm)
  · rcases List.cons_eq_append_iff.1 hafter with ⟨rfl, rfl⟩ | ⟨cs, rfl, rfl⟩
    · rw [List.append_nil]
      exact .field (by simp) (by simpa using hne.symm)
    · -- it is in the region
      have hdamaged : Damaged (before ++ b :: cs) field ((before ++ c :: cs) ++ field) :=
        .body (by simp) (adler32_replace hne.symm before cs)
      rwa [List.append_assoc, List.cons_append] at hdamaged

theorem swapped_damaged {body field before after : Bytes} {b c : UInt8} (hne : b ≠ c)
    (hfield : field.length ≤ after.length) (h : body ++ field = before ++ b :: c :: after) :
    Damaged body field (before ++ c :: b :: after) := by
  have hbody : field <:+ before ++ b :: c :: after := ⟨body, h⟩
  have hafter : after <:+ before ++ b :: c :: after := ⟨before ++ [b, c], by simp⟩
  obtain ⟨cs, rfl⟩ := List.suffix_of_suffix_length_le hbody hafter hfield
  obtain rfl : body = before ++ b :: c :: cs := by
    refine List.append_cancel_right (h.trans ?_)
    rw [List.append_assoc, List.cons_append, List.cons_append]
  have hdamaged : Damaged (before ++ b :: c :: cs) field ((before ++ c :: b :: cs) ++ field) :=
    .body (by simp) (adler32_swap hne.symm before cs)
  rwa [List.append_assoc, List.cons_append, List.cons_append] at hdamaged

/-- The checksum field of a frame holds the checksum of the region. -/
theorem ofBE_checksum (body : Bytes) : ofBE (be32 (toInt32 (adler32 body))) = adler32 body := by
  have hlt := adler32_lt body
  have hwritten := ofBE_be32 (toInt32 (adler32 body))
  rw [emod_toInt32] at hwritten
  omega

/-- `parse` on a region and a checksum field that do not fit. -/
theorem parse_of_checksum_ne (hadler : L.adler32 = adler32) {body field : Bytes} {len : ℤ}
    (hlen : (body.length : ℤ) = len - kHeaderLen) (hfits : len ≤ kMaxMessageLen) (hfield : field.length = 4)
    (hne : adler32 body ≠ ofBE field) (ys : Bytes) :
    parse L ((body ++ field) ++ ys) len = some (.kCheckSumError, none) := by
  have hH : kHeaderLen = 4 := rfl
  have hmax : kMaxMessageLen = 67108864 := rfl
  have hcint : cint (len - kHeaderLen) = some (len - kHeaderLen) :=
    cint_of_isInt32 ⟨by omega, by omega⟩
  have htake : ((body ++ field) ++ ys).take len.toNat = body ++ field :=
    List.take_left' (by simp; omega)
  have hread : readInt32 (body ++ field) (len - kHeaderLen) = some (toInt32 (ofBE field)) := by
    rw [readInt32, slice_mid (List.append_nil _).symm (by omega) (by omega), Option.map_some]
  have hsummed : slice (body ++ field) 0 (len - kHeaderLen) = some body :=
    slice_mid (a := []) rfl rfl (by omega)
  have hsum : toInt32 (adler32 body) ≠ toInt32 (ofBE field) :=
    fun heq => hne (toInt32_inj (adler32_lt _) (ofBE_lt hfield) heq)
  unfold parse
  rw [htake, bind_of_some hcint, bind_of_some hread, bind_of_some hsummed, hadler, if_neg hsum]
  rfl

/-- **A damaged frame has a wrong checksum**, and nothing else of it is looked at. -/
theorem parse_damaged (hadler : L.adler32 = adler32) {body changed : Bytes} {len : ℤ}
    (hlen : (body.length : ℤ) = len - kHeaderLen) (hfits : len ≤ kMaxMessageLen)
    (h : Damaged body (be32 (toInt32 (adler32 body))) changed) (ys : Bytes) :
    parse L (changed ++ ys) len = some (.kCheckSumError, none) := by
  cases h with
  | @body body' hbody hne =>
    refine parse_of_checksum_ne hadler (by omega) hfits (length_be32 _) ?_ ys
    rwa [ofBE_checksum]
  | @field field' hfield hne =>
    rw [length_be32] at hfield
    refine parse_of_checksum_ne hadler hlen hfits hfield ?_ ys
    intro heq
    rw [← ofBE_checksum body] at heq
    exact hne (ofBE_inj hfield heq.symm)

theorem corrupted_damaged {frame body field len changed : Bytes} (h : Corrupted frame changed)
    (hframe : frame = len ++ (body ++ field)) (hlen : len.length = 4) (hfield : field.length = 4) :
    ∃ changed', changed = len ++ changed' ∧ Damaged body field changed' := by
  cases h with
  | @replaced before after b c h₄ hne =>
    obtain ⟨before, rfl⟩ : len <+: before :=
      List.prefix_of_prefix_length_le ⟨_, hframe.symm⟩ (List.prefix_append _ _) (by omega)
    refine ⟨before ++ c :: after, List.append_assoc _ _ _, ?_⟩
    rw [List.append_assoc] at hframe
    exact replaced_damaged hne (List.append_cancel_left hframe).symm
  | @swapped before after b c h₄ hafter hne =>
    obtain ⟨before, rfl⟩ : len <+: before :=
      List.prefix_of_prefix_length_le ⟨_, hframe.symm⟩ (List.prefix_append _ _) (by omega)
    refine ⟨before ++ c :: b :: after, List.append_assoc _ _ _, ?_⟩
    rw [List.append_assoc] at hframe
    exact swapped_damaged hne (by omega) (List.append_cancel_left hframe).symm

/-- **Small corruptions are caught.**  With one byte behind the length prefix replaced,
    or two neighbours of the checksummed region exchanged, the length field still gives
    the frame to `parse`, which returns no message and `kCheckSumError`. -/
theorem parse_corrupted (hadler : L.adler32 = adler32) {m : L.Msg}
    (hfits : messageLen L m ≤ kMaxMessageLen) {changed : Bytes}
    (h : Corrupted (fillEmptyBuffer L m) changed) (ys : Bytes) :
    readInt32 (changed ++ ys) 0 = some (messageLen L m) ∧
    parse L ((changed ++ ys).drop kHeaderLen.toNat) (messageLen L m) =
      some (.kCheckSumError, none) := by
  have hpos : messageLen L m = 4 + ((L.GetTypeName m).length + 1) + (L.serialize m).length + 4 := rfl
  have hmax : kMaxMessageLen = 67108864 := rfl
  obtain ⟨changed, rfl, hdamaged⟩ := corrupted_damaged h (fillEmptyBuffer_eq hfits) rfl rfl
  rw [List.append_assoc]
  constructor
  · have hread : readInt32 (be32 (messageLen L m) ++ (changed ++ ys)) 0 =
        some (toInt32 (messageLen L m)) := readInt32_be32 (a := []) rfl rfl
    rwa [toInt32_of_isInt32 ⟨by omega, by omega⟩] at hread
  · rw [hadler] at hdamaged
    exact parse_damaged hadler (length_frameBody m) hfits hdamaged ys

/-- A heartbeat whose status byte was turned into a NUL. -/
theorem parse_corrupted_heartBeat :
    let frame := fillEmptyBuffer heartBeatLibs ⟨true⟩
    parse heartBeatLibs (((frame.take 30 ++ 0 :: frame.drop 31) ++ []).drop 4)
      (messageLen heartBeatLibs ⟨true⟩) = some (.kCheckSumError, none) := by
  intro frame
  have hframe : frame = frame.take 30 ++ 1 :: frame.drop 31 := by decide +kernel
  have hcorrupted : Corrupted frame (frame.take 30 ++ 0 :: frame.drop 31) := by
    nth_rewrite 1 [hframe]
    exact .replaced (by decide +kernel) (by decide)
  exact (parse_corrupted rfl (by decide) hcorrupted []).2

end LkpExtent
