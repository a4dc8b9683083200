/-
  LkpExtent formalization — the packets in which bytes arrive do not matter.

  The bytes are arbitrary here, whether they are frames or not.

  * `onReads_cut`: two ways of cutting the same bytes into reads deliver the same
    messages, leave the same buffer and report the same first error; after an error
    the buffer stays where it is.
-/
import LkpExtent.RoundTrip

namespace LkpExtent

open Lib

variable {L : Libs}

/-- The buffer starts with a frame that `onMessage` refuses. -/
def StuckAt (L : Libs) (buf : Bytes) (e : ErrorCode) : Prop := iteration L buf = some (.leave (some e))

theorem stuckAt_of_bad {buf : Bytes} {e : ErrorCode} (h : frameHead L buf = .bad e) : StuckAt L buf e := by
  rw [StuckAt, iteration_eq, h]; rfl

/-- The first error of a connection, once it has been reported, is met by every later
    read: nothing is delivered any more, and what is read stays behind the bad frame. -/
theorem onReads_stuck {reads : List Bytes} {s : CodecState L} {e : ErrorCode} (hs : onReads L reads = some s)
    (he : s.errors.head? = some e) (more : List Bytes) :
    ∃ u, onReads L (reads ++ more) = some u ∧ u.delivered = s.delivered ∧ u.buf = s.buf ++ more.flatten ∧
      StuckAt L u.buf e := by
  rw [onReads_eq] at hs
  cases hs
  obtain ⟨hitems, hbuf, hhead⟩ := Decoder.session_stuck (D := codec L) he more
  exact ⟨_, onReads_eq _, hitems, hbuf, stuckAt_of_bad hhead⟩

/-- **Decoding does not depend on the packets**, whatever the bytes are. -/
theorem onReads_cut (L : Libs) {reads reads' : List Bytes} (h : reads.flatten = reads'.flatten) :
    (∀ buf, ∃ o, onMessage L buf = some o) ∧
    ∃ s s', onReads L reads = some s ∧ onReads L reads' = some s' ∧
      s.delivered = s'.delivered ∧ s.buf = s'.buf ∧ s.errors.head? = s'.errors.head? ∧
      ∀ e, s.errors.head? = some e → ∀ more, ∃ u, onReads L (reads ++ more) = some u ∧
        u.delivered = s.delivered ∧ u.buf = s.buf ++ more.flatten ∧ StuckAt L u.buf e := by
  refine ⟨fun buf => ⟨_, onMessage_eq buf⟩, _, _, onReads_eq reads, onReads_eq reads', ?_, ?_, ?_, ?_⟩
  · show ((codec L).session reads).items = ((codec L).session reads').items
    rw [Decoder.session_items, Decoder.session_items, h]
  · show ((codec L).session reads).buf = ((codec L).session reads').buf
    rw [Decoder.session_buf, Decoder.session_buf, h]
  · show ((codec L).session reads).errors.head? = ((codec L).session reads').errors.head?
    rw [Decoder.session_error, Decoder.session_error, h]
  · intro e he more
    exact onReads_stuck (onReads_eq reads) he more

/-- A length field of zero, in two reads and in three, and then more bytes. -/
theorem onReads_cut_zeros :
    ∃ s, onReads heartBeatLibs [[0, 0], List.replicate 20 0] = some s ∧ s.errors.head? = some .kInvalidLength ∧
      ∃ u, onReads heartBeatLibs ([[0, 0], List.replicate 20 0] ++ [[8, 1]]) = some u ∧
        u.delivered = s.delivered ∧ u.buf = s.buf ++ [8, 1] := by
  have hflat : ([[0, 0], List.replicate 20 0] : List Bytes).flatten =
      ([[0], [0], List.replicate 20 0] : List Bytes).flatten := rfl
  obtain ⟨-, s, -, hs, -, -, -, -, hmore⟩ := onReads_cut heartBeatLibs hflat
  have hlen : frameLen [[0, 0], List.replicate 20 0].flatten = 0 := toInt32_of_isInt32 (by decide)
  have hbad : frameHead heartBeatLibs [[0, 0], List.replicate 20 0].flatten = .bad .kInvalidLength := by
    rw [frameHead, if_pos (by decide), hlen]
    exact if_neg (by decide)
  have herr : s.errors.head? = some .kInvalidLength := by
    rw [onReads_eq] at hs
    cases hs
    show ((codec heartBeatLibs).session _).errors.head? = _
    rw [Decoder.session_error, Decoder.decode_bad hbad]
  obtain ⟨u, hu, hdel, hbuf, -⟩ := hmore _ herr [[8, 1]]
  exact ⟨s, hs, herr, u, hu, hdel, hbuf⟩

end LkpExtent
