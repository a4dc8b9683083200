/-
  LkpExtent formalization — what `lkpServer` and `lkpClient` share: how a handler
  fails, and how a file is read and sent chunk by chunk.
-/
import LkpExtent.Lib.Chunks
import LkpExtent.Muduo

namespace LkpExtent

open Lib

/-- How a handler can end without returning: what is undefined in C++, an exception,
    a failed assertion, or the end of the process. -/
inductive Fault where
  | badAnyCast
  | nullEntry
  | nullConn
  | nullFile
  | closedFile
  | noBucket
  | assertion
  | exit
  deriving DecidableEq, Repr

theorem bind_ok {α β : Type} {x : Except Fault α} {f : α → Except Fault β} {b : β}
    (h : x >>= f = .ok b) : ∃ a, x = .ok a ∧ f a = .ok b := by
  cases x with
  | error => cases h
  | ok a => exact ⟨a, rfl, h⟩

theorem toOption_eq_some {α : Type} {x : Except Fault α} {a : α} : x.toOption = some a ↔ x = .ok a := by
  cases x <;> simp [Except.toOption]

/-- `kBufSize_`. -/
def kBufSize : ℕ := 64 * 1024

/-- The next chunk of an open file as a `File` message, and what is left of the
    file; nothing at its end.  `stack` is what lies in the buffer and after it behind
    the bytes read. -/
def nextPatch (fileType : FileType) (fp stack : Bytes) : Option (File × Bytes) :=
  let nread := min kBufSize fp.length
  if nread > 0 then
    some ({ fileType, firstPatch := false, patchLen := u32 nread
            content := cString (fp.take nread ++ stack) }, fp.drop nread)
  else none

/-- The message that ends a transfer. -/
def endFile : File := { fileType := .END }

/-- The message for a chunk after the first. -/
def patchOf (fileType : FileType) (chunk stack : Bytes) : File :=
  { fileType, patchLen := u32 chunk.length, content := cString (chunk ++ stack) }

theorem kBufSize_pos : 0 < kBufSize := by decide

theorem nextPatch_nil (fileType : FileType) (stack : Bytes) : nextPatch fileType [] stack = none := rfl

theorem nextPatch_of_ne_nil {fp : Bytes} (h : fp ≠ []) (fileType : FileType) (stack : Bytes) :
    nextPatch fileType fp stack = some (patchOf fileType (fp.take kBufSize) stack, fp.drop kBufSize) := by
  have hpos : 0 < fp.length := List.length_pos_iff.2 h
  have hk : 0 < kBufSize := kBufSize_pos
  unfold nextPatch
  rw [if_pos (by omega), ← List.take_eq_take_min, ← List.drop_eq_drop_min, patchOf, List.length_take]

theorem nextPatch_eq_none {fileType : FileType} {fp stack : Bytes} :
    nextPatch fileType fp stack = none ↔ fp = [] := by
  by_cases h : fp = []
  · subst h; simp [nextPatch_nil]
  · simp [nextPatch_of_ne_nil h, h]

/-- The pieces that a transfer sends, the first one even of an empty file. -/
def piecesOf (data : Bytes) : List Bytes := data.take kBufSize :: chunks kBufSize (data.drop kBufSize)

theorem flatten_piecesOf (data : Bytes) : (piecesOf data).flatten = data := by
  rw [piecesOf, List.flatten_cons, flatten_chunks kBufSize_pos, List.take_append_drop]

theorem length_le_of_mem_piecesOf {data piece : Bytes} (h : piece ∈ piecesOf data) :
    piece.length ≤ kBufSize := by
  rcases List.mem_cons.1 h with rfl | h
  · exact List.length_take_le _ _
  · exact length_le_of_mem_chunks kBufSize_pos h

/-- Of an empty file, the only piece is empty. -/
theorem forall_mem_piecesOf {data : Bytes} {P : Bytes → Prop} (hnil : P []) :
    (∀ piece ∈ piecesOf data, P piece) ↔ ∀ chunk ∈ chunks kBufSize data, P chunk := by
  by_cases hd : data = []
  · subst hd
    simp [piecesOf, hnil]
  · rw [chunks_of_ne_nil kBufSize_pos hd, piecesOf]

end LkpExtent
