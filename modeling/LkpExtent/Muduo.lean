/-
  LkpExtent formalization — what the program sees of muduo and of stdio.

  * `TcpConnection`: the state of a connection, its context, and its output.  A
    message sent is pending (`output`) until the event that the pending output has
    been written completely; that event queues one call of the write-complete
    callback if it is set, and a queued call runs even if the callback has been
    cleared in between.  A message written at once is one followed immediately by
    that event.
  * `Disk`, `FILE`: files by path, and a stream open for writing.
-/
import LkpExtent.Proto

namespace LkpExtent

open Lib

/-- The identity of a connection object (a `TcpConnectionPtr`). -/
abbrev ConnId := ℕ

/-! ## Connections -/

/-- `TcpConnection::StateE`. -/
inductive ConnState where
  | kConnecting
  | kConnected
  | kDisconnecting
  | kDisconnected
  deriving DecidableEq, Repr

/-- A connection; `γ` is the type of what its context may hold. -/
structure TcpConnection (γ : Type) where
  state : ConnState := .kConnecting
  peerIp : String := ""
  context : Option γ := none
  writeCompleteCallback : Bool := false
  output : Bool := false
  queued : ℕ := 0

namespace TcpConnection
variable {γ : Type} (c : TcpConnection γ)

def connected : Bool := c.state = .kConnected

/-- From the UP event to the DOWN event: a connection being shut down is still up. -/
def isUp : Bool := c.state = .kConnected ∨ c.state = .kDisconnecting

def send : TcpConnection γ := { c with output := true }

def shutdown : TcpConnection γ :=
  if c.state = .kConnected then { c with state := .kDisconnecting } else c

/-- The pending output has been written completely. -/
def written : TcpConnection γ :=
  { c with output := false, queued := if c.writeCompleteCallback then c.queued + 1 else c.queued }

/-- A queued call of the write-complete callback starts. -/
def dequeue : TcpConnection γ := { c with queued := c.queued - 1 }

@[simp] theorem send_state : c.send.state = c.state := rfl
@[simp] theorem send_context : c.send.context = c.context := rfl
@[simp] theorem send_connected : c.send.connected = c.connected := rfl
@[simp] theorem send_isUp : c.send.isUp = c.isUp := rfl
@[simp] theorem send_peerIp : c.send.peerIp = c.peerIp := rfl

theorem isUp_of_connected (h : c.connected) : c.isUp := by
  simp only [connected, isUp, decide_eq_true_eq] at *; exact Or.inl h

@[simp] theorem shutdown_isUp : c.shutdown.isUp = c.isUp := by
  unfold shutdown isUp; split_ifs with h <;> simp [h]

@[simp] theorem shutdown_context : c.shutdown.context = c.context := by
  unfold shutdown; split_ifs <;> rfl

@[simp] theorem shutdown_peerIp : c.shutdown.peerIp = c.peerIp := by
  unfold shutdown; split_ifs <;> rfl

end TcpConnection

/-! ## Files -/

/-- The files by path. -/
abbrev Disk := String → Option Bytes

/-- A stream open for writing, at a position of the file at `path`. -/
structure FILE where
  path : String
  pos : ℕ := 0
  /-- what is written and still in the buffer of the stream -/
  buffer : Bytes := []
  isOpen : Bool := true
  deriving DecidableEq, Repr

/-- The bytes of a file after writing `data` at `pos`. -/
def overlay (old : Bytes) (pos : ℕ) (data : Bytes) : Bytes :=
  if data.isEmpty then old
  else old.take pos ++ List.replicate (pos - old.length) 0 ++ data ++ old.drop (pos + data.length)

/-- `fopen(path, "wb")`, when it succeeds: the file is empty. -/
def Disk.truncate (d : Disk) (path : String) : Disk := Function.update d path (some [])

/-- The write of a stream to its file. -/
def Disk.write (d : Disk) (fp : FILE) (data : Bytes) : Disk :=
  Function.update d fp.path (some (overlay ((d fp.path).getD []) fp.pos data))

/-- What `fwrite` writes to the file; the last `kept` bytes of all stay in the buffer. -/
def FILE.flushed (fp : FILE) (data : Bytes) (kept : ℕ) : Bytes :=
  (fp.buffer ++ data).take ((fp.buffer ++ data).length - kept)

/-- `fwrite` on an open stream. -/
def FILE.fwrite (fp : FILE) (data : Bytes) (kept : ℕ) : FILE := { fp with
  pos := fp.pos + (fp.flushed data kept).length
  buffer := (fp.buffer ++ data).drop ((fp.buffer ++ data).length - kept) }

/-- `fclose` on an open stream, which writes what is in the buffer. -/
def FILE.fclose (fp : FILE) : FILE :=
  { fp with pos := fp.pos + fp.buffer.length, buffer := [], isOpen := false }

/-- `stat(path, &statbuf); statbuf.st_size`, where `uninit` is what `statbuf` holds
    when there is no such file. -/
def Disk.stSize (d : Disk) (path : String) (uninit : ℤ) : ℤ :=
  match d path with
  | some bytes => bytes.length
  | none => uninit

/-- Writing at the end of a file. -/
theorem overlay_end (old data : Bytes) : overlay old old.length data = old ++ data := by
  simp only [overlay]
  cases data <;> simp

@[simp] theorem FILE.fwrite_path (fp : FILE) (data : Bytes) (kept : ℕ) : (fp.fwrite data kept).path = fp.path := rfl
@[simp] theorem FILE.fwrite_isOpen (fp : FILE) (data : Bytes) (kept : ℕ) :
    (fp.fwrite data kept).isOpen = fp.isOpen := rfl
@[simp] theorem FILE.fclose_path (fp : FILE) : fp.fclose.path = fp.path := rfl
@[simp] theorem FILE.fclose_isOpen (fp : FILE) : fp.fclose.isOpen = false := rfl

/-- The stream is open, and what its file has and what is in the buffer make up `data`. -/
structure FILE.Holds (fp : FILE) (d : Disk) (path : String) (data : Bytes) : Prop where
  path_eq : fp.path = path
  isOpen : fp.isOpen = true
  stored : ∃ written, d path = some written ∧ fp.pos = written.length ∧ written ++ fp.buffer = data

theorem FILE.holds_truncate (d : Disk) (path : String) :
    FILE.Holds { path } (d.truncate path) path [] where
  path_eq := rfl
  isOpen := rfl
  stored := ⟨[], Function.update_self .., rfl, rfl⟩

/-- What is written and what is kept are the bytes given. -/
theorem FILE.Holds.fwrite {fp : FILE} {d : Disk} {path : String} {old : Bytes} (h : fp.Holds d path old)
    (data : Bytes) (kept : ℕ) :
    (fp.fwrite data kept).Holds (d.write fp (fp.flushed data kept)) path (old ++ data) := by
  obtain ⟨rfl, hopen, written, hd, hpos, rfl⟩ := h
  refine ⟨rfl, hopen, written ++ fp.flushed data kept, ?_, ?_, ?_⟩
  · rw [Disk.write, Function.update_self, hd, Option.getD_some, hpos, overlay_end]
  · show fp.pos + (fp.flushed data kept).length = _
    rw [hpos, List.length_append]
  · show written ++ fp.flushed data kept ++ (fp.buffer ++ data).drop _ = _
    rw [flushed, List.append_assoc, List.take_append_drop, List.append_assoc]

/-- When the stream is closed the file is what has been written. -/
theorem FILE.Holds.fclose {fp : FILE} {d : Disk} {path : String} {data : Bytes} (h : fp.Holds d path data) :
    d.write fp fp.buffer path = some data := by
  obtain ⟨rfl, -, written, hd, hpos, rfl⟩ := h
  rw [Disk.write, Function.update_self, hd, Option.getD_some, hpos, overlay_end]

end LkpExtent
