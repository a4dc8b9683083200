/-
  LkpExtent formalization — the asynchronous log.

  `append` and the back-end thread `threadFunc` are the same in `lkpServer` and in
  `lkpClient`.  The producer fills `currentBuffer_` under the mutex; the thread takes all
  buffers under the mutex, and drops, writes and recycles them without it.

  * `FixedBuffer`: what both sides use of muduo's buffer class;
  * `AsyncLog`, `AsyncLog.step`: the buffers, and the thread one step at a time with the
    calls of `append` between its steps;
  * `Sound`: the buffers that are there, and the empty ones among them;
  * `Books`: in which buffer each appended line is;
  * `log_keeps`: what is written and what is still held is what was appended, without the
    buffers dropped.
-/
import LkpExtent.Lib.CMem
import LkpExtent.Lib.Handover
import LkpExtent.Lib.Runs

namespace LkpExtent

open Lib

/-! ## Buffers -/

/-- What is used of `FixedBuffer<kLargeBuffer>`.  `size` is the capacity, and `data` the
    `length()` bytes from `data()`. -/
class FixedBuffer (β : Type) where
  size : ℕ
  new : β
  data : β → Bytes
  avail : β → ℕ
  append : β → Bytes → β
  reset : β → β

/-- `append` stores the line iff `avail() > len`; `reset` empties the buffer. -/
class LawfulFixedBuffer (β : Type) [FixedBuffer β] : Prop where
  data_new : FixedBuffer.data (FixedBuffer.new : β) = []
  avail_add_length : ∀ b : β, FixedBuffer.avail b + (FixedBuffer.data b).length = FixedBuffer.size β
  data_append : ∀ (b : β) (line : Bytes), FixedBuffer.data (FixedBuffer.append b line) =
    if line.length < FixedBuffer.avail b then FixedBuffer.data b ++ line else FixedBuffer.data b
  data_reset : ∀ b : β, FixedBuffer.data (FixedBuffer.reset b) = []

/-- A `std::unique_ptr<Buffer_log>`. -/
abbrev BufferPtr (β : Type) := Option β

open FixedBuffer

/-- The bytes in a buffer; none behind a null pointer. -/
def contents {β : Type} [FixedBuffer β] : BufferPtr β → Bytes
  | none => []
  | some b => data b

/-- What `output.append` has put into the log file. -/
inductive LogEntry where
  | lines (bytes : Bytes)
  | notice (text : String)
  deriving DecidableEq

/-- The bytes of an entry, drop notices aside. -/
def LogEntry.bytes : LogEntry → Bytes
  | .lines bytes => bytes
  | .notice _ => []

/-- The text of `buf` in the drop check. -/
def droppedNotice (now : String) (larger : ℕ) : String :=
  s!"Dropped log messages at {now}, {larger} larger buffers\n"

/-! ## The log -/

/-- Where the back-end thread is. -/
inductive LogThread where
  | notStarted
  | started
  /-- before the test of `running_` -/
  | loopHead
  /-- after the assertions, before the mutex is taken -/
  | locking
  /-- in `cond_.waitForSeconds` -/
  | waiting
  /-- after the swap, before the drop check -/
  | swapped
  /-- the next buffer to write is `buffersToWrite[n]` -/
  | writing (n : ℕ)
  | returned
  /-- an assertion has failed, or a null pointer has been used -/
  | aborted
  deriving DecidableEq

/-- The members behind the mutex, and the local variables of `threadFunc`. -/
structure AsyncLog (β : Type) where
  running_ : Bool := false
  currentBuffer_ : BufferPtr β
  nextBuffer_ : BufferPtr β
  buffers_ : List (BufferPtr β) := []
  newBuffer1 : BufferPtr β := none
  newBuffer2 : BufferPtr β := none
  buffersToWrite : List (BufferPtr β) := []
  file : List LogEntry := []
  thread : LogThread := .notStarted

inductive LogEvent where
  | append (logline : Bytes)
  | start
  /-- `threadFunc`, up to its loop -/
  | threadFunc
  | loopHead
  | lock
  /-- the wait ends: a notification, or `flushInterval_` is over -/
  | wake
  | dropCheck (now : String)
  | write
  | recycle
  /-- `running_ = false` in the destructor -/
  | stop

namespace AsyncLog
variable {β : Type} [FixedBuffer β] (s : AsyncLog β)

/-- The constructor. -/
def init : AsyncLog β where
  currentBuffer_ := some new
  nextBuffer_ := some new

def abort : AsyncLog β := { s with thread := .aborted }

def append (logline : Bytes) : AsyncLog β :=
  match s.currentBuffer_ with
  | none => s.abort
  | some b =>
    if logline.length < avail b then
      { s with currentBuffer_ := some (FixedBuffer.append b logline) }
    else
      -- the spare buffer if there is one, and a new one otherwise
      { s with
        buffers_ := s.buffers_ ++ [s.currentBuffer_]
        currentBuffer_ := some (FixedBuffer.append (s.nextBuffer_.getD new) logline)
        nextBuffer_ := none }

/-- `running_ = true; thread_.start()`. -/
def start : AsyncLog β := { s with running_ := true, thread := .started }

def threadFunc : AsyncLog β :=
  if s.running_ then
    { s with newBuffer1 := some new, newBuffer2 := some new, buffersToWrite := [], thread := .loopHead }
  else s.abort

/-- The pointer is not null, and the buffer is empty. -/
def isFresh (p : BufferPtr β) : Bool := p.any fun b => (data b).isEmpty

def loopHead : AsyncLog β :=
  if s.running_ then
    if isFresh s.newBuffer1 ∧ isFresh s.newBuffer2 ∧ s.buffersToWrite = [] then { s with thread := .locking }
    else s.abort
  else { s with thread := .returned }

/-- The rest of the critical section. -/
def swap : AsyncLog β :=
  { s with
    buffersToWrite := s.buffers_ ++ [s.currentBuffer_]
    buffers_ := s.buffersToWrite
    currentBuffer_ := s.newBuffer1
    newBuffer1 := none
    nextBuffer_ := if s.nextBuffer_.isNone then s.newBuffer2 else s.nextBuffer_
    newBuffer2 := if s.nextBuffer_.isNone then none else s.newBuffer2
    thread := .swapped }

def lock : AsyncLog β :=
  if s.buffers_ = [] then { s with thread := .waiting } else s.swap

def dropCheck (now : String) : AsyncLog β :=
  if s.buffersToWrite = [] then s.abort
  else if 25 < s.buffersToWrite.length then
    { s with
      file := s.file ++ [.notice (droppedNotice now (s.buffersToWrite.length - 2))]
      buffersToWrite := s.buffersToWrite.take 2
      thread := .writing 0 }
  else { s with thread := .writing 0 }

/-- One turn of the loop over `buffersToWrite`. -/
def write (n : ℕ) : Option (AsyncLog β) :=
  s.buffersToWrite[n]?.map fun buffer =>
    match buffer with
    | none => s.abort
    | some b => { s with file := s.file ++ [.lines (data b)], thread := .writing (n + 1) }

/-- `newBuffer1` or `newBuffer2`, taken from the end of `buffersToWrite` if it is null;
    undefined where the assertion fails or the pointer taken is null. -/
def refill (newBuffer : BufferPtr β) (buffers : List (BufferPtr β)) :
    Option (BufferPtr β × List (BufferPtr β)) :=
  match newBuffer with
  | some b => some (some b, buffers)
  | none =>
    match buffers.getLast? with
    | some (some b) => some (some (reset b), buffers.dropLast)
    | _ => none

/-- The rest of the cycle, once everything is written. -/
def recycle : AsyncLog β :=
  let resized := if 2 < s.buffersToWrite.length then s.buffersToWrite.take 2 else s.buffersToWrite
  match refill s.newBuffer1 resized with
  | none => s.abort
  | some (newBuffer1, rest) =>
    match refill s.newBuffer2 rest with
    | none => s.abort
    | some (newBuffer2, _) =>
      { s with newBuffer1 := newBuffer1, newBuffer2 := newBuffer2, buffersToWrite := [], thread := .loopHead }

def step : LogEvent → Option (AsyncLog β)
  | .append logline => if s.thread = .aborted then none else some (s.append logline)
  | .start => if s.thread = .notStarted then some s.start else none
  | .threadFunc => if s.thread = .started then some s.threadFunc else none
  | .loopHead => if s.thread = .loopHead then some s.loopHead else none
  | .lock => if s.thread = .locking then some s.lock else none
  | .wake => if s.thread = .waiting then some s.swap else none
  | .dropCheck now => if s.thread = .swapped then some (s.dropCheck now) else none
  | .write =>
    match s.thread with
    | .writing n => s.write n
    | _ => none
  | .recycle =>
    match s.thread with
    | .writing n => if n < s.buffersToWrite.length then none else some s.recycle
    | _ => none
  -- `start` has returned, that is, the thread has passed its latch
  | .stop =>
    if s.running_ ∧ s.thread ≠ .started ∧ s.thread ≠ .aborted then some { s with running_ := false } else none

/-! ## The lines held -/

/-- The buffers of `buffersToWrite` that are not yet written. -/
def unwritten : List (BufferPtr β) :=
  match s.thread with
  | .writing n => s.buffersToWrite.drop n
  | _ => s.buffersToWrite

/-- What has been written, drop notices aside, then what is in the buffers. -/
def logged : Bytes :=
  s.file.flatMap LogEntry.bytes ++ (s.unwritten ++ s.buffers_).flatMap contents ++ contents s.currentBuffer_

variable (β) in
/-- The line appended, if it fits into an empty buffer. -/
def accepts : LogEvent → List Bytes
  | .append logline => if logline.length < size β then [logline] else []
  | _ => []

/-- What a drop check keeps and drops of the buffers swapped out. -/
def dropped : LogEvent → List (Cut UInt8)
  | .dropCheck _ =>
    if 25 < s.buffersToWrite.length then
      [⟨(s.buffersToWrite.take 2).flatMap contents, (s.buffersToWrite.drop 2).flatMap contents⟩]
    else [⟨s.buffersToWrite.flatMap contents, []⟩]
  | _ => []

/-! ## The buffers that are there -/

/-- The buffers between the swap and the end of the cycle: `newBuffer1` is in use, and
    `newBuffer2` too if two buffers can be taken back. -/
structure Swapped (newBuffer1 newBuffer2 : BufferPtr β) (buffersToWrite : List (BufferPtr β)) : Prop where
  used : newBuffer1 = none
  spare : isFresh newBuffer2 ∨ newBuffer2 = none ∧ 2 ≤ buffersToWrite.length
  nonempty : buffersToWrite ≠ []
  notNull : none ∉ buffersToWrite

/-- The local variables of `threadFunc`, wherever it is. -/
def ThreadSound : Prop :=
  match s.thread with
  | .notStarted => s.buffersToWrite = []
  | .started => s.buffersToWrite = [] ∧ s.running_
  | .loopHead | .locking | .waiting | .returned =>
    isFresh s.newBuffer1 ∧ isFresh s.newBuffer2 ∧ s.buffersToWrite = []
  | .swapped => Swapped s.newBuffer1 s.newBuffer2 s.buffersToWrite
  | .writing n => n ≤ s.buffersToWrite.length ∧ Swapped s.newBuffer1 s.newBuffer2 s.buffersToWrite
  | .aborted => False

/-- The invariant of the buffers: the producer has taken the spare one only if it has
    queued one. -/
structure Sound : Prop where
  currentBuffer_ : s.currentBuffer_ ≠ none
  nextBuffer_ : isFresh s.nextBuffer_ ∨ s.nextBuffer_ = none ∧ s.buffers_ ≠ []
  buffers_ : none ∉ s.buffers_
  thread : s.ThreadSound

variable {s} {t : AsyncLog β} {p : BufferPtr β} {b : β}

theorem isFresh_iff : isFresh p ↔ ∃ b, p = some b ∧ data b = [] := by
  cases p <;> simp [isFresh]

theorem isFresh_some (h : data b = []) : isFresh (some b) := isFresh_iff.2 ⟨b, rfl, h⟩

theorem not_isNone (h : isFresh p) : ¬ p.isNone := by
  obtain ⟨b, rfl, -⟩ := isFresh_iff.1 h
  exact Bool.false_ne_true

/-- The buffers swapped out, until the drop check. -/
def uncut (s : AsyncLog β) : List (BufferPtr β) :=
  match s.thread with
  | .swapped => s.buffersToWrite
  | _ => []

/-- The buffers kept by the drop check and not yet written. -/
def toWrite (s : AsyncLog β) : List (BufferPtr β) :=
  match s.thread with
  | .writing n => s.buffersToWrite.drop n
  | _ => []

/-- What a step does to the lines held. -/
inductive Move (s : AsyncLog β) : LogEvent → AsyncLog β → Prop
  | append {logline : Bytes} {b : β} : s.currentBuffer_ = some b → logline.length < avail b →
      Move s (.append logline) { s with currentBuffer_ := some (FixedBuffer.append b logline) }
  | rotate {logline : Bytes} {b spare : β} : s.currentBuffer_ = some b → ¬ logline.length < avail b →
      data spare = [] → Move s (.append logline) { s with
        buffers_ := s.buffers_ ++ [s.currentBuffer_]
        currentBuffer_ := some (FixedBuffer.append spare logline)
        nextBuffer_ := none }
  | swap {e : LogEvent} : e = .lock ∨ e = .wake → s.uncut = [] → s.toWrite = [] →
      isFresh s.newBuffer1 → s.buffersToWrite = [] → Move s e s.swap
  | cut {now : String} {k : ℕ} {file : List LogEntry} : s.thread = .swapped →
      k = (if 25 < s.buffersToWrite.length then 2 else s.buffersToWrite.length) →
      file.flatMap LogEntry.bytes = s.file.flatMap LogEntry.bytes → Move s (.dropCheck now) { s with
        file := file
        buffersToWrite := s.buffersToWrite.take k
        thread := .writing 0 }
  | write {n : ℕ} {b : β} : s.thread = .writing n → s.buffersToWrite[n]? = some (some b) →
      Move s .write { s with file := s.file ++ [.lines (data b)], thread := .writing (n + 1) }
  | keep {e : LogEvent} {t : AsyncLog β} : accepts β e = [] → s.dropped e = [] →
      t.currentBuffer_ = s.currentBuffer_ → t.buffers_ = s.buffers_ → t.file = s.file →
      t.uncut = s.uncut → t.toWrite = s.toWrite → Move s e t

theorem Sound.append (h : s.Sound) (logline : Bytes) : (s.append logline).Sound := by
  obtain ⟨b, hb⟩ := Option.ne_none_iff_exists'.1 h.currentBuffer_
  simp only [AsyncLog.append, hb]
  split_ifs with hlen
  · exact { h with currentBuffer_ := Option.some_ne_none _ }
  · refine ⟨Option.some_ne_none _, Or.inr ⟨rfl, List.append_ne_nil_of_right_ne_nil _ (List.cons_ne_nil _ _)⟩,
      ?_, h.thread⟩
    intro hmem
    rcases List.mem_append.1 hmem with hmem | hmem
    · exact h.buffers_ hmem
    · exact Option.some_ne_none _ (List.mem_singleton.1 hmem).symm

theorem Sound.swap (h : s.Sound) (h₁ : isFresh s.newBuffer1) (h₂ : isFresh s.newBuffer2)
    (hempty : s.buffersToWrite = []) : s.swap.Sound := by
  have hne : s.buffers_ ++ [s.currentBuffer_] ≠ [] :=
    List.append_ne_nil_of_right_ne_nil _ (List.cons_ne_nil _ _)
  refine ⟨?_, Or.inl ?_, ?_, ⟨rfl, ?_, hne, ?_⟩⟩
  · obtain ⟨b, hb, -⟩ := isFresh_iff.1 h₁
    exact fun hnil => Option.some_ne_none b (hb ▸ hnil)
  · show isFresh (if s.nextBuffer_.isNone then s.newBuffer2 else s.nextBuffer_)
    rcases h.nextBuffer_ with hn | ⟨hn, -⟩
    · rwa [if_neg (not_isNone hn)]
    · rwa [hn]
  · show none ∉ s.buffersToWrite
    rw [hempty]
    exact List.not_mem_nil
  · show isFresh (if s.nextBuffer_.isNone then none else s.newBuffer2) ∨
      (if s.nextBuffer_.isNone then none else s.newBuffer2) = none ∧ 2 ≤ (s.buffers_ ++ [s.currentBuffer_]).length
    rcases h.nextBuffer_ with hn | ⟨hn, hq⟩
    · rw [if_neg (not_isNone hn)]
      exact Or.inl h₂
    · rw [hn, List.length_append]
      exact Or.inr ⟨rfl, Nat.succ_le_succ (List.length_pos_of_ne_nil hq)⟩
  · intro hmem
    rcases List.mem_append.1 hmem with hmem | hmem
    · exact h.buffers_ hmem
    · exact h.currentBuffer_ (List.mem_singleton.1 hmem).symm

theorem Sound.dropCheck (h : s.Sound) (hs : Swapped s.newBuffer1 s.newBuffer2 s.buffersToWrite)
    (now : String) : (s.dropCheck now).Sound := by
  rw [AsyncLog.dropCheck, if_neg hs.nonempty]
  split_ifs with hlen
  · have htwo : (s.buffersToWrite.take 2).length = 2 := by rw [List.length_take]; omega
    refine ⟨h.currentBuffer_, h.nextBuffer_, h.buffers_, Nat.zero_le _, hs.used, ?_, ?_, ?_⟩
    · exact hs.spare.imp_right fun hnil => ⟨hnil.1, htwo.ge⟩
    · exact List.ne_nil_of_length_pos (by rw [htwo]; decide)
    · exact fun hmem => hs.notNull (List.mem_of_mem_take hmem)
  · exact ⟨h.currentBuffer_, h.nextBuffer_, h.buffers_, Nat.zero_le _, hs⟩

theorem Swapped.dropCheck_move (h : Swapped s.newBuffer1 s.newBuffer2 s.buffersToWrite)
    (hat : s.thread = .swapped) (now : String) : s.Move (.dropCheck now) (s.dropCheck now) := by
  rw [AsyncLog.dropCheck, if_neg h.nonempty]
  split_ifs with hlen
  · refine .cut hat (if_pos hlen).symm ?_
    rw [List.flatMap_append]
    exact List.append_nil _
  · have hall := @Move.cut _ _ s now _ s.file hat (if_neg hlen).symm rfl
    rwa [List.take_length] at hall

/-- Only the thread that has just been started relies on `running_`. -/
theorem ThreadSound.stop (h : s.ThreadSound) (hat : s.thread ≠ .started) :
    ThreadSound { s with running_ := false } := by
  revert h
  simp only [ThreadSound]
  cases hthread : s.thread with
  | started => exact absurd hthread hat
  | _ => exact id

/-- A turn of the loop writes the buffer, which is there. -/
theorem write_eq {n : ℕ} (hnull : none ∉ s.buffersToWrite) (h : s.write n = some t) : ∃ b,
    s.buffersToWrite[n]? = some (some b) ∧
    t = { s with file := s.file ++ [.lines (data b)], thread := .writing (n + 1) } := by
  obtain ⟨p, hp, rfl⟩ := Option.map_eq_some_iff.1 h
  rcases p with - | b
  · exact absurd (List.mem_of_getElem? hp) hnull
  · exact ⟨b, hp, rfl⟩

section
variable [LawfulFixedBuffer β]

theorem isFresh_new : isFresh (some (new : β)) := isFresh_some LawfulFixedBuffer.data_new

theorem isFresh_reset : isFresh (some (reset b)) := isFresh_some (LawfulFixedBuffer.data_reset b)

theorem init_sound : (init : AsyncLog β).Sound where
  currentBuffer_ := Option.some_ne_none _
  nextBuffer_ := Or.inl isFresh_new
  buffers_ := List.not_mem_nil
  thread := rfl

/-- A buffer taken back from a vector that has one. -/
theorem exists_refill {buffers : List (BufferPtr β)} (hnull : none ∉ buffers)
    (h : isFresh p ∨ p = none ∧ buffers ≠ []) : ∃ q rest, refill p buffers = some (q, rest) ∧ isFresh q ∧
      rest = if p.isNone then buffers.dropLast else buffers := by
  rcases h with h | ⟨rfl, hne⟩
  · obtain ⟨b, rfl, hb⟩ := isFresh_iff.1 h
    exact ⟨_, _, rfl, h, rfl⟩
  · rcases hlast : buffers.getLast? with - | q
    · exact absurd (List.getLast?_eq_none_iff.1 hlast) hne
    · rcases q with - | b
      · exact absurd (List.mem_of_getLast? hlast) hnull
      · exact ⟨some (reset b), buffers.dropLast, by rw [refill, hlast], isFresh_reset, rfl⟩

/-- Both buffers are taken back from the two that are kept. -/
theorem Swapped.refills (h : Swapped s.newBuffer1 s.newBuffer2 s.buffersToWrite) :
    ∃ b₁ b₂ rest₂, isFresh b₁ ∧ isFresh b₂ ∧
      refill s.newBuffer1 (s.buffersToWrite.take 2) = some (b₁, (s.buffersToWrite.take 2).dropLast) ∧
      refill s.newBuffer2 (s.buffersToWrite.take 2).dropLast = some (b₂, rest₂) := by
  have hne : s.buffersToWrite.take 2 ≠ [] := by
    rw [Ne, List.take_eq_nil_iff]
    exact fun hnil => hnil.elim (by decide) h.nonempty
  have hnull : none ∉ s.buffersToWrite.take 2 := fun hmem => h.notNull (List.mem_of_mem_take hmem)
  obtain ⟨b₁, rest, h₁, hfresh₁, hrest⟩ := exists_refill hnull (Or.inr ⟨h.used, hne⟩)
  obtain rfl : rest = (s.buffersToWrite.take 2).dropLast := by rw [hrest, h.used]; rfl
  obtain ⟨b₂, rest₂, h₂, hfresh₂, -⟩ : ∃ q rest₂,
      refill s.newBuffer2 (s.buffersToWrite.take 2).dropLast = some (q, rest₂) ∧ isFresh q ∧ _ := by
    refine exists_refill (fun hmem => hnull (List.dropLast_subset _ hmem)) ?_
    -- both are refilled only if two buffers were swapped out
    rcases h.spare with h₂ | ⟨h₂, hlen⟩
    · exact Or.inl h₂
    · refine Or.inr ⟨h₂, List.ne_nil_of_length_pos ?_⟩
      rw [List.length_dropLast, List.length_take]
      omega
  exact ⟨b₁, b₂, rest₂, hfresh₁, hfresh₂, h₁, h₂⟩

/-- **The buffers recycled are there.** -/
theorem Swapped.recycle (h : Swapped s.newBuffer1 s.newBuffer2 s.buffersToWrite) :
    ∃ b₁ b₂, isFresh b₁ ∧ isFresh b₂ ∧ s.recycle =
    { s with newBuffer1 := b₁, newBuffer2 := b₂, buffersToWrite := [], thread := .loopHead } := by
  have htake : (if 2 < s.buffersToWrite.length then s.buffersToWrite.take 2 else s.buffersToWrite) =
      s.buffersToWrite.take 2 := by
    split_ifs with hlen
    · rfl
    · rw [List.take_of_length_le (by omega)]
  obtain ⟨b₁, b₂, rest₂, hfresh₁, hfresh₂, h₁, h₂⟩ := h.refills
  refine ⟨b₁, b₂, hfresh₁, hfresh₂, ?_⟩
  simp only [AsyncLog.recycle, htake, h₁, h₂]

theorem Sound.append_move (h : s.Sound) (logline : Bytes) : s.Move (.append logline) (s.append logline) := by
  obtain ⟨b, hb⟩ := Option.ne_none_iff_exists'.1 h.currentBuffer_
  simp only [AsyncLog.append, hb]
  split_ifs with hlen
  · exact .append hb hlen
  · rw [← hb]
    refine .rotate hb hlen ?_
    rcases h.nextBuffer_ with hn | ⟨hn, -⟩
    · obtain ⟨b, hb, hnil⟩ := isFresh_iff.1 hn
      rwa [hb]
    · rw [hn]
      exact LawfulFixedBuffer.data_new

/-- Where a step leads, as long as the buffers are there. -/
inductive Next (s : AsyncLog β) : LogEvent → AsyncLog β → Prop
  | append {logline : Bytes} : Next s (.append logline) (s.append logline)
  | start : s.thread = .notStarted → Next s .start s.start
  | threadFunc : s.thread = .started → Next s .threadFunc { s with
      newBuffer1 := some new, newBuffer2 := some new, buffersToWrite := [], thread := .loopHead }
  | enter : s.thread = .loopHead → s.running_ = true → Next s .loopHead { s with thread := .locking }
  | leave : s.thread = .loopHead → s.running_ = false → Next s .loopHead { s with thread := .returned }
  | wait : s.thread = .locking → Next s .lock { s with thread := .waiting }
  | swap : s.thread = .locking → Next s .lock s.swap
  | wake : s.thread = .waiting → Next s .wake s.swap
  | dropCheck {now : String} : s.thread = .swapped → Next s (.dropCheck now) (s.dropCheck now)
  | write {n : ℕ} {b : β} : s.thread = .writing n → s.buffersToWrite[n]? = some (some b) →
      Next s .write { s with file := s.file ++ [.lines (data b)], thread := .writing (n + 1) }
  | recycle {n : ℕ} {b₁ b₂ : BufferPtr β} : s.thread = .writing n → s.buffersToWrite.length ≤ n →
      isFresh b₁ → isFresh b₂ → Next s .recycle { s with
        newBuffer1 := b₁, newBuffer2 := b₂, buffersToWrite := [], thread := .loopHead }
  | stop : s.running_ = true → s.thread ≠ .started → s.thread ≠ .aborted →
      Next s .stop { s with running_ := false }

/-- No assertion fails, and no pointer used is null. -/
theorem Sound.next {e : LogEvent} (h : s.Sound) (hs : s.step e = some t) : s.Next e t := by
  have hthread := h.thread
  cases e with
  | append logline =>
    obtain ⟨-, ⟨⟩⟩ := Option.ite_none_left_eq_some.1 hs
    exact .append
  | start =>
    obtain ⟨hat, ⟨⟩⟩ := Option.ite_none_right_eq_some.1 hs
    exact .start hat
  | threadFunc =>
    obtain ⟨hat, ⟨⟩⟩ := Option.ite_none_right_eq_some.1 hs
    rw [ThreadSound, hat] at hthread
    rw [AsyncLog.threadFunc, if_pos hthread.2]
    exact .threadFunc hat
  | loopHead =>
    obtain ⟨hat, ⟨⟩⟩ := Option.ite_none_right_eq_some.1 hs
    rw [ThreadSound, hat] at hthread
    rw [AsyncLog.loopHead, if_pos hthread]
    split_ifs with hrun
    · exact .enter hat hrun
    · exact .leave hat (Bool.eq_false_of_not_eq_true hrun)
  | lock =>
    obtain ⟨hat, ⟨⟩⟩ := Option.ite_none_right_eq_some.1 hs
    rw [AsyncLog.lock]
    split_ifs
    · exact .wait hat
    · exact .swap hat
  | wake =>
    obtain ⟨hat, ⟨⟩⟩ := Option.ite_none_right_eq_some.1 hs
    exact .wake hat
  | dropCheck now =>
    obtain ⟨hat, ⟨⟩⟩ := Option.ite_none_right_eq_some.1 hs
    exact .dropCheck hat
  | write =>
    rw [AsyncLog.step] at hs
    split at hs
    · rename_i n hat
      rw [ThreadSound, hat] at hthread
      obtain ⟨b, hb, rfl⟩ := write_eq hthread.2.notNull hs
      exact .write hat hb
    · cases hs
  | recycle =>
    rw [AsyncLog.step] at hs
    split at hs
    · rename_i n hat
      rw [ThreadSound, hat] at hthread
      obtain ⟨hlen, ⟨⟩⟩ := Option.ite_none_left_eq_some.1 hs
      obtain ⟨b₁, b₂, h₁, h₂, hrec⟩ := hthread.2.recycle
      rw [hrec]
      exact .recycle hat (Nat.le_of_not_lt hlen) h₁ h₂
    · cases hs
  | stop =>
    obtain ⟨⟨hrun, hat, habort⟩, ⟨⟩⟩ := Option.ite_none_right_eq_some.1 hs
    exact .stop hrun hat habort

/-- **What a step does**, and that the buffers are there after it. -/
theorem Sound.step {e : LogEvent} (h : s.Sound) (hs : s.step e = some t) : s.Move e t ∧ t.Sound := by
  have hthread := h.thread
  cases h.next hs with
  | append => exact ⟨h.append_move _, h.append _⟩
  | start hat =>
    rw [ThreadSound, hat] at hthread
    refine ⟨.keep rfl rfl rfl rfl rfl ?_ ?_, h.currentBuffer_, h.nextBuffer_, h.buffers_, hthread, rfl⟩
    · rw [uncut, uncut, hat]
      rfl
    · rw [toWrite, toWrite, hat]
      rfl
  | threadFunc hat =>
    refine ⟨.keep rfl rfl rfl rfl rfl ?_ ?_, h.currentBuffer_, h.nextBuffer_, h.buffers_, isFresh_new, isFresh_new, rfl⟩
    · rw [uncut, uncut, hat]
    · rw [toWrite, toWrite, hat]
  | enter hat | leave hat | wait hat =>
    rw [ThreadSound, hat] at hthread
    refine ⟨.keep rfl rfl rfl rfl rfl ?_ ?_, h.currentBuffer_, h.nextBuffer_, h.buffers_, hthread⟩
    · rw [uncut, uncut, hat]
    · rw [toWrite, toWrite, hat]
  | swap hat =>
    rw [ThreadSound, hat] at hthread
    obtain ⟨h₁, h₂, hempty⟩ := hthread
    exact ⟨.swap (Or.inl rfl) (by rw [uncut, hat]) (by rw [toWrite, hat]) h₁ hempty, h.swap h₁ h₂ hempty⟩
  | wake hat =>
    rw [ThreadSound, hat] at hthread
    obtain ⟨h₁, h₂, hempty⟩ := hthread
    exact ⟨.swap (Or.inr rfl) (by rw [uncut, hat]) (by rw [toWrite, hat]) h₁ hempty, h.swap h₁ h₂ hempty⟩
  | dropCheck hat =>
    rw [ThreadSound, hat] at hthread
    exact ⟨hthread.dropCheck_move hat _, h.dropCheck hthread _⟩
  | write hat hb =>
    rw [ThreadSound, hat] at hthread
    refine ⟨.write hat hb, h.currentBuffer_, h.nextBuffer_, h.buffers_, ?_, hthread.2⟩
    exact (List.getElem?_eq_some_iff.1 hb).1
  | recycle hat hlen h₁ h₂ =>
    refine ⟨.keep rfl rfl rfl rfl rfl ?_ ?_, h.currentBuffer_, h.nextBuffer_, h.buffers_, h₁, h₂, rfl⟩
    · rw [uncut, uncut, hat]
    · rw [toWrite, toWrite, hat]
      exact (List.drop_eq_nil_of_le hlen).symm
  | stop _ hat _ =>
    exact ⟨.keep rfl rfl rfl rfl rfl rfl rfl, h.currentBuffer_, h.nextBuffer_, h.buffers_, hthread.stop hat⟩

end

/-! ## Where each line is -/

/-- The lines handed over are those in the buffers. -/
structure Books (l : Handover Bytes) (s : AsyncLog β) : Prop where
  current : l.current.flatten = contents s.currentBuffer_
  queue : l.queue.map List.flatten = s.buffers_.map contents
  fresh : l.fresh.map List.flatten = s.uncut.map contents
  batch : l.batch.map List.flatten = s.toWrite.map contents
  written : l.written.flatten = s.file.flatMap LogEntry.bytes

variable {l : Handover Bytes} {e : LogEvent}

/-- The lines of a batch are cut where the drop check cuts its buffers. -/
theorem Books.flatten_cut (h : Books l s) {now : String} {k : ℕ} (hat : s.thread = .swapped)
    (hk : k = if 25 < s.buffersToWrite.length then 2 else s.buffersToWrite.length) :
    s.dropped (.dropCheck now) = [(Cut.of k l.fresh).flatten] := by
  have hfresh : l.fresh.map List.flatten = s.buffersToWrite.map contents := by
    rw [h.fresh, uncut, hat]
  have hpart : ∀ parts : List (List Bytes), parts.flatten.flatten = (parts.map List.flatten).flatten :=
    fun parts => List.flatten_flatten
  rw [Cut.flatten, Cut.of, hpart, hpart, List.map_take, List.map_drop, hfresh, hk, dropped]
  split_ifs with hlen
  · rw [List.flatMap_def, List.flatMap_def, List.map_take, List.map_drop]
  · rw [List.flatMap_def, List.take_of_length_le (by rw [List.length_map]),
      List.drop_of_length_le (by rw [List.length_map])]
    rfl

/-- The lines outstanding are what is written and what is in the buffers. -/
theorem Books.logged (h : Books l s) (hs : s.Sound) : s.logged = l.outstanding.flatten := by
  have hunwritten : s.unwritten = s.toWrite ++ s.uncut := by
    have hthread := hs.thread
    simp only [ThreadSound] at hthread
    simp only [unwritten, toWrite, uncut]
    cases hat : s.thread with
    | writing n => exact (List.append_nil _).symm
    | swapped => rfl
    | aborted => rw [hat] at hthread; exact hthread.elim
    | notStarted => rw [hat] at hthread; exact hthread
    | started => rw [hat] at hthread; exact hthread.1
    | _ => rw [hat] at hthread; exact hthread.2.2
  have hheld : (s.unwritten ++ s.buffers_).flatMap contents = (l.batch ++ l.fresh ++ l.queue).flatten.flatten := by
    rw [hunwritten, List.flatten_flatten, List.map_append, List.map_append, h.batch, h.fresh, h.queue,
      ← List.map_append, ← List.map_append, List.flatMap_def]
  have hflat : l.outstanding.flatten =
      l.written.flatten ++ (l.batch ++ l.fresh ++ l.queue).flatten.flatten ++ l.current.flatten := by
    rw [Handover.outstanding, List.flatten_append, @List.flatten_append _ l.written]
  rw [AsyncLog.logged, hheld, hflat, h.written, h.current]

section
variable [LawfulFixedBuffer β]

/-- A line enters an empty buffer iff it is shorter than the capacity. -/
theorem append_empty {spare : β} {logline : Bytes} (h : data spare = []) :
    data (FixedBuffer.append spare logline) = (accepts β (.append logline)).flatten := by
  have hsize : avail spare = size β := by
    have := LawfulFixedBuffer.avail_add_length spare
    rwa [h, List.length_nil, Nat.add_zero] at this
  rw [LawfulFixedBuffer.data_append, h, hsize, accepts]
  split_ifs <;> simp

theorem accepts_of_lt {b : β} {logline : Bytes} (h : logline.length < avail b) :
    accepts β (.append logline) = [logline] := by
  have := LawfulFixedBuffer.avail_add_length b
  exact if_pos (by omega)

/-- **The lines move as the buffers do.** -/
theorem Books.move (h : Books l s) (hs : s.Move e t) : ∃ l' : Handover Bytes, Books l' t ∧
    l'.accepted = l.accepted ++ accepts β e ∧
    l'.cuts.map Cut.flatten = l.cuts.map Cut.flatten ++ s.dropped e := by
  cases hs with
  | @append logline b hb hlen =>
    refine ⟨l.put (accepts β (.append logline)), { h with current := ?_ }, rfl, (List.append_nil _).symm⟩
    show (l.current ++ accepts β (.append logline)).flatten = data (FixedBuffer.append b logline)
    rw [List.flatten_append, h.current, hb, LawfulFixedBuffer.data_append, if_pos hlen, accepts_of_lt hlen,
      List.flatten_singleton]
    rfl
  | @rotate logline b spare hb hlen hspare =>
    refine ⟨l.enqueue.put (accepts β (.append logline)), { h with current := ?_, queue := ?_ }, rfl,
      (List.append_nil _).symm⟩
    · exact (append_empty hspare).symm
    · show (l.queue ++ [l.current]).map List.flatten = (s.buffers_ ++ [s.currentBuffer_]).map contents
      rw [List.map_append, List.map_append, h.queue, List.map_singleton, List.map_singleton, h.current]
  | swap he hfresh hbatch h₁ hempty =>
    have hnil : l.fresh = [] := by
      have := h.fresh
      rwa [hfresh, List.map_nil, List.map_eq_nil_iff] at this
    obtain ⟨b, hb, hdata⟩ := isFresh_iff.1 h₁
    refine ⟨l.handOver hnil, ⟨?_, ?_, ?_, ?_, h.written⟩, ?_, ?_⟩
    · show [] = contents s.newBuffer1
      rw [hb]
      exact hdata.symm
    · show [] = s.buffersToWrite.map contents
      rw [hempty, List.map_nil]
    · show (l.queue ++ [l.current]).map List.flatten = (s.buffers_ ++ [s.currentBuffer_]).map contents
      rw [List.map_append, List.map_append, h.queue, List.map_singleton, List.map_singleton, h.current]
    · exact h.batch.trans (congrArg _ hbatch)
    · rcases he with rfl | rfl <;> exact (List.append_nil _).symm
    · rcases he with rfl | rfl <;> exact (List.append_nil _).symm
  | @cut now k file hat hk hfile =>
    have hnil : l.batch = [] := by
      have := h.batch
      rwa [toWrite, hat, List.map_nil, List.map_eq_nil_iff] at this
    refine ⟨l.cut k, ⟨h.current, h.queue, rfl, ?_, h.written.trans hfile.symm⟩, (List.append_nil _).symm, ?_⟩
    · show (l.batch ++ l.fresh.take k).map List.flatten = (s.buffersToWrite.take k).map contents
      have hfresh := h.fresh
      rw [uncut, hat] at hfresh
      rw [hnil, List.nil_append, List.map_take, hfresh, List.map_take]
    · rw [h.flatten_cut hat hk]
      exact List.map_append
  | @write n b hat hb =>
    have hbatch : l.batch.map List.flatten = (s.buffersToWrite.drop n).map contents := by
      rw [h.batch, toWrite, hat]
    obtain ⟨hn, hget⟩ := List.getElem?_eq_some_iff.1 hb
    rw [List.drop_eq_getElem_cons hn, hget, List.map_cons] at hbatch
    obtain ⟨part, parts, hl, hpart, hparts⟩ := List.map_eq_cons_iff.1 hbatch
    refine ⟨l.write hl, ⟨h.current, h.queue, ?_, hparts, ?_⟩, (List.append_nil _).symm, (List.append_nil _).symm⟩
    · have hfresh := h.fresh
      rwa [uncut, hat] at hfresh
    · show (l.written ++ part).flatten = (s.file ++ [LogEntry.lines (data b)]).flatMap LogEntry.bytes
      rw [List.flatten_append, h.written, List.flatMap_append, List.flatMap_singleton, hpart]
      rfl
  | keep he hd hcur hq hfile huncut hto =>
    refine ⟨l, ⟨?_, ?_, ?_, ?_, ?_⟩, ?_, ?_⟩
    · rw [hcur, h.current]
    · rw [hq, h.queue]
    · rw [huncut, h.fresh]
    · rw [hto, h.batch]
    · rw [hfile, h.written]
    · rw [he, List.append_nil]
    · rw [hd, List.append_nil]

theorem books_init : Books {} (init : AsyncLog β) where
  current := LawfulFixedBuffer.data_new.symm
  queue := rfl
  fresh := rfl
  batch := rfl
  written := rfl

theorem exists_handover {es : List LogEvent} (h : Runs step (init : AsyncLog β) es t) :
    t.Sound ∧ ∃ l : Handover Bytes, Books l t ∧ l.accepted = es.flatMap (accepts β) ∧
      l.cuts.map Cut.flatten = outputs step dropped (init : AsyncLog β) es := by
  induction h with
  | nil => exact ⟨init_sound, {}, books_init, rfl, rfl⟩
  | @snoc es s t e h he ih =>
    obtain ⟨hsound, l, hbooks, hacc, hcuts⟩ := ih
    obtain ⟨hmove, ht⟩ := hsound.step he
    obtain ⟨l', hbooks', hacc', hcuts'⟩ := hbooks.move hmove
    refine ⟨ht, l', hbooks', ?_, ?_⟩
    · rw [hacc', hacc, List.flatMap_append, List.flatMap_singleton]
    · rw [hcuts', hcuts, outputs_snoc h]

end

end AsyncLog

open AsyncLog in
/-- **The log keeps the order and loses nothing silently.**  However the calls of `append` fall
    between the steps of the thread: the lines accepted are, in order, those of the
    batches checked so far and then those pending; the file and the buffers hold them
    without those that the drop checks drop. -/
theorem log_keeps {β : Type} [FixedBuffer β] [LawfulFixedBuffer β] {es : List LogEvent} {t : AsyncLog β}
    (h : Runs step init es t) : ∃ (cuts : List (Cut Bytes)) (pending : List Bytes),
      es.flatMap (accepts β) = cuts.flatMap Cut.whole ++ pending ∧
      cuts.map Cut.flatten = outputs step dropped (init : AsyncLog β) es ∧
      t.logged = (cuts.flatMap Cut.kept ++ pending).flatten ∧
      List.Sublist (cuts.flatMap Cut.kept ++ pending) (es.flatMap (accepts β)) := by
  obtain ⟨hsound, l, hbooks, hacc, hcuts⟩ := exists_handover h
  refine ⟨l.cuts, l.pending, ?_, hcuts, ?_, ?_⟩
  · rw [← hacc, l.accepted_eq_pending]
  · rw [hbooks.logged hsound, l.outstanding_eq]
  · rw [← hacc, ← l.outstanding_eq]
    exact l.outstanding_sublist

/-- A buffer of `n` bytes. -/
structure ByteBuffer (n : ℕ) where
  data : Bytes
  fits : data.length ≤ n

instance (n : ℕ) : FixedBuffer (ByteBuffer n) where
  size := n
  new := ⟨[], Nat.zero_le n⟩
  data := ByteBuffer.data
  avail b := n - b.data.length
  append b line :=
    if h : line.length < n - b.data.length then ⟨b.data ++ line, by rw [List.length_append]; omega⟩ else b
  reset _ := ⟨[], Nat.zero_le n⟩

instance (n : ℕ) : LawfulFixedBuffer (ByteBuffer n) where
  data_new := rfl
  avail_add_length b := Nat.sub_add_cancel b.fits
  data_append b line := by
    simp only [FixedBuffer.append, FixedBuffer.data, FixedBuffer.avail]
    split_ifs <;> rfl
  data_reset _ := rfl

/-- One cycle: 27 buffers are swapped out, and two lines are appended meanwhile. -/
def overflowing : List LogEvent :=
  [.start, .threadFunc, .loopHead, .lock] ++ (List.range 27).map (fun n => .append [n.toUInt8]) ++
    [.wake, .append [27], .dropCheck "20260101 00:00:00", .write, .append [28], .write, .recycle]

theorem log_keeps_overflowing : ∃ (t : AsyncLog (ByteBuffer 2)) (cuts : List (Cut Bytes)) (pending : List Bytes),
    Runs AsyncLog.step .init overflowing t ∧ t.logged = [0, 1, 27, 28] ∧
    overflowing.flatMap (AsyncLog.accepts (ByteBuffer 2)) = cuts.flatMap Cut.whole ++ pending ∧
    t.logged = (cuts.flatMap Cut.kept ++ pending).flatten := by
  obtain ⟨t, ht, hlogged⟩ : ∃ t : AsyncLog (ByteBuffer 2), Runs AsyncLog.step .init overflowing t ∧
      t.logged = [0, 1, 27, 28] := Runs.exists_of_run (by decide +kernel)
  obtain ⟨cuts, pending, hacc, -, hkept, -⟩ := log_keeps ht
  exact ⟨t, cuts, pending, ht, hlogged, hacc, hkept⟩

end LkpExtent
