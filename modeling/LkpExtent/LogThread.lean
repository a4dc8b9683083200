/-
  LkpExtent formalization — the log thread's assertions, and its shutdown.

  * `Asserts`: what `threadFunc` asserts, and what it and `append` rely on, in each state;
  * `asserts_hold`: all of it holds in every reachable state;
  * `settled`, `unswapped`: the bytes that the thread has taken over, and those that it has
    not; a line moves from the second to the first at a swap only (`Move.settled`);
  * `flushed_iff`: what is in the file when `join` returns in the destructor.
-/
import LkpExtent.AsyncLog

namespace LkpExtent

open Lib FixedBuffer

namespace AsyncLog

/-! ## The assertions -/

section
variable {β : Type} {s : AsyncLog β}

/-- `buffersToWrite` once everything is written: only two of the buffers are kept. -/
def resized (s : AsyncLog β) : List (BufferPtr β) :=
  if 2 < s.buffersToWrite.length then s.buffersToWrite.take 2 else s.buffersToWrite

/-- If `newBuffer` has to be refilled, there is a buffer to take. -/
def Refillable (newBuffer : BufferPtr β) (buffers : List (BufferPtr β)) : Prop :=
  newBuffer = none → ∃ b, buffers.getLast? = some (some b)

theorem resized_eq : s.resized = s.buffersToWrite.take 2 := by
  rw [resized]
  split_ifs with hlen
  · rfl
  · rw [List.take_of_length_le (by omega)]

end

variable {β : Type} [FixedBuffer β] {s t : AsyncLog β} {p : BufferPtr β} {buffers : List (BufferPtr β)}

/-- `refill` is defined where the assertion before it holds and the pointer is not null. -/
theorem refill_isSome_iff : (refill p buffers).isSome ↔ Refillable p buffers := by
  rcases p with - | b
  · rw [refill, Refillable]
    rcases buffers.getLast? with - | - | b <;> simp
  · simp [refill, Refillable]

/-- What `threadFunc` asserts, and the pointers that it and `append` use. -/
structure Asserts (s : AsyncLog β) : Prop where
  running_ : s.thread = .started → s.running_
  loopHead : s.thread = .loopHead → isFresh s.newBuffer1 ∧ isFresh s.newBuffer2 ∧ s.buffersToWrite = []
  swapped : s.thread = .swapped → s.buffersToWrite ≠ []
  /-- the loop over `buffersToWrite` dereferences each of them -/
  written : none ∉ s.buffersToWrite
  newBuffer1 : ∀ n, s.thread = .writing n → Refillable s.newBuffer1 s.resized
  newBuffer2 : ∀ n, s.thread = .writing n →
    Refillable s.newBuffer2 (if s.newBuffer1.isNone then s.resized.dropLast else s.resized)
  currentBuffer_ : s.currentBuffer_ ≠ none
  goesOn : s.thread ≠ .aborted

section
variable [LawfulFixedBuffer β]

theorem Swapped.refillable (h : Swapped s.newBuffer1 s.newBuffer2 s.buffersToWrite) :
    Refillable s.newBuffer1 s.resized ∧
    Refillable s.newBuffer2 (if s.newBuffer1.isNone then s.resized.dropLast else s.resized) := by
  obtain ⟨b₁, b₂, rest₂, -, -, h₁, h₂⟩ := h.refills
  rw [resized_eq]
  constructor
  · exact refill_isSome_iff.1 (by rw [h₁]; rfl)
  · rw [h.used, Option.isNone_none, if_pos rfl]
    exact refill_isSome_iff.1 (by rw [h₂]; rfl)

theorem Sound.asserts (h : s.Sound) : s.Asserts := by
  have hthread := h.thread
  rw [ThreadSound] at hthread
  refine ⟨?_, ?_, ?_, ?_, ?_, ?_, h.currentBuffer_, ?_⟩
  · intro hat
    rw [hat] at hthread
    exact hthread.2
  · intro hat
    rwa [hat] at hthread
  · intro hat
    rw [hat] at hthread
    exact hthread.nonempty
  · cases hat : s.thread with
    | notStarted => rw [hat] at hthread; rw [hthread]; exact List.not_mem_nil
    | started => rw [hat] at hthread; rw [hthread.1]; exact List.not_mem_nil
    | swapped => rw [hat] at hthread; exact hthread.notNull
    | writing n => rw [hat] at hthread; exact hthread.2.notNull
    | aborted => rw [hat] at hthread; exact hthread.elim
    | _ => rw [hat] at hthread; rw [hthread.2.2]; exact List.not_mem_nil
  · intro n hat
    rw [hat] at hthread
    exact hthread.2.refillable.1
  · intro n hat
    rw [hat] at hthread
    exact hthread.2.refillable.2
  · intro hat
    rwa [hat] at hthread

end

end AsyncLog

open AsyncLog in
/-- **The log thread's assertions never fail**, however the calls of `append` fall between its
    steps. -/
theorem asserts_hold {β : Type} [FixedBuffer β] [LawfulFixedBuffer β] {es : List LogEvent} {t : AsyncLog β}
    (h : Runs step init es t) : t.Asserts :=
  (exists_handover h).1.asserts

theorem asserts_hold_overflowing : ∃ t : AsyncLog (ByteBuffer 2),
    Runs AsyncLog.step .init overflowing t ∧ t.thread = .loopHead ∧ t.Asserts := by
  obtain ⟨t, ht, hat⟩ : ∃ t : AsyncLog (ByteBuffer 2), Runs AsyncLog.step .init overflowing t ∧
      t.thread = .loopHead := Runs.exists_of_run (by decide +kernel)
  exact ⟨t, ht, hat, asserts_hold ht⟩

/-! ## Shutdown -/

/-- The thread has tested `running_` and will swap without testing it again. -/
def LogThread.beforeSwap : LogThread → Bool
  | .locking | .waiting => true
  | _ => false

/-- The thread will test `running_` before it swaps again, or has returned. -/
def LogThread.beforeTest : LogThread → Bool
  | .loopHead | .swapped | .writing _ | .returned => true
  | _ => false

namespace AsyncLog
variable {β : Type} [FixedBuffer β] {s t u v : AsyncLog β} {e : LogEvent} {es es' : List LogEvent}

/-- What is written, drop notices aside, and what the thread has taken over to write. -/
def settled (s : AsyncLog β) : Bytes :=
  s.file.flatMap LogEntry.bytes ++ (s.toWrite ++ s.uncut).flatMap contents

/-- What has been appended since the last swap. -/
def unswapped (s : AsyncLog β) : Bytes := (s.buffers_ ++ [s.currentBuffer_]).flatMap contents

/-- A drop check drops nothing. -/
def NoDrop (s : AsyncLog β) : LogEvent → Prop
  | .dropCheck _ => s.buffersToWrite.length ≤ 25
  | _ => True

theorem unswapped_snoc (buffers : List (BufferPtr β)) (p : BufferPtr β) (h : s.buffers_ = buffers)
    (hp : s.currentBuffer_ = p) : s.unswapped = buffers.flatMap contents ++ contents p := by
  rw [unswapped, List.flatMap_append, List.flatMap_singleton, h, hp]

theorem settled_returned (h : s.thread = .returned) : s.settled = s.file.flatMap LogEntry.bytes := by
  rw [settled, toWrite, uncut, h, List.append_nil, List.flatMap_nil, List.append_nil]

/-- A swap takes over everything appended since the one before. -/
theorem swap_settled (huncut : s.uncut = []) (hto : s.toWrite = []) :
    s.swap.settled = s.settled ++ s.unswapped := by
  rw [settled, settled, huncut, hto, List.append_nil, List.flatMap_nil, List.append_nil]
  rfl

/-- Buffers are handed to the thread by a swap only. -/
theorem Move.eq_swap (h : s.Move e t) (hs : s.uncut = []) (ht : t.uncut ≠ []) : t = s.swap := by
  cases h with
  | swap => rfl
  | append | rotate => exact absurd hs ht
  | cut | write => exact absurd rfl ht
  | keep _ _ _ _ _ huncut _ => exact absurd (huncut.trans hs) ht

section
variable [LawfulFixedBuffer β]

/-- **A line is taken over at a swap only.**  Every other step leaves what is settled as it is. -/
theorem Move.settled (h : s.Move e t) (hcut : s.NoDrop e) :
    (e = .lock ∨ e = .wake) ∧ t.settled = s.settled ++ s.unswapped ∧ t.unswapped = [] ∨
    t.settled = s.settled ∧ t.unswapped = s.unswapped ++ (accepts β e).flatten := by
  cases h with
  | @append logline b hb hlen =>
    refine Or.inr ⟨rfl, ?_⟩
    rw [unswapped_snoc _ _ rfl rfl, unswapped_snoc _ _ rfl hb, List.append_assoc, accepts_of_lt hlen,
      List.flatten_singleton]
    show _ ++ data (FixedBuffer.append b logline) = _
    rw [LawfulFixedBuffer.data_append, if_pos hlen]
    rfl
  | @rotate logline b spare hb hlen hspare =>
    refine Or.inr ⟨rfl, ?_⟩
    rw [unswapped_snoc _ _ rfl rfl]
    exact congrArg (s.unswapped ++ ·) (append_empty hspare)
  | swap he hfresh hbatch h₁ hempty =>
    refine Or.inl ⟨he, swap_settled hfresh hbatch, ?_⟩
    obtain ⟨b, hb, hdata⟩ := isFresh_iff.1 h₁
    rw [unswapped_snoc s.buffersToWrite s.newBuffer1 rfl rfl, hempty, hb]
    exact hdata
  | @cut now k file hat hk hfile =>
    rw [if_neg (Nat.not_lt.2 hcut)] at hk
    refine Or.inr ⟨?_, (List.append_nil _).symm⟩
    simp only [AsyncLog.settled, toWrite, uncut, hat, hk, hfile, List.take_length, List.drop_zero,
      List.append_nil, List.nil_append]
  | @write n b hat hb =>
    refine Or.inr ⟨?_, (List.append_nil _).symm⟩
    obtain ⟨hn, hget⟩ := List.getElem?_eq_some_iff.1 hb
    simp only [AsyncLog.settled, toWrite, uncut, hat, List.drop_eq_getElem_cons hn, hget, List.append_nil,
      List.flatMap_append, List.flatMap_cons, List.flatMap_nil, List.append_assoc, LogEntry.bytes, contents]
  | keep he hd hcur hq hfile huncut hto =>
    refine Or.inr ⟨?_, ?_⟩
    · rw [AsyncLog.settled, AsyncLog.settled, hfile, huncut, hto]
    · rw [unswapped, unswapped, hcur, hq, he]
      exact (List.append_nil _).symm

/-! ### Where the thread is when it is stopped -/

instance (s : AsyncLog β) : ∀ e : LogEvent, Decidable (s.NoDrop e)
  | .dropCheck _ => inferInstanceAs (Decidable (_ ≤ _))
  | .append _ | .start | .threadFunc | .loopHead | .lock | .wake | .write | .recycle | .stop => isTrue trivial

/-- `running_` and the place of the thread, before and after a step. -/
inductive Turn : Bool → LogThread → LogEvent → Bool → LogThread → Prop
  | append {running : Bool} {place : LogThread} {logline : Bytes} :
      Turn running place (.append logline) running place
  | start {running : Bool} : Turn running .notStarted .start true .started
  | threadFunc {running : Bool} : Turn running .started .threadFunc running .loopHead
  | enter : Turn true .loopHead .loopHead true .locking
  | leave : Turn false .loopHead .loopHead false .returned
  | wait {running : Bool} : Turn running .locking .lock running .waiting
  | swap {running : Bool} : Turn running .locking .lock running .swapped
  | wake {running : Bool} : Turn running .waiting .wake running .swapped
  | dropCheck {running : Bool} {now : String} : Turn running .swapped (.dropCheck now) running (.writing 0)
  | write {running : Bool} {n : ℕ} : Turn running (.writing n) .write running (.writing (n + 1))
  | recycle {running : Bool} {n : ℕ} : Turn running (.writing n) .recycle running .loopHead
  | stop {place : LogThread} : place ≠ .started → place ≠ .aborted → Turn true place .stop false place

theorem Sound.turn (h : s.Sound) (hs : s.step e = some t) :
    Turn s.running_ s.thread e t.running_ t.thread := by
  cases h.next hs with
  | append =>
    obtain ⟨b, hb⟩ := Option.ne_none_iff_exists'.1 h.currentBuffer_
    simp only [AsyncLog.append, hb]
    split_ifs
    · exact .append
    · exact .append
  | start hat => rw [hat]; exact .start
  | threadFunc hat => rw [hat]; exact .threadFunc
  | enter hat hrun =>
    show Turn s.running_ s.thread .loopHead s.running_ .locking
    rw [hat, hrun]
    exact .enter
  | leave hat hrun =>
    show Turn s.running_ s.thread .loopHead s.running_ .returned
    rw [hat, hrun]
    exact .leave
  | wait hat => rw [hat]; exact .wait
  | swap hat => rw [hat]; exact .swap
  | wake hat => rw [hat]; exact .wake
  | dropCheck hat =>
    have hthread := h.thread
    rw [ThreadSound, hat] at hthread
    rw [hat, AsyncLog.dropCheck, if_neg hthread.nonempty]
    split_ifs
    · exact .dropCheck
    · exact .dropCheck
  | write hat _ => rw [hat]; exact .write
  | recycle hat => rw [hat]; exact .recycle
  | stop hrun hat habort => rw [hrun]; exact .stop hat habort

section
variable {running running' : Bool} {place place' : LogThread}

/-- The thread runs only after `start`. -/
theorem Turn.notStarted (h : Turn running place e running' place')
    (hp : place = .notStarted → running = false) :
    place' = .notStarted → running' = false := by
  cases h with
  | append => exact hp
  | stop => exact fun _ => rfl
  | _ => intro hat; cases hat

/-- Once `running_` is false, a thread that will test it does not swap again. -/
theorem Turn.beforeTest (h : Turn running place e running' place') (hrun : running = false)
    (hp : place.beforeTest) : running' = false ∧ place'.beforeTest ∧ ¬ (e = .lock ∨ e = .wake) := by
  cases h with
  | append => exact ⟨hrun, hp, by simp⟩
  | leave | dropCheck | write | recycle => exact ⟨hrun, rfl, by simp⟩
  | enter | stop => cases hrun
  | start | threadFunc | wait | swap | wake => cases hp

/-- A thread that has passed the test swaps first. -/
theorem Turn.beforeSwap (h : Turn running place e running' place') (hrun : running = false)
    (hp : place.beforeSwap) : running' = false ∧ (place'.beforeSwap ∨ place' = .swapped) := by
  cases h with
  | append => exact ⟨hrun, Or.inl hp⟩
  | wait => exact ⟨hrun, Or.inl rfl⟩
  | swap | wake => exact ⟨hrun, Or.inr rfl⟩
  | enter | stop => cases hrun
  | start | threadFunc | leave | dropCheck | write | recycle => cases hp

end

theorem notStarted_running (h : Runs step (init : AsyncLog β) es t) :
    t.thread = .notStarted → t.running_ = false := by
  induction h with
  | nil => exact fun _ => rfl
  | snoc h he ih => exact ((exists_handover h).1.turn he).notStarted ih

/-- What was accepted is settled or waits for the next swap. -/
theorem settled_append_unswapped (h : Runs step (init : AsyncLog β) es t)
    (hcut : EachStep step (init : AsyncLog β) es NoDrop) :
    t.settled ++ t.unswapped = (es.flatMap (accepts β)).flatten := by
  induction h with
  | nil =>
    show [] ++ (contents (some (new : β)) ++ []) = []
    rw [contents, LawfulFixedBuffer.data_new]
    rfl
  | @snoc es s t e h he ih =>
    obtain ⟨hcut, hlast⟩ := EachStep.snoc_iff.1 hcut
    have hmove := ((exists_handover h).1.step he).1
    rw [List.flatMap_append, List.flatten_append, List.flatMap_singleton, ← ih hcut]
    rcases hmove.settled (hlast s h) with ⟨he, ht, hnil⟩ | ⟨ht, hu⟩
    · rw [ht, hnil]
      rcases he with rfl | rfl <;> rfl
    · rw [ht, hu, List.append_assoc]

/-- The log is stopped, and the thread takes nothing more over. -/
structure Leaving (taken : Bytes) (s : AsyncLog β) : Prop where
  sound : s.Sound
  running_ : s.running_ = false
  thread : s.thread.beforeTest
  settled : s.settled = taken

/-- The log is stopped, and the thread takes the bytes `held` over before it returns. -/
structure Flushing (held : Bytes) (s : AsyncLog β) : Prop where
  sound : s.Sound
  running_ : s.running_ = false
  settled : s.thread.beforeSwap ∧ held <+: s.settled ++ s.unswapped ∨ s.thread.beforeTest ∧ held <+: s.settled

variable {bytes : Bytes}

theorem Leaving.step (h : s.Leaving bytes) (hcut : s.NoDrop e) (hs : s.step e = some t) : t.Leaving bytes := by
  obtain ⟨hmove, ht⟩ := h.sound.step hs
  obtain ⟨hrun, hp, hswap⟩ := (h.sound.turn hs).beforeTest h.running_ h.thread
  rcases hmove.settled hcut with ⟨hlock, -⟩ | ⟨hkeep, -⟩
  · exact absurd hlock hswap
  · exact ⟨ht, hrun, hp, hkeep.trans h.settled⟩

/-- The step into the drop check is the swap. -/
theorem Sound.eq_swap (h : s.Sound) (hp : s.thread.beforeSwap) (hs : s.step e = some t)
    (hat : t.thread = .swapped) : t = s.swap ∧ s.uncut = [] ∧ s.toWrite = [] := by
  obtain ⟨hmove, ht⟩ := h.step hs
  have hnone : s.uncut = [] ∧ s.toWrite = [] := by
    rw [uncut, toWrite]
    cases hplace : s.thread with
    | locking | waiting => exact ⟨rfl, rfl⟩
    | _ => rw [hplace] at hp; cases hp
  refine ⟨hmove.eq_swap hnone.1 ?_, hnone⟩
  have hthread := ht.thread
  rw [ThreadSound, hat] at hthread
  rw [uncut, hat]
  exact hthread.nonempty

theorem Flushing.step (h : s.Flushing bytes) (hcut : s.NoDrop e) (hs : s.step e = some t) :
    t.Flushing bytes := by
  obtain ⟨hmove, ht⟩ := h.sound.step hs
  rcases h.settled with ⟨hp, hheld⟩ | ⟨hp, hheld⟩
  · obtain ⟨hrun, hp' | hat⟩ := (h.sound.turn hs).beforeSwap h.running_ hp
    · refine ⟨ht, hrun, Or.inl ⟨hp', ?_⟩⟩
      rcases hmove.settled hcut with ⟨-, hset, hnil⟩ | ⟨hset, hun⟩
      · rwa [hset, hnil, List.append_nil]
      · rw [hset, hun, ← List.append_assoc]
        exact hheld.trans (List.prefix_append _ _)
    · refine ⟨ht, hrun, Or.inr ⟨by rw [hat]; rfl, ?_⟩⟩
      obtain ⟨rfl, huncut, hto⟩ := h.sound.eq_swap hp hs hat
      rwa [swap_settled huncut hto]
  · obtain ⟨hrun, hp', hswap⟩ := (h.sound.turn hs).beforeTest h.running_ hp
    rcases hmove.settled hcut with ⟨hlock, -⟩ | ⟨hkeep, -⟩
    · exact absurd hlock hswap
    · exact ⟨ht, hrun, Or.inr ⟨hp', hkeep ▸ hheld⟩⟩

/-- Where `running_` can be cleared. -/
theorem stop_place (h : Runs step (init : AsyncLog β) es s) (hs : s.step .stop = some t) :
    t = { s with running_ := false } ∧ (s.thread.beforeSwap ∨ s.thread.beforeTest) := by
  obtain ⟨⟨hrun, hat, habort⟩, ⟨⟩⟩ := Option.ite_none_right_eq_some.1 hs
  refine ⟨rfl, ?_⟩
  cases hplace : s.thread with
  | notStarted => exact absurd hrun (by rw [notStarted_running h hplace]; decide)
  | started => exact absurd hplace hat
  | aborted => exact absurd hplace habort
  | locking | waiting => exact Or.inl rfl
  | loopHead | swapped | writing | returned => exact Or.inr rfl

end

end AsyncLog

open AsyncLog in
/-- **What the log file holds after the shutdown.**  Where no cycle drops buffers, the file has
    every line accepted before the destructor clears `running_` iff the thread is then between
    the test of `running_` and the swap, or nothing has been appended since the last swap; and
    otherwise it lacks exactly what has been appended since. -/
theorem flushed_iff {β : Type} [FixedBuffer β] [LawfulFixedBuffer β] {es₁ es₂ : List LogEvent}
    {u v t : AsyncLog β} (h₁ : Runs step init es₁ u) (hstop : u.step .stop = some v) (h₂ : Runs step v es₂ t)
    (hjoin : t.thread = .returned) (hcut : EachStep step (init : AsyncLog β) (es₁ ++ .stop :: es₂) NoDrop) :
    ((es₁.flatMap (accepts β)).flatten <+: t.file.flatMap LogEntry.bytes ↔
      u.thread = .locking ∨ u.thread = .waiting ∨ u.unswapped = []) ∧
    (u.thread ≠ .locking → u.thread ≠ .waiting →
      t.file.flatMap LogEntry.bytes ++ u.unswapped = (es₁.flatMap (accepts β)).flatten) := by
  have hacc := settled_append_unswapped h₁ hcut.prefix_of
  have hcut₂ : EachStep step v es₂ NoDrop := by
    rw [← List.singleton_append, ← List.append_assoc] at hcut
    exact hcut.after (h₁.snoc hstop)
  obtain ⟨hv, hplace⟩ := stop_place h₁ hstop
  have hsound : v.Sound := ((exists_handover h₁).1.step hstop).2
  rw [← settled_returned hjoin, ← hacc]
  rcases hplace with hp | hp
  · have hflush : t.Flushing (u.settled ++ u.unswapped) := by
      refine h₂.inv (P := NoDrop) ⟨hsound, by rw [hv], Or.inl ?_⟩ (fun s e t hs hcut he => hs.step hcut he) hcut₂
      rw [hv]
      exact ⟨hp, List.prefix_refl _⟩
    have hat : u.thread = .locking ∨ u.thread = .waiting := by
      cases hat : u.thread with
      | locking => exact Or.inl rfl
      | waiting => exact Or.inr rfl
      | _ => rw [hat] at hp; cases hp
    have hheld : u.settled ++ u.unswapped <+: t.settled := by
      rcases hflush.settled with ⟨hp, -⟩ | ⟨-, hheld⟩
      · rw [hjoin] at hp
        cases hp
      · exact hheld
    refine ⟨⟨fun _ => hat.imp_right Or.inl, fun _ => hheld⟩, fun hl hw => ?_⟩
    exact absurd hat (not_or.2 ⟨hl, hw⟩)
  · have hleave : t.Leaving u.settled := by
      refine h₂.inv (P := NoDrop) ⟨hsound, by rw [hv], ?_, by rw [hv]; rfl⟩
        (fun s e t hs hcut he => hs.step hcut he) hcut₂
      rw [hv]
      exact hp
    rw [hleave.settled]
    refine ⟨⟨fun hpre => ?_, ?_⟩, fun _ _ => rfl⟩
    · have hlen := hpre.length_le
      rw [List.length_append] at hlen
      exact Or.inr (Or.inr (List.eq_nil_of_length_eq_zero (by omega)))
    · rintro (hat | hat | hnil)
      · rw [hat] at hp
        cases hp
      · rw [hat] at hp
        cases hp
      · simp [hnil]

/-- The thread waits with one line appended when it is stopped. -/
def stoppedWaiting : List LogEvent := [.start, .threadFunc, .loopHead, .lock, .append [1]]

theorem flushed_iff_stoppedWaiting : ∃ u v t : AsyncLog (ByteBuffer 3),
    Runs AsyncLog.step .init stoppedWaiting u ∧
    u.step .stop = some v ∧ Runs AsyncLog.step v [.wake, .dropCheck "", .write, .recycle, .loopHead] t ∧
    [1] <+: t.file.flatMap LogEntry.bytes := by
  obtain ⟨t, ht, hjoin⟩ : ∃ t : AsyncLog (ByteBuffer 3), Runs AsyncLog.step .init
      (stoppedWaiting ++ .stop :: [.wake, .dropCheck "", .write, .recycle, .loopHead]) t ∧ t.thread = .returned :=
    Runs.exists_of_run (by decide +kernel)
  obtain ⟨u', hu', hwait⟩ : ∃ u : AsyncLog (ByteBuffer 3), Runs AsyncLog.step .init stoppedWaiting u ∧
      u.thread = .waiting := Runs.exists_of_run (by decide +kernel)
  obtain ⟨u, hu, ht⟩ := ht.split
  obtain ⟨v, hv, ht⟩ := ht.cons_inv
  rw [hu'.det hu] at hwait
  have hflush := flushed_iff hu hv ht hjoin (.of_checkSteps (by decide +kernel))
  exact ⟨u, v, t, hu, hv, ht, hflush.1.2 (Or.inr (Or.inl hwait))⟩

/-- A line is appended while the thread writes, and the thread is stopped before its next test. -/
def stoppedWriting : List LogEvent := stoppedWaiting ++ [.wake, .dropCheck "", .append [2], .write]

theorem not_flushed : ¬ ∀ (es₁ es₂ : List LogEvent) (u v t : AsyncLog (ByteBuffer 3)),
    Runs AsyncLog.step .init es₁ u → u.step .stop = some v → Runs AsyncLog.step v es₂ t → t.thread = .returned →
    EachStep AsyncLog.step (AsyncLog.init : AsyncLog (ByteBuffer 3)) (es₁ ++ .stop :: es₂) AsyncLog.NoDrop →
    ∀ line, .append line ∈ es₁ → line.length < 3 → line <:+: t.file.flatMap LogEntry.bytes := by
  intro hclaim
  obtain ⟨t, ht, hjoin, hfile⟩ : ∃ t : AsyncLog (ByteBuffer 3), Runs AsyncLog.step .init
      (stoppedWriting ++ .stop :: [.recycle, .loopHead]) t ∧
      t.thread = .returned ∧ t.file.flatMap LogEntry.bytes = [1] := Runs.exists_of_run (by decide +kernel)
  obtain ⟨u, hu, ht⟩ := ht.split
  obtain ⟨v, hv, ht⟩ := ht.cons_inv
  have hline := hclaim _ _ u v t hu hv ht hjoin (.of_checkSteps (by decide +kernel)) [2]
    (by simp [stoppedWriting]) (by decide)
  rw [hfile] at hline
  exact absurd (hline.subset (List.mem_singleton_self 2)) (by decide)

end LkpExtent
