/-
  LkpExtent formalization — the handles of the result files being received.

  * `HandleOK`: a `File` message uses only an open handle and overwrites none; so a
    handle is closed at most once;
  * `transferOpen`: from the messages of a connection alone, whether a transfer is
    going on, and `InOrder`, the messages that can come then;
  * `handleOpen_runs`: the handle is open while a transfer is going on;
  * `handles_iff`: the handles are used only while open iff all messages are in order.
-/
import LkpExtent.Received

namespace LkpExtent

open Lib

namespace LkpServer
variable {s t : LkpServer} {conn : ConnId}

/-! ## The handles -/

/-- The handle of the connection has been opened and not yet closed. -/
def handleOpen (s : LkpServer) (conn : ConnId) : Bool :=
  match s.outputfpMap conn with
  | some (some fp) => fp.isOpen
  | _ => false

/-- What the event does with handles: an END closes an open one, a further patch writes
    to an open one, and a first patch that opens a file overwrites none that is open. -/
def HandleOK (s : LkpServer) : ServerEvent → Prop
  | .message conn (.file message) env =>
    if message.fileType = .END then s.handleOpen conn = true
    else if message.firstPatch then env.receives = true → s.handleOpen conn = false
    else s.handleOpen conn = true
  | _ => True

instance (s : LkpServer) (e : ServerEvent) : Decidable (HandleOK s e) :=
  match e with
  | .message _ (.file _) _ => inferInstanceAs (Decidable (ite _ _ (ite _ _ _)))
  | .message _ (.command _) _ => isTrue trivial
  | .message _ (.commandACK _) _ => isTrue trivial
  | .message _ (.heartBeat _) _ => isTrue trivial
  | .message _ (.pushACK _) _ => isTrue trivial
  | .message _ (.ret _) _ => isTrue trivial
  | .up _ _ => isTrue trivial
  | .down _ => isTrue trivial
  | .written _ => isTrue trivial
  | .writeComplete _ _ => isTrue trivial
  | .timer _ => isTrue trivial

theorem handleOpen_of_some {fp : FILE} (h : s.outputfpMap conn = some (some fp)) :
    s.handleOpen conn = fp.isOpen := by
  simp only [handleOpen, h]

/-! ## The order of the messages -/

/-- Whether a transfer of the connection is going on after the event. -/
def transferStep (conn : ConnId) (going : Bool) : ServerEvent → Bool
  | .message c (.file message) env =>
    if c = conn then
      if message.fileType = .END then false
      else if message.firstPatch && env.receives then true
      else going
    else going
  | _ => going

/-- Whether a transfer of the connection is going on: it begins with a first patch whose
    file opens, and lasts up to the END after it. -/
def transferOpen (conn : ConnId) (es : List ServerEvent) : Bool := es.foldl (transferStep conn) false

/-- The message is in its place behind `es`: an END and a further patch during a
    transfer of the connection, a first patch whose file opens outside. -/
def InOrder (es : List ServerEvent) : ServerEvent → Prop
  | .message conn (.file message) env =>
    if message.fileType = .END then transferOpen conn es = true
    else if message.firstPatch then env.receives = true → transferOpen conn es = false
    else transferOpen conn es = true
  | _ => True

theorem transferOpen_snoc (conn : ConnId) (es : List ServerEvent) (e : ServerEvent) :
    transferOpen conn (es ++ [e]) = transferStep conn (transferOpen conn es) e := by
  rw [transferOpen, List.foldl_append]; rfl

theorem handleOpen_of_received (h : t.received = s.received) : t.handleOpen conn = s.handleOpen conn := by
  have hmap : t.outputfpMap = s.outputfpMap := congrArg Received.outputfp h
  rw [handleOpen, hmap]; rfl

theorem handleOpen_of_update {c : ConnId} {fp : FILE}
    (h : t.outputfpMap = Function.update s.outputfpMap c (some (some fp))) :
    t.handleOpen conn = if c = conn then fp.isOpen else s.handleOpen conn := by
  split_ifs with hc
  · subst hc
    exact handleOpen_of_some (by rw [h, Function.update_self])
  · rw [handleOpen, h, Function.update_of_ne (Ne.symm hc)]; rfl

/-- **A step keeps the handle open while a transfer is going on.** -/
theorem handleOpen_step {e : ServerEvent} (hs : s.step e = some t) :
    t.handleOpen conn = transferStep conn (s.handleOpen conn) e := by
  by_cases hfile : isFile e = true
  swap
  · have hrec : t.handleOpen conn = s.handleOpen conn :=
      handleOpen_of_received (received_step hs (Bool.eq_false_iff.2 hfile))
    cases e with
    | message c m env =>
      cases m with
      | file m => exact absurd rfl hfile
      | _ => exact hrec
    | _ => exact hrec
  cases e with
  | message c m env =>
    cases m with
    | file message =>
      have h : s.onFileMsg c message env = .ok t := (step_eq_some.1 hs).2
      simp only [transferStep]
      cases fileStep_onFileMsg h with
      | finish hend _ hr =>
        rw [handleOpen_of_update (congrArg Received.outputfp hr), if_pos hend, FILE.fclose_isOpen]
      | refused hend hfirst hreceives hr =>
        have hmap : t.outputfpMap = s.outputfpMap := congrArg Received.outputfp hr
        rw [if_neg hend, hfirst, hreceives, handleOpen, hmap]
        simp [handleOpen]
      | first hend hfirst hreceives hfp hr =>
        rw [handleOpen_of_update (congrArg Received.outputfp hr), if_neg hend, hfirst, hreceives, hfp]
        rfl
      | @patch fp hend hfirst hfp hr =>
        rw [handleOpen_of_update (congrArg Received.outputfp hr), if_neg hend, hfirst]
        by_cases hc : c = conn
        · subst hc
          rw [if_pos rfl, if_pos rfl, handleOpen_of_some hfp]
          rfl
        · rw [if_neg hc, if_neg hc]
    | _ => cases hfile
  | _ => cases hfile

/-- **The handle is open just while a transfer is going on**, after every run. -/
theorem handleOpen_runs {root : String} {serverTimeControl : ℕ} {es : List ServerEvent}
    (h : Runs step (start root serverTimeControl) es t) (conn : ConnId) :
    t.handleOpen conn = transferOpen conn es := by
  induction h with
  | nil => rfl
  | snoc _ he ih => rw [transferOpen_snoc, handleOpen_step he, ih]

theorem handleOK_iff_inOrder {root : String} {serverTimeControl : ℕ} {es : List ServerEvent}
    (h : Runs step (start root serverTimeControl) es t) (e : ServerEvent) :
    HandleOK t e ↔ InOrder es e := by
  cases e with
  | message conn m env =>
    cases m with
    | file message => rw [HandleOK, InOrder, handleOpen_runs h]
    | _ => exact Iff.rfl
  | _ => exact Iff.rfl

/-- **File handles are used only while open**, whatever the events, iff every `File`
    message that the server comes to handle is in order. -/
theorem handles_iff (root : String) (serverTimeControl : ℕ) (es : List ServerEvent) :
    EachStep step (start root serverTimeControl) es HandleOK ↔
      ∀ es₁ e es₂, es = es₁ ++ e :: es₂ → (∃ t, Runs step (start root serverTimeControl) es₁ t) →
        InOrder es₁ e := by
  constructor
  · rintro h es₁ e es₂ hes ⟨t, ht⟩
    exact (handleOK_iff_inOrder ht e).1 (h es₁ e es₂ t hes ht)
  · rintro h es₁ e es₂ t hes ht
    exact (handleOK_iff_inOrder ht e).2 (h es₁ e es₂ hes ⟨t, ht⟩)

/-- A transfer of one patch, with its END. -/
def onePatch : List ServerEvent :=
  [.up 1 "10.0.0.1", .message 1 (.file { fileType := .RESULT, firstPatch := true, fileName := "r" }) {},
    .message 1 (.file endFile) {}]

/-- A second END closes a handle that is closed. -/
theorem handles_secondEnd :
    ¬ EachStep step (start "/lkp" 3) (onePatch ++ [.message 1 (.file endFile) {}]) HandleOK := by
  obtain ⟨t, ht, hnot⟩ : ∃ t, Runs step (start "/lkp" 3) onePatch t ∧
      ¬ HandleOK t (.message 1 (.file endFile) {}) :=
    Runs.exists_of_run (by decide +kernel)
  intro h
  exact hnot (h onePatch _ [] t rfl ht)

end LkpServer

end LkpExtent
