/-
  LkpExtent formalization — the tables of the transfers.

  No handler takes a key out of `fpMap`, `fileNameMap_`, `fileSizeMap_` or
  `outputfpMap_`, and the END of a push leaves the stream that it has read.

  * `fpMap_step`: the events that change the stream of a pushed file;
  * `keys_step`: the events that enter a connection into a table;
  * `Tidy`: the keys are connections that are up, and no stream has sent its END;
  * `tidy_iff`: the states of a run are tidy iff all its steps are `Clean`.
-/
import LkpExtent.PushTransfer
import LkpExtent.Received

namespace LkpExtent

open Lib

namespace LkpServer
variable {s t : LkpServer} {conn : ConnId}

/-! ## The streams of the pushed files -/

theorem fpMap_sendToClient (m : Message) (c : Option ConnId) : (s.sendToClient m c).fpMap = s.fpMap :=
  fpMap_of_transfers (transfers_sendToClient m c)

theorem fpMap_fwriteOutput {c : ConnId} {message : File} {env : Env}
    (h : s.fwriteOutput c message env = .ok t) : t.fpMap = s.fpMap := by
  obtain ⟨_, -, rfl⟩ := fwriteOutput_eq h
  rfl

theorem fpMap_checkComplete (c : ConnId) (message : File) (env : Env) :
    (s.checkComplete c message env).fpMap = s.fpMap := by
  simp only [checkComplete]
  split_ifs <;> rfl

theorem fpMap_onFileMsg {c : ConnId} {message : File} {env : Env} (h : s.onFileMsg c message env = .ok t) :
    t.fpMap = s.fpMap := by
  simp only [onFileMsg] at h
  split_ifs at h
  · obtain ⟨u, hu, h⟩ := bind_ok h
    obtain ⟨fp, -, rfl⟩ := fcloseOutput_eq hu
    exact (fpMap_of_transfers (transfers_replyIfComplete h)).trans (fpMap_checkComplete c message env)
  · exact (fpMap_fwriteOutput h).trans rfl
  · cases h; rfl
  · exact fpMap_fwriteOutput h

theorem fpMap_startPush (message : Command) (env : Env) (nodeID : ℤ) (c : ConnId) :
    (s.startPush message env nodeID c).fpMap =
      Function.update s.fpMap c (some (some (env.testcase.drop kBufSize))) := by
  simp only [startPush]
  rw [fpMap_sendToClient]
  rfl

/-- The pushes of a command open one stream for each of their nodes. -/
theorem fpMap_pushAll (message : Command) (env : Env) (its : List (ℤ × ConnId)) (s : LkpServer) :
    (pushAll message env its s).fpMap conn =
      if its.any (fun it => it.2 = conn) then some (some (env.testcase.drop kBufSize)) else s.fpMap conn := by
  induction its generalizing s with
  | nil => rfl
  | cons it its ih =>
    rw [pushAll, List.foldl_cons, ← pushAll, ih, fpMap_startPush, List.any_cons]
    by_cases hc : it.2 = conn
    · subst hc
      simp
    · rw [decide_eq_false hc, Bool.false_or, Function.update_of_ne (Ne.symm hc)]

/-- A call of the callback reads the stream on, and keeps it at its end. -/
theorem fpMap_onWriteComplete {c : ConnId} {stack : Bytes} (h : s.onWriteComplete c stack = .ok t) :
    ∃ fp, s.fpMap c = some (some fp) ∧
      t.fpMap = Function.update s.fpMap c (some (some (fp.drop kBufSize))) := by
  obtain ⟨fp, hfp⟩ := exists_stream h
  refine ⟨fp, hfp, ?_⟩
  simp only [onWriteComplete] at h
  simp only [touch, Function.update_self, hfp, Option.getD_some] at h
  by_cases hnil : fp = []
  · subst hnil
    rw [nextPatch_nil] at h
    cases h
    rw [fpMap_sendToClient]
    rfl
  · rw [nextPatch_of_ne_nil hnil] at h
    cases h
    rw [fpMap_sendToClient]
    exact Function.update_idem ..

/-! ## The keys of the tables -/

/-- The event enters the connection into a table: a `File` message from it, or a push
    to it. -/
def enters (conn : ConnId) (s : LkpServer) : ServerEvent → Bool
  | .message c (.file _) _ => c = conn
  | e => begins conn s e

/-- **The stream of a connection** changes with a push to it and a call of its callback. -/
theorem fpMap_step {e : ServerEvent} (hs : s.step e = some t) (hbegin : begins conn s e = false)
    (hcall : isCall conn e = false) : t.fpMap conn = s.fpMap conn := by
  by_cases htransfer : ofTransfer e = true
  · cases e with
    | message c m env =>
      cases m with
      | command m =>
        have hm : m.command = .PUSH := of_decide_eq_true htransfer
        obtain ⟨n, rfl⟩ := step_push hm hs
        have hnone : (s.pushed m env).any (fun it => it.2 = conn) = false := by simpa [begins, hm] using hbegin
        rw [fpMap_pushAll, hnone]
        rfl
      | file m => exact congrFun (fpMap_onFileMsg (step_eq_some.1 hs).2) conn
      | _ => cases htransfer
    | writeComplete c stack =>
      have hc : c ≠ conn := by simpa [isCall] using hcall
      obtain ⟨fp, -, ht⟩ := fpMap_onWriteComplete (step_eq_some.1 hs).2
      rw [ht]
      exact Function.update_of_ne (Ne.symm hc) ..
    | _ => cases htransfer
  · rw [fpMap_of_transfers (transfers_step hs (Bool.eq_false_iff.2 htransfer))]

/-- Whether there is a stream for the connection: only a push brings one, and nothing
    takes it away. -/
theorem isSome_fpMap_step {e : ServerEvent} (hs : s.step e = some t) (hbegin : begins conn s e = false) :
    (t.fpMap conn).isSome = (s.fpMap conn).isSome := by
  by_cases hcall : isCall conn e = true
  · obtain ⟨stack, rfl⟩ := exists_call hcall
    obtain ⟨fp, hfp, ht⟩ := fpMap_onWriteComplete (step_eq_some.1 hs).2
    rw [ht, Function.update_self, show s.fpMap conn = some (some fp) from hfp]
    rfl
  · rw [fpMap_step hs hbegin (Bool.eq_false_iff.2 hcall)]

/-- A `File` message is about the connection that it comes from. -/
theorem fileStep_of_ne {c : ConnId} {message : File} {env : Env} {r : Received}
    (h : FileStep s c message env r) (hc : c ≠ conn) : r.fileName conn = s.fileNameMap conn ∧
      r.fileSize conn = s.fileSizeMap conn ∧ r.outputfp conn = s.outputfpMap conn := by
  have hne : conn ≠ c := Ne.symm hc
  cases h with
  | finish _ _ hr =>
    rw [hr]
    exact ⟨Function.update_of_ne hne .., Function.update_of_ne hne .., Function.update_of_ne hne ..⟩
  | refused _ _ _ hr =>
    rw [hr]
    exact ⟨Function.update_of_ne hne .., Function.update_of_ne hne .., rfl⟩
  | first _ _ _ _ hr =>
    rw [hr]
    exact ⟨Function.update_of_ne hne .., Function.update_of_ne hne .., Function.update_of_ne hne ..⟩
  | patch _ _ _ hr =>
    rw [hr]
    exact ⟨rfl, rfl, Function.update_of_ne hne ..⟩

/-- **The keys of the tables.**  Only a `File` message from a connection and a push to
    it make it a key, and nothing takes it out again. -/
theorem keys_step {e : ServerEvent} (hs : s.step e = some t) (henters : enters conn s e = false) :
    t.inTables conn = s.inTables conn := by
  have hkey : begins conn s e = false → t.received.fileName conn = s.received.fileName conn →
      t.received.fileSize conn = s.received.fileSize conn →
      t.received.outputfp conn = s.received.outputfp conn → t.inTables conn = s.inTables conn := by
    intro hbegin hname hsize hfp
    rw [inTables_eq, inTables_eq, isSome_fpMap_step hs hbegin, hname, hsize, hfp]
  by_cases hfile : isFile e = true
  · cases e with
    | message c m env =>
      cases m with
      | file m =>
        have hc : c ≠ conn := by simpa [enters] using henters
        obtain ⟨hname, hsize, hfp⟩ := fileStep_of_ne (fileStep_onFileMsg (step_eq_some.1 hs).2) hc
        exact hkey rfl hname hsize hfp
      | _ => cases hfile
    | _ => cases hfile
  · have hrec := received_step hs (Bool.eq_false_iff.2 hfile)
    refine hkey ?_ (by rw [hrec]) (by rw [hrec]) (by rw [hrec])
    cases e with
    | message c m env =>
      cases m with
      | file m => exact absurd rfl hfile
      | _ => exact henters
    | _ => exact henters

/-! ## Tidy tables -/

/-- Each key of a table is a connection that is up, and there is no stream for a
    connection on which the last message of a push was an END. -/
structure Tidy (s : LkpServer) : Prop where
  up : ∀ conn, s.inTables conn = true → (s.conns conn).isUp = true
  unended : ∀ conn fp, s.fpMap conn = some (some fp) → (s.items conn).getLast? ≠ some none

/-- No connection goes down that is a key, no push is started to a connection that is
    not up, and no callback finds the end of the file on a connection that is connected. -/
def Clean (s : LkpServer) : ServerEvent → Prop
  | .down conn => s.inTables conn = false
  | .message _ (.command m) env => m.command = .PUSH → ∀ it ∈ s.pushed m env, (s.conns it.2).isUp = true
  | .writeComplete conn _ => (s.conns conn).connected = true → s.unread conn ≠ []
  | _ => True

instance (s : LkpServer) (e : ServerEvent) : Decidable (Clean s e) :=
  match e with
  | .down conn => inferInstanceAs (Decidable (s.inTables conn = false))
  | .message _ (.command m) env => inferInstanceAs (Decidable (_ → ∀ it ∈ s.pushed m env, _))
  | .message _ (.file _) _ => isTrue trivial
  | .message _ (.commandACK _) _ => isTrue trivial
  | .message _ (.heartBeat _) _ => isTrue trivial
  | .message _ (.pushACK _) _ => isTrue trivial
  | .message _ (.ret _) _ => isTrue trivial
  | .writeComplete conn _ => inferInstanceAs (Decidable (_ → s.unread conn ≠ []))
  | .up _ _ => isTrue trivial
  | .written _ => isTrue trivial
  | .timer _ => isTrue trivial

/-- What lasts while the steps are clean: no END has been sent at all. -/
structure Unended (s : LkpServer) : Prop where
  up : ∀ conn, s.inTables conn = true → s.members.phase conn = .up
  noEnd : ∀ conn, none ∉ s.items conn

theorem Unended.tidy (h : Unended s) : Tidy s :=
  ⟨fun conn hc => (isUp_iff _).2 (h.up conn hc), fun conn _ _ hl => h.noEnd conn (List.mem_of_getLast? hl)⟩

theorem unended_start (root : String) (serverTimeControl : ℕ) : Unended (start root serverTimeControl) :=
  ⟨nofun, fun _ => List.not_mem_nil⟩

/-- A clean event enters only connections that are up. -/
theorem up_of_enters {e : ServerEvent} (hs : s.step e = some t) (hclean : Clean s e)
    (h : enters conn s e = true) : s.members.phase conn = .up := by
  have hpush : begins conn s e = true → s.members.phase conn = .up := by
    intro hbegin
    obtain ⟨c, m, env, it, rfl, hm, hit, rfl⟩ := exists_push hbegin
    exact (isUp_iff _).1 (hclean hm it hit)
  cases e with
  | message c m env =>
    cases m with
    | file m =>
      obtain rfl : c = conn := of_decide_eq_true h
      exact (isUp_iff _).1 (step_eq_some.1 hs).1
    | _ => exact hpush h
  | _ => exact hpush h

/-! ## The ENDs -/

theorem told_pushAll (message : Command) (env : Env) (its : List (ℤ × ConnId)) (s : LkpServer) :
    Told s (pushAll message env its s) (s.tells (fun id => .file (pushPatch message env id)) its) := by
  induction its generalizing s with
  | nil => exact .refl s
  | cons it its ih =>
    have h := told_startPush (s := s) message env it.1 it.2
    rw [tells_cons, ← tells_congr h.connected]
    exact h.trans (ih _)

/-- A PUSH command sends no END. -/
theorem end_pushAll {message : Command} {env : Env} {its : List (ℤ × ConnId)}
    (h : none ∈ (pushAll message env its s).items conn) : none ∈ s.items conn := by
  rw [items, (told_pushAll message env its s).sent, List.filterMap_append, List.mem_append] at h
  refine h.resolve_right fun hend => ?_
  obtain ⟨⟨c, m⟩, hmem, hitem⟩ := List.mem_filterMap.1 hend
  obtain ⟨it, -, he⟩ := List.mem_map.1 hmem
  cases he
  simp only [itemFor] at hitem
  split_ifs at hitem
  cases hitem

/-- A message to a connection that is not connected is not sent. -/
theorem items_onWriteComplete_of_not {stack : Bytes} (hup : (s.conns conn).connected = false)
    (h : s.onWriteComplete conn stack = .ok t) : t.items conn = s.items conn := by
  have hsend : ∀ (u : LkpServer) (m : Message), (u.conns conn).connected = false →
      (u.sendToClient m (some conn)).items conn = u.items conn := by
    intro u m hu
    have hu : u.sendToClient m (some conn) = u := if_neg (Bool.eq_false_iff.1 hu)
    rw [hu]
  obtain ⟨fp, hfp⟩ := exists_stream h
  simp only [onWriteComplete] at h
  simp only [touch, Function.update_self, hfp, Option.getD_some] at h
  split at h
  · cases h
    exact hsend _ _ hup
  · cases h
    exact hsend _ _ (by rw [setConn_conns]; exact hup)

/-- A clean step sends no END. -/
theorem end_step {e : ServerEvent} (hs : s.step e = some t) (hclean : Clean s e)
    (h : none ∈ t.items conn) : none ∈ s.items conn := by
  by_cases hbegin : begins conn s e = true
  · obtain ⟨c, m, env, it, rfl, hm, -, -⟩ := exists_push hbegin
    obtain ⟨n, rfl⟩ := step_push hm hs
    exact end_pushAll (s := s.resetCounters.setClientNum n) h
  by_cases hwritten : e = .written conn
  · subst hwritten
    obtain ⟨-, hw⟩ := step_eq_some.1 hs
    cases hw
    exact h
  by_cases hcall : isCall conn e = true
  · obtain ⟨stack, rfl⟩ := exists_call hcall
    have hw : (s.setConn conn (s.conns conn).dequeue).onWriteComplete conn stack = .ok t := (step_eq_some.1 hs).2
    by_cases hup : (s.conns conn).connected = true
    · rcases onWriteComplete_cases (by rw [setConn_conns]; exact hup) hw with ⟨hnil, -, -, -⟩ | ⟨-, -, hi, -⟩
      · exact absurd hnil (hclean hup)
      · rw [hi] at h
        exact (List.mem_append.1 h).resolve_right (by simp)
    · rwa [items_onWriteComplete_of_not (by rw [setConn_conns]; exact Bool.eq_false_iff.2 hup) hw] at h
  · rwa [(aside_step hs (Bool.eq_false_iff.2 hbegin) hwritten (Bool.eq_false_iff.2 hcall)).items] at h

/-! ## Runs -/

/-- A clean step keeps the invariant. -/
theorem Unended.step {e : ServerEvent} (h : Unended s) (hclean : Clean s e) (hs : s.step e = some t) :
    Unended t := by
  refine ⟨?_, fun conn hend => h.noEnd conn (end_step hs hclean hend)⟩
  intro conn hkey
  have hup : s.members.phase conn = .up := by
    by_cases henters : enters conn s e = true
    · exact up_of_enters hs hclean henters
    · rw [keys_step hs (Bool.eq_false_iff.2 henters)] at hkey
      exact h.up conn hkey
  rw [phase_step hs conn, hup]
  cases e with
  | up c ip => exact ite_self _
  | down c =>
    refine if_neg ?_
    rintro rfl
    have hfree : s.inTables c = false := hclean
    rw [keys_step hs rfl, hfree] at hkey
    cases hkey
  | _ => rfl

/-- A push makes its nodes keys. -/
theorem inTables_push {c : ConnId} {m : Command} {env : Env} {it : ℤ × ConnId} (hm : m.command = .PUSH)
    (hit : it ∈ s.pushed m env) (hs : s.step (.message c (.command m) env) = some t) :
    t.inTables it.2 = true := by
  obtain ⟨n, rfl⟩ := step_push hm hs
  have hany : (s.pushed m env).any (fun x => x.2 = it.2) = true := List.any_eq_true.2 ⟨it, hit, by simp⟩
  rw [inTables_eq, fpMap_pushAll, if_pos hany]
  rfl

/-- A step after which the tables are tidy was clean. -/
theorem Tidy.clean {e : ServerEvent} (h : Tidy t) (hs : s.step e = some t) : Clean s e := by
  have hphase : ∀ conn, t.inTables conn = true → phaseAfter conn (s.members.phase conn) e = .up := by
    intro conn hkey
    rw [← phase_step hs conn]
    exact (isUp_iff _).1 (h.up conn hkey)
  cases e with
  | down c =>
    refine Bool.eq_false_iff.2 fun hkey => ?_
    rw [← keys_step hs rfl] at hkey
    have hgone := hphase c hkey
    simp [phaseAfter] at hgone
  | message c m env =>
    cases m with
    | command m =>
      intro hm it hit
      exact (isUp_iff _).2 (hphase it.2 (inTables_push hm hit hs))
    | _ => exact trivial
  | writeComplete c stack =>
    intro hup hnil
    have hw : (s.setConn c (s.conns c).dequeue).onWriteComplete c stack = .ok t := (step_eq_some.1 hs).2
    obtain ⟨fp, -, ht⟩ := fpMap_onWriteComplete hw
    have hopen : t.fpMap c = some (some (fp.drop kBufSize)) := by rw [ht, Function.update_self]
    rcases onWriteComplete_cases (by rw [setConn_conns]; exact hup) hw with ⟨-, -, hi, -⟩ | ⟨hne, -, -, -⟩
    · exact h.unended c _ hopen (by rw [hi]; exact List.getLast?_concat)
    · exact hne hnil
  | _ => exact trivial

/-- **The tables are tidy** in every state of a run iff all its steps are clean: what
    enters a table stays there, and no push is ended that has a stream. -/
theorem tidy_iff {root : String} {serverTimeControl : ℕ} {es : List ServerEvent}
    (h : Runs step (start root serverTimeControl) es t) :
    EachState step (start root serverTimeControl) es Tidy ↔
      EachStep step (start root serverTimeControl) es Clean :=
  h.eachState_iff (I := Unended) (H := fun _ _ => True) (unended_start root serverTimeControl)
    (fun _ _ _ _ _ _ => trivial) (fun _ => Unended.tidy) (fun _ _ _ hu _ hclean hv => hu.step hclean hv)
    fun _ _ _ _ _ hv ht => ht.clean hv

/-- A push that is under way, and a result that the worker has sent meanwhile. -/
def underWay : List ServerEvent :=
  [.up 1 "10.0.0.1", .up 9 "127.0.0.1",
    .message 9 (.command { command := .PUSH, sendToAll := true }) { testcase := [7] },
    .message 1 (.file { fileType := .RESULT, firstPatch := true, fileName := "r" }) {},
    .message 1 (.file endFile) {}]

theorem tidy_underWay : ∃ t, Runs step (start "/lkp" 3) underWay t ∧ t.inTables 1 = true ∧
    EachState step (start "/lkp" 3) underWay Tidy := by
  obtain ⟨t, ht, hkey⟩ : ∃ t, Runs step (start "/lkp" 3) underWay t ∧ t.inTables 1 = true :=
    Runs.exists_of_run (by decide +kernel)
  exact ⟨t, ht, hkey, (tidy_iff ht).2 (.of_checkSteps (by decide +kernel))⟩

/-- A worker that goes down stays a key, and a push that has ended keeps its stream. -/
theorem not_tidy :
    ¬ EachState step (start "/lkp" 3) [.up 1 "10.0.0.1",
      .message 1 (.file { fileType := .RESULT, firstPatch := true, fileName := "r" }) {}, .down 1] Tidy ∧
    ¬ EachState step (start "/lkp" 3) [.up 1 "10.0.0.1", .up 9 "127.0.0.1",
      .message 9 (.command { command := .PUSH, sendToAll := true }) { testcase := [7] }, .written 1,
      .writeComplete 1 []] Tidy := by
  constructor
  · intro h
    obtain ⟨t, ht, hkey, hdown⟩ : ∃ t, Runs step (start "/lkp" 3) [.up 1 "10.0.0.1",
        .message 1 (.file { fileType := .RESULT, firstPatch := true, fileName := "r" }) {}, .down 1] t ∧
        t.inTables 1 = true ∧ (t.conns 1).isUp = false :=
      Runs.exists_of_run (by decide +kernel)
    have hup := (h _ [] t (List.append_nil _).symm ht).up 1 hkey
    rw [hdown] at hup
    cases hup
  · intro h
    obtain ⟨t, ht, hopen, hend⟩ : ∃ t, Runs step (start "/lkp" 3) [.up 1 "10.0.0.1", .up 9 "127.0.0.1",
        .message 9 (.command { command := .PUSH, sendToAll := true }) { testcase := [7] }, .written 1,
        .writeComplete 1 []] t ∧ t.fpMap 1 = some (some []) ∧ (t.items 1).getLast? = some none :=
      Runs.exists_of_run (by decide +kernel)
    exact (h _ [] t (List.append_nil _).symm ht).unended 1 [] hopen hend

end LkpServer

end LkpExtent
