/-
  LkpExtent formalization — the sizes of a result, as its node sends it and as the server finds it.

  The results of all nodes go to one file.  When an END comes the server closes the stream
  of its connection, by which the last bytes are written, and takes the size of the file.

  * `ended`: the announced and the received size of a transfer, from its messages;
  * `Apart`: between its first patch and its END a transfer has no other `File` message
    than its own patches;
  * `passes_iff_of_alone`: then the check of the END is that of these sizes, modulo `2 ^ 32`.
-/
import LkpExtent.Received

namespace LkpExtent

open Lib

/-- The announced size of a transfer, and what has been received of it. -/
structure Sizes where
  announced : UInt32 := 0
  received : ℕ := 0

namespace LkpServer
variable {s t : LkpServer} {conn : ConnId} {env : Env} {e : ServerEvent} {es : List ServerEvent}

/-! ## What the messages say -/

/-- The connection whose transfer an event ends. -/
def endOf : ServerEvent → Option ConnId
  | .message c (.file m) _ => if m.fileType = .END then some c else none
  | _ => none

/-- The sizes of the transfer of a connection, and of its last one that has ended. -/
def sizesStep (conn : ConnId) (z : Sizes × Option Sizes) : ServerEvent → Sizes × Option Sizes
  | .message c (.file m) _ =>
    if c ≠ conn then z
    else if m.fileType = .END then (z.1, some z.1)
    else if m.firstPatch then (⟨m.fileSize, m.patchLen.toNat⟩, z.2)
    else (⟨z.1.announced, z.1.received + m.patchLen.toNat⟩, z.2)
  | _ => z

def sizes (conn : ConnId) (es : List ServerEvent) : Sizes × Option Sizes := es.foldl (sizesStep conn) ({}, none)

/-- The sizes of the last transfer of the connection that has ended. -/
def ended (conn : ConnId) (es : List ServerEvent) : Option Sizes := (sizes conn es).2

/-- The connection whose transfer goes on, while only patches of it have come. -/
def aloneStep (going : Option ConnId) : ServerEvent → Option ConnId
  | .message c (.file m) env =>
    if m.fileType = .END then none
    else if m.firstPatch then if env.receives then some c else none
    else if going = some c then going else none
  | _ => going

def alone (es : List ServerEvent) : Option ConnId := es.foldl aloneStep none

/-- Every END closes a transfer that has been alone. -/
def ApartFrom (going : Option ConnId) : List ServerEvent → Prop
  | [] => True
  | e :: es => (∀ c ∈ endOf e, going = some c) ∧ ApartFrom (aloneStep going e) es

def Apart (es : List ServerEvent) : Prop := ApartFrom none es

instance decidableApartFrom : (going : Option ConnId) → (es : List ServerEvent) → Decidable (ApartFrom going es)
  | _, [] => isTrue trivial
  | going, e :: es =>
    have := decidableApartFrom (aloneStep going e) es
    inferInstanceAs (Decidable ((∀ c ∈ endOf e, _) ∧ _))

instance (es : List ServerEvent) : Decidable (Apart es) := decidableApartFrom none es

theorem sizes_snoc (conn : ConnId) (es : List ServerEvent) (e : ServerEvent) :
    sizes conn (es ++ [e]) = sizesStep conn (sizes conn es) e := by
  rw [sizes, List.foldl_append]; rfl

theorem alone_snoc (es : List ServerEvent) (e : ServerEvent) : alone (es ++ [e]) = aloneStep (alone es) e := by
  rw [alone, List.foldl_append]; rfl

theorem apart_snoc : Apart (es ++ [e]) ↔ Apart es ∧ ∀ c ∈ endOf e, alone es = some c := by
  have hfrom : ∀ going, ApartFrom going (es ++ [e]) ↔
      ApartFrom going es ∧ ∀ c ∈ endOf e, es.foldl aloneStep going = some c := by
    induction es with
    | nil => intro going; simp [ApartFrom]
    | cons e' es ih =>
      intro going
      rw [List.cons_append, ApartFrom, ApartFrom, ih, and_assoc, List.foldl_cons]
  exact hfrom none

theorem sizesStep_other (z : Sizes × Option Sizes) (h : isFile e = false) : sizesStep conn z e = z := by
  cases e with
  | message c m env =>
    cases m with
    | file m => cases h
    | _ => rfl
  | _ => rfl

theorem aloneStep_other (going : Option ConnId) (h : isFile e = false) : aloneStep going e = going := by
  cases e with
  | message c m env =>
    cases m with
    | file m => cases h
    | _ => rfl
  | _ => rfl

/-- Only an END of the connection ends its transfer. -/
theorem ended_snoc (conn : ConnId) (es : List ServerEvent) (e : ServerEvent) :
    ended conn (es ++ [e]) = if endOf e = some conn then some (sizes conn es).1 else ended conn es := by
  rw [ended, sizes_snoc, ended]
  cases e with
  | message c m env =>
    cases m with
    | file m =>
      simp only [sizesStep, endOf]
      by_cases hc : c = conn
      · by_cases hend : m.fileType = .END
        · simp [hend, hc]
        · by_cases hfirst : m.firstPatch = true <;> simp [hend, hc, hfirst]
      · by_cases hend : m.fileType = .END
        · simp [hend, hc]
        · simp [hend, hc]
    | _ => rfl
  | _ => rfl

/-! ## What the server has -/

/-- The server has what the messages say of a transfer that is alone. -/
structure Storing (r : Received) (conn : ConnId) (z : Sizes) : Prop where
  stored : ∃ fp path data, r.outputfp conn = some (some fp) ∧ r.fileName conn = some path ∧
    fp.Holds r.disk path data ∧ data.length = z.received
  announced : r.fileSize conn = some (intOfU32 z.announced)

/-- The stream of a transfer that is alone holds what the messages have brought. -/
def StoringAlone (r : Received) (es : List ServerEvent) : Prop :=
  ∀ c, alone es = some c → Storing r c (sizes c es).1

theorem StoringAlone.step (h : StoringAlone s.received es) (hs : s.step e = some t) :
    StoringAlone t.received (es ++ [e]) := by
  cases hfile : isFile e with
  | false =>
    intro c hc
    rw [alone_snoc, aloneStep_other _ hfile] at hc
    rw [received_step hs hfile, sizes_snoc, sizesStep_other _ hfile]
    exact h c hc
  | true =>
    obtain ⟨c, m, env, rfl⟩ : ∃ c m env, e = .message c (.file m) env := by
      cases e with
      | message c m env =>
        cases m with
        | file m => exact ⟨c, m, env, rfl⟩
        | _ => cases hfile
      | _ => cases hfile
    intro c' hc'
    rw [alone_snoc] at hc'
    rw [sizes_snoc]
    simp only [aloneStep] at hc'
    cases fileStep_onFileMsg (step_eq_some.1 hs).2 with
    | finish hend =>
      rw [if_pos hend] at hc'
      cases hc'
    | refused hend hfirst hreceives =>
      rw [if_neg hend, if_pos hfirst, hreceives] at hc'
      cases hc'
    | @first fp hend hfirst hreceives hfp hr =>
      rw [if_neg hend, if_pos hfirst, if_pos hreceives] at hc'
      cases hc'
      simp only [sizesStep, ne_eq, not_true_eq_false, if_false, if_neg hend, if_pos hfirst]
      rw [hr]
      have hholds := (FILE.holds_truncate s.disk fp.path).fwrite (bytesOf m env) env.kept
      rw [List.nil_append] at hholds
      subst hfp
      exact ⟨⟨_, _, bytesOf m env, Function.update_self .., Function.update_self .., hholds, length_cBytes _ _ _⟩,
        Function.update_self ..⟩
    | @patch fp hend hfirst hfp hr =>
      have hnot : ¬ m.firstPatch = true := by rw [hfirst]; exact Bool.false_ne_true
      rw [if_neg hend, if_neg hnot] at hc'
      split_ifs at hc' with hgoing
      · rw [hgoing] at hc'
        cases hc'
        obtain ⟨⟨fp', path, data, hfp', hname, hholds, hlen⟩, hsize⟩ := h c hgoing
        obtain rfl : fp = fp' := Option.some.inj (Option.some.inj (hfp.symm.trans hfp'))
        simp only [sizesStep, ne_eq, not_true_eq_false, if_false, if_neg hend, if_neg hnot]
        rw [hr]
        refine ⟨⟨_, path, _, Function.update_self .., hname, hholds.fwrite _ _, ?_⟩, hsize⟩
        rw [List.length_append, hlen, bytesOf, length_cBytes]

theorem storingAlone_of_runs (h : Runs step s es t) : StoringAlone t.received es := by
  induction h with
  | nil => exact fun c hc => by cases hc
  | snoc _ he ih => exact ih.step he

/-! ## The check of an END -/

/-- The check that an END makes when it has closed the stream. -/
def passes (s : LkpServer) (conn : ConnId) (env : Env) : Bool :=
  (s.fcloseOutput conn).toOption.any fun t =>
    toInt32 (t.disk.stSize ((t.fileNameMap conn).getD "") env.uninit) = (t.fileSizeMap conn).getD 0

/-- The counter of the answers has nothing to do with the check. -/
theorem passes_iff {n : ℕ} (h : { s with ackTimes := n }.fcloseOutput conn = .ok t) :
    s.passes conn env = true ↔
      toInt32 (t.disk.stSize ((t.fileNameMap conn).getD "") env.uninit) = (t.fileSizeMap conn).getD 0 := by
  simp only [fcloseOutput] at h
  split at h
  · rename_i fp hfp
    have hfp : s.outputfpMap conn = some (some fp) := hfp
    split_ifs at h with hopen
    cases h
    simp [passes, fcloseOutput, hfp, hopen, Except.toOption]
  · cases h

/-- **A transfer that is alone is checked by its own sizes**, which the check takes modulo `2 ^ 32`. -/
theorem passes_iff_of_alone (h : Runs step s es t) (halone : alone es = some conn) :
    t.passes conn env = true ↔ (sizes conn es).1.received % 2 ^ 32 = (sizes conn es).1.announced.toNat := by
  obtain ⟨⟨fp, path, data, hfp, hname, hholds, hlen⟩, hsize⟩ := storingAlone_of_runs h conn halone
  have hlt : (sizes conn es).1.announced.toNat < 2 ^ 32 := (sizes conn es).1.announced.toNat_lt
  obtain ⟨u, hclose, hu, hnames, hsizes⟩ : ∃ u, { t with ackTimes := t.ackTimes }.fcloseOutput conn = .ok u ∧
      u.disk path = some data ∧ u.fileNameMap = t.fileNameMap ∧ u.fileSizeMap = t.fileSizeMap := by
    have hfp : t.outputfpMap conn = some (some fp) := hfp
    refine ⟨{ t with
      disk := t.disk.write fp fp.buffer
      outputfpMap := Function.update t.outputfpMap conn (some (some fp.fclose)) }, ?_, hholds.fclose, rfl, rfl⟩
    rw [fcloseOutput, hfp]
    exact if_pos hholds.isOpen
  have hname : t.fileNameMap conn = some path := hname
  have hsize : t.fileSizeMap conn = some (intOfU32 (sizes conn es).1.announced) := hsize
  rw [passes_iff hclose, hnames, hsizes, hname, hsize, Option.getD_some, Option.getD_some, Disk.stSize, hu]
  show toInt32 data.length = _ ↔ _
  rw [hlen, intOfU32, toInt32_eq_iff]
  omega

end LkpServer

end LkpExtent
