/-
  LkpExtent formalization — a transfer that is interleaved with other messages.

  The client sending a result and the server pushing a test case are each a `Pump`:
  the items are the lengths of the chunks, and the end mark is the END message.
  Whatever else is sent on the connection makes a move of the pump that leaves the
  items alone (`Aside`), but its completion can queue one more call of
  `onWriteComplete`.

  * `client_move`: a step of the client is a move of the pump;
  * `LkpClient.endsOnce`: every chunk and then one END is sent iff the call that finds the
    end of the file is the only one queued; the server is in `PushTransfer`.
-/
import LkpExtent.ClientSteps
import LkpExtent.Lib.Pump

namespace LkpExtent

open Lib

/-- The items of the chunks that are not read yet. -/
def itemsOf (chunks : List Bytes) : List UInt32 := chunks.map fun chunk => u32 chunk.length

/-- The items of all chunks of a file. -/
def chunkItems (data : Bytes) : List (Option UInt32) := (itemsOf (piecesOf data)).map some

/-- The items that are left when a chunk has been read. -/
theorem itemsOf_chunks {fp : Bytes} (h : fp ≠ []) : itemsOf (chunks kBufSize fp) =
    u32 (fp.take kBufSize).length :: itemsOf (chunks kBufSize (fp.drop kBufSize)) := by
  rw [chunks_of_ne_nil kBufSize_pos h, itemsOf, List.map_cons, ← itemsOf]

theorem itemsOf_chunks_eq_nil {fp : Bytes} : itemsOf (chunks kBufSize fp) = [] ↔ fp = [] := by
  by_cases h : fp = []
  · subst h; simp [itemsOf]
  · simp [itemsOf_chunks h, h]

/-- The items of a transfer whose first message has been sent. -/
theorem itemsOf_piecesOf (data : Bytes) : itemsOf (piecesOf data) =
    [u32 (min kBufSize data.length : ℕ)] ++ itemsOf (chunks kBufSize (data.drop kBufSize)) := by
  rw [piecesOf, itemsOf, List.map_cons, ← itemsOf, List.length_take, List.singleton_append]

/-- The END messages of the transfer of `data`: when nothing is pending any more, all
    chunks have been sent and then the END, once iff `sole` holds; and while that holds,
    what has been sent is a part of this. -/
def EndsOnce (settled : Prop) (before after : List (Option UInt32)) (data : Bytes) (sole : Prop) : Prop :=
  (settled → ∃ n, after = before ++ (chunkItems data ++ List.replicate n none) ∧ (n = 1 ↔ sole)) ∧
    (sole → after <+: before ++ (chunkItems data ++ [none]))

/-- The rule for both senders. -/
theorem endsOnce_of_pumped {p : Pump UInt32} {sole : Prop} {before after : List (Option UInt32)}
    {data : Bytes} (h : p.Pumped (itemsOf (piecesOf data)) sole) (hafter : after = before ++ p.sent) :
    EndsOnce p.Settled before after data sole := by
  subst hafter
  constructor
  · intro hp
    obtain ⟨n, hsent, hn⟩ := h.sent_eq hp
    exact ⟨n, by rw [hsent, chunkItems], hn⟩
  · intro hs
    exact (List.prefix_append_right_inj before).2 (h.sent_prefix hs)

/-! ## The client -/

namespace LkpClient
variable {c d : LkpClient}

/-- What is left of the file. -/
def unread (c : LkpClient) : Bytes := c.conn.context.getD []

/-- The client as the sender of a result, `before` which it has sent other items. -/
def pump (before : List (Option UInt32)) (c : LkpClient) : Pump UInt32 where
  callback := c.conn.writeCompleteCallback
  output := c.conn.output
  queued := c.conn.queued
  left := itemsOf (chunks kBufSize c.unread)
  sent := c.items.drop before.length

/-! ### The steps of the client -/

def isDown : ClientEvent → Bool
  | .down => true
  | _ => false

/-- A transfer is not disturbed by the end of the connection or by a new transfer. -/
def Undisturbed (c : LkpClient) (e : ClientEvent) : Prop := isDown e = false ∧ c.begins e = false

instance (c : LkpClient) (e : ClientEvent) : Decidable (c.Undisturbed e) := inferInstanceAs (Decidable (_ ∧ _))

/-- The calls of the callback. -/
def isCall : ClientEvent → Bool
  | .writeComplete _ => true
  | _ => false

section
variable {before : List (Option UInt32)}

/-- The connection is up, and the items start with `before`. -/
def Linked (before : List (Option UInt32)) (c : LkpClient) : Prop :=
  c.connection = true ∧ c.conn.connected = true ∧ before <+: c.items

theorem Aside.move (h : Aside c d) : (c.pump before).Move false (d.pump before) := by
  have hd : d.pump before = { c.pump before with output := d.conn.output } := by
    unfold pump unread
    rw [h.conn, h.items]
  rw [hd]
  exact .other _ h.output

theorem Aside.linked (h : Aside c d) (hc : c.Linked before) : d.Linked before := by
  refine ⟨h.connection.trans hc.1, ?_, ?_⟩
  · rw [h.conn]; exact hc.2.1
  · rw [h.items]; exact hc.2.2

/-- A message of the transfer is one more item. -/
theorem items_snoc {f : File} {item : Option UInt32} (hf : (Message.file f).item? = some item)
    (hd : d.sent = c.sent ++ [.file f]) : d.items = c.items ++ [item] := by
  rw [items, hd, List.filterMap_append]
  simp [hf, items]

theorem pump_snoc {f : File} {item : Option UInt32} (hb : before <+: c.items)
    (hf : (Message.file f).item? = some item) (hd : d.sent = c.sent ++ [.file f]) :
    (d.pump before).sent = (c.pump before).sent ++ [item] ∧ before <+: d.items := by
  have hi := items_snoc hf hd
  constructor
  · show d.items.drop before.length = c.items.drop before.length ++ [item]
    rw [hi, List.drop_append_of_le_length hb.length_le]
  · rw [hi]
    exact hb.trans (List.prefix_append _ _)

/-- A call of the callback sends a chunk or the END. -/
theorem writeComplete_move {stack : Bytes} (hc : c.Linked before)
    (hs : c.step (.writeComplete stack) = some d) :
    (c.pump before).Move true (d.pump before) ∧ d.Linked before := by
  obtain ⟨hen, hh⟩ := step_eq_some.1 hs
  have hq : 0 < c.conn.queued := by simpa [enabled] using hen
  obtain ⟨fp, hctx⟩ : ∃ fp, c.conn.context = some fp := by
    rcases hctx : c.conn.context with _ | fp
    · simp [handle, onWriteComplete, TcpConnection.dequeue, hctx] at hh
    · exact ⟨fp, rfl⟩
  have hleft : (c.pump before).left = itemsOf (chunks kBufSize fp) := by rw [pump, unread, hctx]; rfl
  by_cases hfp : fp = []
  · subst hfp
    have hd := (Option.some.inj ((step_end hq hc.1 hc.2.1 hctx).symm.trans hs)).symm
    have hsnoc : d.sent = c.sent ++ [.file endFile] := by rw [hd]
    obtain ⟨hsent, hn⟩ := pump_snoc hc.2.2 item?_endFile hsnoc
    have hm : (c.pump before).Move true _ := .finish hq hleft
    rw [← hsent] at hm
    subst hd
    exact ⟨hm, hc.1, hc.2.1, hn⟩
  · have hd := (Option.some.inj ((step_chunk hq hc.1 hc.2.1 hctx hfp).symm.trans hs)).symm
    have hsnoc : d.sent = c.sent ++ [.file (patchOf .RESULT (fp.take kBufSize) stack)] := by rw [hd]
    obtain ⟨hsent, hn⟩ := pump_snoc hc.2.2 (item?_patchOf (by decide) _ _) hsnoc
    rw [itemsOf_chunks hfp] at hleft
    have hm : (c.pump before).Move true _ := .item hq hleft
    rw [← hsent] at hm
    subst hd
    exact ⟨hm, hc.1, hc.2.1, hn⟩

/-- **A step of the client is a move of the pump**, and keeps the connection. -/
theorem client_move {e : ClientEvent} (hc : c.Linked before) (hu : c.Undisturbed e)
    (hs : c.step e = some d) : (c.pump before).Move (isCall e) (d.pump before) ∧ d.Linked before := by
  obtain ⟨hen, hh⟩ := step_eq_some.1 hs
  cases e with
  | up =>
    have hup := hc.2.1
    simp only [enabled, decide_eq_true_eq] at hen
    simp [TcpConnection.connected, hen] at hup
  | down => cases hu.1
  | message m env =>
    have h := aside_onMessage hh hu.2
    exact ⟨h.move, h.linked hc⟩
  | written =>
    cases hh
    simp only [enabled, Bool.and_eq_true] at hen
    exact ⟨.written hen.2, hc⟩
  | writeComplete stack => exact writeComplete_move hc hs
  | timer =>
    have h := aside_onTimer hh
    exact ⟨h.move, h.linked hc⟩
  | childExit =>
    cases hh
    have h : Aside c c.handleChildExit := aside_of_eq rfl rfl rfl
    exact ⟨h.move, h.linked hc⟩

end

/-- If the call finds the end of the file and the callback is set, it is the only call
    queued. -/
def OnlyCall (c : LkpClient) (e : ClientEvent) : Prop :=
  isCall e = true → c.conn.writeCompleteCallback = true → c.unread = [] → c.conn.queued = 1

instance (c : LkpClient) (e : ClientEvent) : Decidable (c.OnlyCall e) :=
  inferInstanceAs (Decidable (_ → _ → _ → _))

theorem soleCall_pump (before : List (Option UInt32)) : Pump.SoleCall (pump before) isCall = OnlyCall := by
  funext c e
  simp only [Pump.SoleCall, Pump.Sole, OnlyCall, pump, itemsOf_chunks_eq_nil]

/-- The pump when a RESULT command has been handled. -/
theorem pumped_start {m : Command} {env : ClientEnv} {data : Bytes} (hm : m.command = .RESULT)
    (hc : c.connection = true) (hup : c.conn.connected = true) (hchild : c.childNum = 0)
    (ho : env.opens = true) (hdata : c.disk (resultFile c.ROOT_DIR) = some data)
    (hs : c.step (.message (.command m) env) = some d) :
    (d.pump c.items).Pumped (itemsOf (piecesOf data)) True ∧ d.Linked c.items := by
  have hd := (Option.some.inj ((step_result hm hc hup hchild ho hdata).symm.trans hs)).symm
  have hsnoc : d.sent = c.sent ++ [.file (resultPatch (toInt32 data.length) data env.stack)] := by rw [hd]
  have hitem : (Message.file (resultPatch (toInt32 data.length) data env.stack)).item? =
      some (some (u32 (min kBufSize data.length : ℕ))) := rfl
  obtain ⟨hsent, hn⟩ := pump_snoc (List.prefix_refl _) hitem hsnoc
  have hnil : (c.pump c.items).sent = [] := List.drop_length
  rw [hnil, List.nil_append] at hsent
  refine ⟨⟨fun _ => ⟨trivial, Or.inl ?_, [_], hsent, ?_⟩, ?_⟩, ?_, ?_, hn⟩
  · rw [hd]; rfl
  · rw [itemsOf_piecesOf, hd]; rfl
  · intro hcb
    rw [hd] at hcb; cases hcb
  · rw [hd]; exact hc
  · rw [hd]; exact hup

/-- The transfer of a result. -/
theorem endsOnce {c₁ : LkpClient} {es : List ClientEvent} {m : Command} {env : ClientEnv} {data : Bytes}
    (hm : m.command = .RESULT) (hc : c.connection = true) (hup : c.conn.connected = true)
    (hchild : c.childNum = 0) (ho : env.opens = true) (hdata : c.disk (resultFile c.ROOT_DIR) = some data)
    (hs : c.step (.message (.command m) env) = some c₁) (h : Runs step c₁ es d)
    (hu : EachStep step c₁ es Undisturbed) :
    EndsOnce (d.conn.output = false ∧ d.conn.queued = 0) c.items d.items data
      (EachStep step c₁ es OnlyCall) := by
  obtain ⟨h₀, hl⟩ := pumped_start hm hc hup hchild ho hdata hs
  have hlinked := hu.inv hl fun u e v hI hP hv => (client_move hI hP hv).2
  have hp := Pump.runs_pumped h h₀ (hlinked.and hu) fun u e v hH hv => (client_move hH.1 hH.2 hv).1
  rw [soleCall_pump] at hp
  refine endsOnce_of_pumped hp ?_
  obtain ⟨after, hafter⟩ := (h.inv hl (fun u e v hI hP hv => (client_move hI hP hv).2) hu).2.2
  show d.items = c.items ++ d.items.drop c.items.length
  rw [← hafter, List.drop_left]

end LkpClient

end LkpExtent
