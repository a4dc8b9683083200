/-
  LkpExtent formalization — `lkpCmdClient` of `lkpCommand.cc`: what the CLI shows of a
  Return.
-/
import LkpExtent.Client

namespace LkpExtent

open Lib

/-- Whether `lkpEnumToCmds` knows the command. -/
def CommandID.known : CommandID → Bool
  | .other _ => false
  | _ => true

/-- What a handler prints, line by line, and whether it then leaves the process. -/
structure Shown where
  lines : List String
  exits : Bool
  deriving DecidableEq, Repr

namespace LkpCmdClient

/-- `%2u`. -/
def width2 (n : UInt32) : String :=
  let digits := toString n.toNat
  if digits.length < 2 then " " ++ digits else digits

/-- The line of a node. -/
def nodeLine (node : NodeInfo) : String := "   Node " ++ width2 node.nodeId ++ ": " ++ node.nodeMsg

/-- The loop over `node_info(i)` for `i < n`, undefined if one of them is out of range. -/
def nodeLoop (nodeInfo : List NodeInfo) : ℕ → Option (List String)
  | 0 => some []
  | n + 1 => do
    let lines ← nodeLoop nodeInfo n
    let node ← nodeInfo[n]?
    pure (lines ++ [nodeLine node])

/-- `lkpCmdClient::onReturnMsg`. -/
def onReturnMsg (message : Return) : Option Shown :=
  if message.command.known then
    if message.command = .LIST then do
      let lines ← nodeLoop message.nodeInfo message.clientNum.toNat
      pure ⟨("LIST: " ++ toString message.clientNum.toNat ++ " clients have connected..") :: lines, true⟩
    else
      some ⟨(lkpEnumToCmds message.command "" ++ " : " ++ toString message.clientOkNum.toNat ++ " / " ++
        toString message.clientNum.toNat ++ " clients succeess!") :: message.nodeInfo.map nodeLine, true⟩
  else some ⟨[], false⟩

variable {nodeInfo : List NodeInfo}

/-- The loop reads inside the list iff it stops there. -/
theorem nodeLoop_eq (n : ℕ) : nodeLoop nodeInfo n =
    if n ≤ nodeInfo.length then some ((nodeInfo.take n).map nodeLine) else none := by
  induction n with
  | zero => rfl
  | succ n ih =>
    simp only [nodeLoop]
    rw [ih]
    by_cases hn : n + 1 ≤ nodeInfo.length
    · rw [if_pos (by omega), if_pos hn, List.take_add_one, List.getElem?_eq_getElem (by omega),
        Option.toList_some, List.map_append]
      rfl
    · rw [if_neg hn]
      split_ifs
      · rw [List.getElem?_eq_none (by omega)]; rfl
      · rfl

/-- A LIST Return can be shown iff it has an entry for each client that it counts. -/
theorem onReturnMsg_list {message : Return} (h : message.command = .LIST) :
    (onReturnMsg message).isSome ↔ message.clientNum.toNat ≤ message.nodeInfo.length := by
  simp only [onReturnMsg]
  rw [h, if_pos rfl, if_pos (show CommandID.LIST.known = true from rfl), nodeLoop_eq]
  split_ifs with hle
  · exact iff_of_true rfl hle
  · exact iff_of_false Bool.false_ne_true hle

example : onReturnMsg { command := .LIST, clientNum := 1, nodeInfo := [⟨7, "10.0.0.1"⟩] } =
    some ⟨["LIST: 1 clients have connected..", "   Node  7: 10.0.0.1"], true⟩ := by decide +kernel

end LkpCmdClient

end LkpExtent
