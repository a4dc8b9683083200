/-
  LkpExtent formalization — `lkpClientPool` of `lkpHelper.cc`.
-/
import LkpExtent.Muduo
import Mathlib.Data.Int.Order.Basic
import Std.Data.TreeMap.Lemmas
import Std.Data.TreeSet.Lemmas

namespace LkpExtent

open Lib

/-- `lkpClientPool`: the connections by node ID, the IDs given out so far, those of
    them that are idle, and the messages of the nodes that reported an error. -/
structure LkpClientPool where
  connections : Std.TreeMap ℤ ConnId := ∅
  nodeCount : ℤ := 0
  idleNodeID : Std.TreeSet ℤ := ∅
  nodeInfo : Std.TreeMap ℤ String := ∅

namespace LkpClientPool
variable (p : LkpClientPool)

def size : ℕ := p.connections.size

/-- `lkpClientPool::add`: the node ID of the new client, and the pool with it. -/
def add (conn : ConnId) : ℤ × LkpClientPool :=
  match p.idleNodeID.toList.head? with
  | none => (p.nodeCount, { p with
      nodeCount := p.nodeCount + 1
      connections := p.connections.insert p.nodeCount conn })
  | some nodeID => (nodeID, { p with
      idleNodeID := p.idleNodeID.erase nodeID
      connections := p.connections.insert nodeID conn })

/-- `lkpClientPool::del`: whether the ID was in use, and the pool without it. -/
def del (nodeID : ℤ) : Bool × LkpClientPool :=
  if nodeID ∈ p.connections then
    (true, { p with
      connections := p.connections.erase nodeID
      idleNodeID := p.idleNodeID.insert nodeID })
  else (false, p)

def getConn (nodeID : ℤ) : Option ConnId := p.connections[nodeID]?

def clearInfo : LkpClientPool := { p with nodeInfo := ∅ }

def updateInfo (nodeID : ℤ) (info : String) : LkpClientPool :=
  { p with nodeInfo := p.nodeInfo.insert nodeID info }

/-! ## What the operations do -/

theorem mem_toList {id : ℤ} {conn : ConnId} :
    (id, conn) ∈ p.connections.toList ↔ p.getConn id = some conn :=
  Std.TreeMap.mem_toList_iff_getElem?_eq_some

theorem mem_connections {id : ℤ} : id ∈ p.connections ↔ ∃ conn, p.getConn id = some conn :=
  Std.TreeMap.mem_iff_isSome_getElem?.trans Option.isSome_iff_exists

theorem not_mem_connections {id : ℤ} : id ∉ p.connections ↔ p.getConn id = none := by
  rw [mem_connections, ← not_iff_not, not_not, ← ne_eq, Option.ne_none_iff_exists']

theorem add_clearInfo (conn : ConnId) :
    p.clearInfo.add conn = ((p.add conn).1, (p.add conn).2.clearInfo) := by
  simp only [add, clearInfo]
  cases p.idleNodeID.toList.head? <;> rfl

theorem del_clearInfo (nodeID : ℤ) : (p.clearInfo.del nodeID).2 = (p.del nodeID).2.clearInfo := by
  unfold del clearInfo
  simp only
  split_ifs <;> rfl

theorem getConn_insert (m : Std.TreeMap ℤ ConnId) (nodeID : ℤ) (conn : ConnId) :
    (fun id => (m.insert nodeID conn)[id]?) = Function.update (fun id => m[id]?) nodeID (some conn) := by
  ext id
  rw [Std.TreeMap.getElem?_insert]
  by_cases h : id = nodeID
  · subst h; simp
  · rw [Function.update_of_ne h, if_neg (by simpa using Ne.symm h)]

theorem getConn_erase (m : Std.TreeMap ℤ ConnId) (nodeID : ℤ) :
    (fun id => (m.erase nodeID)[id]?) = Function.update (fun id => m[id]?) nodeID none := by
  ext id
  rw [Std.TreeMap.getElem?_erase]
  by_cases h : id = nodeID
  · subst h; simp
  · rw [Function.update_of_ne h, if_neg (by simpa using Ne.symm h)]

theorem add_getConn (conn : ConnId) :
    (p.add conn).2.getConn = Function.update p.getConn (p.add conn).1 (some conn) := by
  simp only [add]
  cases p.idleNodeID.toList.head? <;> exact getConn_insert _ _ _

theorem del_getConn (nodeID : ℤ) : (p.del nodeID).2.getConn = Function.update p.getConn nodeID none := by
  simp only [del]
  split_ifs with h
  · exact getConn_erase _ _
  · rw [not_mem_connections] at h
    rw [← h, Function.update_eq_self]

/-! ## The node IDs -/

/-- The IDs given out so far are the idle ones and the ones in use. -/
structure WF : Prop where
  count : 0 ≤ p.nodeCount
  range : ∀ id, id ∈ p.idleNodeID ∨ id ∈ p.connections ↔ 0 ≤ id ∧ id < p.nodeCount
  disjoint : ∀ id ∈ p.idleNodeID, id ∉ p.connections

variable {p}

theorem WF.clearInfo (hp : p.WF) : p.clearInfo.WF := ⟨hp.count, hp.range, hp.disjoint⟩

theorem WF.empty : ({} : LkpClientPool).WF where
  count := le_rfl
  range id := by simp
  disjoint id h := by simp at h

/-- The ID given to a new client was not in use. -/
theorem WF.add_fresh (hp : p.WF) (conn : ConnId) : p.getConn (p.add conn).1 = none := by
  rw [← not_mem_connections]
  simp only [add]
  cases h : p.idleNodeID.toList.head? with
  | none => exact fun hmem => by have := (hp.range _).1 (.inr hmem); simp at this
  | some id => exact hp.disjoint id (Std.TreeSet.mem_toList.1 (List.mem_of_mem_head? h))

theorem WF.add (hp : p.WF) (conn : ConnId) : (p.add conn).2.WF := by
  simp only [LkpClientPool.add]
  cases h : p.idleNodeID.toList.head? with
  | none =>
    have hempty : ∀ id, id ∉ p.idleNodeID := by
      intro id hid
      rw [List.head?_eq_none_iff] at h
      simpa [h] using Std.TreeSet.mem_toList.2 hid
    have hcount := hp.count
    refine ⟨show 0 ≤ p.nodeCount + 1 by omega, ?_, fun id hid => absurd hid (hempty id)⟩
    intro id
    have := hp.range id
    simp only [hempty, false_or, Std.TreeMap.mem_insert, Std.compare_eq_iff_eq] at this ⊢
    rw [this]; omega
  | some nodeID =>
    have hidle := Std.TreeSet.mem_toList.1 (List.mem_of_mem_head? h)
    refine ⟨hp.count, ?_, ?_⟩
    · intro id
      have := hp.range id
      simp only [Std.TreeSet.mem_erase, Std.TreeMap.mem_insert, Std.compare_eq_iff_eq, ne_eq] at this ⊢
      rw [← this]
      by_cases he : nodeID = id
      · subst he; simp [hidle]
      · simp [he]
    · intro id hid
      simp only [Std.TreeSet.mem_erase, Std.TreeMap.mem_insert, Std.compare_eq_iff_eq, ne_eq] at hid ⊢
      rintro (rfl | hmem)
      · exact hid.1 rfl
      · exact hp.disjoint id hid.2 hmem

theorem WF.del (hp : p.WF) (nodeID : ℤ) : (p.del nodeID).2.WF := by
  simp only [LkpClientPool.del]
  split_ifs with hmem
  · refine ⟨hp.count, ?_, ?_⟩
    · intro id
      have := hp.range id
      simp only [Std.TreeSet.mem_insert, Std.TreeMap.mem_erase, Std.compare_eq_iff_eq, ne_eq] at this ⊢
      rw [← this]
      by_cases he : nodeID = id
      · subst he; simp [hmem]
      · simp [he]
    · intro id hid
      simp only [Std.TreeSet.mem_insert, Std.TreeMap.mem_erase, Std.compare_eq_iff_eq, ne_eq] at hid ⊢
      rintro ⟨hne, hc⟩
      exact hp.disjoint id (hid.resolve_left hne) hc
  · exact hp

end LkpClientPool

end LkpExtent
