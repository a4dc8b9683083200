/-
  LkpExtent formalization — the node IDs that the pool gives out.

  * `afterCalls`: the pool after a sequence of calls of `add` and `del`, whose
    arguments are arbitrary;
  * `Counted`: every ID given out is in use or idle, so `nodeCount` counts both;
  * `nodeCount_peak`: `nodeCount` is the largest number of clients that were in the
    pool at the same time;
  * `nodeIDs_exact`: the IDs in use and the idle ones in every state, and what the
    next call does.
-/
import LkpExtent.Pool
import Mathlib.Data.List.Infix
import Mathlib.Data.List.Perm.Subperm
import Mathlib.Order.Bounds.Basic

namespace LkpExtent

open Lib

/-- A call that changes who is in the pool. -/
inductive PoolCall where
  | add (conn : ConnId)
  | del (nodeID : ℤ)
  deriving DecidableEq

namespace LkpClientPool
variable (p : LkpClientPool)

/-- The pool after a call. -/
def call : PoolCall → LkpClientPool
  | .add conn => (p.add conn).2
  | .del nodeID => (p.del nodeID).2

/-- The pool after some calls of a new one. -/
def afterCalls (calls : List PoolCall) : LkpClientPool := calls.foldl call {}

/-- The node IDs in use. -/
def used : Set ℤ := {id | id ∈ p.connections}

/-- The node IDs that were given back. -/
def idle : Set ℤ := {id | id ∈ p.idleNodeID}

variable {p} {calls : List PoolCall}

@[simp] theorem afterCalls_snoc (calls : List PoolCall) (c : PoolCall) :
    afterCalls (calls ++ [c]) = (afterCalls calls).call c := List.foldl_concat ..

theorem WF.call (hp : p.WF) (c : PoolCall) : (p.call c).WF := by
  cases c with
  | add conn => exact hp.add conn
  | del nodeID => exact hp.del nodeID

theorem wf_afterCalls (calls : List PoolCall) : (afterCalls calls).WF := by
  induction calls using List.reverseRecOn with
  | nil => exact WF.empty
  | append_singleton calls c ih => rw [afterCalls_snoc]; exact ih.call c

/-! ## The next ID -/

theorem idle_eq_empty (h : p.idleNodeID.toList.head? = none) (id : ℤ) : id ∉ p.idleNodeID := by
  intro hid
  rw [List.head?_eq_none_iff] at h
  simpa [h] using Std.TreeSet.mem_toList.2 hid

/-- The first idle ID is the least one. -/
theorem head_idle {nodeID : ℤ} (h : p.idleNodeID.toList.head? = some nodeID) :
    nodeID ∈ p.idleNodeID ∧ ∀ id ∈ p.idleNodeID, nodeID ≤ id := by
  refine ⟨Std.TreeSet.mem_toList.1 (List.mem_of_mem_head? h), ?_⟩
  intro id hid
  have hsorted : p.idleNodeID.toList.Pairwise fun a b => compare a b = .lt := Std.TreeSet.ordered_toList
  obtain ⟨ids, hids⟩ := List.head?_eq_some_iff.1 h
  rw [hids, List.pairwise_cons] at hsorted
  rcases List.mem_cons.1 (hids ▸ Std.TreeSet.mem_toList.2 hid) with rfl | hmem
  · exact le_rfl
  · exact (compare_lt_iff_lt.1 (hsorted.1 id hmem)).le

/-- **A new client gets the least ID that is not in use.** -/
theorem WF.add_isLeast (hp : p.WF) (conn : ConnId) : IsLeast {id | 0 ≤ id ∧ id ∉ p.used} (p.add conn).1 := by
  have hfresh : (p.add conn).1 ∉ p.used := p.not_mem_connections.2 (hp.add_fresh conn)
  simp only [LkpClientPool.add] at hfresh ⊢
  cases h : p.idleNodeID.toList.head? with
  | none =>
    rw [h] at hfresh
    refine ⟨⟨hp.count, hfresh⟩, ?_⟩
    rintro id ⟨hid, hfree⟩
    by_contra hlt
    rcases (hp.range id).2 ⟨hid, not_le.1 hlt⟩ with hidle | hused
    · exact idle_eq_empty h id hidle
    · exact hfree hused
  | some nodeID =>
    rw [h] at hfresh
    obtain ⟨hidle, hmin⟩ := head_idle h
    obtain ⟨hpos, hlt⟩ := (hp.range nodeID).1 (.inl hidle)
    refine ⟨⟨hpos, hfresh⟩, ?_⟩
    rintro id ⟨hid, hfree⟩
    rcases lt_or_ge id p.nodeCount with hid' | hid'
    · exact hmin id (((hp.range id).2 ⟨hid, hid'⟩).resolve_right hfree)
    · exact hlt.le.trans hid'

/-- An ID can be given back iff it is in use. -/
theorem del_fst (nodeID : ℤ) : (p.del nodeID).1 = true ↔ nodeID ∈ p.used := by
  simp only [del]
  split_ifs with h
  · exact iff_of_true rfl h
  · exact iff_of_false not_false h

theorem del_of_not_used {nodeID : ℤ} (h : nodeID ∉ p.used) : (p.del nodeID).2 = p := by
  simp only [del]
  rw [if_neg (show nodeID ∉ p.connections from h)]

/-! ## How many IDs there are -/

/-- The IDs given out so far are as many as those in use and the idle ones. -/
def Counted (p : LkpClientPool) : Prop := p.nodeCount = p.size + p.idleNodeID.size

theorem size_connections_insert {m : Std.TreeMap ℤ ConnId} {id : ℤ} (h : id ∉ m) (conn : ConnId) :
    (m.insert id conn).size = m.size + 1 := by
  rw [Std.TreeMap.size_insert, if_neg (mt Std.TreeMap.mem_iff_contains.2 h)]

theorem Counted.add (h : p.Counted) (hp : p.WF) (conn : ConnId) : (p.add conn).2.Counted := by
  have hfresh := p.not_mem_connections.2 (hp.add_fresh conn)
  simp only [Counted, LkpClientPool.add, size] at h hfresh ⊢
  cases hi : p.idleNodeID.toList.head? with
  | none =>
    simp only [hi] at hfresh ⊢
    rw [size_connections_insert hfresh, h]
    push_cast; ring
  | some nodeID =>
    simp only [hi] at hfresh ⊢
    have hmem := (head_idle hi).1
    have hpos : p.idleNodeID.size ≠ 0 := by
      intro hz
      rw [← Std.TreeSet.length_toList, List.length_eq_zero_iff] at hz
      rw [hz] at hi
      cases hi
    rw [size_connections_insert hfresh, Std.TreeSet.size_erase, if_pos (Std.TreeSet.mem_iff_contains.1 hmem), h]
    omega

theorem Counted.del (h : p.Counted) (hp : p.WF) (nodeID : ℤ) : (p.del nodeID).2.Counted := by
  simp only [Counted, LkpClientPool.del, size] at h ⊢
  split_ifs with hmem
  · have hidle : nodeID ∉ p.idleNodeID := fun hid => hp.disjoint nodeID hid hmem
    have hpos : p.connections.size ≠ 0 := by
      intro hz
      obtain ⟨conn, hconn⟩ := p.mem_connections.1 hmem
      have hlist := p.mem_toList.2 hconn
      rw [← Std.TreeMap.length_toList, List.length_eq_zero_iff] at hz
      rw [hz] at hlist
      cases hlist
    simp only
    rw [Std.TreeMap.size_erase, if_pos (Std.TreeMap.mem_iff_contains.1 hmem), Std.TreeSet.size_insert,
      if_neg (mt Std.TreeSet.mem_iff_contains.2 hidle), h]
    omega
  · exact h

theorem Counted.call (h : p.Counted) (hp : p.WF) (c : PoolCall) : (p.call c).Counted := by
  cases c with
  | add conn => exact h.add hp conn
  | del nodeID => exact h.del hp nodeID

theorem counted_afterCalls (calls : List PoolCall) : (afterCalls calls).Counted := by
  induction calls using List.reverseRecOn with
  | nil => rfl
  | append_singleton calls c ih => rw [afterCalls_snoc]; exact ih.call (wf_afterCalls calls) c

/-- There are at least as many IDs as clients. -/
theorem WF.size_le (hp : p.WF) : (p.size : ℤ) ≤ p.nodeCount := by
  have hnodup : p.connections.keys.Nodup := by
    rw [List.nodup_iff_pairwise_ne]
    exact Std.TreeMap.distinct_keys.imp fun h => by simpa using h
  have hsub : p.connections.keys ⊆ (List.range p.nodeCount.toNat).map Int.ofNat := by
    intro id hid
    obtain ⟨h₀, h⟩ := (hp.range id).1 (.inr (Std.TreeMap.mem_keys.1 hid))
    exact List.mem_map.2 ⟨id.toNat, List.mem_range.2 (by omega), Int.toNat_of_nonneg h₀⟩
  have hle := (hnodup.subperm hsub).length_le
  rw [Std.TreeMap.length_keys, List.length_map, List.length_range] at hle
  have := hp.count
  simp only [size]
  omega

/-- A call leaves `nodeCount` as it was, or no ID is idle after it. -/
theorem nodeCount_call (c : PoolCall) : (p.call c).nodeCount = p.nodeCount ∨
    p.nodeCount ≤ (p.call c).nodeCount ∧ (p.call c).idleNodeID.size = 0 := by
  cases c with
  | add conn =>
    simp only [call, add]
    cases h : p.idleNodeID.toList.head? with
    | none =>
      rw [List.head?_eq_none_iff, ← List.length_eq_zero_iff, Std.TreeSet.length_toList] at h
      exact .inr ⟨by simp, h⟩
    | some nodeID => exact .inl rfl
  | del nodeID =>
    simp only [call, del]
    split_ifs <;> exact .inl rfl

/-- **`nodeCount` is the largest number of clients that were in the pool together.** -/
theorem nodeCount_peak (calls : List PoolCall) :
    IsGreatest {n : ℤ | ∃ earlier, earlier <+: calls ∧ n = (afterCalls earlier).size}
      (afterCalls calls).nodeCount := by
  induction calls using List.reverseRecOn with
  | nil =>
    refine ⟨⟨[], List.prefix_rfl, rfl⟩, ?_⟩
    rintro n ⟨earlier, hpre, rfl⟩
    rw [List.prefix_nil.1 hpre]
    exact le_rfl
  | append_singleton calls c ih =>
    have hcounted := counted_afterCalls (calls ++ [c])
    have hmono : (afterCalls calls).nodeCount ≤ (afterCalls (calls ++ [c])).nodeCount := by
      rw [afterCalls_snoc]
      rcases nodeCount_call (p := afterCalls calls) c with h | h
      · exact h.ge
      · exact h.1
    constructor
    · rcases nodeCount_call (p := afterCalls calls) c with h | ⟨-, h⟩
      · obtain ⟨earlier, hpre, hn⟩ := ih.1
        rw [← afterCalls_snoc] at h
        exact ⟨earlier, hpre.trans (List.prefix_append _ _), h.trans hn⟩
      · rw [← afterCalls_snoc] at h
        refine ⟨calls ++ [c], List.prefix_rfl, ?_⟩
        rw [hcounted, h]; simp
    · rintro n ⟨earlier, hpre, rfl⟩
      rcases List.prefix_concat_iff.1 hpre with rfl | hpre
      · rw [hcounted]; simp
      · exact (ih.2 ⟨earlier, hpre, rfl⟩).trans hmono

/-- With fewer than `2 ^ 31` clients at the same time `nodeCount` fits its `int`. -/
theorem isInt32_nodeCount (h : ∀ earlier, earlier <+: calls → (afterCalls earlier).size < 2 ^ 31) :
    IsInt32 (afterCalls calls).nodeCount := by
  obtain ⟨earlier, hpre, hn⟩ := (nodeCount_peak calls).1
  have := h earlier hpre
  exact ⟨by omega, by omega⟩

/-- **The pool after any calls**: the IDs given out are those in use and the idle ones,
    a new client gets the least ID not in use, only an ID in use can be given back, and
    `nodeCount` is the largest number of clients at the same time, which fits the `int` if
    there are fewer than `2 ^ 31`. -/
theorem nodeIDs_exact (calls : List PoolCall) :
    let p := afterCalls calls
    p.used ∩ p.idle = ∅ ∧ p.used ∪ p.idle = {id | 0 ≤ id ∧ id < p.nodeCount} ∧
    (∀ conn, IsLeast {id | 0 ≤ id ∧ id ∉ p.used} (p.add conn).1 ∧
      (p.add conn).2.getConn = Function.update p.getConn (p.add conn).1 (some conn)) ∧
    (∀ nodeID, ((p.del nodeID).1 = true ↔ nodeID ∈ p.used) ∧
      (p.del nodeID).2.getConn = Function.update p.getConn nodeID none ∧
      (nodeID ∉ p.used → (p.del nodeID).2 = p)) ∧
    IsGreatest {n : ℤ | ∃ earlier, earlier <+: calls ∧ n = (afterCalls earlier).size} p.nodeCount ∧
    ((∀ earlier, earlier <+: calls → (afterCalls earlier).size < 2 ^ 31) → IsInt32 p.nodeCount) := by
  intro p
  have hp : p.WF := wf_afterCalls calls
  refine ⟨?_, ?_, fun conn => ⟨hp.add_isLeast conn, p.add_getConn conn⟩,
    fun nodeID => ⟨del_fst nodeID, p.del_getConn nodeID, del_of_not_used⟩, nodeCount_peak calls, isInt32_nodeCount⟩
  · ext id
    exact iff_of_false (fun hid => hp.disjoint id hid.2 hid.1) not_false
  · ext id
    exact or_comm.trans (hp.range id)

/-- Three clients, of which the first two leave: the next ID is 0. -/
example : ((afterCalls [.add 7, .add 8, .add 9, .del 1, .del 0, .del 1]).add 10).1 = 0 := by decide +kernel

end LkpClientPool

end LkpExtent
