/-
  What becomes of a sequence that is collected in parts, handed over in batches and
  written out one part at a time, where a batch may be cut short.

  * `Cut`: the elements of one batch, those kept and those lost;
  * `Handover`: the elements accepted so far and where each of them is, with the two
    equations that hold in every handover as fields;
  * `Handover.put`, `Handover.enqueue`, `Handover.handOver`, `Handover.cut`, `Handover.write`:
    what can happen;
  * `Handover.outstanding_eq`: what is written and what is still held is what was accepted,
    without the parts lost;  `Handover.outstanding_sublist`: none of it twice or out of order.
-/
import Mathlib.Data.List.Basic

namespace Lib

universe u

/-- The elements of a batch: those kept, then those lost. -/
structure Cut (α : Type u) where
  kept : List α
  lost : List α := []

namespace Cut
variable {α : Type u}

def whole (c : Cut α) : List α := c.kept ++ c.lost

/-- The first `k` parts of a batch are kept. -/
def of (k : ℕ) (parts : List (List α)) : Cut α where
  kept := (parts.take k).flatten
  lost := (parts.drop k).flatten

/-- A cut of lists, as a cut of their elements. -/
def flatten (c : Cut (List α)) : Cut α where
  kept := c.kept.flatten
  lost := c.lost.flatten

@[simp] theorem whole_of (k : ℕ) (parts : List (List α)) : (of k parts).whole = parts.flatten := by
  rw [whole, of, ← List.flatten_append, List.take_append_drop]

end Cut

/-- Where the elements accepted so far are.  A part is filled (`current`), queued, and
    handed over in a batch, which is cut and then written part by part. -/
structure Handover (α : Type u) where
  accepted : List α := []
  current : List α := []
  queue : List (List α) := []
  fresh : List (List α) := []
  cuts : List (Cut α) := []
  batch : List (List α) := []
  written : List α := []
  accepted_eq : accepted = cuts.flatMap Cut.whole ++ (fresh ++ queue).flatten ++ current := by rfl
  kept_eq : written ++ batch.flatten = cuts.flatMap Cut.kept := by rfl

namespace Handover
variable {α : Type u} (l : Handover α)

/-- Elements enter the part being filled. -/
def put (xs : List α) : Handover α :=
  { l with
    accepted := l.accepted ++ xs
    current := l.current ++ xs
    accepted_eq := by rw [l.accepted_eq, List.append_assoc] }

/-- The part being filled is queued, and another one is started. -/
def enqueue : Handover α :=
  { l with
    queue := l.queue ++ [l.current]
    current := []
    accepted_eq := by simp [l.accepted_eq] }

/-- The queue and the part being filled are handed over. -/
def handOver (h : l.fresh = []) : Handover α :=
  { l with
    fresh := l.queue ++ [l.current]
    queue := []
    current := []
    accepted_eq := by simp [l.accepted_eq, h] }

/-- The first `k` parts of the batch handed over are kept. -/
def cut (k : ℕ) : Handover α :=
  { l with
    fresh := []
    cuts := l.cuts ++ [.of k l.fresh]
    batch := l.batch ++ l.fresh.take k
    accepted_eq := by simp [l.accepted_eq]
    kept_eq := by rw [List.flatten_append, ← List.append_assoc, l.kept_eq]; simp [Cut.of] }

/-- The first part of the batch is written. -/
def write {part : List α} {parts : List (List α)} (h : l.batch = part :: parts) : Handover α :=
  { l with
    batch := parts
    written := l.written ++ part
    kept_eq := by rw [← l.kept_eq, h]; simp }

/-- The elements that are held before their batch is cut. -/
def pending : List α := (l.fresh ++ l.queue).flatten ++ l.current

/-- Everything that is not lost. -/
def outstanding : List α := l.written ++ (l.batch ++ l.fresh ++ l.queue).flatten ++ l.current

theorem accepted_eq_pending : l.accepted = l.cuts.flatMap Cut.whole ++ l.pending := by
  rw [l.accepted_eq, pending, List.append_assoc]

/-- **Nothing goes missing.**  What was accepted, without the parts lost, is written or held. -/
theorem outstanding_eq : l.outstanding = l.cuts.flatMap Cut.kept ++ l.pending := by
  simp only [outstanding, pending, ← l.kept_eq, List.flatten_append, List.append_assoc]

/-- **Nothing is doubled or moved.** -/
theorem outstanding_sublist : List.Sublist l.outstanding l.accepted := by
  rw [outstanding_eq, accepted_eq_pending]
  refine List.Sublist.append ?_ (List.Sublist.refl _)
  induction l.cuts with
  | nil => exact List.Sublist.refl _
  | cons c cuts ih => exact (List.sublist_append_left c.kept c.lost).append ih

end Handover

end Lib
