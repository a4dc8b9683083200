/-
  The Adler-32 checksum: two sums modulo 65521 over the bytes, the first starting
  at 1, the second adding up the first.

  * `adlerStep_left_injective`: one byte more takes different sums to different
    sums, so that a difference once made stays (`foldl_adlerStep_injective`);
  * `adler32_replace`, `adler32_swap`: one byte replaced, or two neighbours
    exchanged, change the checksum.
-/
import LkpExtent.Lib.CMem

namespace Lib

def adlerBase : ℕ := 65521

/-- One byte. -/
def adlerStep (s : ℕ × ℕ) (b : UInt8) : ℕ × ℕ :=
  let a := (s.1 + b.toNat) % adlerBase
  (a, (s.2 + a) % adlerBase)

/-- The checksum of `bs` from the initial value 1. -/
def adler32 (bs : Bytes) : ℕ :=
  let s := bs.foldl adlerStep (1, 0)
  s.2 * 2 ^ 16 + s.1

/-- Both sums are reduced. -/
def Reduced (s : ℕ × ℕ) : Prop := s.1 < adlerBase ∧ s.2 < adlerBase

theorem reduced_adlerStep (s : ℕ × ℕ) (b : UInt8) : Reduced (adlerStep s b) :=
  ⟨Nat.mod_lt _ (by decide), Nat.mod_lt _ (by decide)⟩

theorem reduced_foldl {s : ℕ × ℕ} (h : Reduced s) (bs : Bytes) : Reduced (bs.foldl adlerStep s) := by
  induction bs generalizing s with
  | nil => exact h
  | cons b bs ih => exact ih (reduced_adlerStep s b)

theorem reduced_init (bs : Bytes) : Reduced (bs.foldl adlerStep (1, 0)) :=
  reduced_foldl ⟨by decide, by decide⟩ bs

/-- The same byte takes different sums to different sums. -/
theorem adlerStep_left_injective {s t : ℕ × ℕ} {b : UInt8} (hs : Reduced s) (ht : Reduced t)
    (h : adlerStep s b = adlerStep t b) : s = t := by
  rcases s with ⟨a₁, b₁⟩
  rcases t with ⟨a₂, b₂⟩
  simp only [Reduced, adlerStep, adlerBase, Prod.mk.injEq] at hs ht h ⊢
  omega

/-- Different bytes take the same sums to different sums. -/
theorem adlerStep_right_injective {s : ℕ × ℕ} {b c : UInt8} (h : adlerStep s b = adlerStep s c) :
    b = c := by
  have hb : b.toNat < 256 := b.toNat_lt
  have hc : c.toNat < 256 := c.toNat_lt
  simp only [adlerStep, adlerBase, Prod.mk.injEq] at h
  exact UInt8.toNat_inj.1 (by omega)

/-- A byte and its neighbour, exchanged. -/
theorem adlerStep_swap {s : ℕ × ℕ} {b c : UInt8}
    (h : adlerStep (adlerStep s b) c = adlerStep (adlerStep s c) b) : b = c := by
  have hb : b.toNat < 256 := b.toNat_lt
  have hc : c.toNat < 256 := c.toNat_lt
  simp only [adlerStep, adlerBase, Prod.mk.injEq] at h
  exact UInt8.toNat_inj.1 (by omega)

/-- **A difference of the sums stays**, whatever bytes follow. -/
theorem foldl_adlerStep_injective {s t : ℕ × ℕ} (hs : Reduced s) (ht : Reduced t) (bs : Bytes)
    (h : bs.foldl adlerStep s = bs.foldl adlerStep t) : s = t := by
  induction bs generalizing s t with
  | nil => exact h
  | cons b bs ih =>
    have hstep := ih (reduced_adlerStep s b) (reduced_adlerStep t b) h
    exact adlerStep_left_injective hs ht hstep

/-- The checksum is made of the two sums. -/
theorem adler32_inj {bs cs : Bytes} (h : adler32 bs = adler32 cs) :
    bs.foldl adlerStep (1, 0) = cs.foldl adlerStep (1, 0) := by
  have hb := reduced_init bs
  have hc := reduced_init cs
  simp only [adler32, Reduced, adlerBase] at h hb hc
  ext <;> omega

theorem adler32_lt (bs : Bytes) : adler32 bs < 2 ^ 32 := by
  have hb := reduced_init bs
  simp only [adler32, Reduced, adlerBase] at hb ⊢
  omega

/-- Where the sums before the common suffix differ, the checksums differ. -/
theorem adler32_append_inj {xs ys zs : Bytes} (h : adler32 (xs ++ zs) = adler32 (ys ++ zs)) :
    xs.foldl adlerStep (1, 0) = ys.foldl adlerStep (1, 0) := by
  have hsums := adler32_inj h
  rw [List.foldl_append, List.foldl_append] at hsums
  exact foldl_adlerStep_injective (reduced_init xs) (reduced_init ys) zs hsums

/-- **One byte replaced by a different one changes the checksum.** -/
theorem adler32_replace {b c : UInt8} (hne : b ≠ c) (xs ys : Bytes) :
    adler32 (xs ++ b :: ys) ≠ adler32 (xs ++ c :: ys) := by
  rw [List.append_cons xs b, List.append_cons xs c]
  intro h
  have hsums := adler32_append_inj h
  rw [List.foldl_append, List.foldl_append] at hsums
  exact hne (adlerStep_right_injective hsums)

/-- **Two unequal neighbours exchanged change the checksum.** -/
theorem adler32_swap {b c : UInt8} (hne : b ≠ c) (xs ys : Bytes) :
    adler32 (xs ++ b :: c :: ys) ≠ adler32 (xs ++ c :: b :: ys) := by
  have hsplit : ∀ d e : UInt8, xs ++ d :: e :: ys = (xs ++ [d, e]) ++ ys := by simp
  rw [hsplit, hsplit]
  intro h
  have hsums := adler32_append_inj h
  rw [List.foldl_append, List.foldl_append] at hsums
  exact hne (adlerStep_swap hsums)

end Lib
