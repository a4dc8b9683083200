/-
  Variable-length integers: base 128 digits, the lowest first, every byte but the
  last with its high bit set.

  * `varint n` is the shortest encoding of `n`, `readVarint k` reads an encoding of
    at most `k` bytes, the shortest one or not;
  * `readVarint_varint`: what was written is read back, and what lies behind it is
    left;
  * `length_varint_le_iff`: how long the encoding is;
  * `readVarint_length`: a read stays within its bytes and takes one at least.
-/
import LkpExtent.Lib.CMem

namespace Lib

/-- The shortest encoding of `n`. -/
def varint (n : ℕ) : Bytes :=
  if n < 128 then [n.toUInt8] else (n % 128 + 128).toUInt8 :: varint (n / 128)

/-- The number encoded at the front in at most `k` bytes, and the bytes behind it. -/
def readVarint : ℕ → Bytes → Option (ℕ × Bytes)
  | 0, _ | _ + 1, [] => none
  | k + 1, b :: bs =>
    if b.toNat < 128 then some (b.toNat, bs)
    else (readVarint k bs).map fun p => (b.toNat - 128 + 128 * p.1, p.2)

theorem toNat_byte {n : ℕ} (h : n < 256) : n.toUInt8.toNat = n := by
  simp [Nat.mod_eq_of_lt h]

theorem varint_of_lt {n : ℕ} (h : n < 128) : varint n = [n.toUInt8] := by
  rw [varint, if_pos h]

theorem varint_of_le {n : ℕ} (h : 128 ≤ n) :
    varint n = (n % 128 + 128).toUInt8 :: varint (n / 128) := by
  rw [varint, if_neg (by omega)]

theorem varint_ne_nil (n : ℕ) : varint n ≠ [] := by
  rcases lt_or_ge n 128 with h | h
  · simp [varint_of_lt h]
  · simp [varint_of_le h]

theorem length_varint_pos (n : ℕ) : 0 < (varint n).length :=
  List.length_pos_iff.2 (varint_ne_nil n)

/-- **The length of an encoding**: `k + 1` bytes hold the numbers below `128 ^ (k + 1)`. -/
theorem length_varint_le_iff (k n : ℕ) : (varint n).length ≤ k + 1 ↔ n < 128 ^ (k + 1) := by
  induction k generalizing n with
  | zero =>
    rcases lt_or_ge n 128 with h | h
    · simpa [varint_of_lt h] using h
    · have := length_varint_pos (n / 128)
      simp only [varint_of_le h, List.length_cons]
      omega
  | succ k ih =>
    rcases lt_or_ge n 128 with h | h
    · have hk : 1 ≤ 128 ^ (k + 1) := Nat.one_le_pow _ _ (by decide)
      simp only [varint_of_lt h, List.length_singleton, pow_succ _ (k + 1)]
      omega
    · have hdiv : n / 128 < 128 ^ (k + 1) ↔ n < 128 ^ (k + 1) * 128 :=
        Nat.div_lt_iff_lt_mul (by decide)
      rw [varint_of_le h, List.length_cons, Nat.add_le_add_iff_right, ih, hdiv, ← pow_succ]

/-- **What was written is read back.** -/
theorem readVarint_varint {k n : ℕ} (h : (varint n).length ≤ k) (ys : Bytes) :
    readVarint k (varint n ++ ys) = some (n, ys) := by
  induction k generalizing n with
  | zero => exact absurd (length_varint_pos n) (by omega)
  | succ k ih =>
    rcases lt_or_ge n 128 with hn | hn
    · rw [varint_of_lt hn, List.singleton_append, readVarint, toNat_byte (by omega), if_pos hn]
    · rw [varint_of_le hn, List.length_cons] at h
      rw [varint_of_le hn, List.cons_append, readVarint, toNat_byte (by omega), if_neg (by omega),
        ih (by omega)]
      simp only [Option.map_some, Option.some.injEq, Prod.mk.injEq, and_true]
      omega

/-- A read takes one byte at least. -/
theorem readVarint_length {k n : ℕ} {bs rest : Bytes} (h : readVarint k bs = some (n, rest)) :
    rest.length < bs.length := by
  induction k generalizing n bs rest with
  | zero => exact absurd h nofun
  | succ k ih =>
    cases bs with
    | nil => exact absurd h nofun
    | cons b bs =>
      rw [readVarint] at h
      split_ifs at h with hb
      · cases h
        simp
      · obtain ⟨⟨m, r⟩, hr, he⟩ := Option.map_eq_some_iff.1 h
        cases he
        have := ih hr
        simp only [List.length_cons]
        omega

/-- A single byte is read as such. -/
theorem readVarint_byte {k : ℕ} {b : UInt8} (h : b.toNat < 128) (bs : Bytes) :
    readVarint (k + 1) (b :: bs) = some (b.toNat, bs) := by
  rw [readVarint, if_pos h]

end Lib
