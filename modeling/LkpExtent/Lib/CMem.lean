/-
  The integers and the byte memory of C++ as a program with 32-bit `int` sees them.

  * `toInt32`: conversion of an integer to `int32_t`;  `cint`: the value of a signed
    `int` expression, undefined when it overflows;
  * `be32`, `ofBE`: a 32-bit integer in network byte order;
  * `slice`: a read of a piece of memory, undefined outside of it;
  * `cString`: the bytes before the first NUL;  `cBytes`: the bytes found from a
    `c_str()` on, the ones beyond its NUL being whatever lies there.
-/
import Mathlib.Data.List.Basic
import Mathlib.Tactic.Ring
import Mathlib.Tactic.NormNum

namespace Lib

abbrev Bytes := List UInt8

/-! ## Values that may be undefined -/

theorem bind_of_some {α β : Type} {x : Option α} {a : α} {f : α → Option β} (h : x = some a) :
    (x >>= f) = f a := by
  rw [h]; rfl

theorem isSome_bind {α β : Type} {x : Option α} {f : α → Option β} {a : α} (hx : x = some a)
    (hf : (f a).isSome) : (x >>= f).isSome := by
  rw [hx]; exact hf

/-! ## Integers -/

/-- Conversion to a signed 32-bit integer, modulo `2 ^ 32`. -/
def toInt32 (x : ℤ) : ℤ := if x % 2 ^ 32 < 2 ^ 31 then x % 2 ^ 32 else x % 2 ^ 32 - 2 ^ 32

/-- The range of `int`. -/
def IsInt32 (x : ℤ) : Prop := -2 ^ 31 ≤ x ∧ x < 2 ^ 31

instance (x : ℤ) : Decidable (IsInt32 x) := inferInstanceAs (Decidable (_ ∧ _))

/-- The value of a signed `int` expression: overflow is undefined. -/
def cint (x : ℤ) : Option ℤ := if IsInt32 x then some x else none

/-- The `int` that a `uint32_t` converts to. -/
def intOfU32 (u : UInt32) : ℤ := toInt32 u.toNat

/-- The `uint32_t` that an integer converts to. -/
def u32 (x : ℤ) : UInt32 := UInt32.ofNat (x % 2 ^ 32).toNat

theorem toInt32_isInt32 (x : ℤ) : IsInt32 (toInt32 x) := by
  unfold IsInt32 toInt32; split_ifs <;> omega

theorem toInt32_of_isInt32 {x : ℤ} (h : IsInt32 x) : toInt32 x = x := by
  unfold IsInt32 at h; unfold toInt32; split_ifs <;> omega

@[simp] theorem toInt32_toInt32 (x : ℤ) : toInt32 (toInt32 x) = toInt32 x :=
  toInt32_of_isInt32 (toInt32_isInt32 x)

theorem toInt32_emod (x : ℤ) : toInt32 (x % 2 ^ 32) = toInt32 x := by
  simp [toInt32]

/-- Conversion forgets nothing but multiples of `2 ^ 32`. -/
theorem emod_toInt32 (x : ℤ) : toInt32 x % 2 ^ 32 = x % 2 ^ 32 := by
  unfold toInt32; split_ifs <;> omega

theorem toInt32_eq_iff {m n : ℕ} : toInt32 m = toInt32 n ↔ m % 2 ^ 32 = n % 2 ^ 32 := by
  have hcast : (m : ℤ) % 2 ^ 32 = n % 2 ^ 32 ↔ m % 2 ^ 32 = n % 2 ^ 32 := by omega
  rw [← hcast]
  constructor
  · intro h
    rw [← emod_toInt32 m, h, emod_toInt32]
  · intro h
    rw [← toInt32_emod m, h, toInt32_emod]

theorem toInt32_inj {m n : ℕ} (hm : m < 2 ^ 32) (hn : n < 2 ^ 32) (h : toInt32 m = toInt32 n) :
    m = n := by
  rw [toInt32_eq_iff] at h
  omega

theorem cint_of_isInt32 {x : ℤ} (h : IsInt32 x) : cint x = some x := if_pos h

theorem toNat_u32 (x : ℤ) : ((u32 x).toNat : ℤ) = x % 2 ^ 32 := by
  have h : (x % 2 ^ 32).toNat < 2 ^ 32 := by omega
  rw [u32, UInt32.toNat_ofNat_of_lt' h]; omega

/-- A value sent as `uint32_t` and read back as `int`. -/
theorem intOfU32_u32 (x : ℤ) : intOfU32 (u32 x) = toInt32 x := by
  rw [intOfU32, toNat_u32, toInt32_emod]

theorem u32_intOfU32 (u : UInt32) : u32 (intOfU32 u) = u := by
  have hu : u.toNat < 2 ^ 32 := u.toNat_lt
  apply UInt32.toNat_inj.1
  have := toNat_u32 (intOfU32 u)
  simp only [intOfU32, toInt32] at *
  split_ifs at * <;> omega

theorem toNat_u32_of_lt {n : ℕ} (h : n < 2 ^ 32) : (u32 n).toNat = n := by
  have := toNat_u32 n
  omega

theorem intOfU32_zero : intOfU32 0 = 0 := by decide

-- the lemmas above say what is needed of them; unfolding them would compute with `2 ^ 32`
attribute [irreducible] toInt32 u32

/-! ## Network byte order -/

/-- The four bytes of a 32-bit integer, most significant first. -/
def be32 (x : ℤ) : Bytes :=
  let n := (x % 2 ^ 32).toNat
  [UInt8.ofNat (n / 2 ^ 24), UInt8.ofNat (n / 2 ^ 16), UInt8.ofNat (n / 2 ^ 8), UInt8.ofNat n]

/-- The number that bytes stand for, most significant first. -/
def ofBE (bs : Bytes) : ℕ := bs.foldl (fun a b => a * 2 ^ 8 + b.toNat) 0

@[simp] theorem length_be32 (x : ℤ) : (be32 x).length = 4 := rfl

theorem ofBE_be32 (x : ℤ) : (ofBE (be32 x) : ℤ) = x % 2 ^ 32 := by
  have hlt : (x % 2 ^ 32).toNat < 2 ^ 32 := by omega
  simp only [be32, ofBE, List.foldl_cons, List.foldl_nil, UInt8.toNat_ofNat']
  omega

theorem foldl_ofBE_inj {xs ys : Bytes} (hlen : xs.length = ys.length) {a a' : ℕ}
    (h : xs.foldl (fun a b => a * 2 ^ 8 + b.toNat) a = ys.foldl (fun a b => a * 2 ^ 8 + b.toNat) a') :
    a = a' ∧ xs = ys := by
  induction xs generalizing ys a a' with
  | nil =>
    obtain rfl := List.length_eq_zero_iff.1 hlen.symm
    exact ⟨h, rfl⟩
  | cons x xs ih =>
    rcases ys with _ | ⟨y, ys⟩
    · simp at hlen
    simp only [List.foldl_cons] at h
    obtain ⟨hacc, rfl⟩ := ih (by simpa using hlen) h
    have hx : x.toNat < 256 := x.toNat_lt
    have hy : y.toNat < 256 := y.toNat_lt
    obtain rfl : x = y := UInt8.toNat_inj.1 (by omega)
    exact ⟨by omega, rfl⟩

/-- Bytes of one length stand for different numbers. -/
theorem ofBE_inj {xs ys : Bytes} (hlen : xs.length = ys.length) (h : ofBE xs = ofBE ys) : xs = ys :=
  (foldl_ofBE_inj hlen h).2

theorem ofBE_lt {bs : Bytes} (h : bs.length = 4) : ofBE bs < 2 ^ 32 := by
  obtain ⟨b₀, b₁, b₂, b₃, rfl⟩ := List.length_eq_four.1 h
  have h₀ : b₀.toNat < 256 := b₀.toNat_lt
  have h₁ : b₁.toNat < 256 := b₁.toNat_lt
  have h₂ : b₂.toNat < 256 := b₂.toNat_lt
  have h₃ : b₃.toNat < 256 := b₃.toNat_lt
  simp only [ofBE, List.foldl_cons, List.foldl_nil]
  omega

/-! ## Memory -/

/-- The `len` bytes of `mem` from `off` on; undefined where they are not all there. -/
def slice (mem : Bytes) (off len : ℤ) : Option Bytes :=
  if 0 ≤ off ∧ 0 ≤ len ∧ off + len ≤ mem.length then
    some ((mem.drop off.toNat).take len.toNat) else none

/-- The `int32_t` in network byte order at `off`. -/
def readInt32 (mem : Bytes) (off : ℤ) : Option ℤ := (slice mem off 4).map fun bs => toInt32 (ofBE bs)

theorem slice_isSome {mem : Bytes} {off len : ℤ} (h₀ : 0 ≤ off) (h₁ : 0 ≤ len)
    (h : off + len ≤ mem.length) : slice mem off len = some ((mem.drop off.toNat).take len.toNat) :=
  if_pos ⟨h₀, h₁, h⟩

theorem slice_defined {mem : Bytes} {off len : ℤ} (h₀ : 0 ≤ off) (h₁ : 0 ≤ len)
    (h : off + len ≤ mem.length) : ∃ bs, slice mem off len = some bs := ⟨_, slice_isSome h₀ h₁ h⟩

/-- The piece `b` of a memory is read at its place. -/
theorem slice_mid {mem a b c : Bytes} {off len : ℤ} (h : mem = a ++ b ++ c) (ho : off = a.length)
    (hl : len = b.length) : slice mem off len = some b := by
  subst h ho hl
  rw [slice_isSome (by omega) (by omega) (by simp)]
  simp

theorem readInt32_isSome {mem : Bytes} {off : ℤ} (h₀ : 0 ≤ off) (h : off + 4 ≤ mem.length) :
    ∃ x, readInt32 mem off = some x ∧ IsInt32 x :=
  ⟨_, by rw [readInt32, slice_isSome h₀ (by omega) h]; rfl, toInt32_isInt32 _⟩

/-- An integer written in network byte order is read back. -/
theorem readInt32_be32 {mem a c : Bytes} {off x : ℤ} (h : mem = a ++ be32 x ++ c)
    (ho : off = a.length) : readInt32 mem off = some (toInt32 x) := by
  rw [readInt32, slice_mid h ho (by simp), Option.map_some, ofBE_be32, toInt32_emod]

/-! ## C strings -/

/-- What a `const char*` stands for: the bytes before the first NUL. -/
def cString (mem : Bytes) : Bytes := mem.takeWhile (· ≠ 0)

/-- The first `n` bytes found from `content.c_str()` on: the string, its NUL, and
    then whatever `beyond` says lies in memory. -/
def cBytes (content : Bytes) (beyond : ℕ → UInt8) (n : ℕ) : Bytes :=
  (content ++ 0 :: (List.range n).map beyond).take n

@[simp] theorem length_cBytes (content : Bytes) (beyond : ℕ → UInt8) (n : ℕ) :
    (cBytes content beyond n).length = n := by
  simp [cBytes]; omega

/-- A string long enough is all that is read. -/
theorem cBytes_of_le {content : Bytes} {n : ℕ} (beyond : ℕ → UInt8) (h : n ≤ content.length) :
    cBytes content beyond n = content.take n := List.take_append_of_le_length h

theorem cString_append_of_not_mem {bs : Bytes} (h : 0 ∉ bs) (rest : Bytes) :
    cString (bs ++ rest) = bs ++ cString rest := by
  refine List.takeWhile_append_of_pos ?_
  intro b hb
  have : b ≠ 0 := by rintro rfl; exact h hb
  simpa using this

/-- The string ends before the first NUL. -/
theorem cString_nul {bs : Bytes} (h : 0 ∉ bs) (rest : Bytes) : cString (bs ++ 0 :: rest) = bs := by
  rw [cString_append_of_not_mem h]
  simp [cString]

/-- **When bytes survive as a C string.**  Bytes sent as the string that starts with
    them are read back, by their number, if there is no NUL among them before the
    last one: that one may be the NUL that ends the string. -/
theorem cBytes_cString {bs : Bytes} (h : 0 ∉ bs.dropLast) (rest : Bytes) (beyond : ℕ → UInt8) :
    cBytes (cString (bs ++ rest)) beyond bs.length = bs := by
  by_cases hmem : 0 ∈ bs
  · have hne : bs ≠ [] := List.ne_nil_of_mem hmem
    obtain ⟨bs, b, rfl⟩ := (List.eq_nil_or_concat bs).resolve_left hne
    rw [List.concat_eq_append, List.dropLast_concat] at h
    rw [List.concat_eq_append] at hmem ⊢
    obtain rfl : 0 = b := by
      rcases List.mem_append.1 hmem with hbs | hb
      · exact absurd hbs h
      · exact List.mem_singleton.1 hb
    rw [List.append_assoc, List.singleton_append, cString_nul h, cBytes]
    simp [List.take_append, List.take_of_length_le]
  · rw [cString_append_of_not_mem hmem, cBytes_of_le beyond (by simp), List.take_left]

/-- With a NUL before the last byte, what is read depends on the memory behind. -/
theorem exists_cBytes_ne {bs : Bytes} (h : 0 ∈ bs.dropLast) :
    ∃ b : UInt8, ∀ rest, cBytes (cString (bs ++ rest)) (fun _ => b) bs.length ≠ bs := by
  obtain ⟨as, cs, hcs, has⟩ := List.eq_append_cons_of_mem h
  have hne : bs ≠ [] := by rintro rfl; simp at h
  obtain ⟨x, ds, hds⟩ : ∃ x ds, cs ++ [bs.getLast hne] = x :: ds :=
    List.exists_cons_of_ne_nil (by simp)
  have hbs : bs = as ++ 0 :: x :: ds := by
    rw [← List.dropLast_append_getLast hne, hcs, List.append_assoc, List.cons_append, hds]
  refine ⟨x + 1, ?_⟩
  intro rest heq
  rw [hbs, List.append_assoc, List.cons_append, cString_nul has, cBytes] at heq
  have hx := congrArg (fun l => l[as.length + 1]?) heq
  have hlen : (as ++ 0 :: x :: ds).length = as.length + 2 + ds.length := by simp; omega
  simp [hlen, List.getElem?_take, List.getElem?_append_right] at hx

end Lib
