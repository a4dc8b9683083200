/-
  LkpExtent formalization — the configuration file of `lkpHelper.cc`.

  Strings are byte lists.  The positions are `int`s, converted from the `size_t` of
  `find` and `size` and back to the `size_t` that `substr` takes; `none` is an `int`
  overflow, or the exception of `substr` at a position behind the end.
-/
import LkpExtent.Lib.Assign
import LkpExtent.Lib.CMem
import Mathlib.Data.List.DropRight
import Mathlib.Data.List.GetD

namespace LkpExtent

open Lib

/-! ## Strings -/

/-- The bytes of an ASCII text. -/
def ascii (text : String) : Bytes := text.toList.map fun c => c.val.toUInt8

/-- `std::string::npos`, and what `find` gives for a character that is not there. -/
def npos : ℕ := 2 ^ 64 - 1

/-- `std::string::find`. -/
def find (str : Bytes) (c : UInt8) : ℕ := (str.findIdx? (· == c)).getD npos

/-- The `size_t` that an `int` converts to. -/
def toSize (x : ℤ) : ℕ := (x % 2 ^ 64).toNat

/-- `std::string::substr`, which throws behind the end. -/
def substr (str : Bytes) (pos len : ℕ) : Option Bytes :=
  if pos ≤ str.length then some ((str.drop pos).take len) else none

/-- The lines that `getline` reads: nothing behind a last newline. -/
def getlines (content : Bytes) : List Bytes :=
  let lines := content.splitOn 10
  if lines.getLast? = some [] then lines.dropLast else lines

/-- `COMMENT_CHAR`. -/
def COMMENT_CHAR : UInt8 := 35

/-- The character `=`. -/
def equalsSign : UInt8 := 61

/-- `IsSpace`: a space or a tab. -/
def IsSpace (c : UInt8) : Bool := c = 32 ∨ c = 9

/-- The `i` at which the loop of `Trim` from the front ends. -/
def firstNonSpace (str : Bytes) : ℕ := (str.takeWhile IsSpace).length

/-- The `i` at which the loop of `Trim` from the back ends, when it looks at the
    first `n` characters. -/
def lastNonSpace (str : Bytes) : ℕ → ℤ
  | 0 => -1
  | i + 1 => if IsSpace (str.getD i 0) then lastNonSpace str i else i

/-- `Trim`. -/
def Trim (str : Bytes) : Option Bytes :=
  if str.isEmpty then some str else do
    let start_pos ← cint (firstNonSpace str)
    if start_pos = str.length then some []
    else
      let i := toInt32 (str.length - 1)
      let end_pos := if i ≥ 0 then lastNonSpace str (i + 1).toNat else i
      let n ← cint (end_pos - start_pos)
      let n ← cint (n + 1)
      substr str (toSize start_pos) (toSize n)

/-! ## Lines -/

/-- `AnalyseLine` once `end_pos` is known: the key and the value, where it returns true. -/
def analyseUpTo (line : Bytes) (end_pos : ℤ) : Option (Option (Bytes × Bytes)) := do
  let start_pos : ℤ := 0
  -- the length that is passed is start_pos + 1 - end_pos
  let n ← cint (start_pos + 1 - end_pos)
  let new_line ← substr line (toSize start_pos) (toSize n)
  let pos := toInt32 (find new_line equalsSign)
  if pos = -1 then some none
  else
    let key ← substr new_line 0 (toSize pos)
    let behind ← cint (pos + 1)
    let n ← cint (end_pos + 1)
    let n ← cint (n - behind)
    let value ← substr new_line (toSize behind) (toSize n)
    let key ← Trim key
    if key.isEmpty then some none
    else
      let value ← Trim value
      some (some (key, value))

/-- `AnalyseLine`: the key and the value, where it returns true. -/
def AnalyseLine (line : Bytes) : Option (Option (Bytes × Bytes)) :=
  if line.isEmpty then some none
  else
    let end_pos := toInt32 (line.length - 1)
    let pos := toInt32 (find line COMMENT_CHAR)
    if pos ≠ -1 then
      if pos = 0 then some none else (cint (pos - 1)).bind fun end_pos => analyseUpTo line end_pos
    else analyseUpTo line end_pos

/-- The map that is filled. -/
abbrev ConfigMap := Bytes → Option Bytes

/-- The loop of `ReadConfig`. -/
def readLines (m : ConfigMap) : List Bytes → Option ConfigMap
  | [] => some m
  | line :: lines => do
    match ← AnalyseLine line with
    | some (key, value) => readLines (Function.update m key (some value)) lines
    | none => readLines m lines

/-- `ReadConfig` on the file found, if it could be opened. -/
def ReadConfig : Option Bytes → Option (Bool × ConfigMap)
  | none => some (false, fun _ => none)
  | some content => (readLines (fun _ => none) (getlines content)).map fun m => (true, m)

/-! ## find, substr and Trim -/

theorem toSize_of_nonneg {x : ℤ} (h₀ : 0 ≤ x) (h : x < 2 ^ 31) : toSize x = x.toNat := by
  unfold toSize; omega

/-- A negative length is a huge one. -/
theorem toSize_of_neg {x : ℤ} (h₀ : x < 0) (h : -2 ^ 31 ≤ x) : 2 ^ 63 ≤ toSize x := by
  unfold toSize; omega

theorem beq_eq_false_of_not_mem {str : Bytes} {c : UInt8} (h : c ∉ str) :
    ∀ x ∈ str, (x == c) = false := by
  intro x hx
  refine beq_eq_false_iff_ne.2 ?_
  rintro rfl
  exact h hx

theorem find_append {a b : Bytes} {c : UInt8} (h : c ∉ a) : find (a ++ c :: b) c = a.length := by
  have ha : a.findIdx? (· == c) = none := List.findIdx?_eq_none_iff.2 (beq_eq_false_of_not_mem h)
  simp [find, List.findIdx?_append, ha, List.findIdx?_cons]

theorem find_of_not_mem {str : Bytes} {c : UInt8} (h : c ∉ str) : find str c = npos := by
  have hstr : str.findIdx? (· == c) = none := List.findIdx?_eq_none_iff.2 (beq_eq_false_of_not_mem h)
  simp [find, hstr]

theorem toInt32_npos : toInt32 npos = -1 := by
  have hnpos : toInt32 (npos : ℤ) = toInt32 (-1) := by
    rw [← toInt32_emod npos, ← toInt32_emod (-1)]; rfl
  rw [hnpos, toInt32_of_isInt32 ⟨by omega, by omega⟩]

theorem substr_append {a b : Bytes} {pos len : ℕ} (hpos : pos = a.length) :
    substr (a ++ b) pos len = some (b.take len) := by
  subst hpos
  rw [substr, if_pos (by simp), List.drop_left]

/-- `str` without the spaces and tabs at both ends. -/
def strip (str : Bytes) : Bytes := (str.dropWhile IsSpace).rdropWhile IsSpace

theorem lastNonSpace_spaces (str : Bytes) (n : ℕ) (k : ℕ)
    (h : ∀ j, n ≤ j → j < n + k → IsSpace (str.getD j 0) = true) :
    lastNonSpace str (n + k) = lastNonSpace str n := by
  induction k with
  | zero => rfl
  | succ k ih =>
    rw [← Nat.add_assoc, lastNonSpace, if_pos (h (n + k) (by omega) (by omega))]
    exact ih fun j h₁ h₂ => h j h₁ (by omega)

/-- The loop from the back ends at the last character that is no space. -/
theorem lastNonSpace_append {s t : Bytes} {y : UInt8} (hy : IsSpace y = false)
    (ht : ∀ x ∈ t, IsSpace x = true) :
    lastNonSpace (s ++ y :: t) (s ++ y :: t).length = s.length := by
  have hlen : (s ++ y :: t).length = (s.length + 1) + t.length := by simp; omega
  rw [hlen, lastNonSpace_spaces, lastNonSpace, if_neg]
  · simp [hy]
  · intro j h₁ h₂
    refine ht _ ?_
    obtain ⟨k, rfl⟩ := Nat.exists_eq_add_of_le h₁
    have hk : k < t.length := by omega
    have hget : (s ++ y :: t).getD (s.length + 1 + k) 0 = t[k] := by
      rw [List.getD_append_right _ _ _ _ (by omega), Nat.add_assoc, Nat.add_sub_cancel_left,
        Nat.add_comm, List.getD_cons_succ, List.getD_eq_getElem _ _ hk]
    rw [hget]
    exact List.getElem_mem hk

/-- The characters of a string that is not all spaces. -/
theorem exists_strip {str : Bytes} (h : str.dropWhile IsSpace ≠ []) :
    ∃ s y t, str = str.takeWhile IsSpace ++ (s ++ y :: t) ∧ strip str = s ++ [y] ∧
      IsSpace y = false ∧ ∀ x ∈ t, IsSpace x = true := by
  have hne : strip str ≠ [] := by
    intro hnil
    have hall := List.rdropWhile_eq_nil_iff.1 hnil
    have hhead := List.head_dropWhile_not IsSpace h
    rw [hall _ (List.head_mem h)] at hhead
    cases hhead
  refine ⟨(strip str).dropLast, (strip str).getLast hne, (str.dropWhile IsSpace).rtakeWhile IsSpace,
    ?_, (List.dropLast_append_getLast hne).symm, ?_, fun x hx => List.mem_rtakeWhile_imp hx⟩
  · rw [List.append_cons, List.dropLast_append_getLast, strip, List.rdropWhile_append_rtakeWhile,
      List.takeWhile_append_dropWhile]
  · have hlast := List.rdropWhile_last_not IsSpace (str.dropWhile IsSpace) hne
    exact Bool.eq_false_iff.2 hlast

theorem strip_eq_nil {str : Bytes} : strip str = [] ↔ ∀ x ∈ str, IsSpace x = true := by
  rw [← List.dropWhile_eq_nil_iff]
  constructor
  · intro hnil
    by_contra hne
    obtain ⟨s, y, t, -, hstrip, -, -⟩ := exists_strip hne
    rw [hnil] at hstrip
    simp at hstrip
  · intro hnil
    rw [strip, hnil]; rfl

/-- **`Trim` strips both ends.** -/
theorem trim_eq {str : Bytes} (hlen : str.length < 2 ^ 31) : Trim str = some (strip str) := by
  rcases eq_or_ne str [] with rfl | hne
  · rfl
  have hpos : 0 < str.length := List.length_pos_iff.2 hne
  have hfirst : firstNonSpace str ≤ str.length := (List.takeWhile_prefix _).length_le
  have hstart : cint (firstNonSpace str) = some (firstNonSpace str : ℤ) :=
    cint_of_isInt32 ⟨by omega, by omega⟩
  rw [Trim, if_neg (by simpa using hne), bind_of_some hstart]
  by_cases hall : str.dropWhile IsSpace = []
  · have hspaces : firstNonSpace str = str.length := by
      have hsplit := congrArg List.length (List.takeWhile_append_dropWhile (p := IsSpace) (l := str))
      rw [hall, List.append_nil] at hsplit
      exact hsplit
    rw [if_pos (by omega), strip_eq_nil.2 (List.dropWhile_eq_nil_iff.1 hall)]
  obtain ⟨s, y, t, hstr, hstrip, hy, ht⟩ := exists_strip hall
  have ha : (str.takeWhile IsSpace).length = firstNonSpace str := rfl
  generalize str.takeWhile IsSpace = a at hstr ha
  rw [← ha, hstrip]
  have hsize : str.length = a.length + (s.length + 1 + t.length) := by
    rw [hstr]; simp; omega
  have hi : toInt32 ((str.length : ℤ) - 1) = str.length - 1 :=
    toInt32_of_isInt32 ⟨by omega, by omega⟩
  have hback : lastNonSpace str ((str.length : ℤ) - 1 + 1).toNat = a.length + s.length := by
    have hn : ((str.length : ℤ) - 1 + 1).toNat = str.length := by omega
    rw [hn, hstr, ← List.append_assoc, lastNonSpace_append hy ht, List.length_append]
    exact Nat.cast_add _ _
  have hsub : substr str (toSize a.length) (toSize (s.length + 1)) = some (s ++ [y]) := by
    rw [hstr, toSize_of_nonneg (by omega) (by omega), toSize_of_nonneg (by omega) (by omega),
      substr_append (by simp), List.append_cons, List.take_left' (by simp)]
  rw [if_neg (by omega)]
  simp only [hi, hback]
  rw [if_pos (by omega), add_sub_cancel_left]
  refine (bind_of_some (cint_of_isInt32 ⟨by omega, by omega⟩)).trans
    ((bind_of_some (cint_of_isInt32 ⟨by omega, by omega⟩)).trans ?_)
  exact hsub

end LkpExtent
