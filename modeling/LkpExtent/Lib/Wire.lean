/-
  The wire format of Protocol Buffers, as `CodedInputStream` and `WireFormatLite` read it
  from an array: fields with a tag (number and wire type) in front.

  Failing reads are `none`.  The bytes are those before the nearest limit, and how deep
  groups and messages may still nest is an argument.  The array is one that ends within the
  `total_bytes_limit_` of the stream: where a longer one ends, what is read depends on the
  function that finds the end.

  * `FlatStream`: such an array;
  * `ReadTag`, `ReadVarint32`, `ReadVarint64`, `ReadBytes`, `SkipField`, `SkipMessage`:
    what the library does;
  * `Field`: a field as a value, a group being a list of fields; `Field.payload` are its
    bytes behind the tag, `encodeFields` those of a list;
  * `SkipField_payload`: a well-formed field is skipped, and nothing behind it.
-/
import LkpExtent.Lib.Varint
import LkpExtent.Lib.Loop
import Mathlib.Data.List.Flatten

namespace Lib

/-! ## Reading -/

/-- The number of bytes that a stream reads at most. -/
def kDefaultTotalBytesLimit : ℕ := 64 * 2 ^ 20

/-- The array of a `CodedInputStream`, within the limit. -/
abbrev FlatStream := {buf : Bytes // buf.length ≤ kDefaultTotalBytesLimit}

def kMaxVarintBytes : ℕ := 10

/-- The bits above the 32nd are discarded. -/
def ReadVarint32 (buf : Bytes) : Option (ℕ × Bytes) :=
  (readVarint kMaxVarintBytes buf).map fun p => (p.1 % 2 ^ 32, p.2)

def ReadVarint64 (buf : Bytes) : Option (ℕ × Bytes) :=
  (readVarint kMaxVarintBytes buf).map fun p => (p.1 % 2 ^ 64, p.2)

/-- The tag is 0 where no tag can be read. -/
def ReadTag (buf : Bytes) : ℕ × Bytes := (ReadVarint32 buf).getD (0, buf)

/-- `Skip`, given a `uint32`: it is converted to `int`, and a negative count fails. -/
def Skip (count : ℕ) (buf : Bytes) : Option Bytes :=
  if count < 2 ^ 31 ∧ count ≤ buf.length then some (buf.drop count) else none

/-- `ReadString` and `ReadBytes`: a length, and so many bytes. -/
def ReadBytes (buf : Bytes) : Option (Bytes × Bytes) := do
  let (length, rest) ← ReadVarint32 buf
  let behind ← Skip length rest
  pure (rest.take length, behind)

/-! ## Tags -/

def WIRETYPE_VARINT : ℕ := 0
def WIRETYPE_FIXED64 : ℕ := 1
def WIRETYPE_LENGTH_DELIMITED : ℕ := 2
def WIRETYPE_START_GROUP : ℕ := 3
def WIRETYPE_END_GROUP : ℕ := 4
def WIRETYPE_FIXED32 : ℕ := 5

def MakeTag (field_number type : ℕ) : ℕ := field_number * 8 + type
def GetTagWireType (tag : ℕ) : ℕ := tag % 8
def GetTagFieldNumber (tag : ℕ) : ℕ := tag / 8

/-- `tag == 0 ||` the tag ends a group: the parsers stop there. -/
def EndsMessage (tag : ℕ) : Prop := tag = 0 ∨ GetTagWireType tag = WIRETYPE_END_GROUP

instance (tag : ℕ) : Decidable (EndsMessage tag) := inferInstanceAs (Decidable (_ ∨ _))

/-! ## Skipping -/

/-- A turn of the loop of `SkipMessage`; the loop ends with the last tag read. -/
def skipTurn (skipField : ℕ → Bytes → Option Bytes) (buf : Bytes) : Option (Bytes ⊕ (ℕ × Bytes)) :=
  let (tag, rest) := ReadTag buf
  if EndsMessage tag then some (.inr (tag, rest)) else (skipField tag rest).map .inl

def SkipMessage (skipField : ℕ → Bytes → Option Bytes) (buf : Bytes) : Option (ℕ × Bytes) :=
  loop (skipTurn skipField) List.length buf

/-- The switch of `SkipField`. -/
def skipCases (group : ℕ → Bytes → Option Bytes) (tag : ℕ) (buf : Bytes) : Option Bytes :=
  match GetTagWireType tag with
  | 0 => (ReadVarint64 buf).map (·.2)
  | 1 => Skip 8 buf
  | 2 => (ReadBytes buf).map (·.2)
  | 3 => group tag buf
  | 5 => Skip 4 buf
  | _ => none

/-- `SkipField`, `budget` being how many groups may still be entered. -/
def SkipField : ℕ → ℕ → Bytes → Option Bytes
  | 0 => skipCases fun _ _ => none
  | budget + 1 => skipCases fun tag buf => do
    let (last_tag, rest) ← SkipMessage (SkipField budget) buf
    if last_tag = MakeTag (GetTagFieldNumber tag) WIRETYPE_END_GROUP then some rest else none

/-! ## Reads take no more than there is -/

theorem ReadVarint32_length {buf rest : Bytes} {n : ℕ} (h : ReadVarint32 buf = some (n, rest)) :
    rest.length < buf.length := by
  obtain ⟨⟨v, r⟩, hr, he⟩ := Option.map_eq_some_iff.1 h
  cases he
  exact readVarint_length hr

theorem ReadVarint64_length {buf rest : Bytes} {n : ℕ} (h : ReadVarint64 buf = some (n, rest)) :
    rest.length < buf.length := by
  obtain ⟨⟨v, r⟩, hr, he⟩ := Option.map_eq_some_iff.1 h
  cases he
  exact readVarint_length hr

theorem ReadTag_length {buf : Bytes} (h : (ReadTag buf).1 ≠ 0) : (ReadTag buf).2.length < buf.length := by
  rw [ReadTag] at h ⊢
  cases hr : ReadVarint32 buf with
  | none => rw [hr] at h; exact absurd rfl h
  | some p => exact ReadVarint32_length hr

theorem Skip_length {count : ℕ} {buf rest : Bytes} (h : Skip count buf = some rest) :
    rest.length ≤ buf.length := by
  rw [Skip] at h
  split_ifs at h
  cases h
  simp

theorem ReadBytes_length {buf rest bs : Bytes} (h : ReadBytes buf = some (bs, rest)) :
    rest.length < buf.length := by
  obtain ⟨⟨n, r⟩, hr, h⟩ := Option.bind_eq_some_iff.1 h
  obtain ⟨behind, hb, h⟩ := Option.bind_eq_some_iff.1 h
  cases h
  have := ReadVarint32_length hr
  have := Skip_length hb
  omega

section
variable {skipField : ℕ → Bytes → Option Bytes}
  (hle : ∀ tag buf rest, skipField tag buf = some rest → rest.length ≤ buf.length)
include hle

theorem skipTurn_lowers : Lowers (skipTurn skipField) List.length := by
  intro buf rest h
  simp only [skipTurn] at h
  split_ifs at h with hend
  · cases h
  · obtain ⟨r, hr, he⟩ := Option.map_eq_some_iff.1 h
    cases he
    have := ReadTag_length fun h0 => hend (.inl h0)
    have := hle _ _ _ hr
    omega

theorem SkipMessage_length {buf rest : Bytes} {tag : ℕ} (h : SkipMessage skipField buf = some (tag, rest)) :
    rest.length ≤ buf.length := by
  refine loop_inv (I := fun b => b.length ≤ buf.length) (Q := fun p => p.2.length ≤ buf.length)
    ?_ ?_ le_rfl h
  · intro b b' hb ht
    have := skipTurn_lowers hle b b' ht
    omega
  · rintro b ⟨t, r⟩ hb ht
    simp only [skipTurn] at ht
    split_ifs at ht with hend
    · cases ht
      rw [ReadTag]
      cases hr : ReadVarint32 b with
      | none => exact hb
      | some p =>
        have := ReadVarint32_length hr
        simp only [Option.getD_some]
        omega
    · obtain ⟨_, _, he⟩ := Option.map_eq_some_iff.1 ht
      cases he

end

theorem skipCases_length {group : ℕ → Bytes → Option Bytes}
    (hle : ∀ tag buf rest, group tag buf = some rest → rest.length ≤ buf.length) {tag : ℕ} {buf rest : Bytes}
    (h : skipCases group tag buf = some rest) : rest.length ≤ buf.length := by
  rw [skipCases] at h
  split at h
  · obtain ⟨⟨v, r⟩, hr, rfl⟩ := Option.map_eq_some_iff.1 h
    exact (ReadVarint64_length hr).le
  · exact Skip_length h
  · obtain ⟨⟨v, r⟩, hr, rfl⟩ := Option.map_eq_some_iff.1 h
    exact (ReadBytes_length hr).le
  · exact hle _ _ _ h
  · exact Skip_length h
  · cases h

theorem SkipField_length (budget : ℕ) : ∀ {tag : ℕ} {buf rest : Bytes},
    SkipField budget tag buf = some rest → rest.length ≤ buf.length := by
  induction budget with
  | zero =>
    intro tag buf rest h
    exact skipCases_length (fun _ _ _ h => by cases h) h
  | succ budget ih =>
    intro tag buf rest h
    refine skipCases_length (fun tag buf rest h => ?_) h
    obtain ⟨⟨last, r⟩, hr, h⟩ := Option.bind_eq_some_iff.1 h
    dsimp only at h
    split_ifs at h
    cases h
    exact SkipMessage_length (fun _ _ _ h => ih h) hr

theorem SkipField_lowers (budget : ℕ) : Lowers (skipTurn (SkipField budget)) List.length :=
  skipTurn_lowers fun _ _ _ h => SkipField_length budget h

/-! ## What was written is read -/

theorem readVarint_max {n : ℕ} (h : n < 2 ^ 64) (ys : Bytes) :
    readVarint kMaxVarintBytes (varint n ++ ys) = some (n, ys) :=
  readVarint_varint ((length_varint_le_iff 9 n).2 (h.trans (by norm_num))) ys

theorem ReadVarint32_varint {n : ℕ} (h : n < 2 ^ 32) (ys : Bytes) :
    ReadVarint32 (varint n ++ ys) = some (n, ys) := by
  rw [ReadVarint32, readVarint_max (by omega), Option.map_some, Nat.mod_eq_of_lt h]

theorem ReadVarint64_varint {n : ℕ} (h : n < 2 ^ 64) (ys : Bytes) :
    ReadVarint64 (varint n ++ ys) = some (n, ys) := by
  rw [ReadVarint64, readVarint_max h, Option.map_some, Nat.mod_eq_of_lt h]

theorem ReadTag_varint {tag : ℕ} (h : tag < 2 ^ 32) (ys : Bytes) : ReadTag (varint tag ++ ys) = (tag, ys) := by
  rw [ReadTag, ReadVarint32_varint h]; rfl

@[simp] theorem ReadTag_nil : ReadTag [] = (0, []) := rfl

theorem Skip_append {xs : Bytes} (h : xs.length < 2 ^ 31) (ys : Bytes) : Skip xs.length (xs ++ ys) = some ys := by
  rw [Skip, if_pos ⟨h, by simp⟩, List.drop_left]

theorem ReadBytes_append {bs : Bytes} (h : bs.length < 2 ^ 31) (ys : Bytes) :
    ReadBytes (varint bs.length ++ (bs ++ ys)) = some (bs, ys) := by
  refine (bind_of_some (ReadVarint32_varint (by omega) _)).trans ?_
  refine (bind_of_some (Skip_append h ys)).trans ?_
  rw [List.take_left]; rfl

@[simp] theorem GetTagWireType_MakeTag (n : ℕ) {type : ℕ} (h : type < 8) :
    GetTagWireType (MakeTag n type) = type := by
  rw [GetTagWireType, MakeTag]; omega

@[simp] theorem GetTagFieldNumber_MakeTag (n : ℕ) {type : ℕ} (h : type < 8) :
    GetTagFieldNumber (MakeTag n type) = n := by
  rw [GetTagFieldNumber, MakeTag]; omega

/-! ## Fields as values -/

/-- A field with its number. -/
inductive Field where
  | varint (number value : ℕ)
  | fixed64 (number : ℕ) (bytes : Bytes)
  | bytes (number : ℕ) (bytes : Bytes)
  | group (number : ℕ) (fields : List Field)
  | fixed32 (number : ℕ) (bytes : Bytes)

def Field.tag : Field → ℕ
  | .varint n _ => MakeTag n WIRETYPE_VARINT
  | .fixed64 n _ => MakeTag n WIRETYPE_FIXED64
  | .bytes n _ => MakeTag n WIRETYPE_LENGTH_DELIMITED
  | .group n _ => MakeTag n WIRETYPE_START_GROUP
  | .fixed32 n _ => MakeTag n WIRETYPE_FIXED32

mutual

/-- The bytes of a field behind its tag. -/
def Field.payload : Field → Bytes
  | .varint _ v => Lib.varint v
  | .fixed64 _ bs | .fixed32 _ bs => bs
  | .bytes _ bs => Lib.varint bs.length ++ bs
  | .group n fs => encodeFields fs ++ Lib.varint (MakeTag n WIRETYPE_END_GROUP)

def encodeFields : List Field → Bytes
  | [] => []
  | f :: fs => Lib.varint f.tag ++ (f.payload ++ encodeFields fs)

end

/-- A field number that a 32-bit tag can hold. -/
def IsFieldNumber (n : ℕ) : Prop := 0 < n ∧ n < 2 ^ 29

/-- The field fits its wire type, and its groups nest no deeper than `budget`. -/
inductive Field.WF : ℕ → Field → Prop
  | varint {b n v : ℕ} : IsFieldNumber n → v < 2 ^ 64 → Field.WF b (.varint n v)
  | fixed64 {b n : ℕ} {bs : Bytes} : IsFieldNumber n → bs.length = 8 → Field.WF b (.fixed64 n bs)
  | bytes {b n : ℕ} {bs : Bytes} : IsFieldNumber n → bs.length < 2 ^ 31 → Field.WF b (.bytes n bs)
  | group {b n : ℕ} {fs : List Field} : IsFieldNumber n → (∀ f ∈ fs, Field.WF b f) →
      Field.WF (b + 1) (.group n fs)
  | fixed32 {b n : ℕ} {bs : Bytes} : IsFieldNumber n → bs.length = 4 → Field.WF b (.fixed32 n bs)

theorem IsFieldNumber.tag_lt {n type : ℕ} (h : IsFieldNumber n) (ht : type < 8) : MakeTag n type < 2 ^ 32 := by
  obtain ⟨_, h⟩ := h
  rw [MakeTag]; omega

theorem Field.WF.tag_lt {b : ℕ} {f : Field} (h : f.WF b) : f.tag < 2 ^ 32 := by
  cases h with
  | varint hn | fixed64 hn | bytes hn | group hn | fixed32 hn => exact hn.tag_lt (by decide)

/-- The tag of a field does not end a message. -/
theorem Field.WF.not_ends {b : ℕ} {f : Field} (h : f.WF b) : ¬ EndsMessage f.tag := by
  cases h with
  | varint hn | fixed64 hn | bytes hn | group hn | fixed32 hn =>
    obtain ⟨hn, _⟩ := hn
    rintro (h0 | h4)
    · simp only [Field.tag, MakeTag] at h0; omega
    · simp only [Field.tag] at h4
      rw [GetTagWireType_MakeTag _ (by decide)] at h4
      exact absurd h4 (by decide)

/-- A group is skipped up to its end, if each of its fields is. -/
theorem SkipMessage_encodeFields {b : ℕ} {fs : List Field} (hwf : ∀ f ∈ fs, f.WF b)
    (hskip : ∀ f ∈ fs, ∀ ys, SkipField b f.tag (f.payload ++ ys) = some ys) {tag : ℕ} (htag : tag < 2 ^ 32)
    (hend : EndsMessage tag) (ys : Bytes) :
    SkipMessage (SkipField b) (encodeFields fs ++ (varint tag ++ ys)) = some (tag, ys) := by
  induction fs with
  | nil =>
    refine loop_leave (SkipField_lowers b) ?_
    simp only [encodeFields, List.nil_append, skipTurn, ReadTag_varint htag, if_pos hend]
  | cons f fs ih =>
    have hf := hwf f (.head _)
    have hturn : skipTurn (SkipField b) (encodeFields (f :: fs) ++ (varint tag ++ ys)) =
        some (.inl (encodeFields fs ++ (varint tag ++ ys))) := by
      simp only [encodeFields, List.append_assoc, skipTurn, ReadTag_varint hf.tag_lt, if_neg hf.not_ends,
        hskip f (.head _), Option.map_some]
    refine (loop_next (SkipField_lowers b) hturn).trans ?_
    exact ih (fun g hg => hwf g (.tail _ hg)) fun g hg => hskip g (.tail _ hg)

/-- `SkipField` does not need a budget but for groups. -/
theorem SkipField_cases (b tag : ℕ) (buf : Bytes) (h : GetTagWireType tag ≠ WIRETYPE_START_GROUP)
    (group : ℕ → Bytes → Option Bytes) : SkipField b tag buf = skipCases group tag buf := by
  have hcases : ∀ g : ℕ → Bytes → Option Bytes, skipCases g tag buf = skipCases group tag buf := by
    intro g
    simp only [skipCases]
    split <;> first | rfl | contradiction
  cases b <;> exact hcases _

/-- **A well-formed field is skipped, and nothing behind it.** -/
theorem SkipField_payload {b : ℕ} {f : Field} (h : f.WF b) (ys : Bytes) :
    SkipField b f.tag (f.payload ++ ys) = some ys := by
  induction h generalizing ys with
  | @varint b n v _ hv =>
    rw [SkipField_cases b _ _ (by simp [Field.tag, WIRETYPE_VARINT, WIRETYPE_START_GROUP]) fun _ _ => none]
    simp [skipCases, Field.tag, Field.payload, WIRETYPE_VARINT, ReadVarint64_varint hv]
  | @fixed64 b n bs _ hbs =>
    rw [SkipField_cases b _ _ (by simp [Field.tag, WIRETYPE_FIXED64, WIRETYPE_START_GROUP]) fun _ _ => none]
    simp only [skipCases, Field.tag, Field.payload, WIRETYPE_FIXED64, GetTagWireType_MakeTag n (by decide : 1 < 8)]
    rw [← hbs]
    exact Skip_append (by omega) ys
  | @bytes b n bs _ hbs =>
    rw [SkipField_cases b _ _ (by simp [Field.tag, WIRETYPE_LENGTH_DELIMITED, WIRETYPE_START_GROUP])
      fun _ _ => none]
    simp only [skipCases, Field.tag, Field.payload, WIRETYPE_LENGTH_DELIMITED, List.append_assoc,
      GetTagWireType_MakeTag n (by decide : 2 < 8), ReadBytes_append hbs, Option.map_some]
  | @group b n fs hn hfs ih =>
    have hend : EndsMessage (MakeTag n WIRETYPE_END_GROUP) := .inr (GetTagWireType_MakeTag n (by decide))
    simp only [SkipField, skipCases, Field.tag, Field.payload, WIRETYPE_START_GROUP, List.append_assoc,
      GetTagWireType_MakeTag n (by decide : 3 < 8)]
    refine (bind_of_some (SkipMessage_encodeFields hfs ih (hn.tag_lt (by decide)) hend ys)).trans ?_
    simp only [GetTagFieldNumber_MakeTag n (by decide : 3 < 8), if_true]
  | @fixed32 b n bs _ hbs =>
    rw [SkipField_cases b _ _ (by simp [Field.tag, WIRETYPE_FIXED32, WIRETYPE_START_GROUP]) fun _ _ => none]
    simp only [skipCases, Field.tag, Field.payload, WIRETYPE_FIXED32, GetTagWireType_MakeTag n (by decide : 5 < 8)]
    rw [← hbs]
    exact Skip_append (by omega) ys

end Lib
