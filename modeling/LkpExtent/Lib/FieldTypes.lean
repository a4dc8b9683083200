/-
  The field types of Protocol Buffers: `uint32`, `bool`, open enumerations, `string`,
  `bytes` and repeated messages, proto3 (a field that has its default is not written).

  * `uint32Code`, `boolCode`, `enumCode`, `bytesCode`, `stringCode`: their values;
  * `FieldCode.scalar`: a field with such a value;  `FieldCode.messages`: a repeated
    field with messages of a type.
-/
import LkpExtent.Lib.MessageCode
import Mathlib.Tactic.NormNum

namespace Lib

variable {σ τ α : Type}

/-! ## Varints -/

/-- `CodedOutputStream::VarintSize32`. -/
def VarintSize32 (value : ℕ) : ℕ :=
  if value < 2 ^ 7 then 1
  else if value < 2 ^ 14 then 2
  else if value < 2 ^ 21 then 3
  else if value < 2 ^ 28 then 4
  else 5

theorem VarintSize32_eq {n : ℕ} (h : n < 2 ^ 32) : VarintSize32 n = (varint n).length := by
  have hpos := length_varint_pos n
  have h0 := length_varint_le_iff 0 n
  have h1 := length_varint_le_iff 1 n
  have h2 := length_varint_le_iff 2 n
  have h3 := length_varint_le_iff 3 n
  have h4 := length_varint_le_iff 4 n
  rw [VarintSize32]
  split_ifs <;> omega

/-- `VarintSize32SignExtended`. -/
def VarintSize32SignExtended (value : Int32) : ℕ :=
  if value.toInt < 0 then 10 else VarintSize32 value.toInt.toNat

/-- `WriteVarint32SignExtendedToArray`: a negative value is written as 64 bits. -/
def writeSignExtended (value : Int32) : Bytes :=
  if value.toInt < 0 then varint (value.toInt + 2 ^ 64).toNat else varint value.toInt.toNat

theorem Int32.bounds (v : Int32) : -2 ^ 31 ≤ v.toInt ∧ v.toInt < 2 ^ 31 :=
  ⟨v.le_toInt, v.toInt_lt⟩

theorem length_writeSignExtended (v : Int32) : VarintSize32SignExtended v = (writeSignExtended v).length := by
  obtain ⟨hlo, hhi⟩ := Int32.bounds v
  rw [VarintSize32SignExtended, writeSignExtended]
  split_ifs with hneg
  · have h9 := length_varint_le_iff 9 (v.toInt + 2 ^ 64).toNat
    have h8 := length_varint_le_iff 8 (v.toInt + 2 ^ 64).toNat
    omega
  · exact VarintSize32_eq (by omega)

/-- Reading as 32 bits brings back the sign. -/
theorem ReadVarint32_writeSignExtended (v : Int32) (ys : Bytes) :
    ∃ n, ReadVarint32 (writeSignExtended v ++ ys) = some (n, ys) ∧ Int32.ofNat n = v := by
  obtain ⟨hlo, hhi⟩ := Int32.bounds v
  have hof : ∀ n : ℕ, (n : ℤ) % 2 ^ 32 = v.toInt % 2 ^ 32 → Int32.ofNat n = v := by
    intro n hn
    rw [← Int32.toInt_inj, Int32.toInt_ofNat', ← Int.emod_bmod, show ((Int32.size : ℕ) : ℤ) = 2 ^ 32 from rfl,
      hn]
    exact (Int.emod_bmod v.toInt Int32.size).trans v.toInt_bmod_size
  rw [writeSignExtended]
  split_ifs with hneg
  · rw [ReadVarint32, readVarint_max (by omega)]
    exact ⟨_, rfl, hof _ (by omega)⟩
  · exact ⟨_, ReadVarint32_varint (by omega) ys, hof _ (by omega)⟩

/-! ## Values -/

def uint32Code : ScalarCode UInt32 where
  type := WIRETYPE_VARINT
  default := 0
  write v := varint v.toNat
  size v := VarintSize32 v.toNat
  read buf := (ReadVarint32 buf).map fun p => (UInt32.ofNat p.1, p.2)
  valid _ := true
  type_lt := by decide
  not_end := by decide
  size_eq v := VarintSize32_eq v.toNat_lt
  read_write v ys _ := by
    rw [ReadVarint32_varint v.toNat_lt, if_pos rfl]
    simp
  read_le buf v rest h := by
    obtain ⟨p, hp, he⟩ := Option.map_eq_some_iff.1 h
    cases he
    exact (ReadVarint32_length hp).le
  read_valid _ _ _ _ := rfl
  default_valid := rfl

/-- All 64 bits are looked at when a `bool` is read. -/
def boolCode : ScalarCode Bool where
  type := WIRETYPE_VARINT
  default := false
  write v := varint (if v then 1 else 0)
  size _ := 1
  read buf := (ReadVarint64 buf).map fun p => (p.1 ≠ 0, p.2)
  valid _ := true
  type_lt := by decide
  not_end := by decide
  size_eq v := by cases v <;> rw [varint_of_lt (by decide)] <;> rfl
  read_write v ys _ := by
    cases v <;> rw [ReadVarint64_varint (by decide), if_pos rfl] <;> rfl
  read_le buf v rest h := by
    obtain ⟨p, hp, he⟩ := Option.map_eq_some_iff.1 h
    cases he
    exact (ReadVarint64_length hp).le
  read_valid _ _ _ _ := rfl
  default_valid := rfl

/-- proto3 enumerations are open: every `int` is kept. -/
def enumCode : ScalarCode Int32 where
  type := WIRETYPE_VARINT
  default := 0
  write := writeSignExtended
  size := VarintSize32SignExtended
  read buf := (ReadVarint32 buf).map fun p => (Int32.ofNat p.1, p.2)
  valid _ := true
  type_lt := by decide
  not_end := by decide
  size_eq := length_writeSignExtended
  read_write v ys _ := by
    obtain ⟨n, hn, hv⟩ := ReadVarint32_writeSignExtended v ys
    rw [hn, if_pos rfl, Option.map_some, hv]
  read_le buf v rest h := by
    obtain ⟨p, hp, he⟩ := Option.map_eq_some_iff.1 h
    cases he
    exact (ReadVarint32_length hp).le
  read_valid _ _ _ _ := rfl
  default_valid := rfl

/-- A length as `uint32`, and the bytes; the reader refuses what is not `valid`. -/
def delimitedCode (valid : Bytes → Bool) (hnil : valid [] := by decide) : ScalarCode Bytes where
  type := WIRETYPE_LENGTH_DELIMITED
  default := []
  write v := varint (v.length % 2 ^ 32) ++ v
  size v := VarintSize32 (v.length % 2 ^ 32) + v.length
  read buf := (ReadBytes buf).bind fun p => if valid p.1 then some p else none
  valid := valid
  type_lt := by decide
  not_end := by decide
  size_eq v := by rw [VarintSize32_eq (by omega), List.length_append]
  read_write v ys h := by
    rw [List.length_append] at h
    rw [Nat.mod_eq_of_lt (by omega), List.append_assoc, ReadBytes_append (by omega), Option.bind_some]
  read_le buf v rest h := by
    obtain ⟨p, hp, he⟩ := Option.bind_eq_some_iff.1 h
    split_ifs at he
    cases he
    exact (ReadBytes_length hp).le
  read_valid buf v rest h := by
    obtain ⟨p, hp, he⟩ := Option.bind_eq_some_iff.1 h
    split_ifs at he with hv
    cases he
    exact hv
  default_valid := hnil

def bytesCode : ScalarCode Bytes := delimitedCode fun _ => true

/-- The scanner's table accepts what Unicode defines as UTF-8: no surrogates, no overlong
    forms, nothing above U+10FFFF. -/
def IsStructurallyValidUTF8 (bs : Bytes) : Bool := (ByteArray.mk bs.toArray).validateUTF8

/-- The parser fails on a string that is not UTF-8, the serializer only logs an error. -/
def stringCode : ScalarCode Bytes := delimitedCode IsStructurallyValidUTF8

section
variable (v : UInt32) (n : Int32) (b : Bool) (bs : Bytes)

@[simp] theorem uint32Code_valid : uint32Code.valid v = true := rfl
@[simp] theorem boolCode_valid : boolCode.valid b = true := rfl
@[simp] theorem enumCode_valid : enumCode.valid n = true := rfl
@[simp] theorem bytesCode_valid : bytesCode.valid bs = true := rfl
@[simp] theorem stringCode_valid : stringCode.valid bs = IsStructurallyValidUTF8 bs := rfl

end

/-! ## Fields -/

/-- A tag of one byte. -/
theorem MakeTag_bounds {number type : ℕ} (h : 0 < number ∧ number < 16) (ht : type < 8)
    (hend : type ≠ WIRETYPE_END_GROUP) : MakeTag number type < 128 ∧ ¬ EndsMessage (MakeTag number type) := by
  refine ⟨by rw [MakeTag]; omega, ?_⟩
  rintro (h0 | h4)
  · rw [MakeTag] at h0; omega
  · exact hend ((GetTagWireType_MakeTag number ht).symm.trans h4)

/-- A field that is not repeated; it is not written while it has its default. -/
def FieldCode.scalar [DecidableEq α] (c : ScalarCode α) (number : ℕ) (get : σ → α) (set : α → σ → σ)
    (hn : 0 < number ∧ number < 16 := by decide) : FieldCode σ where
  tag := MakeTag number c.type
  repeated := false
  depth := 0
  read _ m buf := (c.read buf).map fun p => (set p.1 m, p.2)
  write m := if get m ≠ c.default then varint (MakeTag number c.type) ++ c.write (get m) else []
  size m := if get m ≠ c.default then 1 + c.size (get m) else 0
  merge m₀ m := if get m ≠ c.default then set (get m) m₀ else m₀
  valid m := get m = c.default ∨ c.valid (get m)
  tag_lt := (MakeTag_bounds hn c.type_lt c.not_end).1
  not_ends := (MakeTag_bounds hn c.type_lt c.not_end).2
  size_eq m := by
    have htag := (MakeTag_bounds hn c.type_lt c.not_end).1
    split_ifs
    · rw [List.length_append, varint_of_lt htag, c.size_eq, List.length_singleton]
    · rfl
  read_write b m _ hlen := by
    by_cases hd : get m = c.default
    · simp only [hd, ne_eq, not_true_eq_false, if_false]
      exact ⟨_, .nil, fun m₀ => by simp⟩
    · simp only [ne_eq, hd, not_false_eq_true, if_true, List.length_append] at hlen ⊢
      refine ⟨fun m₀ => if c.valid (get m) then some (set (get m) m₀) else none, .single fun m₀ ys => ?_,
        fun m₀ => by simp⟩
      rw [c.read_write _ _ (by omega)]
      split_ifs <;> rfl
  read_le b m buf m' rest h := by
    obtain ⟨p, hp, he⟩ := Option.map_eq_some_iff.1 h
    cases he
    exact c.read_le _ _ _ hp

section
variable [DecidableEq α] {c : ScalarCode α} {number : ℕ} {get : σ → α} {set : α → σ → σ}
  {hn : 0 < number ∧ number < 16}

theorem scalar_keeps {P : σ → Prop} (h : ∀ v m, c.valid v → P m → P (set v m)) :
    (FieldCode.scalar c number get set hn).Keeps P := by
  intro b m buf m' rest hr hm
  obtain ⟨p, hp, he⟩ := Option.map_eq_some_iff.1 hr
  cases he
  exact h _ _ (c.read_valid _ _ _ hp) hm

/-- Merging into a message whose field has the default sets the field. -/
theorem foldl_scalar {fs : List (FieldCode σ)} {m₀ m : σ} (h : set c.default m₀ = m₀) :
    (FieldCode.scalar c number get set hn :: fs).foldl (fun m₀ f => f.merge m₀ m) m₀ =
      fs.foldl (fun m₀ f => f.merge m₀ m) (set (get m) m₀) := by
  rw [List.foldl_cons]
  refine congrArg (fs.foldl _) ?_
  show (if get m ≠ c.default then set (get m) m₀ else m₀) = set (get m) m₀
  split_ifs with hd
  · rfl
  · rw [not_not.1 hd, h]

@[simp] theorem scalar_valid (m : σ) : (FieldCode.scalar c number get set hn).valid m = c.valid (get m) := by
  show decide (get m = c.default ∨ c.valid (get m) = true) = c.valid (get m)
  by_cases h : get m = c.default
  · simp [h, c.default_valid]
  · simp [h]

end

/-! ## Messages in messages -/

/-- `ReadLengthAndPushLimit`: the bytes before the new limit and those behind it.  A limit
    beyond the old one is the old one.  When no length can be read the limit is here, with
    nothing consumed of ten bytes that all go on, and everything of fewer. -/
def ReadLengthAndPushLimit (buf : Bytes) : Bytes × Bytes :=
  match ReadVarint32 buf with
  | some (length, rest) => (rest.take length, rest.drop length)
  | none => ([], if kMaxVarintBytes ≤ buf.length then buf else [])

theorem ReadLengthAndPushLimit_length (buf : Bytes) : (ReadLengthAndPushLimit buf).2.length ≤ buf.length := by
  rw [ReadLengthAndPushLimit]
  split
  case h_1 length rest h =>
    have := ReadVarint32_length h
    simp only [List.length_drop]
    omega
  case h_2 => split_ifs <;> simp

theorem ReadLengthAndPushLimit_append {bs : Bytes} (h : bs.length < 2 ^ 32) (ys : Bytes) :
    ReadLengthAndPushLimit (varint bs.length ++ (bs ++ ys)) = (bs, ys) := by
  rw [ReadLengthAndPushLimit, ReadVarint32_varint h]
  simp only [List.take_left, List.drop_left]

/-- `ReadMessageNoVirtualNoRecursionDepth`. -/
def MessageCode.ReadMessage (c : MessageCode τ) (b : ℕ) (m : τ) (buf : Bytes) : Option (τ × Bytes) :=
  (entire (c.MergePartialFromCodedStream b m (ReadLengthAndPushLimit buf).1)).map fun m =>
    (m, (ReadLengthAndPushLimit buf).2)

/-- `InternalWriteMessageNoVirtualToArray`, behind the tag; the cached size is the one that
    `ByteSize` computed before. -/
def MessageCode.WriteMessage (c : MessageCode τ) (m : τ) : Bytes :=
  varint (c.ByteSize m % 2 ^ 32) ++ c.SerializeWithCachedSizesToArray m

theorem MessageCode.ReadMessage_WriteMessage (c : MessageCode τ) {b : ℕ} (hb : c.depth ≤ b) {m : τ}
    (h : (c.WriteMessage m).length < 2 ^ 31) (ys : Bytes) :
    c.ReadMessage b c.default (c.WriteMessage m ++ ys) = if c.valid m then some (m, ys) else none := by
  rw [WriteMessage, List.length_append, c.length_Serialize] at h
  have hlen := c.length_Serialize m
  rw [WriteMessage, Nat.mod_eq_of_lt (by omega), ← hlen, List.append_assoc, ReadMessage,
    ReadLengthAndPushLimit_append (by omega), c.MergePartial_Serialize hb _ (by omega), MergeFrom,
    c.merge_default]
  split_ifs <;> rfl

section
variable (c : MessageCode τ) (number : ℕ) (add : List τ → σ → σ)

/-- The block of a repeated field; `IncrementRecursionDepth` fails when no depth is left. -/
def readMessages : ℕ → σ → Bytes → Option (σ × Bytes)
  | 0, _, _ => none
  | b + 1, m, buf => (c.ReadMessage b c.default buf).map fun p => (add [p.1] m, p.2)

def writeMessages (xs : List τ) : Bytes :=
  xs.flatMap fun x => varint (MakeTag number WIRETYPE_LENGTH_DELIMITED) ++ c.WriteMessage x

/-- The messages are read one after the other, up to the first that is not valid. -/
theorem readsAs_messages (add_nil : ∀ m, add [] m = m) (add_cons : ∀ x xs m, add (x :: xs) m = add xs (add [x] m))
    {b : ℕ} (hb : c.depth + 1 ≤ b) (xs : List τ) (hlen : (writeMessages c number xs).length < 2 ^ 31) :
    ∃ effect, ReadsAs (MakeTag number WIRETYPE_LENGTH_DELIMITED) (readMessages c add b) (writeMessages c number xs)
      effect ∧ ∀ m₀, effect m₀ = if xs.all c.valid then some (add xs m₀) else none := by
  obtain ⟨b, rfl⟩ : ∃ b', b = b' + 1 := ⟨b - 1, by omega⟩
  induction xs with
  | nil => exact ⟨_, .nil, fun m₀ => by simp [add_nil]⟩
  | cons x xs ih =>
    rw [writeMessages, List.flatMap_cons, List.length_append, List.length_append] at hlen
    obtain ⟨effect, hreads, heffect⟩ := ih (by rw [writeMessages]; omega)
    rw [writeMessages, List.flatMap_cons, List.append_assoc]
    refine ⟨fun m₀ => (if c.valid x then some (add [x] m₀) else none).bind effect,
      .cons (fun m₀ ys => ?_) hreads, fun m₀ => ?_⟩
    · rw [readMessages, c.ReadMessage_WriteMessage (by omega) (by omega)]
      split_ifs <;> rfl
    · rw [List.all_cons]
      cases hx : c.valid x with
      | false => rfl
      | true =>
        simp only [if_pos, Option.bind_some, heffect, Bool.true_and]
        rw [← add_cons]

end

/-- A repeated field with messages; `add` appends to its elements. -/
def FieldCode.messages (c : MessageCode τ) (number : ℕ) (get : σ → List τ) (add : List τ → σ → σ)
    (add_nil : ∀ m, add [] m = m) (add_cons : ∀ x xs m, add (x :: xs) m = add xs (add [x] m))
    (hn : 0 < number ∧ number < 16 := by decide) : FieldCode σ where
  tag := MakeTag number WIRETYPE_LENGTH_DELIMITED
  repeated := true
  depth := c.depth + 1
  read := readMessages c add
  write m := writeMessages c number (get m)
  size m := 1 * (get m).length + ((get m).map fun x => VarintSize32 (c.ByteSize x % 2 ^ 32) + c.ByteSize x).sum
  merge m₀ m := add (get m) m₀
  valid m := (get m).all c.valid
  tag_lt := (MakeTag_bounds hn (by decide) (by decide)).1
  not_ends := (MakeTag_bounds hn (by decide) (by decide)).2
  size_eq m := by
    have htag : MakeTag number WIRETYPE_LENGTH_DELIMITED < 128 :=
      (MakeTag_bounds hn (by decide) (by decide)).1
    induction get m with
    | nil => rfl
    | cons x xs ih =>
      have hx : ((varint (MakeTag number WIRETYPE_LENGTH_DELIMITED)) ++ c.WriteMessage x).length =
          1 + (VarintSize32 (c.ByteSize x % 2 ^ 32) + c.ByteSize x) := by
        rw [List.length_append, varint_of_lt htag, MessageCode.WriteMessage, List.length_append,
          c.length_Serialize, ← VarintSize32_eq (by omega), List.length_singleton]
      rw [writeMessages, List.flatMap_cons, List.length_append, ← writeMessages, ← ih, hx, List.length_cons,
        List.map_cons, List.sum_cons]
      omega
  read_write b m hb hlen := readsAs_messages c number add add_nil add_cons hb (get m) hlen
  read_le b m buf m' rest h := by
    cases b with
    | zero => cases h
    | succ b =>
      obtain ⟨p, hp, he⟩ := Option.map_eq_some_iff.1 h
      obtain ⟨x, _, rfl⟩ := Option.map_eq_some_iff.1 hp
      cases he
      exact ReadLengthAndPushLimit_length buf

theorem messages_keeps {c : MessageCode τ} {number : ℕ} {get : σ → List τ} {add : List τ → σ → σ}
    {add_nil : ∀ m, add [] m = m} {add_cons : ∀ x xs m, add (x :: xs) m = add xs (add [x] m)}
    {hn : 0 < number ∧ number < 16} {P : σ → Prop} {Q : τ → Prop} (hQ : ∀ f ∈ c.fields, f.Keeps Q)
    (hdef : Q c.default) (h : ∀ x m, Q x → P m → P (add [x] m)) :
    (FieldCode.messages c number get add add_nil add_cons hn).Keeps P := by
  intro b m buf m' rest hr hm
  cases b with
  | zero => cases hr
  | succ b =>
    obtain ⟨p, hp, he⟩ := Option.map_eq_some_iff.1 hr
    obtain ⟨x, hx, rfl⟩ := Option.map_eq_some_iff.1 hp
    cases he
    exact h x m (c.MergePartial_keeps hQ hx hdef) hm

end Lib
