/-
  The code that the protocol compiler generates for a message type, as a table of what
  it does with each field.

  * `ScalarCode`: how the values of a field type are written, measured and read;
    `FieldCode`: a block of each generated function, with what the blocks owe each other;
    `MessageCode`: the blocks of a message type;
  * `mergeTurn`: the loop of `MergePartialFromCodedStream`, in which a block that was read
    looks for the tag of the next block and jumps there; `plainTurn`: the same loop
    without the jumps;
  * `mergeLoop_eq_plainLoop`: both do the same on every input;
  * `plainLoop_pieces`: what the loop makes of blocks written one after the other, with
    unknown fields between them.
-/
import LkpExtent.Lib.Wire
import Mathlib.Algebra.Order.BigOperators.Group.List

namespace Lib

variable {σ τ α : Type}

/-! ## Values -/

/-- How the values of a field type are written, measured and read.  A value that is not
    `valid` is written like the others, and refused when it is read. -/
structure ScalarCode (α : Type) where
  type : ℕ
  default : α
  write : α → Bytes
  size : α → ℕ
  read : Bytes → Option (α × Bytes)
  valid : α → Bool
  type_lt : type < 8
  not_end : type ≠ WIRETYPE_END_GROUP
  size_eq : ∀ v, size v = (write v).length
  read_write : ∀ v ys, (write v).length < 2 ^ 31 →
    read (write v ++ ys) = if valid v then some (v, ys) else none
  read_le : ∀ buf v rest, read buf = some (v, rest) → rest.length ≤ buf.length
  read_valid : ∀ buf v rest, read buf = some (v, rest) → valid v
  default_valid : valid default

/-! ## Fields -/

/-- `written` consists of values behind the tag `tag` each, and reading one after the
    other makes `effect m` of the message `m`. -/
inductive ReadsAs (tag : ℕ) (read : σ → Bytes → Option (σ × Bytes)) : Bytes → (σ → Option σ) → Prop
  | nil : ReadsAs tag read [] some
  | cons {value written : Bytes} {one rest : σ → Option σ} :
      (∀ m ys, read m (value ++ ys) = (one m).map fun m' => (m', ys)) → ReadsAs tag read written rest →
      ReadsAs tag read (varint tag ++ (value ++ written)) fun m => (one m).bind rest

theorem ReadsAs.single {tag : ℕ} {read : σ → Bytes → Option (σ × Bytes)} {value : Bytes} {one : σ → Option σ}
    (h : ∀ m ys, read m (value ++ ys) = (one m).map fun m' => (m', ys)) :
    ReadsAs tag read (varint tag ++ value) one := by
  have hcons : ReadsAs tag read (varint tag ++ (value ++ [])) fun m => (one m).bind some := .cons h .nil
  simp only [List.append_nil, Option.bind_fun_some] at hcons
  exact hcons

/-- What the generated code of a message type does with one field: its block in the parser
    (behind the tag), in the serializer, in `ByteSize` and in `MergeFrom(from)`.  `depth` is
    how deep its messages nest. -/
structure FieldCode (σ : Type) where
  tag : ℕ
  repeated : Bool
  depth : ℕ
  read : ℕ → σ → Bytes → Option (σ × Bytes)
  write : σ → Bytes
  size : σ → ℕ
  merge : σ → σ → σ
  valid : σ → Bool
  tag_lt : tag < 128
  not_ends : ¬ EndsMessage tag
  size_eq : ∀ m, size m = (write m).length
  read_write : ∀ b m, depth ≤ b → (write m).length < 2 ^ 31 →
    ∃ effect, ReadsAs tag (read b) (write m) effect ∧
      ∀ m₀, effect m₀ = if valid m then some (merge m₀ m) else none
  read_le : ∀ b m buf m' rest, read b m buf = some (m', rest) → rest.length ≤ buf.length

/-! ## The parser -/

/-- `ExpectTag`. -/
def ExpectTag (tag : ℕ) : Bytes → Option Bytes
  | [] => none
  | x :: rest => if x.toNat = tag then some rest else none

/-- A turn of a parser's loop goes on with the message and the bytes left, or ends with the
    message and `ConsumedEntireMessage`. -/
abbrev ParseTurn (σ : Type) := Option ((σ × Bytes) ⊕ (σ × Bool))

/-- `handle_unusual`: `buf` are the bytes with the tag, `rest` those behind it. -/
def handle_unusual (b tag : ℕ) (m : σ) (buf rest : Bytes) : ParseTurn σ :=
  if EndsMessage tag then some (.inr (m, buf.isEmpty))
  else (SkipField b tag rest).map fun rest => .inl (m, rest)

/-- A turn of the loop inside the block of a repeated field; other blocks read one value. -/
def blockTurn (f : FieldCode σ) (b : ℕ) (p : σ × Bytes) : Option ((σ × Bytes) ⊕ (σ × Bytes)) :=
  (f.read b p.1 p.2).map fun q =>
    if f.repeated then (ExpectTag f.tag q.2).elim (.inr q) fun rest => .inl (q.1, rest) else .inr q

/-- The block of the field `f`, and the blocks jumped to from there. -/
def parseFrom (b : ℕ) (f : FieldCode σ) : List (FieldCode σ) → σ × Bytes → ParseTurn σ
  | [], p => (loop (blockTurn f b) (fun p => p.2.length) p).map fun q =>
    -- ExpectAtEnd
    if q.2.isEmpty then .inr (q.1, true) else .inl q
  | g :: gs, p => (loop (blockTurn f b) (fun p => p.2.length) p).bind fun q =>
    (ExpectTag g.tag q.2).elim (some (.inl q)) fun rest => parseFrom b g gs (q.1, rest)

/-- A turn of the loop of `MergePartialFromCodedStream`; the tags of all fields are below
    the cutoff of `ReadTagWithCutoff(127)`. -/
def mergeTurn (fields : List (FieldCode σ)) (b : ℕ) (p : σ × Bytes) : ParseTurn σ :=
  let (tag, rest) := ReadTag p.2
  if 0 < tag ∧ tag ≤ 127 then
    match fields.dropWhile fun f => f.tag ≠ tag with
    | f :: fs => parseFrom b f fs (p.1, rest)
    | [] => handle_unusual b tag p.1 p.2 rest
  else handle_unusual b tag p.1 p.2 rest

def mergeLoop (fields : List (FieldCode σ)) (b : ℕ) (p : σ × Bytes) : Option (σ × Bool) :=
  loop (mergeTurn fields b) (fun p => p.2.length) p

/-- A turn without jumps: one tag is read, and one value. -/
def plainTurn (fields : List (FieldCode σ)) (b : ℕ) (p : σ × Bytes) : ParseTurn σ :=
  let (tag, rest) := ReadTag p.2
  match fields.find? fun f => f.tag = tag with
  | some f => (f.read b p.1 rest).map .inl
  | none => handle_unusual b tag p.1 p.2 rest

def plainLoop (fields : List (FieldCode σ)) (b : ℕ) (p : σ × Bytes) : Option (σ × Bool) :=
  loop (plainTurn fields b) (fun p => p.2.length) p

/-! ## Every turn takes bytes -/

theorem ExpectTag_eq_some {tag : ℕ} {buf rest : Bytes} :
    ExpectTag tag buf = some rest ↔ ∃ x : UInt8, x.toNat = tag ∧ buf = x :: rest := by
  cases buf with
  | nil => simp [ExpectTag]
  | cons x xs =>
    simp only [ExpectTag, Option.ite_none_right_eq_some, Option.some.injEq, List.cons.injEq]
    exact ⟨fun ⟨h, hr⟩ => ⟨x, h, rfl, hr⟩, fun ⟨_, h, hx, hr⟩ => ⟨hx ▸ h, hr⟩⟩

theorem ExpectTag_length {tag : ℕ} {buf rest : Bytes} (h : ExpectTag tag buf = some rest) :
    rest.length < buf.length := by
  obtain ⟨x, _, rfl⟩ := ExpectTag_eq_some.1 h
  simp

theorem handle_unusual_next {b tag : ℕ} {m : σ} {buf rest : Bytes} {q : σ × Bytes}
    (h : handle_unusual b tag m buf rest = some (.inl q)) :
    ¬ EndsMessage tag ∧ SkipField b tag rest = some q.2 ∧ q.1 = m := by
  rw [handle_unusual] at h
  split_ifs at h with hend
  · cases h
  · obtain ⟨r, hr, he⟩ := Option.map_eq_some_iff.1 h
    cases he
    exact ⟨hend, hr, rfl⟩

theorem handle_unusual_lowers {b : ℕ} {p q : σ × Bytes}
    (h : handle_unusual b (ReadTag p.2).1 p.1 p.2 (ReadTag p.2).2 = some (.inl q)) :
    q.2.length < p.2.length := by
  obtain ⟨hend, hskip, -⟩ := handle_unusual_next h
  have := ReadTag_length fun h0 => hend (.inl h0)
  have := SkipField_length b hskip
  omega

theorem blockTurn_lowers (f : FieldCode σ) (b : ℕ) : Lowers (blockTurn f b) fun p => p.2.length := by
  intro p p' h
  obtain ⟨q, hq, he⟩ := Option.map_eq_some_iff.1 h
  have hle := f.read_le _ _ _ _ _ hq
  split_ifs at he
  cases hx : ExpectTag f.tag q.2 with
  | none => rw [hx] at he; cases he
  | some rest =>
    rw [hx] at he
    cases he
    have := ExpectTag_length hx
    show rest.length < p.2.length
    omega

theorem block_length {f : FieldCode σ} {b : ℕ} {p q : σ × Bytes}
    (h : loop (blockTurn f b) (fun p => p.2.length) p = some q) : q.2.length ≤ p.2.length := by
  refine loop_inv (I := fun p' : σ × Bytes => p'.2.length ≤ p.2.length)
    (Q := fun q : σ × Bytes => q.2.length ≤ p.2.length) ?_ ?_ le_rfl h
  · intro p₁ p₂ hle ht
    exact (blockTurn_lowers f b p₁ p₂ ht).le.trans hle
  · intro p₁ r hle ht
    obtain ⟨q', hq, he⟩ := Option.map_eq_some_iff.1 ht
    have := f.read_le _ _ _ _ _ hq
    have hr : r = q' := by
      split_ifs at he
      · cases hx : ExpectTag f.tag q'.2 with
        | none => rw [hx] at he; cases he; rfl
        | some rest => rw [hx] at he; cases he
      · cases he; rfl
    subst hr
    omega

theorem parseFrom_length {b : ℕ} {fs : List (FieldCode σ)} : ∀ {f : FieldCode σ} {p q : σ × Bytes},
    parseFrom b f fs p = some (.inl q) → q.2.length ≤ p.2.length := by
  induction fs with
  | nil =>
    intro f p q h
    obtain ⟨r, hr, he⟩ := Option.map_eq_some_iff.1 h
    split_ifs at he
    cases he
    exact block_length hr
  | cons g gs ih =>
    intro f p q h
    obtain ⟨r, hr, h⟩ := Option.bind_eq_some_iff.1 h
    have hle := block_length hr
    cases hx : ExpectTag g.tag r.2 with
    | none => rw [hx] at h; cases h; exact hle
    | some rest =>
      rw [hx] at h
      have := ih h
      have := ExpectTag_length hx
      simp only at *
      omega

theorem mergeTurn_lowers (fields : List (FieldCode σ)) (b : ℕ) :
    Lowers (mergeTurn fields b) fun p => p.2.length := by
  intro p q h
  show q.2.length < p.2.length
  simp only [mergeTurn] at h
  split_ifs at h with htag
  · split at h
    · have := parseFrom_length h
      have := @ReadTag_length p.2 (by omega)
      simp only at *
      omega
    · exact handle_unusual_lowers h
  · exact handle_unusual_lowers h

theorem plainTurn_lowers (fields : List (FieldCode σ)) (b : ℕ) :
    Lowers (plainTurn fields b) fun p => p.2.length := by
  intro p q h
  show q.2.length < p.2.length
  simp only [plainTurn] at h
  split at h
  case h_1 f hf =>
    obtain ⟨r, hr, he⟩ := Option.map_eq_some_iff.1 h
    cases he
    have htag : f.tag = (ReadTag p.2).1 := by simpa using List.find?_some hf
    have := @ReadTag_length p.2 fun h0 => f.not_ends (.inl (htag.trans h0))
    have := f.read_le _ _ _ _ _ hr
    omega
  case h_2 => exact handle_unusual_lowers h

/-! ## What every block keeps -/

/-- Reading the field keeps the property `P` of the message. -/
def FieldCode.Keeps (f : FieldCode σ) (P : σ → Prop) : Prop :=
  ∀ b m buf m' rest, f.read b m buf = some (m', rest) → P m → P m'

/-- **What every block keeps, the plain loop keeps.** -/
theorem plainLoop_keeps {fields : List (FieldCode σ)} {P : σ → Prop} (hkeeps : ∀ f ∈ fields, f.Keeps P) {b : ℕ}
    {p : σ × Bytes} {r : σ × Bool} (h : plainLoop fields b p = some r) (hp : P p.1) : P r.1 := by
  refine loop_inv (I := fun p : σ × Bytes => P p.1) (Q := fun r : σ × Bool => P r.1) ?_ ?_ hp h
  · intro p q hp ht
    simp only [plainTurn] at ht
    split at ht
    case h_1 f hf =>
      obtain ⟨r, hr, he⟩ := Option.map_eq_some_iff.1 ht
      cases he
      exact hkeeps f (List.mem_of_find?_eq_some hf) _ _ _ _ _ hr hp
    case h_2 => exact (handle_unusual_next ht).2.2 ▸ hp
  · intro p r hp ht
    simp only [plainTurn] at ht
    split at ht
    case h_1 f hf =>
      obtain ⟨_, _, he⟩ := Option.map_eq_some_iff.1 ht
      cases he
    case h_2 =>
      rw [handle_unusual] at ht
      split_ifs at ht
      · cases ht; exact hp
      · obtain ⟨_, _, he⟩ := Option.map_eq_some_iff.1 ht
        cases he

/-! ## The jumps change nothing -/

section
variable {fields : List (FieldCode σ)} (hnodup : (fields.map (·.tag)).Nodup) (b : ℕ)

include hnodup in
theorem find?_tag {f : FieldCode σ} (hf : f ∈ fields) : (fields.find? fun g => g.tag = f.tag) = some f := by
  induction fields with
  | nil => cases hf
  | cons g gs ih =>
    obtain ⟨hg, hgs⟩ := List.nodup_cons.1 hnodup
    rcases List.mem_cons.1 hf with rfl | hf
    · simp
    · have hne : g.tag ≠ f.tag := fun h => hg (List.mem_map.2 ⟨f, hf, h.symm⟩)
      rw [List.find?_cons_of_neg (by simpa using hne)]
      exact ih hgs hf

/-- At the tag of a field, the plain loop reads a value of this field. -/
theorem plainLoop_tag (hnodup : (fields.map (·.tag)).Nodup) {f : FieldCode σ} (hf : f ∈ fields) {m : σ}
    {buf rest : Bytes} (hbuf : ReadTag buf = (f.tag, rest)) :
    plainLoop fields b (m, buf) = (f.read b m rest).bind (plainLoop fields b) := by
  rw [plainLoop, loop_eq (plainTurn_lowers fields b), plainTurn, hbuf]
  simp only [find?_tag hnodup hf, Option.bind_map]
  rfl

theorem plainLoop_expect (hnodup : (fields.map (·.tag)).Nodup) {f : FieldCode σ} (hf : f ∈ fields) {m : σ}
    {buf rest : Bytes} (hbuf : ExpectTag f.tag buf = some rest) :
    plainLoop fields b (m, buf) = (f.read b m rest).bind (plainLoop fields b) := by
  obtain ⟨x, hx, rfl⟩ := ExpectTag_eq_some.1 hbuf
  refine plainLoop_tag b hnodup hf ?_
  have := f.tag_lt
  rw [ReadTag, ReadVarint32, kMaxVarintBytes, readVarint_byte (by omega), ← hx]
  simp only [Option.map_some, Option.getD_some, Prod.mk.injEq, and_true]
  omega

theorem plainLoop_unusual {p : σ × Bytes} (h : (fields.find? fun f => f.tag = (ReadTag p.2).1) = none) :
    plainLoop fields b p =
      (handle_unusual b (ReadTag p.2).1 p.1 p.2 (ReadTag p.2).2).bind fun r => r.elim (plainLoop fields b) some := by
  rw [plainLoop, loop_eq (plainTurn_lowers fields b), plainTurn]
  simp only [h]
  rfl

/-- At the end of the bytes the plain loop ends. -/
theorem plainLoop_end (m : σ) : plainLoop fields b (m, []) = some (m, true) := by
  have hnone : (fields.find? fun f => f.tag = (ReadTag ([] : Bytes)).1) = none := by
    rw [List.find?_eq_none]
    intro f _ h0
    exact f.not_ends (.inl (of_decide_eq_true h0))
  rw [plainLoop_unusual b hnone, handle_unusual, if_pos (.inl rfl)]
  rfl

/-- The inner loop of a block is left to the plain loop. -/
theorem plainLoop_block (hnodup : (fields.map (·.tag)).Nodup) {f : FieldCode σ} (hf : f ∈ fields) (p : σ × Bytes) :
    (loop (blockTurn f b) (fun p => p.2.length) p).bind (plainLoop fields b) =
      (f.read b p.1 p.2).bind (plainLoop fields b) := by
  induction hn : p.2.length using Nat.strongRecOn generalizing p with
  | ind n ih =>
    rw [loop_eq (blockTurn_lowers f b), Option.bind_assoc, blockTurn, Option.bind_map]
    refine Option.bind_congr fun q hq => ?_
    have hle := f.read_le _ _ _ _ _ hq
    simp only [Function.comp]
    split_ifs
    · cases hx : ExpectTag f.tag q.2 with
      | none => rfl
      | some rest =>
        have hlt := ExpectTag_length hx
        rw [show q = (q.1, q.2) from rfl, plainLoop_expect b hnodup hf hx]
        exact ih rest.length (by omega) (q.1, rest) rfl
    · rfl

theorem head?_dropWhile_eq_find? (p : α → Bool) (l : List α) : (l.dropWhile fun a => !p a).head? = l.find? p := by
  induction l with
  | nil => rfl
  | cons a l ih =>
    cases ha : p a with
    | true => rw [List.dropWhile_cons_of_neg (by simp [ha]), List.find?_cons_of_pos ha]; rfl
    | false => rw [List.dropWhile_cons_of_pos (by simp [ha]), List.find?_cons_of_neg (by simp [ha]), ih]

/-- A block and the blocks jumped to from there are left to the plain loop. -/
theorem plainLoop_parseFrom (hnodup : (fields.map (·.tag)).Nodup) {fs : List (FieldCode σ)} :
    ∀ {f : FieldCode σ} (p : σ × Bytes), (∀ g ∈ f :: fs, g ∈ fields) →
    ((parseFrom b f fs p).bind fun r => r.elim (plainLoop fields b) some) =
      (f.read b p.1 p.2).bind (plainLoop fields b) := by
  induction fs with
  | nil =>
    intro f p hmem
    rw [← plainLoop_block b hnodup (hmem f (.head _)), parseFrom, Option.bind_map]
    refine Option.bind_congr fun q _ => ?_
    simp only [Function.comp]
    split_ifs with hq
    · have hq' : q = (q.1, []) := Prod.ext rfl (List.isEmpty_iff.1 hq)
      rw [hq', plainLoop_end]
      rfl
    · rfl
  | cons g gs ih =>
    intro f p hmem
    rw [← plainLoop_block b hnodup (hmem f (.head _)), parseFrom, Option.bind_assoc]
    refine Option.bind_congr fun q _ => ?_
    cases hx : ExpectTag g.tag q.2 with
    | none => rfl
    | some rest =>
      rw [show q = (q.1, q.2) from rfl, plainLoop_expect b hnodup (hmem g (.tail _ (.head _))) hx]
      exact ih (q.1, rest) fun g' hg' => hmem g' (.tail _ hg')

/-- **The loop with jumps does what the plain loop does**, on every input. -/
theorem mergeLoop_eq_plainLoop (hnodup : (fields.map (·.tag)).Nodup) (p : σ × Bytes) :
    mergeLoop fields b p = plainLoop fields b p := by
  refine loop_congr (mergeTurn_lowers fields b) (fun p => ?_) p
  change ((mergeTurn fields b p).bind fun r => r.elim (plainLoop fields b) some) = plainLoop fields b p
  have hfind := head?_dropWhile_eq_find? (fun f : FieldCode σ => decide (f.tag = (ReadTag p.2).1)) fields
  simp only [← decide_not] at hfind
  have hunusual (h : (fields.find? fun f => f.tag = (ReadTag p.2).1) = none) :=
    (plainLoop_unusual b h).symm
  simp only [mergeTurn]
  split_ifs with htag
  · split
    case h_1 f fs hdrop =>
      have hsuffix : f :: fs <:+ fields := hdrop ▸ List.dropWhile_suffix _
      have hf : f ∈ fields := hsuffix.subset (.head _)
      have hftag : f.tag = (ReadTag p.2).1 := by
        rw [hdrop, List.head?_cons] at hfind
        simpa using List.find?_some hfind.symm
      rw [show p = (p.1, p.2) from rfl, plainLoop_tag b hnodup hf (Prod.ext hftag.symm rfl)]
      exact plainLoop_parseFrom b hnodup (p.1, (ReadTag p.2).2) fun g hg => hsuffix.subset hg
    case h_2 hdrop =>
      refine hunusual ?_
      rw [← hfind, hdrop]
      rfl
  · refine hunusual ?_
    rw [List.find?_eq_none]
    intro f _ h0
    have hftag : f.tag = (ReadTag p.2).1 := of_decide_eq_true h0
    have hlt := f.tag_lt
    exact htag ⟨Nat.pos_of_ne_zero fun h => f.not_ends (.inl (hftag.trans h)), by omega⟩

end

/-! ## What was written is read -/

/-- A part of the bytes of a message: what the block of a field writes for a message, or a
    field that the type does not know. -/
inductive Piece (σ : Type) where
  | field (f : FieldCode σ) (m : σ)
  | unknown (u : Field)

namespace Piece

def bytes : Piece σ → Bytes
  | .field f m => f.write m
  | .unknown u => encodeFields [u]

/-- What parsing the piece makes of the message so far. -/
def effect (m₀ : σ) : Piece σ → Option σ
  | .field f m => if f.valid m then some (f.merge m₀ m) else none
  | .unknown _ => some m₀

def known : Piece σ → Bool
  | .field _ _ => true
  | .unknown _ => false

/-- Only the known pieces matter. -/
theorem foldlM_known (ps : List (Piece σ)) (m : σ) :
    (ps.filter known).foldlM effect m = ps.foldlM effect m := by
  induction ps generalizing m with
  | nil => rfl
  | cons p ps ih =>
    cases p with
    | field f m₁ =>
      rw [List.filter_cons_of_pos rfl, List.foldlM_cons, List.foldlM_cons]
      exact Option.bind_congr fun m' _ => ih m'
    | unknown u =>
      rw [List.filter_cons_of_neg (by simp [known]), List.foldlM_cons]
      exact ih m

/-- The piece is one that a parser with the blocks `fields` meets as such. -/
def OK (fields : List (FieldCode σ)) (b : ℕ) : Piece σ → Prop
  | .field f m => f ∈ fields ∧ f.depth ≤ b ∧ (f.write m).length < 2 ^ 31
  | .unknown u => u.WF b ∧ ∀ f ∈ fields, f.tag ≠ u.tag

end Piece

section
variable {fields : List (FieldCode σ)} {b : ℕ}

/-- Values of a field are read one after the other. -/
theorem plainLoop_readsAs (hnodup : (fields.map (·.tag)).Nodup) {f : FieldCode σ} (hf : f ∈ fields)
    {written : Bytes} {effect : σ → Option σ} (h : ReadsAs f.tag (f.read b) written effect) (m : σ) (ys : Bytes) :
    plainLoop fields b (m, written ++ ys) = (effect m).bind fun m' => plainLoop fields b (m', ys) := by
  induction h generalizing m with
  | nil => rfl
  | @cons value written one rest hone _ ih =>
    have htag : ReadTag (varint f.tag ++ (value ++ (written ++ ys))) = (f.tag, value ++ (written ++ ys)) :=
      ReadTag_varint (by have := f.tag_lt; omega) _
    rw [List.append_assoc, List.append_assoc, plainLoop_tag b hnodup hf htag, hone, Option.bind_map,
      Option.bind_assoc]
    exact Option.bind_congr fun m' _ => ih m'

/-- An unknown field changes nothing. -/
theorem plainLoop_unknown {u : Field} (hu : u.WF b) (hne : ∀ f ∈ fields, f.tag ≠ u.tag) (m : σ) (ys : Bytes) :
    plainLoop fields b (m, encodeFields [u] ++ ys) = plainLoop fields b (m, ys) := by
  have htag : ReadTag (encodeFields [u] ++ ys) = (u.tag, u.payload ++ ys) := by
    simp only [encodeFields, List.append_nil, List.append_assoc]
    exact ReadTag_varint hu.tag_lt _
  rw [plainLoop_unusual b, htag]
  · simp only [handle_unusual, if_neg hu.not_ends, SkipField_payload hu]
    rfl
  · rw [htag, List.find?_eq_none]
    exact fun f hf h => hne f hf (of_decide_eq_true h)

/-- **Pieces are parsed one by one**, whatever follows them. -/
theorem plainLoop_pieces (hnodup : (fields.map (·.tag)).Nodup) {ps : List (Piece σ)}
    (hps : ∀ p ∈ ps, p.OK fields b) (m : σ) (ys : Bytes) :
    plainLoop fields b (m, ps.flatMap Piece.bytes ++ ys) =
      (ps.foldlM Piece.effect m).bind fun m' => plainLoop fields b (m', ys) := by
  induction ps generalizing m with
  | nil => rfl
  | cons p ps ih =>
    have ih' := ih fun q hq => hps q (.tail _ hq)
    rw [List.flatMap_cons, List.append_assoc, List.foldlM_cons, Option.bind_eq_bind, Option.bind_assoc]
    cases p with
    | field f m₁ =>
      obtain ⟨hf, hdepth, hlen⟩ := hps (.field f m₁) (.head _)
      obtain ⟨effect, hreads, heffect⟩ := f.read_write b m₁ hdepth hlen
      rw [Piece.bytes, plainLoop_readsAs hnodup hf hreads, heffect, Piece.effect]
      exact Option.bind_congr fun m' _ => ih' m'
    | unknown u =>
      obtain ⟨hu, hne⟩ := hps (.unknown u) (.head _)
      rw [Piece.bytes, plainLoop_unknown hu hne]
      exact ih' m

end

/-! ## Message types -/

/-- The generated code of a message type. -/
structure MessageCode (σ : Type) where
  default : σ
  fields : List (FieldCode σ)
  /-- How deep messages nest in its fields. -/
  depth : ℕ
  nodup : (fields.map (·.tag)).Nodup
  depth_le : ∀ f ∈ fields, f.depth ≤ depth
  merge_default : ∀ m, fields.foldl (fun m₀ f => f.merge m₀ m) default = m

namespace MessageCode

/-- `default_recursion_limit_`. -/
def kRecursionLimit : ℕ := 100

variable (c : MessageCode σ)

def SerializeWithCachedSizesToArray (m : σ) : Bytes := c.fields.flatMap fun f => f.write m

def ByteSize (m : σ) : ℕ := (c.fields.map fun f => f.size m).sum

/-- `m₀.MergeFrom(m)`. -/
def MergeFrom (m₀ m : σ) : σ := c.fields.foldl (fun m₀ f => f.merge m₀ m) m₀

/-- The message, and `ConsumedEntireMessage` of the stream. -/
def MergePartialFromCodedStream (b : ℕ) (m : σ) (buf : Bytes) : Option (σ × Bool) :=
  mergeLoop c.fields b (m, buf)

/-- A parse that succeeded within the stream's limit. -/
def entire (r : Option (σ × Bool)) : Option σ := r.bind fun p => if p.2 then some p.1 else none

/-- `ParseFromArray`, which clears the message first. -/
def ParseFromArray (buf : FlatStream) : Option σ :=
  entire (c.MergePartialFromCodedStream kRecursionLimit c.default buf.1)

/-- Every field holds what its reader accepts. -/
def valid (m : σ) : Bool := c.fields.all fun f => f.valid m

/-- **`ByteSize` is the number of bytes that are written.** -/
theorem length_Serialize (m : σ) : (c.SerializeWithCachedSizesToArray m).length = c.ByteSize m := by
  simp only [SerializeWithCachedSizesToArray, ByteSize, List.length_flatMap, FieldCode.size_eq]

/-- What the blocks write for `m`. -/
def pieces (m : σ) : List (Piece σ) := c.fields.map fun f => .field f m

theorem pieces_bytes (m : σ) : (c.pieces m).flatMap Piece.bytes = c.SerializeWithCachedSizesToArray m := by
  rw [pieces, List.flatMap_map]; rfl

theorem pieces_ok {b : ℕ} {m : σ} (hb : c.depth ≤ b) (h : (c.SerializeWithCachedSizesToArray m).length < 2 ^ 31) :
    ∀ p ∈ c.pieces m, p.OK c.fields b := by
  intro p hp
  obtain ⟨f, hf, rfl⟩ := List.mem_map.1 hp
  refine ⟨hf, (c.depth_le f hf).trans hb, lt_of_le_of_lt ?_ h⟩
  rw [SerializeWithCachedSizesToArray, List.length_flatMap]
  exact List.le_sum_of_mem (List.mem_map.2 ⟨f, hf, rfl⟩)

theorem pieces_effect (m₀ m : σ) :
    (c.pieces m).foldlM Piece.effect m₀ = if c.valid m then some (c.MergeFrom m₀ m) else none := by
  rw [pieces, valid, MergeFrom]
  induction c.fields generalizing m₀ with
  | nil => rfl
  | cons f fs ih =>
    rw [List.map_cons, List.foldlM_cons, Piece.effect, List.all_cons, List.foldl_cons]
    cases hf : f.valid m with
    | false => rfl
    | true => exact ih (f.merge m₀ m)

/-- The pieces of several messages merge one message after the other. -/
theorem pieces_flatMap_effect (m₀ : σ) (ms : List σ) :
    (ms.flatMap c.pieces).foldlM Piece.effect m₀ = if ms.all c.valid then some (ms.foldl c.MergeFrom m₀) else none := by
  induction ms generalizing m₀ with
  | nil => rfl
  | cons m ms ih =>
    rw [List.flatMap_cons, List.foldlM_append, pieces_effect, List.all_cons, List.foldl_cons]
    cases hm : c.valid m with
    | false => rfl
    | true => exact ih (c.MergeFrom m₀ m)

/-- **Parsing pieces.** -/
theorem MergePartial_pieces {b : ℕ} {ps : List (Piece σ)} (hps : ∀ p ∈ ps, p.OK c.fields b) (m : σ) :
    entire (c.MergePartialFromCodedStream b m (ps.flatMap Piece.bytes)) = ps.foldlM Piece.effect m := by
  have h := plainLoop_pieces c.nodup hps m []
  rw [List.append_nil] at h
  rw [MergePartialFromCodedStream, mergeLoop_eq_plainLoop _ c.nodup, h]
  simp only [plainLoop_end, entire, Option.bind_assoc, Option.bind_some, if_true]
  exact Option.bind_fun_some _

/-- **Parsing what was serialized** merges it into the message, if it is valid. -/
theorem MergePartial_Serialize {b : ℕ} (hb : c.depth ≤ b) (m₀ : σ) {m : σ}
    (h : (c.SerializeWithCachedSizesToArray m).length < 2 ^ 31) :
    entire (c.MergePartialFromCodedStream b m₀ (c.SerializeWithCachedSizesToArray m)) =
      if c.valid m then some (c.MergeFrom m₀ m) else none := by
  rw [← pieces_bytes, MergePartial_pieces c (c.pieces_ok hb h), pieces_effect]

/-- The bytes of a message that is not too long. -/
def serialized (m : σ) (h : c.ByteSize m ≤ kDefaultTotalBytesLimit) : FlatStream :=
  ⟨c.SerializeWithCachedSizesToArray m, (c.length_Serialize m).le.trans h⟩

/-- **A message is parsed back from its bytes**, if it is valid. -/
theorem parse_serialize (hdepth : c.depth ≤ kRecursionLimit) {m : σ} (h : c.ByteSize m ≤ kDefaultTotalBytesLimit) :
    c.ParseFromArray (c.serialized m h) = if c.valid m then some m else none := by
  have hlen : (c.SerializeWithCachedSizesToArray m).length < 2 ^ 31 := (c.serialized m h).2.trans_lt (by decide)
  rw [ParseFromArray, serialized, c.MergePartial_Serialize hdepth _ hlen, MergeFrom, c.merge_default]

/-- What every block keeps, the parser keeps. -/
theorem MergePartial_keeps {P : σ → Prop} (hkeeps : ∀ f ∈ c.fields, f.Keeps P) {b : ℕ} {m m' : σ} {buf : Bytes}
    (h : entire (c.MergePartialFromCodedStream b m buf) = some m') (hm : P m) : P m' := by
  obtain ⟨r, hr, he⟩ := Option.bind_eq_some_iff.1 h
  split_ifs at he
  cases he
  rw [MergePartialFromCodedStream, mergeLoop_eq_plainLoop _ c.nodup] at hr
  exact plainLoop_keeps hkeeps hr hm

theorem ParseFromArray_pieces {ps : List (Piece σ)} (hps : ∀ p ∈ ps, p.OK c.fields kRecursionLimit)
    (h : (ps.flatMap Piece.bytes).length ≤ kDefaultTotalBytesLimit) :
    c.ParseFromArray ⟨ps.flatMap Piece.bytes, h⟩ = ps.foldlM Piece.effect c.default :=
  MergePartial_pieces c hps c.default

end MessageCode

end Lib
