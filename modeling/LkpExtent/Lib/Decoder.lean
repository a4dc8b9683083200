/-
  Incremental decoders: a stream arrives in reads of arbitrary sizes, each read
  is appended to a buffer, and the decoder takes items off the front of the
  buffer for as long as it can.

  * `Decoder`: what the front of the buffer holds (`Head`), with the two laws that
    make decoding independent of the reads: an item found is not undone by later
    input, and neither is an error;
  * `Decoder.decode`: the loop over one buffer;  `Decoder.session`: one loop after
    each read;
  * `session_items`, `session_buf`, `session_error`: a session computes what
    `decode` computes on the whole input at once;
  * `session_stuck`: after an error nothing more is found;
  * `decode_encode`: a stream of encoded items decodes to these items;  `decode_refused`: or
    to those before the first item that is refused.
-/
import Mathlib.Data.List.Induction

namespace Lib

universe u v w

/-- What the front of the buffered input is: too short to tell, an item of `n`
    units, or an error. -/
inductive Head (μ : Type u) (ε : Type v) where
  | more
  | item (m : μ) (n : ℕ)
  | bad (e : ε)

/-- An item of `n` units, or why it is refused. -/
def Head.judged {μ : Type u} {ε : Type v} (m : μ) (n : ℕ) : Option ε → Head μ ε
  | none => .item m n
  | some e => .bad e

/-- An incremental decoder. -/
structure Decoder (α : Type w) (μ : Type u) (ε : Type v) where
  head : List α → Head μ ε
  nil : head [] = .more
  consumes : ∀ {xs m n}, head xs = .item m n → 0 < n ∧ n ≤ xs.length
  item_stable : ∀ {xs m n} (ys), head xs = .item m n → head (xs ++ ys) = .item m n
  bad_stable : ∀ {xs e} (ys), head xs = .bad e → head (xs ++ ys) = .bad e

/-- What one decoding loop yields: the items in order, the error it stopped at if
    any, and the input left in the buffer. -/
@[ext] structure Decoded (α : Type w) (μ : Type u) (ε : Type v) where
  items : List μ
  error : Option ε
  rest : List α

/-- The state of a connection being decoded: all items so far, all errors
    reported so far, and the buffer. -/
@[ext] structure Session (α : Type w) (μ : Type u) (ε : Type v) where
  items : List μ
  errors : List ε
  buf : List α

namespace Decoder

variable {α : Type w} {μ : Type u} {ε : Type v} (D : Decoder α μ ε)

/-- Take items off the front of the buffer for as long as there are any. -/
def decode (xs : List α) : Decoded α μ ε :=
  match h : D.head xs with
  | .more => ⟨[], none, xs⟩
  | .bad e => ⟨[], some e, xs⟩
  | .item m n =>
    have := D.consumes h
    let o := decode (xs.drop n)
    ⟨m :: o.items, o.error, o.rest⟩
termination_by xs.length
decreasing_by simp only [List.length_drop]; omega

/-- One read: append it to the buffer and run the loop. -/
def feed (s : Session α μ ε) (chunk : List α) : Session α μ ε :=
  let o := D.decode (s.buf ++ chunk)
  ⟨s.items ++ o.items, s.errors ++ o.error.toList, o.rest⟩

/-- The reads of one connection. -/
def session (chunks : List (List α)) : Session α μ ε := chunks.foldl D.feed ⟨[], [], []⟩

variable {D} {xs ys : List α} {m : μ} {n : ℕ} {e : ε}

theorem decode_more (h : D.head xs = .more) : D.decode xs = ⟨[], none, xs⟩ := by
  rw [decode]; split <;> simp_all

theorem decode_bad (h : D.head xs = .bad e) : D.decode xs = ⟨[], some e, xs⟩ := by
  rw [decode]; split <;> simp_all

theorem decode_item (h : D.head xs = .item m n) :
    D.decode xs = ⟨m :: (D.decode (xs.drop n)).items, (D.decode (xs.drop n)).error,
      (D.decode (xs.drop n)).rest⟩ := by
  rw [decode]; split <;> simp_all

theorem decode_nil : D.decode [] = ⟨[], none, []⟩ := decode_more D.nil

/-- The loop stops where no item is left. -/
theorem decode_rest (xs : List α) :
    D.decode (D.decode xs).rest = ⟨[], (D.decode xs).error, (D.decode xs).rest⟩ := by
  induction hl : xs.length using Nat.strongRecOn generalizing xs with
  | _ k ih =>
    cases h : D.head xs with
    | more => rw [decode_more h]; exact decode_more h
    | bad e => rw [decode_bad h]; exact decode_bad h
    | item m n =>
      have := D.consumes h
      rw [decode_item h]
      exact ih (xs.drop n).length (by simp; omega) _ rfl

/-- **Decoding does not depend on where the input is cut.** -/
theorem decode_append (xs ys : List α) :
    D.decode (xs ++ ys) =
      ⟨(D.decode xs).items ++ (D.decode ((D.decode xs).rest ++ ys)).items,
        (D.decode ((D.decode xs).rest ++ ys)).error, (D.decode ((D.decode xs).rest ++ ys)).rest⟩ := by
  induction hl : xs.length using Nat.strongRecOn generalizing xs with
  | _ k ih =>
    cases h : D.head xs with
    | more => rw [decode_more h]; rfl
    | bad e => rw [decode_bad h]; rfl
    | item m n =>
      obtain ⟨hn, hle⟩ := D.consumes h
      have hrec := ih (xs.drop n).length (by simp; omega) (xs.drop n) rfl
      rw [decode_item (D.item_stable ys h), decode_item h, List.drop_append_of_le_length hle, hrec]
      rfl

/-- A session whose buffer holds no further item, seen after more reads. -/
theorem foldl_feed (chunks : List (List α)) (s : Session α μ ε)
    (hs : D.decode s.buf = ⟨[], s.errors.head?, s.buf⟩) :
    (chunks.foldl D.feed s).items = s.items ++ (D.decode (s.buf ++ chunks.flatten)).items ∧
    (chunks.foldl D.feed s).buf = (D.decode (s.buf ++ chunks.flatten)).rest ∧
    (chunks.foldl D.feed s).errors.head? = (D.decode (s.buf ++ chunks.flatten)).error := by
  induction chunks generalizing s with
  | nil => simp [hs]
  | cons c cs ih =>
    have herr : (D.feed s c).errors.head? = (D.decode (s.buf ++ c)).error := by
      cases he : s.errors with
      | nil => simp only [feed, he, List.nil_append]; cases (D.decode (s.buf ++ c)).error <;> rfl
      | cons e es =>
        -- an error reported stays the answer of every later loop
        have : D.head s.buf = .bad e := by
          cases h : D.head s.buf with
          | more => rw [decode_more h, he] at hs; simp at hs
          | bad e' => rw [decode_bad h, he] at hs; simp at hs; rw [hs]
          | item m n => rw [decode_item h] at hs; simp at hs
        rw [decode_bad (D.bad_stable c this)]; simp [feed, he]
    obtain ⟨h₁, h₂, h₃⟩ := ih (D.feed s c) (by rw [herr]; exact decode_rest _)
    rw [List.foldl_cons, h₁, h₂, h₃, List.flatten_cons, ← List.append_assoc,
      decode_append (s.buf ++ c)]
    exact ⟨by simp [feed], rfl, rfl⟩

theorem foldl_feed_nil (chunks : List (List α)) :
    (D.session chunks).items = (D.decode chunks.flatten).items ∧
    (D.session chunks).buf = (D.decode chunks.flatten).rest ∧
    (D.session chunks).errors.head? = (D.decode chunks.flatten).error := by
  simpa [session] using foldl_feed (D := D) chunks ⟨[], [], []⟩ decode_nil

/-- The items of a session are those of the whole input. -/
theorem session_items (chunks : List (List α)) :
    (D.session chunks).items = (D.decode chunks.flatten).items := (foldl_feed_nil chunks).1

/-- The buffer left by a session is what the whole input leaves. -/
theorem session_buf (chunks : List (List α)) :
    (D.session chunks).buf = (D.decode chunks.flatten).rest := (foldl_feed_nil chunks).2.1

/-- The first error a session reports is the error of the whole input. -/
theorem session_error (chunks : List (List α)) :
    (D.session chunks).errors.head? = (D.decode chunks.flatten).error := (foldl_feed_nil chunks).2.2

/-- An error is found at the front of what is left. -/
theorem decode_error (h : (D.decode xs).error = some e) : D.head (D.decode xs).rest = .bad e := by
  have hrest := decode_rest (D := D) xs
  rw [h] at hrest
  cases hh : D.head (D.decode xs).rest with
  | more => rw [decode_more hh] at hrest; simp at hrest
  | bad e' =>
    rw [decode_bad hh] at hrest
    simp only [Decoded.mk.injEq, Option.some.injEq, true_and, and_true] at hrest
    rw [hrest]
  | item m n => rw [decode_item hh] at hrest; simp at hrest

/-- **A session that has met an error is stuck**: what is read later is kept behind the
    bad item, and no further item is found. -/
theorem session_stuck {chunks : List (List α)} (h : (D.session chunks).errors.head? = some e)
    (more : List (List α)) :
    (D.session (chunks ++ more)).items = (D.session chunks).items ∧
    (D.session (chunks ++ more)).buf = (D.session chunks).buf ++ more.flatten ∧
    D.head (D.session (chunks ++ more)).buf = .bad e := by
  rw [session_error] at h
  have hbad := D.bad_stable more.flatten (decode_error h)
  simp only [session_items, session_buf]
  rw [List.flatten_append, decode_append, decode_bad hbad]
  exact ⟨List.append_nil _, rfl, hbad⟩

/-- **A stream of encoded items decodes to these items.** -/
theorem decode_encode (enc : μ → List α) {ms : List μ}
    (h : ∀ m ∈ ms, ∀ ys, D.head (enc m ++ ys) = .item m (enc m).length) :
    D.decode (ms.map enc).flatten = ⟨ms, none, []⟩ := by
  induction ms with
  | nil => exact decode_nil
  | cons m ms ih =>
    rw [List.map_cons, List.flatten_cons, decode_item (h m (by simp) _), List.drop_left,
      ih fun m' hm' => h m' (by simp [hm'])]

/-- A session over a stream of encoded items, however it is cut into reads. -/
theorem session_encode (enc : μ → List α) {ms : List μ} {chunks : List (List α)}
    (h : ∀ m ∈ ms, ∀ ys, D.head (enc m ++ ys) = .item m (enc m).length)
    (hc : chunks.flatten = (ms.map enc).flatten) : D.session chunks = ⟨ms, [], []⟩ := by
  have hd := decode_encode enc h
  rw [← hc] at hd
  refine Session.ext ?_ ?_ ?_
  · rw [session_items, hd]
  · have := session_error (D := D) chunks
    rw [hd] at this
    exact List.head?_eq_none_iff.1 this
  · rw [session_buf, hd]

/-- **Of a stream of encoded items**, some of which are refused, the items before the first
    refused one are found; that one is what is left at the front. -/
theorem decode_refused (enc : μ → List α) (refused : μ → Option ε) {ms : List μ}
    (h : ∀ m ∈ ms, ∀ ys, D.head (enc m ++ ys) = .judged m (enc m).length (refused m)) :
    D.decode (ms.map enc).flatten = ⟨ms.takeWhile fun m => (refused m).isNone, ms.findSome? refused,
      ((ms.dropWhile fun m => (refused m).isNone).map enc).flatten⟩ := by
  induction ms with
  | nil => exact decode_nil
  | cons m ms ih =>
    have hm := h m List.mem_cons_self (ms.map enc).flatten
    rw [List.map_cons, List.flatten_cons]
    cases hr : refused m with
    | none =>
      rw [hr] at hm
      rw [decode_item hm, List.drop_left, ih fun m' hm' => h m' (List.mem_cons_of_mem _ hm')]
      simp [hr]
    | some e =>
      rw [hr] at hm
      rw [decode_bad hm]
      simp [hr]

end Decoder

end Lib
