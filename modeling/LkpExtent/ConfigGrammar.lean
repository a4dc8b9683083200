/-
  LkpExtent formalization — the grammar of the configuration file, and what
  `ReadConfig` makes of it.

  * `entry`: what the grammar reads from a line;
  * `analyseLine_eq`: what `AnalyseLine` reads (`readEntry`).  It takes the length of
    the part before the comment from `start_pos + 1 - end_pos`: nothing of a part of
    two characters, and the comment too of a longer one;
  * `readConfig_eq`: the map is what the last line for each key says;
  * `readConfig_grammar_iff`: when it is the map of the grammar.
-/
import LkpExtent.Config

namespace LkpExtent

open Lib

/-! ## The grammar -/

/-- The part of the line before its comment. -/
def beforeComment (line : Bytes) : Bytes := line.takeWhile (· != COMMENT_CHAR)

/-- The assignment in a piece of text, cut at its first `=`. -/
def assignmentIn (str : Bytes) : Option (Bytes × Bytes) :=
  let key := strip (str.takeWhile (· != equalsSign))
  if equalsSign ∈ str ∧ key ≠ [] then
    some (key, strip (str.dropWhile (· != equalsSign)).tail) else none

/-- The assignment on a line, accepted in the part before the comment. -/
def entry (line : Bytes) : Option (Bytes × Bytes) := assignmentIn (beforeComment line)

theorem takeWhile_append {a b : Bytes} {c : UInt8} (h : c ∉ a) :
    (a ++ c :: b).takeWhile (· != c) = a := by
  rw [List.takeWhile_append_of_pos]
  · simp
  · intro x hx
    simpa using fun heq : x = c => h (heq ▸ hx)

theorem takeWhile_of_not_mem {a : Bytes} {c : UInt8} (h : c ∉ a) : a.takeWhile (· != c) = a := by
  rw [List.takeWhile_eq_self_iff]
  intro x hx
  simpa using fun heq : x = c => h (heq ▸ hx)

theorem dropWhile_append {a b : Bytes} {c : UInt8} (h : c ∉ a) :
    (a ++ c :: b).dropWhile (· != c) = c :: b := by
  rw [List.dropWhile_append_of_pos]
  · simp
  · intro x hx
    simpa using fun heq : x = c => h (heq ▸ hx)

/-- A line is the part before its comment, and the comment if there is one. -/
theorem line_cases (line : Bytes) :
    (COMMENT_CHAR ∉ line ∧ beforeComment line = line) ∨
    ∃ comment, COMMENT_CHAR ∉ beforeComment line ∧
      line = beforeComment line ++ COMMENT_CHAR :: comment := by
  by_cases h : COMMENT_CHAR ∈ line
  · obtain ⟨a, b, rfl, ha⟩ := List.eq_append_cons_of_mem h
    rw [beforeComment, takeWhile_append ha]
    exact .inr ⟨b, ha, rfl⟩
  · exact .inl ⟨h, takeWhile_of_not_mem h⟩

theorem assignmentIn_append {a b : Bytes} (h : equalsSign ∉ a) :
    assignmentIn (a ++ equalsSign :: b) = if strip a = [] then none else some (strip a, strip b) := by
  unfold assignmentIn
  rw [takeWhile_append h, dropWhile_append h]
  by_cases hkey : strip a = [] <;> simp [hkey]

theorem assignmentIn_of_not_mem {str : Bytes} (h : equalsSign ∉ str) : assignmentIn str = none := by
  unfold assignmentIn
  rw [if_neg]
  exact fun hmem => h hmem.1

/-! ## AnalyseLine -/

/-- What `AnalyseLine` reads from a line. -/
def readEntry (line : Bytes) : Option (Bytes × Bytes) :=
  if (beforeComment line).length ≤ 2 then none
  else if equalsSign ∈ beforeComment line then entry line
  else assignmentIn line

/-- With three characters or more, the whole line is searched for the `=`. -/
theorem analyseUpTo_eq {line : Bytes} {h : ℕ} (hlen : line.length < 2 ^ 31) (h₃ : 3 ≤ h)
    (hle : h ≤ line.length) {p q : Bytes} (hline : line = p ++ equalsSign :: q)
    (hp : equalsSign ∉ p) :
    analyseUpTo line (h - 1) = some (if strip p = [] then none else
      some (strip p, strip (q.take (toSize (h - (p.length + 1)))))) := by
  have hsize : line.length = p.length + 1 + q.length := by rw [hline]; simp; omega
  have hcut : cint (0 + 1 - ((h : ℤ) - 1)) = some (0 + 1 - ((h : ℤ) - 1)) :=
    cint_of_isInt32 ⟨by omega, by omega⟩
  have hnew : substr line (toSize 0) (toSize (0 + 1 - ((h : ℤ) - 1))) = some line := by
    have hhuge := toSize_of_neg (x := 0 + 1 - ((h : ℤ) - 1)) (by omega) (by omega)
    exact (substr_append (a := []) rfl).trans (congrArg some (List.take_of_length_le (by omega)))
  have hfind : toInt32 (find line equalsSign) = p.length := by
    rw [hline, find_append hp, toInt32_of_isInt32 ⟨by omega, by omega⟩]
  have hkey : substr line 0 (toSize p.length) = some p := by
    rw [hline, toSize_of_nonneg (by omega) (by omega)]
    exact (substr_append (a := []) rfl).trans (congrArg some (List.take_left' (by simp)))
  have hbehind : cint ((p.length : ℤ) + 1) = some ((p.length : ℤ) + 1) :=
    cint_of_isInt32 ⟨by omega, by omega⟩
  have hend : cint ((h : ℤ) - 1 + 1) = some (h : ℤ) := by
    rw [Int.sub_add_cancel]
    exact cint_of_isInt32 ⟨by omega, by omega⟩
  have hrest : cint ((h : ℤ) - (p.length + 1)) = some ((h : ℤ) - (p.length + 1)) :=
    cint_of_isInt32 ⟨by omega, by omega⟩
  have hvalue : substr line (toSize (p.length + 1)) (toSize (h - (p.length + 1))) =
      some (q.take (toSize (h - (p.length + 1)))) := by
    rw [hline, List.append_cons]
    refine substr_append ?_
    rw [toSize_of_nonneg (by omega) (by omega)]
    simp
  have hq : (q.take (toSize (h - (p.length + 1)))).length < 2 ^ 31 := by
    rw [List.length_take]; omega
  rw [analyseUpTo, bind_of_some hcut, bind_of_some hnew, hfind, if_neg (by omega),
    bind_of_some hkey, bind_of_some hbehind, bind_of_some hend, bind_of_some hrest,
    bind_of_some hvalue, bind_of_some (trim_eq (by omega))]
  by_cases hstrip : strip p = []
  · rw [hstrip]; rfl
  · rw [if_neg (by simpa using hstrip), if_neg hstrip]
    exact bind_of_some (trim_eq hq)

/-- A line without `=` is not accepted. -/
theorem analyseUpTo_of_not_mem {line : Bytes} {end_pos : ℤ} (hend : IsInt32 (1 - end_pos))
    {new_line : Bytes} (hnew : substr line 0 (toSize (1 - end_pos)) = some new_line)
    (h : equalsSign ∉ new_line) : analyseUpTo line end_pos = some none := by
  have hcut : cint (0 + 1 - end_pos) = some (1 - end_pos) := cint_of_isInt32 hend
  have hstart : toSize 0 = 0 := rfl
  rw [analyseUpTo, bind_of_some hcut, hstart, bind_of_some hnew, find_of_not_mem h, toInt32_npos]
  rfl

/-- A line that starts with its `=`: the key is empty. -/
theorem analyseUpTo_equalsSign (comment : Bytes) :
    analyseUpTo (equalsSign :: comment) 0 = some none := by
  have hcut : cint (0 + 1 - 0) = some 1 := cint_of_isInt32 ⟨by omega, by omega⟩
  have hnew : substr (equalsSign :: comment) (toSize 0) (toSize 1) = some [equalsSign] :=
    substr_append (a := []) rfl
  have hfind : toInt32 (find [equalsSign] equalsSign) = 0 := by
    have hzero : find [equalsSign] equalsSign = 0 := by decide
    rw [hzero]
    exact toInt32_of_isInt32 ⟨by omega, by omega⟩
  have hone : cint (0 + 1) = some 1 := cint_of_isInt32 ⟨by omega, by omega⟩
  have hzero : cint (1 - 1) = some 0 := cint_of_isInt32 ⟨by omega, by omega⟩
  rw [analyseUpTo, bind_of_some hcut, bind_of_some hnew, hfind]
  refine (bind_of_some (a := []) rfl).trans ?_
  rw [bind_of_some hone, bind_of_some hone, bind_of_some hzero]
  rfl

/-- Of a part of two characters nothing is left, of a longer one the whole line. -/
theorem substr_cut {line : Bytes} {h : ℕ} (hlen : line.length < 2 ^ 31) (hpos : 0 < h)
    (hle : h ≤ line.length) :
    substr line 0 (toSize (1 - ((h : ℤ) - 1))) =
      some (if h = 1 then line.take 1 else if h = 2 then [] else line) := by
  have hsub : substr line 0 (toSize (1 - ((h : ℤ) - 1))) =
      some (line.take (toSize (1 - ((h : ℤ) - 1)))) := substr_append (a := []) rfl
  rw [hsub]
  split_ifs with h₁ h₂
  · subst h₁; rfl
  · subst h₂; rfl
  · have hhuge := toSize_of_neg (x := 1 - ((h : ℤ) - 1)) (by omega) (by omega)
    rw [List.take_of_length_le (by omega)]

/-- What is read from a line whose part before the comment is `head`. -/
theorem analyseUpTo_head {head comment : Bytes} (hlen : (head ++ comment).length < 2 ^ 31)
    (hne : head ≠ []) :
    analyseUpTo (head ++ comment) (head.length - 1) = some (if head.length ≤ 2 then none else
      if equalsSign ∈ head then assignmentIn head else assignmentIn (head ++ comment)) := by
  have hpos : 0 < head.length := List.length_pos_iff.2 hne
  have hle : head.length ≤ (head ++ comment).length := by simp
  have hcut := substr_cut hlen hpos hle
  have hint : IsInt32 (1 - ((head.length : ℤ) - 1)) := ⟨by omega, by omega⟩
  by_cases h₁ : head.length = 1
  · obtain ⟨x, rfl⟩ := List.length_eq_one_iff.1 h₁
    rw [if_pos (by simp)]
    by_cases hx : x = equalsSign
    · subst hx
      exact analyseUpTo_equalsSign comment
    · rw [if_pos h₁] at hcut
      exact analyseUpTo_of_not_mem hint hcut (by simpa using Ne.symm hx)
  by_cases h₂ : head.length = 2
  · rw [if_pos (by omega)]
    rw [if_neg h₁, if_pos h₂] at hcut
    exact analyseUpTo_of_not_mem hint hcut (by simp)
  rw [if_neg (by omega)]
  rw [if_neg h₁, if_neg h₂] at hcut
  by_cases hmem : equalsSign ∈ head
  · obtain ⟨p, q, rfl, hp⟩ := List.eq_append_cons_of_mem hmem
    have hline : p ++ equalsSign :: q ++ comment = p ++ equalsSign :: (q ++ comment) := by simp
    have hq : toSize ((p ++ equalsSign :: q).length - (p.length + 1)) = q.length := by
      simp only [List.length_append, List.length_cons] at hlen ⊢
      rw [toSize_of_nonneg (by omega) (by omega)]
      omega
    rw [if_pos hmem, assignmentIn_append hp, analyseUpTo_eq hlen (by omega) hle hline hp, hq,
      List.take_left]
  rw [if_neg hmem]
  by_cases hline : equalsSign ∈ head ++ comment
  · obtain ⟨p, q, hsplit, hp⟩ := List.eq_append_cons_of_mem hline
    have hlt : head.length ≤ p.length := by
      by_contra hgt
      have hinit : p ++ [equalsSign] <+: head := by
        refine List.prefix_of_prefix_length_le ⟨q, ?_⟩ (List.prefix_append head comment) ?_
        · rw [hsplit]; simp
        · simp; omega
      exact hmem (hinit.subset (by simp))
    have hsize : (head ++ comment).length = p.length + 1 + q.length := by rw [hsplit]; simp; omega
    have hhuge := toSize_of_neg (x := head.length - (p.length + 1)) (by omega) (by omega)
    rw [analyseUpTo_eq hlen (by omega) hle hsplit hp, hsplit, assignmentIn_append hp,
      List.take_of_length_le (by omega)]
  · rw [assignmentIn_of_not_mem hline]
    exact analyseUpTo_of_not_mem hint hcut hline

/-- **What `AnalyseLine` reads from a line.** -/
theorem analyseLine_eq {line : Bytes} (hlen : line.length < 2 ^ 31) :
    AnalyseLine line = some (readEntry line) := by
  rcases eq_or_ne line [] with rfl | hne
  · rfl
  have hpos : 0 < line.length := List.length_pos_iff.2 hne
  rw [AnalyseLine, if_neg (by simpa using hne)]
  simp only
  rcases line_cases line with ⟨hno, hhead⟩ | ⟨comment, hno, hline⟩
  · have hend : toInt32 ((line.length : ℤ) - 1) = line.length - 1 :=
      toInt32_of_isInt32 ⟨by omega, by omega⟩
    have hread : analyseUpTo (line ++ []) (line.length - 1) = _ :=
      analyseUpTo_head (by simpa using hlen) hne
    rw [List.append_nil] at hread
    rw [find_of_not_mem hno, toInt32_npos, if_neg (by simp), hend, hread, readEntry, entry, hhead]
  · unfold readEntry entry
    generalize beforeComment line = head at hno hline
    subst hline
    have hsize : head.length < 2 ^ 31 := by
      rw [List.length_append] at hlen; omega
    have hfind : toInt32 (find (head ++ COMMENT_CHAR :: comment) COMMENT_CHAR) = head.length := by
      rw [find_append hno, toInt32_of_isInt32 ⟨by omega, by omega⟩]
    rw [hfind, if_pos (by omega)]
    rcases eq_or_ne head [] with rfl | hhead
    · rfl
    have hheadpos : 0 < head.length := List.length_pos_iff.2 hhead
    rw [if_neg (by omega), cint_of_isInt32 ⟨by omega, by omega⟩, Option.bind_some]
    exact analyseUpTo_head hlen hhead

/-! ## ReadConfig -/

/-- The loop adds what its lines assign, the last one for a key winning. -/
theorem readLines_eq {lines : List Bytes} (hlen : ∀ line ∈ lines, line.length < 2 ^ 31)
    (m : ConfigMap) : readLines m lines = some (lines.foldl (assignLine readEntry) m) := by
  induction lines generalizing m with
  | nil => rfl
  | cons line lines ih =>
    have hlines : ∀ l ∈ lines, l.length < 2 ^ 31 := fun l hl => hlen l (by simp [hl])
    rw [readLines, bind_of_some (analyseLine_eq (hlen line (by simp))), List.foldl_cons]
    rcases hread : readEntry line with _ | ⟨key, value⟩
    · simp only [ih hlines, assignLine, hread]
    · simp only [ih hlines, assignLine, hread]

/-- **The map of `ReadConfig`** is what the last line for each key says. -/
theorem readConfig_eq {content : Bytes} (hlen : ∀ line ∈ getlines content, line.length < 2 ^ 31) :
    ReadConfig (some content) = some (true, assign readEntry (getlines content)) := by
  rw [ReadConfig, readLines_eq hlen]
  rfl

/-! ## When the map is the one of the grammar -/

/-- Each key has the value of the last accepted line for it, and there is no other key. -/
def GrammarMap (content : Bytes) (m : ConfigMap) : Prop :=
  ∀ key value, m key = some value ↔
    ∃ line, entry line = some (key, value) ∧ LastLine entry (getlines content) key line

/-- An `=` only in the comment, behind three characters or more. -/
def HiddenAssignment (line : Bytes) : Prop :=
  3 ≤ (beforeComment line).length ∧ equalsSign ∉ beforeComment line ∧ equalsSign ∈ line

/-- The key `k`, its `=`, and then the comment or the end of the line. -/
def TwoCharacters (k : UInt8) (line : Bytes) : Prop :=
  beforeComment line = [k, equalsSign] ∧ IsSpace k = false ∧ k ≠ equalsSign

instance (line : Bytes) : Decidable (HiddenAssignment line) :=
  inferInstanceAs (Decidable (_ ∧ _ ∧ _))

instance (k : UInt8) (line : Bytes) : Decidable (TwoCharacters k line) :=
  inferInstanceAs (Decidable (_ ∧ _ ∧ _))

theorem grammarMap_iff {content : Bytes} {m : ConfigMap} :
    GrammarMap content m ↔ m = assign entry (getlines content) := by
  constructor
  · intro h
    ext key value
    rw [h, assign_eq_some]
  · rintro rfl key value
    exact assign_eq_some

theorem mem_of_mem_strip {str : Bytes} {x : UInt8} (h : x ∈ strip str) : x ∈ str :=
  List.dropWhile_subset _ ((List.rdropWhile_prefix _ _).subset h)

theorem mem_strip {str : Bytes} {x : UInt8} (h : x ∈ str) (hx : IsSpace x = false) :
    x ∈ strip str := by
  have hdrop : x ∈ str.dropWhile IsSpace := by
    rw [← List.takeWhile_append_dropWhile (p := IsSpace) (l := str)] at h
    refine (List.mem_append.1 h).resolve_left ?_
    intro htake
    rw [List.mem_takeWhile_imp htake] at hx
    cases hx
  rw [← List.rdropWhile_append_rtakeWhile (p := IsSpace) (l := str.dropWhile IsSpace)] at hdrop
  refine (List.mem_append.1 hdrop).resolve_right ?_
  intro htake
  rw [List.mem_rtakeWhile_imp htake] at hx
  cases hx

theorem assignmentIn_eq_some {str key value : Bytes} (h : assignmentIn str = some (key, value)) :
    ∃ a b, str = a ++ equalsSign :: b ∧ equalsSign ∉ a ∧ key = strip a ∧ value = strip b ∧ key ≠ [] := by
  by_cases hmem : equalsSign ∈ str
  · obtain ⟨a, b, rfl, ha⟩ := List.eq_append_cons_of_mem hmem
    rw [assignmentIn_append ha] at h
    split_ifs at h with hkey
    cases h
    exact ⟨a, b, rfl, ha, rfl, rfl, hkey⟩
  · rw [assignmentIn_of_not_mem hmem] at h
    cases h

/-- No key of the grammar has a comment character in it. -/
theorem comment_not_mem_key {line key value : Bytes} (h : entry line = some (key, value)) :
    COMMENT_CHAR ∉ key := by
  obtain ⟨a, b, hsplit, -, rfl, -, -⟩ := assignmentIn_eq_some h
  intro hmem
  have hhead : COMMENT_CHAR ∈ beforeComment line := by
    rw [hsplit]
    exact List.mem_append_left _ (mem_of_mem_strip hmem)
  simpa using List.mem_takeWhile_imp hhead

/-- What is read from a line with a hidden assignment has the comment character in its key. -/
theorem readEntry_hidden {line : Bytes} (h : HiddenAssignment line) :
    ∃ key value, readEntry line = some (key, value) ∧ COMMENT_CHAR ∈ key := by
  obtain ⟨hlen, hno, hmem⟩ := h
  rcases line_cases line with ⟨-, hhead⟩ | ⟨comment, -, hline⟩
  · rw [hhead] at hno
    exact absurd hmem hno
  rw [readEntry, if_neg (by omega), if_neg hno]
  generalize beforeComment line = head at hno hline
  subst hline
  have hcomment : equalsSign ∈ comment := by
    rcases List.mem_append.1 hmem with hhead | htail
    · exact absurd hhead hno
    · exact (List.mem_cons.1 htail).resolve_left (by decide)
  obtain ⟨a, b, rfl, ha⟩ := List.eq_append_cons_of_mem hcomment
  have hsplit : head ++ COMMENT_CHAR :: (a ++ equalsSign :: b) =
      (head ++ COMMENT_CHAR :: a) ++ equalsSign :: b := by simp
  have hkey : COMMENT_CHAR ∈ strip (head ++ COMMENT_CHAR :: a) := mem_strip (by simp) (by decide)
  rw [hsplit, assignmentIn_append (by simp [hno, ha]; decide), if_neg (List.ne_nil_of_mem hkey)]
  exact ⟨_, _, rfl, hkey⟩

theorem entry_twoCharacters {k : UInt8} {line : Bytes} (h : TwoCharacters k line) :
    entry line = some ([k], []) := by
  obtain ⟨hhead, hk, hne⟩ := h
  have hkey : strip [k] = [k] := by simp [strip, hk]
  have hsplit : [k, equalsSign] = [k] ++ equalsSign :: [] := rfl
  rw [entry, hhead, hsplit, assignmentIn_append (by simpa using Ne.symm hne), hkey]
  rfl

/-- A short part before the comment holds an assignment only if it is `k=`. -/
theorem twoCharacters_of_entry {line key value : Bytes} (hlen : (beforeComment line).length ≤ 2)
    (h : entry line = some (key, value)) : ∃ k, key = [k] ∧ TwoCharacters k line := by
  obtain ⟨a, b, hsplit, hno, rfl, -, hkey⟩ := assignmentIn_eq_some h
  rw [hsplit] at hlen
  rcases a with _ | ⟨k, _ | ⟨k', a⟩⟩
  · exact absurd rfl hkey
  · have hk : IsSpace k = false := by
      refine Bool.eq_false_iff.2 fun hspace => hkey ?_
      exact strip_eq_nil.2 (by simpa using hspace)
    have hsize : ([k] ++ equalsSign :: b).length = b.length + 2 := by simp
    obtain rfl : b = [] := List.length_eq_zero_iff.1 (by omega)
    refine ⟨k, by simp [strip, hk], hsplit, hk, ?_⟩
    rintro rfl
    simp at hno
  · simp at hlen

/-- Without a hidden assignment, what is read from a line is what the grammar says,
    apart from the key of a line `k=`. -/
theorem readEntry_eq_some {line key value : Bytes} (h : ¬ HiddenAssignment line) :
    readEntry line = some (key, value) ↔
      entry line = some (key, value) ∧ ∀ k, key = [k] → ¬ TwoCharacters k line := by
  by_cases hlen : (beforeComment line).length ≤ 2
  · rw [readEntry, if_pos hlen]
    refine iff_of_false nofun ?_
    rintro ⟨hentry, hnot⟩
    obtain ⟨k, hkey, htwo⟩ := twoCharacters_of_entry hlen hentry
    exact hnot k hkey htwo
  have hread : readEntry line = entry line := by
    rw [readEntry, if_neg hlen]
    split_ifs with hmem
    · rfl
    · have hline : equalsSign ∉ line := fun hline => h ⟨by omega, hmem, hline⟩
      rw [entry, assignmentIn_of_not_mem hmem, assignmentIn_of_not_mem hline]
  rw [hread]
  refine (and_iff_left ?_).symm
  rintro k - ⟨hhead, -, -⟩
  rw [hhead] at hlen
  simp at hlen

/-- The value read for a key of one character: the lines `k=` are left out. -/
theorem assign_readEntry_singleton {lines : List Bytes} (h : ∀ line ∈ lines, ¬ HiddenAssignment line)
    (k : UInt8) : assign readEntry lines [k] =
      assign entry (lines.filter fun line => ¬ TwoCharacters k line) [k] := by
  rw [assign_filter_eq]
  refine assign_congr_key ?_
  intro line hl value
  rw [readEntry_eq_some (h line hl)]
  by_cases htwo : TwoCharacters k line <;> simp [htwo]

/-- The condition on the lines `k=`, by the lines left in. -/
theorem twoCharacters_iff (lines : List Bytes) (k : UInt8) :
    assign entry (lines.filter fun line => ¬ TwoCharacters k line) [k] = assign entry lines [k] ↔
      ((∃ line, TwoCharacters k line ∧ LastLine entry lines [k] line) →
        ∃ line, entry line = some ([k], []) ∧
          LastLine entry (lines.filter fun line => ¬ TwoCharacters k line) [k] line) := by
  have hleft : ∀ line ∈ lines, decide (¬ TwoCharacters k line) = false →
      AssignsTo entry [k] line → entry line = some ([k], []) := by
    intro line _ htwo _
    exact entry_twoCharacters (by simpa using htwo)
  rw [assign_filter_iff hleft, assign_eq_some]
  simp

/-- **When the configuration parser accepts its grammar.**  With lines shorter than
    `2 ^ 31`: no `=` is hidden in a comment behind three characters or more, and where
    a line `k=` is the last one accepted for `k`, the last other line accepted for it
    gives it the empty value too. -/
theorem readConfig_grammar_iff (content : Bytes)
    (hlen : ∀ line ∈ getlines content, line.length < 2 ^ 31) :
    (∃ m, ReadConfig (some content) = some (true, m) ∧ GrammarMap content m) ↔
      (∀ line ∈ getlines content, ¬ HiddenAssignment line) ∧
      ∀ k, (∃ line, TwoCharacters k line ∧ LastLine entry (getlines content) [k] line) →
        ∃ line, entry line = some ([k], []) ∧
          LastLine entry ((getlines content).filter fun l => ¬ TwoCharacters k l) [k] line := by
  rw [readConfig_eq hlen]
  generalize hlines : getlines content = lines
  have hmap : (∃ m, some (true, assign readEntry lines) = some (true, m) ∧ GrammarMap content m) ↔
      assign readEntry lines = assign entry lines := by
    constructor
    · rintro ⟨m, hm, hgrammar⟩
      cases hm
      rw [← hlines]
      exact grammarMap_iff.1 (hlines ▸ hgrammar)
    · intro heq
      exact ⟨_, rfl, grammarMap_iff.2 (by rw [hlines, heq])⟩
  rw [hmap]
  constructor
  · intro heq
    have hhidden : ∀ line ∈ lines, ¬ HiddenAssignment line := by
      intro line hl hhid
      obtain ⟨key, value, hread, hcomment⟩ := readEntry_hidden hhid
      have hnone : assign entry lines key = none := by
        refine assign_eq_none.2 ?_
        rintro line' - ⟨value', hentry⟩
        exact comment_not_mem_key hentry hcomment
      rw [← heq] at hnone
      exact assign_eq_none.1 hnone line hl ⟨value, hread⟩
    refine ⟨hhidden, fun k => (twoCharacters_iff lines k).1 ?_⟩
    rw [← assign_readEntry_singleton hhidden, heq]
  · rintro ⟨hhidden, htwo⟩
    funext key
    by_cases hkey : ∃ k, key = [k]
    · obtain ⟨k, rfl⟩ := hkey
      rw [assign_readEntry_singleton hhidden]
      exact (twoCharacters_iff lines k).2 (htwo k)
    · refine assign_congr_key ?_
      intro line hl value
      rw [readEntry_eq_some (hhidden line hl)]
      exact and_iff_left fun k hk => absurd ⟨k, hk⟩ hkey

/-- A comment behind a name, and a later empty assignment to the same one-letter key
    where a space was left. -/
theorem readConfig_grammar_file :
    ∃ m, ReadConfig (some (ascii "Port # 7\na= \na=#\n")) = some (true, m) ∧
      GrammarMap (ascii "Port # 7\na= \na=#\n") m := by
  refine (readConfig_grammar_iff _ (by decide +kernel)).2 ⟨by decide +kernel, ?_⟩
  rintro k ⟨line, ⟨hhead, -, -⟩, hlast⟩
  have hline : ∀ line ∈ getlines (ascii "Port # 7\na= \na=#\n"),
      (beforeComment line).length = 2 → line = ascii "a=#" := by decide +kernel
  obtain rfl := hline line hlast.mem (by rw [hhead]; rfl)
  have ha : beforeComment (ascii "a=#") = [97, equalsSign] := by decide +kernel
  obtain rfl : 97 = k := (List.cons.inj (ha.symm.trans hhead)).1
  have hentry : entry (ascii "a= ") = some ([97], []) := by decide +kernel
  exact ⟨ascii "a= ", hentry, ⟨[], hentry⟩, [ascii "Port # 7"], [], by decide +kernel, by simp⟩

/-- An `=` in the comment makes a key of the comment; a line `a=` is not accepted. -/
theorem not_readConfig_grammar :
    (¬ ∃ m, ReadConfig (some (ascii "ab # x = y")) = some (true, m) ∧
      GrammarMap (ascii "ab # x = y") m) ∧
    ¬ ∃ m, ReadConfig (some (ascii "a=")) = some (true, m) ∧ GrammarMap (ascii "a=") m := by
  constructor
  · rintro ⟨m, hread, hgrammar⟩
    obtain rfl := grammarMap_iff.1 hgrammar
    have hkey := congrArg (Option.map fun r => r.2 (ascii "ab # x")) hread
    revert hkey
    decide +kernel
  · rintro ⟨m, hread, hgrammar⟩
    obtain rfl := grammarMap_iff.1 hgrammar
    have hkey := congrArg (Option.map fun r => r.2 (ascii "a")) hread
    revert hkey
    decide +kernel

end LkpExtent
