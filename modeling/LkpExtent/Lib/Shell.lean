/-
  What a shell makes of words.

  * `splitWords`: field splitting of an unquoted expansion, with the default `IFS`;
    `joinWords`: what `"$*"` gives, or `"$@"` where it is assigned;
  * `PlainWord`: the words that no expansion changes;
  * `getopts`: the options that a `while getopts` loop finds, and the operands behind them.
-/
import LkpExtent.Lib.CMem

namespace Lib

/-! ## Words -/

/-- The default `IFS`: blank, tab and newline. -/
def isIFS (c : UInt8) : Bool := c = 32 ∨ c = 9 ∨ c = 10

def splitWords (value : Bytes) : List Bytes := (value.splitOnP isIFS).filter (· ≠ [])

def joinWords : List Bytes → Bytes
  | [] => []
  | [w] => w
  | w :: ws => w ++ 32 :: joinWords ws

/-- The characters of file name patterns: `*`, `?`, `[` and the backslash. -/
def isPattern (c : UInt8) : Bool := c = 42 ∨ c = 63 ∨ c = 91 ∨ c = 92

/-- A word of printable ASCII characters, none of them of a pattern. -/
def PlainWord (w : Bytes) : Prop := w ≠ [] ∧ ∀ c ∈ w, 33 ≤ c ∧ c ≤ 126 ∧ isPattern c = false

instance (w : Bytes) : Decidable (PlainWord w) := inferInstanceAs (Decidable (_ ∧ _))

section
variable {v w : Bytes} {ws : List Bytes}

theorem not_isIFS_of_le {c : UInt8} (h : 33 ≤ c) : isIFS c = false := by
  rw [isIFS, decide_eq_false_iff_not]
  rintro (rfl | rfl | rfl)
  all_goals exact absurd h (by decide)

theorem PlainWord.splitWords (h : PlainWord w) : splitWords w = [w] := by
  rw [Lib.splitWords, List.splitOnP_eq_singleton fun c hc => not_isIFS_of_le (h.2 c hc).1]
  exact List.filter_eq_self.2 fun v hv => decide_eq_true ((List.mem_singleton.1 hv).symm ▸ h.1)

/-- A blank separates words. -/
theorem splitWords_append (v w : Bytes) : splitWords (v ++ 32 :: w) = splitWords v ++ splitWords w := by
  rw [splitWords, List.splitOnP_append_cons v w (show isIFS 32 = true from rfl), List.filter_append]
  rfl

/-- What has been joined is split again. -/
theorem splitWords_joinWords (h : ∀ w ∈ ws, PlainWord w) : splitWords (joinWords ws) = ws := by
  induction ws with
  | nil => rfl
  | cons w ws ih =>
    rw [List.forall_mem_cons] at h
    cases ws with
    | nil => exact h.1.splitWords
    | cons v ws =>
      rw [joinWords, splitWords_append, h.1.splitWords, ih h.2]
      · rfl
      · exact nofun

end

/-! ## Options -/

/-- What one call of `getopts` finds. -/
inductive Opt where
  | flag (c : Char)
  | arg (c : Char) (OPTARG : Bytes)
  /-- an option that is not in the list, or one without its argument -/
  | bad (c : Char)
  deriving DecidableEq

def byteChar (b : UInt8) : Char := Char.ofNat b.toNat

/-- Whether the option is in the list of `getopts`, and then whether a colon behind it says that
    it takes an argument. -/
def takesArg (optstring : List Char) (c : Char) : Option Bool :=
  if c ≠ ':' ∧ c ∈ optstring then some ((optstring.dropWhile (· ≠ c)).tail.head? = some ':') else none

/-- The options in one word, behind its dash, and one that waits for its argument. -/
def cluster (optstring : List Char) : Bytes → List Opt × Option Char
  | [] => ([], none)
  | b :: bs =>
    match takesArg optstring (byteChar b) with
    | some false => ((.flag (byteChar b)) :: (cluster optstring bs).1, (cluster optstring bs).2)
    | some true => if bs.isEmpty then ([], some (byteChar b)) else ([.arg (byteChar b) bs], none)
    | none => ((.bad (byteChar b)) :: (cluster optstring bs).1, (cluster optstring bs).2)

/-- A dash, and more than a dash. -/
def isOptWord (w : Bytes) : Bool := w.head? = some 45 ∧ w.length ≠ 1

/-- All options, and the operands that `shift $((OPTIND - 1))` leaves. -/
def getopts (optstring : List Char) : List Bytes → List Opt × List Bytes
  | [] => ([], [])
  | w :: ws =>
    if w = [45, 45] then ([], ws)
    else if isOptWord w then
      match (cluster optstring w.tail).2, ws with
      | none, ws => ((cluster optstring w.tail).1 ++ (getopts optstring ws).1, (getopts optstring ws).2)
      | some c, [] => ((cluster optstring w.tail).1 ++ [.bad c], [])
      | some c, OPTARG :: ws =>
        ((cluster optstring w.tail).1 ++ .arg c OPTARG :: (getopts optstring ws).1, (getopts optstring ws).2)
    else ([], w :: ws)

/-- The first operand ends the options. -/
theorem getopts_operand {optstring : List Char} {w : Bytes} {ws : List Bytes} (h : w.head? ≠ some 45) :
    getopts optstring (w :: ws) = ([], w :: ws) := by
  have hdashes : w ≠ [45, 45] := by rintro rfl; exact h rfl
  have hopt : isOptWord w = false := decide_eq_false fun hw => h hw.1
  unfold getopts
  rw [if_neg hdashes, hopt, if_neg Bool.false_ne_true]

/-- An option that ends its word has its argument in the next one. -/
theorem getopts_arg {optstring : List Char} {w OPTARG : Bytes} {ws : List Bytes} {os : List Opt} {c : Char}
    (hdashes : w ≠ [45, 45]) (hopt : isOptWord w = true) (hcluster : cluster optstring w.tail = (os, some c)) :
    getopts optstring (w :: OPTARG :: ws) =
      (os ++ .arg c OPTARG :: (getopts optstring ws).1, (getopts optstring ws).2) := by
  conv_lhs => unfold getopts
  rw [if_neg hdashes, if_pos hopt, hcluster]

end Lib
