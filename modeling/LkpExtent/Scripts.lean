/-
  LkpExtent formalization — the scripts: `bin/lkp-ctl` and the scripts of `sbin` that it runs, where
  a user types a command and where a node has been told to run one.

  * `Shell`: what the scripts use of the shell;
  * `LkpCtl.main`: from a command line to what is then done on this machine;
  * `LkpClient.execArgs`: the command line of the child that a client forks;
  * `LkpCtl.run_everywhere`: RUN does on each node what it would do here;
    `LkpCtl.run_several`: but only for one test case;
  * `LkpCtl.sent_of_typed`: the command that is sent is the one that was typed;
-/
import LkpExtent.Addressing
import LkpExtent.CmdLine
import LkpExtent.Lib.Shell

namespace LkpExtent

open Lib

/-! ## The shell -/

/-- `legal_number` of the shell: a decimal integer of 64 bits, and blanks around it. -/
def legalNumber (str : Bytes) : Option ℤ :=
  let str := ((str.dropWhile isspace).reverse.dropWhile fun c => c = 32 ∨ c = 9).reverse
  let sign := str.head?
  let digits := if sign = some 43 ∨ sign = some 45 then str.tail else str
  let n := if sign = some 45 then -decimal digits else decimal digits
  if !digits.isEmpty && digits.all isdigit && decide (-2 ^ 63 ≤ n ∧ n < 2 ^ 63) then some n else none

/-- What depends on the machine: the names of files, and the tests of `[` for them. -/
structure Shell where
  /-- pathname expansion -/
  glob : Bytes → List Bytes
  glob_plain : ∀ w, PlainWord w → glob w = [w]
  /-- whether `[` succeeds with the arguments; it does not if it cannot read them -/
  test : List Bytes → Bool
  test_gt : ∀ v w, test [v, ascii "-gt", w] =
    ((legalNumber v).bind fun m => (legalNumber w).map fun n => decide (n < m)).getD false

namespace Shell
variable (sh : Shell)

/-- What an expansion without quotes becomes. -/
def expand (value : Bytes) : List Bytes := (splitWords value).flatMap sh.glob

/-- `$@` without quotes. -/
def expandAll (values : List Bytes) : List Bytes := values.flatMap sh.expand

/-- A shell in a directory where no pattern has a file. -/
def ofNumbers : Shell where
  glob w := [w]
  glob_plain _ _ := rfl
  test
    | [v, op, w] =>
      if op = ascii "-gt" then
        ((legalNumber v).bind fun m => (legalNumber w).map fun n => decide (n < m)).getD false
      else false
    | _ => false
  test_gt _ _ := if_pos rfl

variable {sh} {w : Bytes} {ws : List Bytes}

@[simp] theorem expand_plain (h : PlainWord w) : sh.expand w = [w] := by
  rw [expand, h.splitWords, List.flatMap_singleton, sh.glob_plain w h]

theorem flatMap_glob (h : ∀ w ∈ ws, PlainWord w) : ws.flatMap sh.glob = ws := by
  induction ws with
  | nil => rfl
  | cons w ws ih =>
    rw [List.forall_mem_cons] at h
    rw [List.flatMap_cons, sh.glob_plain w h.1, ih h.2]
    rfl

theorem expand_joinWords (h : ∀ w ∈ ws, PlainWord w) : sh.expand (joinWords ws) = ws := by
  rw [expand, splitWords_joinWords h, flatMap_glob h]

theorem expandAll_plain (h : ∀ w ∈ ws, PlainWord w) : sh.expandAll ws = ws := by
  induction ws with
  | nil => rfl
  | cons w ws ih =>
    rw [List.forall_mem_cons] at h
    rw [expandAll, List.flatMap_cons, expand_plain h.1]
    exact congrArg _ (ih h.2)

end Shell

/-! ## lkp-ctl -/

/-- An installation, in a directory whose name no expansion changes. -/
structure LkpCtl where
  shell : Shell
  ROOT_DIR : Bytes
  plain : PlainWord ROOT_DIR

/-- The scripts of `sbin`. -/
inductive Script where
  | init | list | push | result | run | start | stop | update
  deriving DecidableEq

def Script.name : Script → String
  | .init => "init"
  | .list => "list"
  | .push => "push"
  | .result => "result"
  | .run => "run"
  | .start => "start"
  | .stop => "stop"
  | .update => "update"

/-- The command that a script calls the CLI for. -/
def Script.command : Script → Option CommandID
  | .run => some .RUN
  | .push => some .PUSH
  | .update => some .UPDATE
  | .result => some .RESULT
  | .list => some .LIST
  | .init | .start | .stop => none

namespace LkpCtl

/-- What is exported to the scripts and read there. -/
structure Vars where
  VM_CNT : Bytes := ascii "0"
  NODE_ID : Bytes := ascii "-1"
  LOCAL_FLAG : Bool := true
  deriving DecidableEq

/-- What comes of a command line. -/
inductive Action where
  /-- the script ends with the status, and has printed its usage -/
  | usage (status : ℕ)
  /-- `lkp_run_testcases`, with the names of the jobs -/
  | jobs (tests : List Bytes)
  /-- `docker_create_container`, with the number of containers -/
  | containers (vm_count : ℕ)
  /-- `lkp_extent_CLI`, with its arguments -/
  | cli (argv : List Bytes)
  /-- `lkp_extent`, with its arguments -/
  | service (argv : List Bytes)
  /-- the test case to push is not there -/
  | noTestcase
  /-- `do_update_current` -/
  | gitPull
  | init
  | stop
  deriving DecidableEq

/-- The cases of the options of `lkp-ctl`; no result is an `exit 1`. -/
def option (vars : Vars) : Opt → Option Vars
  | .flag 'd' => some vars
  | .arg 'c' OPTARG => some { vars with VM_CNT := OPTARG }
  | .arg 'i' OPTARG => some { vars with NODE_ID := OPTARG, LOCAL_FLAG := false }
  | .flag 'a' => some { vars with LOCAL_FLAG := false }
  | _ => none

/-- The options of `lkp-ctl`, and what is behind them. -/
def parse (argv : List Bytes) : Option (Vars × List Bytes) :=
  let found := getopts ":i:c:dha".toList argv
  (found.1.foldlM option {}).map fun vars => (vars, found.2)

/-- The options of a script of `sbin`, and what is behind them. -/
def operands (args : List Bytes) : Option (List Bytes) :=
  let found := getopts ":hd".toList args
  if ∀ o ∈ found.1, o = .flag 'd' then some found.2 else none

variable (ctl : LkpCtl)

/-- `$SRC_PATH/build/lkp_extent_CLI` with its arguments; the last one is `$ROOT_DIR`. -/
def callCli (args : List Bytes) : Action :=
  .cli ((ctl.ROOT_DIR ++ ascii "/src/build/lkp_extent_CLI") :: (args ++ [ctl.ROOT_DIR]))

/-- `current_run`. -/
def currentRun (vars : Vars) (args : List Bytes) : Action :=
  if ctl.shell.test (ctl.shell.expand vars.VM_CNT ++ [ascii "-gt", ascii "0"]) then
    -- `seq 1 $vm_count`
    .containers ((legalNumber ((ctl.shell.expand vars.VM_CNT).headD (ascii "1"))).getD 0).toNat
  else .jobs ((ctl.shell.expandAll args).takeWhile (· ≠ []))

/-- `sbin/run`. -/
def run (vars : Vars) (args : List Bytes) : Action :=
  if args.isEmpty then .usage 1
  else
    match operands args with
    | none => .usage 1
    | some args =>
      if vars.LOCAL_FLAG then ctl.currentRun vars (ctl.shell.expandAll args)
      else ctl.callCli (ascii "RUN" :: (ctl.shell.expand (joinWords args) ++ ctl.shell.expand vars.NODE_ID ++
        ctl.shell.expand vars.VM_CNT))

/-- `sbin/push`, which does not shift its options. -/
def push (vars : Vars) (args : List Bytes) : Action :=
  match operands args with
  | none => .usage 1
  | some _ =>
    if ctl.shell.test ([ascii "!", ascii "-f"] ++
        ctl.shell.expand (ctl.ROOT_DIR ++ ascii "/testcases/" ++ joinWords args)) then .noTestcase
    else ctl.callCli (ascii "PUSH" :: (ctl.shell.expand (joinWords args) ++ ctl.shell.expand vars.NODE_ID ++
      [ascii "0"]))

def script (vars : Vars) (args : List Bytes) : Script → Action
  | .run => ctl.run vars args
  | .push => ctl.push vars args
  | .update =>
    if (operands args).isNone then .usage 1
    else if vars.LOCAL_FLAG then .gitPull
    else ctl.callCli ([ascii "UPDATE", ascii "null"] ++ ctl.shell.expand vars.NODE_ID ++ [ascii "0"])
  | .result =>
    if (operands args).isNone then .usage 1
    else ctl.callCli ([ascii "RESULT", ascii "null"] ++ ctl.shell.expand vars.NODE_ID ++ [ascii "0"])
  | .list =>
    if (operands args).isNone then .usage 1
    else ctl.callCli [ascii "LIST", ascii "null", ascii "-1", ascii "0"]
  | .start =>
    if (operands args).isNone then .usage 1
    else .service ((ctl.ROOT_DIR ++ ascii "/src/build/lkp_extent") :: ctl.ROOT_DIR :: ctl.shell.expandAll args)
  | .init => if (operands args).isNone then .usage 1 else .init
  | .stop => if (operands args).isNone then .usage 1 else .stop

/-- What `ls` shows of `sbin`. -/
def scripts : List Script := [.init, .list, .push, .result, .run, .start, .stop, .update]

/-- `bin/lkp-ctl`. -/
def main (argv : List Bytes) : Action :=
  match parse argv with
  | none => .usage 1
  | some (_, []) => .usage 0
  | some (vars, command :: args) =>
    match scripts.find? fun func => ascii func.name = command with
    | none => .usage 0
    | some func => ctl.script vars (ctl.shell.expandAll args) func

end LkpCtl

/-- What the forked child of `lkpClient::onCommandMsg` executes: the arguments of `lkp-ctl`. -/
def LkpClient.execArgs (message : Command) : Option (List Bytes) :=
  match message.command with
  | .UPDATE => some [ascii "update"]
  | .RUN =>
    let testname := (ascii message.testcase).takeWhile (· ≠ 0)
    if message.dockerNum ≠ 0 then
      some [ascii "-c", ascii (toString message.dockerNum.toNat), ascii "run", testname]
    else some [ascii "run", testname]
  | _ => none

/-! ## What the scripts make of decimal integers -/

section
variable {str : Bytes} {n : ℤ}

theorem le_of_isdigit {c : UInt8} (h : isdigit c) : 48 ≤ c ∧ c ≤ 57 := of_decide_eq_true h

theorem plainWord_of_digits {digits : Bytes} (hne : digits ≠ []) (h : ∀ c ∈ digits, isdigit c) :
    PlainWord digits := by
  refine ⟨hne, fun c hc => ?_⟩
  obtain ⟨hlo, hhi⟩ := le_of_isdigit (h c hc)
  refine ⟨UInt8.le_trans (by decide) hlo, UInt8.le_trans hhi (by decide), ?_⟩
  rw [isPattern, decide_eq_false_iff_not]
  rintro (rfl | rfl | rfl | rfl)
  · exact absurd hlo (by decide)
  all_goals exact absurd hhi (by decide)

theorem plainWord_cons {c : UInt8} {w : Bytes} (hc : 33 ≤ c ∧ c ≤ 126 ∧ isPattern c = false) (h : PlainWord w) :
    PlainWord (c :: w) :=
  ⟨List.cons_ne_nil _ _, List.forall_mem_cons.2 ⟨hc, h.2⟩⟩

/-- A decimal integer is one word, which no expansion changes. -/
theorem plainWord_of_isDecimal (h : IsDecimal str n) : PlainWord str := by
  cases h with
  | digits hne hdigits => exact plainWord_of_digits hne hdigits
  | plus hne hdigits => exact plainWord_cons (by decide) (plainWord_of_digits hne hdigits)
  | minus hne hdigits => exact plainWord_cons (by decide) (plainWord_of_digits hne hdigits)

/-- No blanks are taken off it. -/
theorem trimmed_of_plainWord (h : PlainWord str) :
    ((str.dropWhile isspace).reverse.dropWhile fun c => c = 32 ∨ c = 9).reverse = str := by
  have hspace : ∀ c ∈ str, isspace c = false := by
    intro c hc
    have hlo := UInt8.le_iff_toNat_le.1 (h.2 c hc).1
    simp only [isspace, decide_eq_false_iff_not, UInt8.le_iff_toNat_le, ← UInt8.toNat_inj]
    change 33 ≤ _ at hlo
    change ¬ (_ = 32 ∨ 9 ≤ _ ∧ _ ≤ 13)
    omega
  have hfront : str.dropWhile isspace = str := by
    cases hstr : str with
    | nil => rfl
    | cons c cs => exact List.dropWhile_cons_of_neg (by rw [hspace c (by rw [hstr]; simp)]; exact Bool.false_ne_true)
  have hback : str.reverse.dropWhile (fun c => decide (c = 32 ∨ c = 9)) = str.reverse := by
    cases hstr : str.reverse with
    | nil => rfl
    | cons c cs =>
      have hc : isspace c = false := hspace c (List.mem_reverse.1 (by rw [hstr]; simp))
      refine List.dropWhile_cons_of_neg ?_
      rw [decide_eq_true_iff]
      rintro (rfl | rfl)
      · cases hc
      · cases hc
  rw [hfront, hback, List.reverse_reverse]

/-- The shell reads it, within 64 bits. -/
theorem legalNumber_of_isDecimal (h : IsDecimal str n) (hlo : -2 ^ 63 ≤ n) (hhi : n < 2 ^ 63) :
    legalNumber str = some n := by
  have hlegal : ∀ {digits : Bytes} {k : ℤ}, digits ≠ [] → (∀ c ∈ digits, isdigit c) → -2 ^ 63 ≤ k → k < 2 ^ 63 →
      (!digits.isEmpty && digits.all isdigit && decide (-2 ^ 63 ≤ k ∧ k < 2 ^ 63)) = true := by
    intro digits k hne hdigits hlo hhi
    rw [List.isEmpty_eq_false_iff.2 hne, List.all_eq_true.2 hdigits, decide_eq_true ⟨hlo, hhi⟩]
    rfl
  rw [legalNumber, trimmed_of_plainWord (plainWord_of_isDecimal h)]
  cases h with
  | @digits digits hne hdigits =>
    obtain ⟨c, digits, rfl⟩ := List.exists_cons_of_ne_nil hne
    have hc := hdigits c List.mem_cons_self
    have hplus : ¬ some c = some 43 := by rintro ⟨⟩; cases hc
    have hminus : ¬ some c = some 45 := by rintro ⟨⟩; cases hc
    simp only [List.head?_cons, hplus, hminus, or_self, if_false]
    rw [if_pos (hlegal hne hdigits hlo hhi)]
  | plus hne hdigits =>
    have hminus : ¬ some (43 : UInt8) = some 45 := by decide
    simp only [List.head?_cons, List.tail_cons, true_or, if_true, hminus, if_false]
    rw [if_pos (hlegal hne hdigits hlo hhi)]
  | minus hne hdigits =>
    simp only [List.head?_cons, List.tail_cons, or_true, if_true]
    rw [if_pos (hlegal hne hdigits hlo hhi)]

/-- The byte of a digit. -/
theorem byte_of_isDigit {c : Char} (h : c.isDigit) :
    48 ≤ c.toNat ∧ c.toNat ≤ 57 ∧ c.val.toUInt8.toNat = c.toNat := by
  obtain ⟨hlo, hhi⟩ := Char.isDigit_iff_toNat.1 h
  change 48 ≤ c.toNat at hlo
  change c.toNat ≤ 57 at hhi
  refine ⟨hlo, hhi, ?_⟩
  show c.val.toNat % 2 ^ 8 = c.toNat
  exact Nat.mod_eq_of_lt (show c.toNat < 2 ^ 8 by omega)

theorem decimal_ofDigitChars {cs : List Char} (h : ∀ c ∈ cs, c.isDigit) (n : ℕ) :
    (cs.map fun c => c.val.toUInt8).foldl (fun (n : ℤ) c => 10 * n + (c.toNat - 48)) n =
      Nat.ofDigitChars 10 cs n := by
  induction cs generalizing n with
  | nil => simp
  | cons c cs ih =>
    rw [List.forall_mem_cons] at h
    obtain ⟨hlo, hhi, hbyte⟩ := byte_of_isDigit h.1
    rw [List.map_cons, List.foldl_cons, Nat.ofDigitChars_cons, ← ih h.2, hbyte]
    congr 1
    show (10 * n + (c.toNat - 48) : ℤ) = ((10 * n + (c.toNat - 48) : ℕ) : ℤ)
    omega

/-- `std::to_string` writes decimal integers. -/
theorem isDecimal_toString (n : ℕ) : IsDecimal (ascii (toString n)) n := by
  have hchars : ascii (toString n) = (Nat.toDigits 10 n).map fun c => c.val.toUInt8 := by
    rw [ascii, Nat.toString_eq_repr, Nat.toList_repr]
  have hdigits : ∀ c ∈ Nat.toDigits 10 n, c.isDigit := fun c hc =>
    Nat.isDigit_of_mem_toDigits (by decide) (by decide) hc
  have hval : decimal (ascii (toString n)) = n := by
    rw [hchars, decimal]
    exact (decimal_ofDigitChars hdigits 0).trans (congrArg _ Nat.ofDigitChars_ten_toDigits)
  have hne : ascii (toString n) ≠ [] := by
    rw [hchars]
    exact fun h => Nat.toDigits_ne_nil (List.map_eq_nil_iff.1 h)
  have hall : ∀ b ∈ ascii (toString n), isdigit b := by
    rw [hchars]
    intro b hb
    obtain ⟨c, hc, rfl⟩ := List.mem_map.1 hb
    obtain ⟨hlo, hhi, hbyte⟩ := byte_of_isDigit (hdigits c hc)
    simp only [isdigit, decide_eq_true_eq, UInt8.le_iff_toNat_le, hbyte]
    exact ⟨hlo, hhi⟩
  have hdecimal := IsDecimal.digits hne hall
  rwa [hval] at hdecimal

/-- A number that an `int` can hold is read as it is. -/
theorem atoi_of_isInt32 (h : IsDecimal str n) (hn : IsInt32 n) : atoi str = n := by
  obtain ⟨hlo, hhi⟩ := hn
  rw [atoi_of_isDecimal h, min_eq_right (by omega), max_eq_right (by omega), toInt32_of_isInt32 ⟨hlo, hhi⟩]

/-- A text has the bytes from which it was made. -/
theorem ascii_text (w : Bytes) : ascii (text w) = w := by
  rw [ascii, text, String.toList_ofList, List.map_map]
  refine (List.map_congr_left fun b _ => ?_).trans (List.map_id w)
  have hb : b.toNat < 256 := b.toNat_lt
  have hvalid : b.toNat.isValidChar := .inl (by omega)
  have hval : (Char.ofNat b.toNat).val.toNat = b.toNat := by
    rw [Char.ofNat, dif_pos hvalid]; rfl
  show (Char.ofNat b.toNat).val.toUInt8 = b
  rw [← UInt8.toNat_inj]
  show (Char.ofNat b.toNat).val.toNat % 2 ^ 8 = b.toNat
  rw [hval]
  exact Nat.mod_eq_of_lt hb

end

/-! ## run -/

namespace LkpCtl
variable {ctl : LkpCtl} {vars : Vars} {argv args tests : List Bytes} {t : Bytes} {n : ℤ}

/-- What `run` comes to on a machine, for the number behind `-c`. -/
def ran (n : ℤ) (tests : List Bytes) : Action := if 0 < n then .containers n.toNat else .jobs tests

theorem currentRun_eq (hcount : IsDecimal vars.VM_CNT n) (hn : IsInt32 n) (htests : ∀ t ∈ tests, PlainWord t) :
    ctl.currentRun vars tests = ran n tests := by
  obtain ⟨hlo, hhi⟩ := hn
  have hzero : legalNumber (ascii "0") = some 0 := by decide +kernel
  have hnumber := legalNumber_of_isDecimal hcount (by omega) (by omega)
  have hall : tests.takeWhile (· ≠ []) = tests :=
    List.takeWhile_eq_self_iff.2 fun t ht => decide_eq_true (htests t ht).1
  rw [currentRun, Shell.expand_plain (plainWord_of_isDecimal hcount), List.singleton_append, ctl.shell.test_gt,
    hnumber, hzero, Shell.expandAll_plain htests, hall, ran]
  simp only [Option.bind_some, Option.map_some, Option.getD_some, decide_eq_true_eq, List.headD_cons, hnumber]

variable (ctl) in
/-- A command line for `run`, with words that no expansion changes. -/
theorem main_run (hparse : parse argv = some (vars, ascii "run" :: t :: tests)) (hdash : t.head? ≠ some 45)
    (htests : ∀ w ∈ t :: tests, PlainWord w) : ctl.main argv =
      if vars.LOCAL_FLAG then ctl.currentRun vars (t :: tests)
      else ctl.callCli (ascii "RUN" :: (t :: tests ++ ctl.shell.expand vars.NODE_ID ++ ctl.shell.expand vars.VM_CNT)) := by
  have hfind : (scripts.find? fun func => ascii func.name = ascii "run") = some .run := by decide +kernel
  have hoperands : operands (t :: tests) = some (t :: tests) := by
    rw [operands, getopts_operand hdash]; rfl
  rw [main, hparse]
  simp only [hfind, script, run]
  rw [Shell.expandAll_plain htests, hoperands]
  simp only [List.isEmpty_cons, Bool.false_eq_true, if_false]
  rw [Shell.expandAll_plain htests, Shell.expand_joinWords htests]

/-- The command line of the child is read back. -/
theorem parse_execArgs {message : Command} (hrun : message.command = .RUN) (hcase : message.testcase = text t)
    (ht : PlainWord t) : ∃ args vars, LkpClient.execArgs message = some args ∧
      parse args = some (vars, [ascii "run", t]) ∧ vars.LOCAL_FLAG = true ∧
      IsDecimal vars.VM_CNT message.dockerNum.toNat := by
  have hrunWord : (ascii "run").head? ≠ some 45 := by decide
  have hname : (ascii message.testcase).takeWhile (· ≠ 0) = t := by
    rw [hcase, ascii_text]
    refine List.takeWhile_eq_self_iff.2 fun c hc => decide_eq_true ?_
    rintro rfl
    exact absurd (ht.2 0 hc).1 (by decide)
  simp only [LkpClient.execArgs]
  rw [hrun, hname]
  by_cases hnum : message.dockerNum = 0
  · refine ⟨[ascii "run", t], {}, if_neg (not_not.2 hnum), ?_, rfl, ?_⟩
    · rw [parse, getopts_operand hrunWord]; rfl
    · rw [hnum]
      exact isDecimal_toString 0
  · refine ⟨[ascii "-c", ascii (toString message.dockerNum.toNat), ascii "run", t],
      { VM_CNT := ascii (toString message.dockerNum.toNat) }, if_pos hnum, ?_, rfl, isDecimal_toString _⟩
    have hcluster : cluster ":i:c:dha".toList (ascii "-c").tail = ([], some 'c') := by decide +kernel
    rw [parse, getopts_arg (by decide) (by decide) hcluster, getopts_operand hrunWord]
    rfl

/-- All commands that the server sends upon the message, in whatever state it is, meet `P`. -/
def Forwarded (message : Command) (P : Command → Prop) : Prop :=
  ∀ (s s' : LkpServer) (conn : ConnId) (env : Env) (its : List (ConnId × Message)),
    s.handle (.message conn (.command message) env) = .ok s' → s'.sent = s.sent ++ its →
      ∀ c k, (c, .command k) ∈ its → P k

/-- The server changes nothing of a command but its node. -/
theorem forwarded {message : Command} {P : Command → Prop} (h : ∀ nodeId, P { message with nodeId }) :
    Forwarded message P := by
  intro s s' conn env its hs hsent c k hk
  obtain ⟨its', hsent', hits⟩ := LkpServer.addresses_handle hs
  obtain rfl : its = its' := List.append_cancel_left (hsent.symm.trans hsent')
  obtain ⟨-, d, m, env', he, hm, -⟩ := hits _ hk
  cases he
  rw [hm]
  exact h _

/-- What the number behind `-c` is in the message. -/
theorem commandToSend_dockerNum (command testcase nodeID : Bytes) {containerCnt : Bytes} (h : IsDecimal containerCnt n)
    (hn : IsInt32 n) :
    ((LkpCmdClient.commandToSend command testcase nodeID containerCnt).dockerNum.toNat : ℤ) = max 0 n := by
  have hatoi := atoi_of_isInt32 h hn
  by_cases hpos : 0 < n
  · have hnum : (LkpCmdClient.commandToSend command testcase nodeID containerCnt).dockerNum = u32 n := by
      simp only [LkpCmdClient.commandToSend, hatoi, if_pos hpos]
    rw [hnum, toNat_u32, max_eq_right hpos.le]
    exact Int.emod_eq_of_lt hpos.le (lt_trans hn.2 (by decide))
  · have hnum : (LkpCmdClient.commandToSend command testcase nodeID containerCnt).dockerNum = 0 := by
      simp only [LkpCmdClient.commandToSend, hatoi, if_neg hpos]
      cases lkpCmdsToEnum command <;> split_ifs <;> rfl
    rw [hnum, max_eq_left (not_lt.1 hpos)]
    rfl

theorem commandToSend_testcase {command testcase nodeID containerCnt : Bytes} :
    (LkpCmdClient.commandToSend command testcase nodeID containerCnt).testcase = text testcase := by
  simp only [LkpCmdClient.commandToSend]
  split_ifs <;> rfl

/-- Containers are asked for iff the number is positive. -/
theorem ran_max : ran (max 0 n) tests = ran n tests := by
  rcases le_or_gt n 0 with hn | hn
  · rw [max_eq_left hn, ran, ran, if_neg (lt_irrefl 0), if_neg (not_lt.2 hn)]
  · rw [max_eq_right hn.le]

/-- **RUN does on each node what it would do here.**  For a command line with one test case,
    a number that an `int` can hold behind `-c`, and any options: without `-i` and `-a` the
    test case is run, or the containers are started, on this machine.  With one of them a RUN
    is sent to the server, and on whatever node the server forwards it to, the child of the
    client runs the same test case, or starts as many containers. -/
theorem run_everywhere (hparse : parse argv = some (vars, [ascii "run", t])) (ht : PlainWord t)
    (hdash : t.head? ≠ some 45) (hcount : IsDecimal vars.VM_CNT n) (hn : IsInt32 n)
    (hnode : PlainWord vars.NODE_ID) :
    (vars.LOCAL_FLAG = true → ctl.main argv = ran n [t]) ∧
    (vars.LOCAL_FLAG = false → ∃ cliArgs message, ctl.main argv = .cli cliArgs ∧
      (∀ disk CmdConfig init, lkpConfigInit disk CmdConfig (text ctl.ROOT_DIR) = .ok init →
        LkpCmdClient.main cliArgs disk CmdConfig =
          .connects init.myConfig.ServerListenPort message init.printed) ∧
      message.command = .RUN ∧
      Forwarded message fun k => ∃ args, LkpClient.execArgs k = some args ∧
        ∀ node : LkpCtl, node.main args = ran n [t]) := by
  have htests : ∀ w ∈ [t], PlainWord w := by
    intro w hw
    rwa [List.mem_singleton.1 hw]
  have hmain := ctl.main_run hparse hdash htests
  refine ⟨fun hlocal => ?_, fun hlocal => ?_⟩
  · rw [hmain, if_pos hlocal]
    exact currentRun_eq hcount hn htests
  · have hrun : lkpCmdsToEnum (ascii "RUN") = some .RUN := by decide +kernel
    let message := LkpCmdClient.commandToSend (ascii "RUN") t vars.NODE_ID vars.VM_CNT
    have hcommand : message.command = .RUN := by
      rw [LkpCmdClient.commandToSend_command, hrun, Option.getD_some]
    rw [if_neg (by rw [hlocal]; exact Bool.false_ne_true), Shell.expand_plain hnode,
      Shell.expand_plain (plainWord_of_isDecimal hcount)] at hmain
    refine ⟨_, message, hmain, ?_, hcommand, forwarded fun nodeId => ?_⟩
    · intro disk CmdConfig init hinit
      simp only [LkpCmdClient.main, List.cons_append, List.nil_append, hrun, hinit]
      rfl
    · obtain ⟨args, vars', hargs, hparse', hlocal', hcount'⟩ :=
        parse_execArgs (show { message with nodeId }.command = .RUN from hcommand) commandToSend_testcase ht
      refine ⟨args, hargs, fun node => ?_⟩
      have hnum := commandToSend_dockerNum (ascii "RUN") t vars.NODE_ID hcount hn
      rw [node.main_run hparse' hdash htests, if_pos hlocal', ← ran_max, ← hnum]
      refine currentRun_eq hcount' ?_ htests
      rw [hnum]
      exact ⟨le_trans (by decide) (le_max_left _ _), max_lt (by decide) hn.2⟩

/-- An installation in `/lkp`. -/
def inLkp : LkpCtl := { shell := .ofNumbers, ROOT_DIR := ascii "/lkp", plain := by decide +kernel }

/-- `lkp-ctl -c2 run ebizzy`, and `lkp-ctl -ac 2 run ebizzy`. -/
theorem run_everywhere_ebizzy : inLkp.main (["-c2", "run", "ebizzy"].map ascii) = .containers 2 ∧
    ∃ cliArgs message, inLkp.main (["-ac", "2", "run", "ebizzy"].map ascii) = .cli cliArgs ∧
      (∃ port printed, LkpCmdClient.main cliArgs (fun _ => some (configText "7777")) (configured 0) =
        .connects port message printed) ∧
      Forwarded message fun k => ∃ args, LkpClient.execArgs k = some args ∧
        ∀ node : LkpCtl, node.main args = .containers 2 := by
  have htwo : IsDecimal (ascii "2") 2 := isDecimal_toString 2
  have hebizzy : PlainWord (ascii "ebizzy") := by decide +kernel
  have hhere : parse (["-c2", "run", "ebizzy"].map ascii) =
      some ({ VM_CNT := ascii "2" }, [ascii "run", ascii "ebizzy"]) := by decide +kernel
  have hthere : parse (["-ac", "2", "run", "ebizzy"].map ascii) =
      some ({ VM_CNT := ascii "2", LOCAL_FLAG := false }, [ascii "run", ascii "ebizzy"]) := by decide +kernel
  refine ⟨(run_everywhere hhere hebizzy (by decide) htwo (by decide) (by decide +kernel)).1 rfl, ?_⟩
  obtain ⟨cliArgs, message, hmain, hconnects, -, hforwarded⟩ :=
    (run_everywhere hthere hebizzy (by decide) htwo (by decide) (by decide +kernel)).2 rfl
  refine ⟨cliArgs, message, hmain, ?_, hforwarded⟩
  have hok : (lkpConfigInit (fun _ => some (configText "7777")) (configured 0) (text inLkp.ROOT_DIR)).isOk = true := by
    decide +kernel
  cases hinit : lkpConfigInit (fun _ => some (configText "7777")) (configured 0) (text inLkp.ROOT_DIR) with
  | error halt => rw [hinit] at hok; cases hok
  | ok init => exact ⟨_, _, hconnects _ _ _ hinit⟩

/-- The CLI takes five arguments. -/
theorem main_usage {cliArgs : List Bytes} (h : cliArgs.length ≠ 6) (disk : Disk) (CmdConfig : LkpConfig) :
    LkpCmdClient.main cliArgs disk CmdConfig = .returns (-1) [LkpCmdClient.usage] := by
  unfold LkpCmdClient.main
  split
  · exact absurd rfl h
  · rfl

/-- **Several test cases are run here only.**  Without `-i` and `-a` they are run in order; with
    one of them the CLI sees more arguments than it takes, and sends nothing. -/
theorem run_several {u : Bytes} (hparse : parse argv = some (vars, ascii "run" :: t :: u :: tests))
    (hdash : t.head? ≠ some 45) (htests : ∀ w ∈ t :: u :: tests, PlainWord w)
    (hcount : IsDecimal vars.VM_CNT n) (hn : IsInt32 n) (hnode : PlainWord vars.NODE_ID) :
    (vars.LOCAL_FLAG = true → ctl.main argv = ran n (t :: u :: tests)) ∧
    (vars.LOCAL_FLAG = false → ∃ cliArgs, ctl.main argv = .cli cliArgs ∧
      ∀ disk CmdConfig, LkpCmdClient.main cliArgs disk CmdConfig = .returns (-1) [LkpCmdClient.usage]) := by
  have hmain := ctl.main_run hparse hdash htests
  refine ⟨fun hlocal => ?_, fun hlocal => ?_⟩
  · rw [hmain, if_pos hlocal]
    exact currentRun_eq hcount hn htests
  · rw [if_neg (by rw [hlocal]; exact Bool.false_ne_true), Shell.expand_plain hnode,
      Shell.expand_plain (plainWord_of_isDecimal hcount)] at hmain
    refine ⟨_, hmain, main_usage ?_⟩
    simp

/-- Two test cases, here and for node 3. -/
theorem run_several_two : inLkp.main (["run", "ebizzy", "aim7"].map ascii) = .jobs [ascii "ebizzy", ascii "aim7"] ∧
    ∃ cliArgs, inLkp.main (["-i", "3", "run", "ebizzy", "aim7"].map ascii) = .cli cliArgs ∧
      ∀ disk CmdConfig, LkpCmdClient.main cliArgs disk CmdConfig = .returns (-1) [LkpCmdClient.usage] := by
  have hzero : IsDecimal (ascii "0") 0 := isDecimal_toString 0
  have htests : ∀ w ∈ [ascii "ebizzy", ascii "aim7"], PlainWord w := by decide +kernel
  have hhere : parse (["run", "ebizzy", "aim7"].map ascii) =
      some ({}, [ascii "run", ascii "ebizzy", ascii "aim7"]) := by decide +kernel
  have hthere : parse (["-i", "3", "run", "ebizzy", "aim7"].map ascii) =
      some ({ NODE_ID := ascii "3", LOCAL_FLAG := false }, [ascii "run", ascii "ebizzy", ascii "aim7"]) := by
    decide +kernel
  exact ⟨(run_several hhere (by decide) htests hzero (by decide) (by decide +kernel)).1 rfl,
    (run_several hthere (by decide) htests hzero (by decide) (by decide +kernel)).2 rfl⟩

/-! ## What the scripts call the CLI with -/

theorem callCli_eq {cliArgs : List Bytes} (h : ctl.callCli args = .cli cliArgs) :
    cliArgs = (ctl.ROOT_DIR ++ ascii "/src/build/lkp_extent_CLI") :: (args ++ [ctl.ROOT_DIR]) := by
  cases h; rfl

/-- The first argument of the CLI names the command of the script. -/
theorem script_cli {func : Script} {cliArgs : List Bytes} (h : ctl.script vars args func = .cli cliArgs) :
    ∃ k name rest, func.command = some k ∧ cliArgs = name :: ascii (lkpEnumToCmds k "") :: rest := by
  cases func with
  | run =>
    simp only [script, run] at h
    split_ifs at h
    · split at h
      · cases h
      · simp only [currentRun] at h
        split_ifs at h
    · split at h
      · cases h
      · exact ⟨.RUN, _, _, rfl, callCli_eq h⟩
  | push =>
    simp only [script, push] at h
    split at h
    · cases h
    · split_ifs at h
      exact ⟨.PUSH, _, _, rfl, callCli_eq h⟩
  | update =>
    simp only [script] at h
    split_ifs at h
    exact ⟨.UPDATE, _, _, rfl, callCli_eq h⟩
  | result =>
    simp only [script] at h
    split_ifs at h
    exact ⟨.RESULT, _, _, rfl, callCli_eq h⟩
  | list =>
    simp only [script] at h
    split_ifs at h
    exact ⟨.LIST, _, _, rfl, callCli_eq h⟩
  | init | start | stop =>
    simp only [script] at h
    split_ifs at h

theorem command_of_connects {name command : Bytes} {port : UInt16} {message : Command} {printed : List String}
    {disk : Disk} {CmdConfig : LkpConfig}
    (h : LkpCmdClient.main (name :: command :: args) disk CmdConfig = .connects port message printed) :
    message.command = (lkpCmdsToEnum command).getD .UPDATE := by
  unfold LkpCmdClient.main at h
  split at h
  · rename_i heq
    cases heq
    cases hinit : lkpConfigInit disk CmdConfig _ with
    | error halt => rw [hinit] at h; cases h
    | ok init =>
      rw [hinit] at h
      cases h
      exact LkpCmdClient.commandToSend_command ..
  · cases h

/-- **What `lkp-ctl` makes the CLI send is what the user has typed.**  Whatever the command line,
    and whatever the words in it expand to: a message that the CLI sends is of the command of
    the script that the command line names, and the CLI knows the command that it is called
    with, so that the UPDATE that it makes of an unknown one does not occur.  Other scripts,
    other words and bad options lead to no message. -/
theorem sent_of_typed {cliArgs : List Bytes} {port : UInt16} {message : Command} {printed : List String}
    {disk : Disk} {CmdConfig : LkpConfig} (h : ctl.main argv = .cli cliArgs)
    (hconnects : LkpCmdClient.main cliArgs disk CmdConfig = .connects port message printed) :
    ∃ (vars : Vars) (func : Script) (args : List Bytes), parse argv = some (vars, ascii func.name :: args) ∧
      func.command = some message.command ∧ cliArgs[1]?.bind lkpCmdsToEnum = some message.command := by
  simp only [main] at h
  split at h
  · cases h
  · cases h
  · rename_i vars command args hparse
    split at h
    · cases h
    · rename_i func hfind
      have hname := List.find?_some hfind
      obtain rfl : ascii func.name = command := of_decide_eq_true hname
      obtain ⟨k, name, rest, hk, rfl⟩ := script_cli h
      have hknown : lkpCmdsToEnum (ascii (lkpEnumToCmds k "")) = some k := by
        refine lkpCmdsToEnum_eq_some.2 ⟨?_, rfl⟩
        cases func <;> cases hk <;> rfl
      have hcommand : message.command = k := by rw [command_of_connects hconnects, hknown, Option.getD_some]
      rw [hcommand]
      exact ⟨vars, func, args, hparse, hk, hknown⟩

/-- `lkp-ctl -i 3 update`. -/
theorem sent_of_typed_update : ∃ cliArgs message printed,
    inLkp.main (["-i", "3", "update"].map ascii) = .cli cliArgs ∧
      LkpCmdClient.main cliArgs (fun _ => some (configText "7777")) (configured 0) = .connects 7777 message printed ∧
      ∃ (vars : Vars) (func : Script) (args : List Bytes),
        parse (["-i", "3", "update"].map ascii) = some (vars, ascii func.name :: args) ∧
        func.command = some message.command ∧ cliArgs[1]?.bind lkpCmdsToEnum = some message.command := by
  have hmain : inLkp.main (["-i", "3", "update"].map ascii) =
      .cli (["/lkp/src/build/lkp_extent_CLI", "UPDATE", "null", "3", "0", "/lkp"].map ascii) := by decide +kernel
  have hconnects : LkpCmdClient.main
      (["/lkp/src/build/lkp_extent_CLI", "UPDATE", "null", "3", "0", "/lkp"].map ascii)
      (fun _ => some (configText "7777")) (configured 0) =
      .connects 7777 { testcase := "null", nodeId := 3 } [] := by decide +kernel
  exact ⟨_, _, _, hmain, hconnects, sent_of_typed hmain hconnects⟩

end LkpCtl

end LkpExtent
