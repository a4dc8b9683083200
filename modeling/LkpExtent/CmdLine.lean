/-
  LkpExtent formalization — the command line: `main` of `lkpCommand.cc`, and the client that
  it constructs.

  * `atoi`, `lkpCmdsToEnum`: what is read from an argument;
  * `main`: from the arguments to the Command, which is sent once the client is connected
    (`LkpCmdClient.step`);
  * `ticks_le`: the client ends, unless it is answered or connected again and again;
  * `IsDecimal`, `Named`: what the arguments say, declaratively;
  * `sendsNamed_iff`: only what the arguments name is sent iff they can be read.
-/
import LkpExtent.CmdClient
import LkpExtent.Startup
import LkpExtent.Lib.Runs
import Mathlib.Tactic.IntervalCases

namespace LkpExtent

open Lib

/-! ## Arguments -/

/-- The text of a byte string, one character a byte. -/
def text (bytes : Bytes) : String := String.ofList (bytes.map fun b => Char.ofNat b.toNat)

/-- `strtol` to base 10, which stops at the bounds of a 64-bit `long`; zero without digits. -/
def strtol (nptr : Bytes) : ℤ :=
  let str := nptr.dropWhile isspace
  let sign := str.head?
  let digits := (if sign = some 43 ∨ sign = some 45 then str.tail else str).takeWhile isdigit
  max (-2 ^ 63) (min (2 ^ 63 - 1) (if sign = some 45 then -decimal digits else decimal digits))

/-- `atoi`, which converts the `long` to `int`. -/
def atoi (nptr : Bytes) : ℤ := toInt32 (strtol nptr)

def lkpCommands : List String := ["UPDATE", "RUN", "RESULT", "PUSH", "LIST"]

/-- `static_cast<lkpMessage::commandID>(i)`. -/
def CommandID.ofNat : ℕ → CommandID
  | 0 => .UPDATE
  | 1 => .RUN
  | 2 => .RESULT
  | 3 => .PUSH
  | 4 => .LIST
  | i => .other i

/-- `lkpCmdsToEnum`. -/
def lkpCmdsToEnum (lkpCmdString : Bytes) : Option CommandID :=
  (lkpCommands.findIdx? fun lkpCommand => ascii lkpCommand = lkpCmdString).map CommandID.ofNat

namespace LkpCmdClient

/-! ## main -/

/-- How `main` goes, with what it has printed. -/
inductive Outcome where
  | returns (status : ℤ) (printed : List String)
  | halts (halt : Halt) (printed : List String)
  /-- it constructs `lkpCmdClient` -/
  | connects (port : UInt16) (commandToSend : Command) (printed : List String)
  deriving DecidableEq

def usage : String := "  Usage: [Command] [Testcase] [NodeID] [ContainerCnt] [PATH]"

/-- `commandToSend`, from `argv[1]` to `argv[4]`. -/
def commandToSend (command testcase nodeID containerCnt : Bytes) : Command :=
  let commandToSend : Command :=
    match lkpCmdsToEnum command with
    | some lkpEnum => { command := lkpEnum }
    -- the error is printed, and the command stays what it is by default
    | none => {}
  let commandToSend := { commandToSend with testcase := text testcase }
  let commandToSend :=
    if 0 ≤ atoi nodeID then { commandToSend with nodeId := u32 (atoi nodeID), sendToAll := false }
    else { commandToSend with nodeId := u32 (-1), sendToAll := true }
  if 0 < atoi containerCnt then { commandToSend with dockerNum := u32 (atoi containerCnt) } else commandToSend

/-- `main`, with the files, and what the fields of `CmdConfig` happen to hold before
    `lkpConfigInit`. -/
def main (argv : List Bytes) (disk : Disk) (CmdConfig : LkpConfig) : Outcome :=
  match argv with
  | [_, command, testcase, nodeID, containerCnt, path] =>
    let printed := match lkpCmdsToEnum command with
      | some _ => []
      | none => ["lkpCmdClient Error: No supprt for command " ++ text command, usage]
    match lkpConfigInit disk CmdConfig (text path) with
    | .error halt => .halts halt printed
    -- `init.result` is not looked at
    | .ok init => .connects init.myConfig.ServerListenPort
        (commandToSend command testcase nodeID containerCnt) (printed ++ init.printed)
  | _ => .returns (-1) [usage]

end LkpCmdClient

/-! ## The client -/

/-- `lkpCmdClient`, with what it has sent to the server. -/
structure LkpCmdClient where
  connection_ : Option ConnState := none
  commandToSend_ : Command
  TimeOutCounter_ : ℕ := 0
  sent : List Command := []
  exited : Bool := false

inductive CmdClientEvent where
  /-- `onConnection`, with `conn->connected()` -/
  | onConnection (connected : Bool)
  | onTimer
  | onReturnMsg (message : Return)
  | onUnknownMsg

namespace LkpCmdClient
variable (c : LkpCmdClient)

def SendToServer (messageToSend : Command) : LkpCmdClient :=
  if c.connection_ = some .kConnected then
    { c with sent := c.sent ++ [messageToSend], TimeOutCounter_ := 0 }
  else c

def onConnection (connected : Bool) : LkpCmdClient :=
  if connected then SendToServer { c with connection_ := some .kConnected } c.commandToSend_
  else { c with connection_ := none }

def onTimer : LkpCmdClient :=
  if c.connection_ ≠ some .kConnected then { c with exited := true }
  else if 5 < c.TimeOutCounter_ + 1 then { c with TimeOutCounter_ := c.TimeOutCounter_ + 1, exited := true }
  else { c with TimeOutCounter_ := c.TimeOutCounter_ + 1 }

/-- The process is over also where `onReturnMsg` reads past the entries of a Return. -/
def step (e : CmdClientEvent) : Option LkpCmdClient :=
  if c.exited then none
  else
    match e with
    | .onConnection connected => some (c.onConnection connected)
    | .onTimer => some c.onTimer
    | .onReturnMsg message =>
      some { c with TimeOutCounter_ := 0, exited := ((onReturnMsg message).map Shown.exits).getD true }
    | .onUnknownMsg => some c

variable {c} {d : LkpCmdClient} {e : CmdClientEvent} {es : List CmdClientEvent}

theorem step_sent (h : c.step e = some d) : d.commandToSend_ = c.commandToSend_ ∧
    (d.sent = c.sent ∨ d.sent = c.sent ++ [c.commandToSend_]) := by
  obtain ⟨-, h⟩ := Option.ite_none_left_eq_some.1 h
  cases e with
  | onConnection connected =>
    cases h
    cases connected with
    | true => exact ⟨rfl, Or.inr rfl⟩
    | false => exact ⟨rfl, Or.inl rfl⟩
  | onTimer =>
    cases h
    simp only [onTimer]
    split_ifs
    · exact ⟨rfl, Or.inl rfl⟩
    · exact ⟨rfl, Or.inl rfl⟩
    · exact ⟨rfl, Or.inl rfl⟩
  | onReturnMsg | onUnknownMsg =>
    cases h
    exact ⟨rfl, Or.inl rfl⟩

/-- All that the client ever sends is its command. -/
theorem sent_eq {command : Command} (h : Runs step { commandToSend_ := command } es c) :
    ∀ message ∈ c.sent, message = command := by
  have hinv : c.commandToSend_ = command ∧ ∀ message ∈ c.sent, message = command := by
    refine h.inv' (I := fun c => c.commandToSend_ = command ∧ ∀ message ∈ c.sent, message = command)
      ⟨rfl, by simp⟩ ?_
    rintro c e d ⟨hcmd, hsent⟩ he
    obtain ⟨hsame, hstep⟩ := step_sent he
    refine ⟨hsame.trans hcmd, ?_⟩
    rcases hstep with hstep | hstep
    · rwa [hstep]
    · rw [hstep]
      intro message hmem
      rcases List.mem_append.1 hmem with hmem | hmem
      · exact hsent message hmem
      · rw [List.mem_singleton.1 hmem, hcmd]
  exact hinv.2

/-! ## How long the client waits -/

def isTick : CmdClientEvent → Bool
  | .onTimer => true
  | _ => false

/-- The events at which the CLI starts to wait anew. -/
def restarts : CmdClientEvent → Bool
  | .onConnection connected => connected
  | .onReturnMsg _ => true
  | _ => false

/-- The ticks so far: up to five before each restart, and those that have been counted since; the
    tick that finds no connection is not counted, but ends the process. -/
structure Waiting (c : LkpCmdClient) (es : List CmdClientEvent) : Prop where
  counter : c.exited = false → c.TimeOutCounter_ ≤ 5
  ticks : es.countP isTick ≤ 5 * es.countP restarts + (if c.exited then 6 else c.TimeOutCounter_)

theorem Waiting.step (h : c.Waiting es) (hs : c.step e = some d) : d.Waiting (es ++ [e]) := by
  obtain ⟨hrunning, hs⟩ := Option.ite_none_left_eq_some.1 hs
  rw [Bool.not_eq_true] at hrunning
  have hcounter := h.counter hrunning
  have hticks := h.ticks
  rw [hrunning, if_neg Bool.false_ne_true] at hticks
  have hlast : ∀ p : CmdClientEvent → Bool, (es ++ [e]).countP p = es.countP p + if p e then 1 else 0 := by
    intro p
    rw [List.countP_append, List.countP_singleton]
  cases e with
  | onConnection connected =>
    cases hs
    cases connected with
    | true =>
      refine ⟨fun _ => Nat.zero_le _, ?_⟩
      show _ ≤ _ + (if c.exited then 6 else 0)
      rw [hlast, hlast, hrunning]
      simp only [isTick, restarts, if_true, Bool.false_eq_true, if_false]
      omega
    | false =>
      refine ⟨fun _ => hcounter, ?_⟩
      show _ ≤ _ + (if c.exited then 6 else c.TimeOutCounter_)
      rw [hlast, hlast, hrunning]
      simp only [isTick, restarts, Bool.false_eq_true, if_false]
      omega
  | onTimer =>
    cases hs
    simp only [onTimer]
    split_ifs with hconn hmore
    · refine ⟨fun h => Bool.noConfusion h, ?_⟩
      rw [hlast, hlast]
      simp only [isTick, restarts, if_true, Bool.false_eq_true, if_false]
      omega
    · refine ⟨fun h => Bool.noConfusion h, ?_⟩
      rw [hlast, hlast]
      simp only [isTick, restarts, if_true, Bool.false_eq_true, if_false]
      omega
    · refine ⟨fun _ => not_lt.1 hmore, ?_⟩
      rw [hlast, hlast]
      simp only [isTick, restarts, if_true, hrunning, Bool.false_eq_true, if_false]
      omega
  | onReturnMsg message =>
    cases hs
    refine ⟨fun _ => Nat.zero_le _, ?_⟩
    rw [hlast, hlast]
    simp only [isTick, restarts, if_true, Bool.false_eq_true, if_false]
    omega
  | onUnknownMsg =>
    cases hs
    refine ⟨fun _ => hcounter, ?_⟩
    rw [hlast, hlast, hrunning]
    simp only [isTick, restarts, Bool.false_eq_true, if_false]
    omega

theorem waiting_of_runs {command : Command} (h : Runs step { commandToSend_ := command } es c) : c.Waiting es := by
  induction h with
  | nil => exact ⟨fun _ => Nat.zero_le _, Nat.zero_le _⟩
  | snoc _ hs ih => exact ih.step hs

/-- **The CLI does not wait forever.**  Whatever happens to it and in whatever order, it sees at
    most six ticks, and five more for each connection that comes up and each Return: a tick
    without a connection, and the sixth in a row with one, are its last. -/
theorem ticks_le {command : Command} (h : Runs step { commandToSend_ := command } es c) :
    es.countP isTick ≤ 5 * es.countP restarts + 6 ∧ (c.exited = false → c.TimeOutCounter_ ≤ 5) := by
  have hwaiting := waiting_of_runs h
  have hticks := hwaiting.ticks
  refine ⟨?_, hwaiting.counter⟩
  cases hexited : c.exited with
  | false =>
    have hcounter := hwaiting.counter hexited
    rw [hexited, if_neg Bool.false_ne_true] at hticks
    omega
  | true => rwa [hexited, if_pos rfl] at hticks

/-- Connected, and never answered: the sixth tick is the last. -/
theorem ticks_le_six : ∃ c, Runs step { commandToSend_ := { command := .LIST } }
    (.onConnection true :: List.replicate 6 .onTimer) c ∧ c.exited = true ∧
    (CmdClientEvent.onConnection true :: List.replicate 6 .onTimer).countP isTick ≤ 11 := by
  obtain ⟨c, hc, hexited⟩ : ∃ c, Runs step { commandToSend_ := { command := .LIST } }
      (.onConnection true :: List.replicate 6 .onTimer) c ∧ c.exited = true :=
    Runs.exists_of_run (by decide +kernel)
  exact ⟨c, hc, hexited, (ticks_le hc).1⟩

end LkpCmdClient

/-! ## What the arguments say -/

/-- Decimal integers: digits, and a sign or none before them. -/
inductive IsDecimal : Bytes → ℤ → Prop
  | digits {digits : Bytes} : digits ≠ [] → (∀ c ∈ digits, isdigit c) → IsDecimal digits (decimal digits)
  | plus {digits : Bytes} : digits ≠ [] → (∀ c ∈ digits, isdigit c) → IsDecimal (43 :: digits) (decimal digits)
  | minus {digits : Bytes} : digits ≠ [] → (∀ c ∈ digits, isdigit c) →
      IsDecimal (45 :: digits) (-decimal digits)

/-- The command of the message is the one that `argv[1]` names, and the message is for all
    nodes if the integer `argv[3]` is negative, and for the node of that ID if not, also as the
    server reads it. -/
def Named (command nodeID : Bytes) (message : Command) : Prop :=
  (message.command.known ∧ command = ascii (lkpEnumToCmds message.command "")) ∧
  ∃ n, IsDecimal nodeID n ∧ (message.sendToAll ↔ n < 0) ∧
    (0 ≤ n → message.nodeId.toNat = n ∧ intOfU32 message.nodeId = n)

/-- `argv[1]` is in `lkpCommands`; `argv[3]` is a decimal integer, which fits into an `int` if
    it is not negative, and stays negative on its way through `long` to `int` if it is. -/
def Readable (command nodeID : Bytes) : Prop :=
  (∃ lkpCommand ∈ lkpCommands, command = ascii lkpCommand) ∧
  ∃ n, IsDecimal nodeID n ∧ (0 ≤ n → n < 2 ^ 31) ∧ (n < 0 → toInt32 (max (-2 ^ 63) n) < 0)

/-- The configuration file can be read, and if it has all keys so can its numbers. -/
def ConfigReadable (content : Option Bytes) : Prop :=
  ∃ m, ReadConfig content = some (true, m) ∧ ((∀ config ∈ ConfigString, (m (ascii config)).isSome) →
    ∀ f ∈ numericFields, (numberAt m f.1).isSome)

section
variable {str digits command nodeID : Bytes} {n : ℤ} {lkpEnum : CommandID}

/-- `lkpCmdsToEnum` finds the commands by their names, and nothing else. -/
theorem lkpCmdsToEnum_eq_some : lkpCmdsToEnum command = some lkpEnum ↔
    lkpEnum.known ∧ command = ascii (lkpEnumToCmds lkpEnum "") := by
  constructor
  · intro h
    obtain ⟨i, hi, rfl⟩ := Option.map_eq_some_iff.1 h
    obtain ⟨hlt, hname, -⟩ := List.findIdx?_eq_some_iff_getElem.1 hi
    have hname := (of_decide_eq_true hname).symm
    change i < 5 at hlt
    interval_cases i
    all_goals exact ⟨rfl, hname⟩
  · rintro ⟨hknown, rfl⟩
    cases lkpEnum with
    | other => cases hknown
    | _ => decide

theorem lkpCmdsToEnum_isSome : (lkpCmdsToEnum command).isSome ↔
    ∃ lkpCommand ∈ lkpCommands, command = ascii lkpCommand := by
  rw [lkpCmdsToEnum, Option.isSome_map, List.findIdx?_isSome, List.any_eq_true]
  refine exists_congr fun lkpCommand => and_congr_right fun _ => ?_
  rw [decide_eq_true_iff, eq_comm]

theorem not_isspace_of_isdigit {c : UInt8} (h : isdigit c) : ¬ isspace c := by
  simp only [isdigit, isspace, decide_eq_true_eq, UInt8.le_iff_toNat_le, ← UInt8.toNat_inj] at *
  change 48 ≤ _ ∧ _ ≤ 57 at h
  change ¬ (_ = 32 ∨ 9 ≤ _ ∧ _ ≤ 13)
  omega

/-- Behind the sign, `strtol` reads all of the digits. -/
theorem strtol_of_isDecimal (h : IsDecimal str n) : strtol str = max (-2 ^ 63) (min (2 ^ 63 - 1) n) := by
  cases h with
  | @digits digits hne hdigits =>
    obtain ⟨c, digits, rfl⟩ := List.exists_cons_of_ne_nil hne
    have hc := hdigits c List.mem_cons_self
    have hsign : ¬ (some c = some 43 ∨ some c = some 45) := by
      rintro (⟨⟨⟩⟩ | ⟨⟨⟩⟩) <;> cases hc
    rw [strtol, List.dropWhile_cons_of_neg (not_isspace_of_isdigit hc), List.head?_cons, if_neg hsign,
      if_neg fun hminus => hsign (Or.inr hminus), List.takeWhile_eq_self_iff.2 hdigits]
  | plus hne hdigits =>
    rw [strtol, List.dropWhile_cons_of_neg (by decide), List.head?_cons, if_pos (Or.inl rfl), List.tail_cons,
      if_neg (by decide), List.takeWhile_eq_self_iff.2 hdigits]
  | minus hne hdigits =>
    rw [strtol, List.dropWhile_cons_of_neg (by decide), List.head?_cons, if_pos (Or.inr rfl), List.tail_cons,
      if_pos rfl, List.takeWhile_eq_self_iff.2 hdigits]

theorem atoi_of_isDecimal (h : IsDecimal str n) : atoi str = toInt32 (max (-2 ^ 63) (min (2 ^ 63 - 1) n)) := by
  rw [atoi, strtol_of_isDecimal h]

/-- `lkpConfigInit` returns iff the file can be read as far as it reads it. -/
theorem exists_lkpConfigInit {disk : Disk} {uninit : LkpConfig} {ROOT_DIR : String} :
    (∃ init, lkpConfigInit disk uninit ROOT_DIR = .ok init) ↔
      ConfigReadable (disk (ROOT_DIR ++ "/lkp-extent.config")) := by
  constructor
  · rintro ⟨init, hinit⟩
    obtain ⟨hread, ⟨-, -, config, hmem, hnone⟩ | ⟨-, hassign, -⟩⟩ := lkpConfigInit_ok hinit
    · refine ⟨init.m, hread, fun hall => ?_⟩
      have hsome := hall config hmem
      rw [hnone] at hsome
      cases hsome
    · refine ⟨init.m, hread, fun _ f hf => ?_⟩
      obtain ⟨n, hn, -⟩ := assignFields_numbers hassign f hf
      rw [hn]
      rfl
  · rintro ⟨m, hread, hnum⟩
    by_cases hall : ∀ config ∈ ConfigString, (m (ascii config)).isSome
    · obtain ⟨MyConfig, hassign⟩ := exists_assignFields hall (hnum hall)
      obtain ⟨init, hinit, -⟩ := lkpConfigInit_assigned uninit hread hall hassign
      exact ⟨init, hinit⟩
    · push Not at hall
      obtain ⟨config, hmem, hnone⟩ := hall
      exact lkpConfigInit_missing uninit hread hmem (by simpa using hnone)

end

namespace LkpCmdClient

/-- Whatever happens once the client is constructed, all that it sends is what the arguments
    name. -/
def SendsNamed (command nodeID : Bytes) (outcome : Outcome) : Prop :=
  ∀ port commandToSend printed, outcome = .connects port commandToSend printed →
    ∀ es c, Runs step { commandToSend_ := commandToSend } es c →
      ∀ message ∈ c.sent, Named command nodeID message

section
variable (command testcase nodeID containerCnt : Bytes)

theorem commandToSend_command : (commandToSend command testcase nodeID containerCnt).command =
    (lkpCmdsToEnum command).getD .UPDATE := by
  simp only [commandToSend]
  cases lkpCmdsToEnum command <;> split_ifs <;> rfl

theorem commandToSend_node :
    ((commandToSend command testcase nodeID containerCnt).sendToAll ↔ atoi nodeID < 0) ∧
    (0 ≤ atoi nodeID → (commandToSend command testcase nodeID containerCnt).nodeId = u32 (atoi nodeID)) := by
  by_cases hnode : 0 ≤ atoi nodeID
  · have hsent : (commandToSend command testcase nodeID containerCnt).sendToAll = false ∧
        (commandToSend command testcase nodeID containerCnt).nodeId = u32 (atoi nodeID) := by
      simp only [commandToSend, if_pos hnode]
      split_ifs <;> exact ⟨rfl, rfl⟩
    rw [hsent.1]
    exact ⟨iff_of_false Bool.false_ne_true (not_lt.2 hnode), fun _ => hsent.2⟩
  · have hsent : (commandToSend command testcase nodeID containerCnt).sendToAll = true := by
      simp only [commandToSend, if_neg hnode]
      split_ifs <;> rfl
    exact ⟨iff_of_true hsent (not_le.1 hnode), fun h => absurd h hnode⟩

variable {nodeID} in
/-- Where the message goes, for a decimal integer. -/
theorem node_iff {n : ℤ} (hn : IsDecimal nodeID n) :
    (((commandToSend command testcase nodeID containerCnt).sendToAll ↔ n < 0) ∧
      (0 ≤ n → (commandToSend command testcase nodeID containerCnt).nodeId.toNat = n ∧
        intOfU32 (commandToSend command testcase nodeID containerCnt).nodeId = n)) ↔
    (0 ≤ n → n < 2 ^ 31) ∧ (n < 0 → toInt32 (max (-2 ^ 63) n) < 0) := by
  obtain ⟨hall, hnode⟩ := commandToSend_node command testcase nodeID containerCnt
  have hatoi := atoi_of_isDecimal hn
  rw [hall]
  rcases lt_or_ge n 0 with hneg | hpos
  · rw [min_eq_right (by omega)] at hatoi
    rw [hatoi]
    refine ⟨fun h => ⟨fun h0 => absurd hneg (not_lt.2 h0), fun _ => h.1.2 hneg⟩, fun h => ?_⟩
    exact ⟨iff_of_true (h.2 hneg) hneg, fun h0 => absurd hneg (not_lt.2 h0)⟩
  · have hint : IsInt32 (atoi nodeID) := toInt32_isInt32 _
    constructor
    · rintro ⟨hiff, hsame⟩
      have h0 : 0 ≤ atoi nodeID := not_lt.1 fun hlt => absurd (hiff.1 hlt) (not_lt.2 hpos)
      refine ⟨fun _ => ?_, fun hneg => absurd hpos (not_le.2 hneg)⟩
      rw [← (hsame hpos).2, hnode h0, intOfU32_u32]
      exact (toInt32_isInt32 _).2
    · rintro ⟨hlt, -⟩
      have hlt := hlt hpos
      have hval : atoi nodeID = n := by
        rw [hatoi, min_eq_right (by omega), max_eq_right (by omega), toInt32_of_isInt32 ⟨by omega, hlt⟩]
      refine ⟨by rw [hval], fun _ => ?_⟩
      rw [hnode (hval ▸ hpos), hval, toNat_u32, intOfU32_u32, toInt32_of_isInt32 ⟨by omega, hlt⟩]
      exact ⟨Int.emod_eq_of_lt hpos (by omega), rfl⟩

variable {command nodeID} in
theorem named_commandToSend : Named command nodeID (commandToSend command testcase nodeID containerCnt) ↔
    Readable command nodeID := by
  refine and_congr ?_ (exists_congr fun n => ?_)
  · rw [commandToSend_command, ← lkpCmdsToEnum_eq_some, ← lkpCmdsToEnum_isSome]
    cases lkpCmdsToEnum command <;> simp
  · exact and_congr_right fun hn => node_iff command testcase containerCnt hn

end

/-- **What the command line sends is what its arguments name** iff, where the configuration
    lets it connect, the arguments can be read. -/
theorem sendsNamed_iff (name command testcase nodeID containerCnt path : Bytes) (disk : Disk)
    (CmdConfig : LkpConfig) :
    SendsNamed command nodeID (main [name, command, testcase, nodeID, containerCnt, path] disk CmdConfig) ↔
      (ConfigReadable (disk (text path ++ "/lkp-extent.config")) → Readable command nodeID) := by
  rw [← @exists_lkpConfigInit _ CmdConfig, ← named_commandToSend testcase containerCnt]
  constructor
  · rintro h ⟨init, hinit⟩
    refine h _ _ _ (by simp only [main, hinit]; rfl) [.onConnection true] _ (.single rfl) _ ?_
    exact List.mem_singleton_self _
  · rintro h port sent printed hmain es c hc message hmem
    simp only [main] at hmain
    split at hmain
    · cases hmain
    · rename_i init hinit
      cases hmain
      rw [sent_eq hc message hmem]
      exact h ⟨init, hinit⟩

/-- The command REBOOT is not known, and UPDATE is sent. -/
theorem sendsNamed_reboot : ¬ SendsNamed (ascii "REBOOT") (ascii "0")
    (main (["lkp_extent_CLI", "REBOOT", "null", "0", "0", "/lkp"].map ascii)
      (fun _ => some (configText "7777")) (configured 0)) := by
  intro h
  have hmain : main (["lkp_extent_CLI", "REBOOT", "null", "0", "0", "/lkp"].map ascii)
      (fun _ => some (configText "7777")) (configured 0) =
      .connects 7777 { testcase := "null" } ["lkpCmdClient Error: No supprt for command REBOOT", usage] := by
    decide +kernel
  have hnamed := h _ _ _ hmain [.onConnection true] _ (.single rfl) _ (List.mem_singleton_self _)
  exact absurd hnamed.1.2 (by decide)

end LkpCmdClient

end LkpExtent
