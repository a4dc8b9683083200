/-
  LkpExtent formalization — the start of the service: `lkpConfigInit` of `lkpHelper.cc`
  and `main` of `lkp_extent.cc`, up to the construction of `lkpServer` or `lkpClient`.

  * `stoi`, and the narrowing of its number to `uint16_t`;
  * `startsAsWritten_iff`: the service starts only with what was written iff all keys
    are there and, if all numbers can be read, none of them is narrowed;
  * `readConfig_configString`: the keys of `ConfigString` are read as the grammar of the file says.
-/
import LkpExtent.ConfigGrammar
import LkpExtent.Muduo

namespace LkpExtent

open Lib

/-! ## Numbers -/

/-- `isspace` in the C locale. -/
def isspace (c : UInt8) : Bool := c = 32 ∨ (9 ≤ c ∧ c ≤ 13)

def isdigit (c : UInt8) : Bool := 48 ≤ c ∧ c ≤ 57

/-- The number that decimal digits stand for. -/
def decimal (digits : Bytes) : ℤ := digits.foldl (fun n c => 10 * n + (c.toNat - 48)) 0

/-- `std::stoi`, which throws without digits and outside the range of `int`. -/
def stoi (str : Bytes) : Option ℤ :=
  let str := str.dropWhile isspace
  let sign := str.head?
  let digits := (if sign = some 43 ∨ sign = some 45 then str.tail else str).takeWhile isdigit
  if digits.isEmpty then none
  else cint (if sign = some 45 then -decimal digits else decimal digits)

/-- The conversion to `uint16_t` keeps just the numbers that fit. -/
theorem toNat_ofInt_iff {n : ℤ} : n = (UInt16.ofInt n).toNat ↔ 0 ≤ n ∧ n < 2 ^ 16 := by
  have hofInt : (UInt16.ofInt n).toNat = (n % 2 ^ 16).toNat % 2 ^ 16 := rfl
  rw [hofInt]
  omega

/-! ## The configuration -/

/-- `ConfigString`. -/
def ConfigString : List String :=
  ["ServerListenPort", "ServerThreadsNum", "ServerTimeControl", "ServerflushInterval", "ServerPushPath",
    "ServerResultPath", "ServerAddress", "ServerPort", "HeartBeatTime", "ClientPushPath"]

/-- `lkpConfig`. -/
structure LkpConfig where
  ServerListenPort : UInt16
  ServerThreadsNum : UInt16
  ServerTimeControl : UInt16
  ServerflushInterval : UInt16
  ServerPort : UInt16
  HeartBeatTime : UInt16
  ServerPushPath : Bytes
  ServerResultPath : Bytes
  ServerAddress : Bytes
  ClientPushPath : Bytes
  deriving DecidableEq

/-- How a program ends before its `main` returns. -/
inductive Halt where
  | exits (status : ℤ) (printed : List String)
  /-- by an exception that nothing catches, or undefined -/
  | terminates
  deriving DecidableEq

/-- How `main` goes, with what it has printed. -/
inductive Outcome where
  | returns (status : ℤ) (printed : List String)
  | halts (halt : Halt)
  /-- it constructs `lkpServer` or `lkpClient` -/
  | serves (isServer : Bool) (ROOT_DIR : String) (MyConfig : LkpConfig) (printed : List String)
  deriving DecidableEq

/-- What `lkpConfigInit` leaves behind when it returns. -/
structure ConfigInit where
  result : Bool
  m : ConfigMap
  myConfig : LkpConfig
  printed : List String := []

/-- `stoi(m.at(config))`. -/
def numberAt (m : ConfigMap) (config : String) : Option ℤ := (m (ascii config)).bind stoi

/-- The assignments of `lkpConfigInit`. -/
def assignFields (m : ConfigMap) : Option LkpConfig := do
  let ServerListenPort ← numberAt m "ServerListenPort"
  let ServerThreadsNum ← numberAt m "ServerThreadsNum"
  let ServerTimeControl ← numberAt m "ServerTimeControl"
  let ServerflushInterval ← numberAt m "ServerflushInterval"
  let ServerPushPath ← m (ascii "ServerPushPath")
  let ServerResultPath ← m (ascii "ServerResultPath")
  let ServerAddress ← m (ascii "ServerAddress")
  let ServerPort ← numberAt m "ServerPort"
  let HeartBeatTime ← numberAt m "HeartBeatTime"
  let ClientPushPath ← m (ascii "ClientPushPath")
  return {
    ServerListenPort := .ofInt ServerListenPort
    ServerThreadsNum := .ofInt ServerThreadsNum
    ServerTimeControl := .ofInt ServerTimeControl
    ServerflushInterval := .ofInt ServerflushInterval
    ServerPort := .ofInt ServerPort
    HeartBeatTime := .ofInt HeartBeatTime
    ServerPushPath, ServerResultPath, ServerAddress, ClientPushPath }

/-- `lkpConfigInit`, with the files that `ROOT_DIR` leads to. -/
def lkpConfigInit (disk : Disk) (myConfig : LkpConfig) (ROOT_DIR : String) : Except Halt ConfigInit :=
  match ReadConfig (disk (ROOT_DIR ++ "/lkp-extent.config")) with
  | none => .error .terminates
  | some (false, _) =>
    .error (.exits 1 ["lkp-ctl init failed: Config File open error!",
      "lkp-ctl service start failed: Cannot read config file!"])
  | some (true, m) =>
    match ConfigString.find? fun config => (m (ascii config)).isNone with
    | some config =>
      .ok { result := false, m, myConfig,
            printed := ["lkp-ctl service start failed: miss configure: " ++ config] }
    | none =>
      match assignFields m with
      | none => .error .terminates
      | some myConfig => .ok { result := true, m, myConfig }

/-! ## main -/

/-- The part of `main` behind the check of `argv[2]`. -/
def serve (isServer : Bool) (ROOT_DIR : String) (daemon : ℤ) (init : ConfigInit) : Outcome :=
  if daemon < 0 then .halts (.exits 1 (init.printed ++ ["lkp-extent error: cannot run as daemon!"]))
  else .serves isServer ROOT_DIR init.myConfig init.printed

/-- `main`, with the files, the result of `daemon`, and what the fields of `MyConfig`
    happen to hold before `lkpConfigInit`. -/
def main (argv : List String) (disk : Disk) (daemon : ℤ) (MyConfig : LkpConfig) : Outcome :=
  match argv with
  | [_, ROOT_DIR, ServerNClient] =>
    match lkpConfigInit disk MyConfig ROOT_DIR with
    | .error halt => .halts halt
    | .ok init =>
      -- `init.result` is not looked at
      if ServerNClient = "server" then serve true ROOT_DIR daemon init
      else if ServerNClient = "client" then serve false ROOT_DIR daemon init
      else .returns 0
        (init.printed ++ ["lkp-ctl service start failed: Not a valid input (server or client)"])
  | _ => .returns 1 ["lkp-ctl service start failed: Wrong argv"]

/-- What `lkpConfigInit` has done when it returns. -/
theorem lkpConfigInit_ok {disk : Disk} {uninit : LkpConfig} {ROOT_DIR : String} {init : ConfigInit}
    (h : lkpConfigInit disk uninit ROOT_DIR = .ok init) :
    ReadConfig (disk (ROOT_DIR ++ "/lkp-extent.config")) = some (true, init.m) ∧
      ((init.result = false ∧ init.myConfig = uninit ∧ ∃ config ∈ ConfigString, init.m (ascii config) = none) ∨
      (init.result = true ∧ assignFields init.m = some init.myConfig ∧
        ∀ config ∈ ConfigString, (init.m (ascii config)).isSome)) := by
  simp only [lkpConfigInit] at h
  split at h
  · cases h
  · cases h
  · rename_i m hread
    split at h
    · rename_i config hfind
      cases h
      exact ⟨hread, .inl ⟨rfl, rfl, config, List.mem_of_find?_eq_some hfind,
        by simpa using List.find?_some hfind⟩⟩
    · rename_i hfind
      split at h
      · cases h
      · rename_i myConfig hassign
        cases h
        refine ⟨hread, .inr ⟨rfl, hassign, ?_⟩⟩
        intro config hmem
        have hpresent := List.find?_eq_none.1 hfind config hmem
        simpa [Option.isSome_iff_ne_none] using hpresent

/-- A key that is missing does not keep it from returning. -/
theorem lkpConfigInit_missing {disk : Disk} {ROOT_DIR config : String} {m : ConfigMap} (uninit : LkpConfig)
    (hread : ReadConfig (disk (ROOT_DIR ++ "/lkp-extent.config")) = some (true, m))
    (hmem : config ∈ ConfigString) (hnone : m (ascii config) = none) :
    ∃ init, lkpConfigInit disk uninit ROOT_DIR = .ok init := by
  rcases hfind : ConfigString.find? fun config => (m (ascii config)).isNone with _ | config'
  · have hpresent := List.find?_eq_none.1 hfind config hmem
    simp [hnone] at hpresent
  · exact ⟨_, by simp only [lkpConfigInit, hread, hfind]; rfl⟩

theorem lkpConfigInit_assigned {disk : Disk} {ROOT_DIR : String} {m : ConfigMap} {MyConfig : LkpConfig}
    (uninit : LkpConfig) (hread : ReadConfig (disk (ROOT_DIR ++ "/lkp-extent.config")) = some (true, m))
    (hall : ∀ config ∈ ConfigString, (m (ascii config)).isSome) (hassign : assignFields m = some MyConfig) :
    ∃ init, lkpConfigInit disk uninit ROOT_DIR = .ok init ∧ init.myConfig = MyConfig := by
  have hfind : (ConfigString.find? fun config => (m (ascii config)).isNone) = none := by
    refine List.find?_eq_none.2 ?_
    intro config hmem
    simpa [Option.isSome_iff_ne_none] using hall config hmem
  exact ⟨{ result := true, m, myConfig := MyConfig }, by simp only [lkpConfigInit, hread, hfind, hassign], rfl⟩

/-- `main` is called with a directory and `server` or `client`, and becomes a daemon. -/
def GoesOn (argv : List String) (daemon : ℤ) : Prop :=
  argv.length = 3 ∧ (argv[2]? = some "server" ∨ argv[2]? = some "client") ∧ 0 ≤ daemon

/-- If the service is constructed, `lkpConfigInit` has returned. -/
theorem main_serves {argv : List String} {disk : Disk} {daemon : ℤ} {uninit : LkpConfig}
    {isServer : Bool} {ROOT_DIR : String} {MyConfig : LkpConfig} {printed : List String}
    (h : main argv disk daemon uninit = .serves isServer ROOT_DIR MyConfig printed) :
    GoesOn argv daemon ∧ argv[1]? = some ROOT_DIR ∧
      ∃ init, lkpConfigInit disk uninit ROOT_DIR = .ok init ∧ init.myConfig = MyConfig := by
  simp only [main] at h
  split at h
  · rename_i name root ServerNClient
    split at h
    · cases h
    · rename_i init hinit
      split_ifs at h with hserver hclient
      all_goals simp only [serve] at h
      · split_ifs at h with hdaemon
        cases h
        subst hserver
        exact ⟨⟨rfl, .inl rfl, not_lt.1 hdaemon⟩, rfl, init, hinit, rfl⟩
      · split_ifs at h with hdaemon
        cases h
        subst hclient
        exact ⟨⟨rfl, .inr rfl, not_lt.1 hdaemon⟩, rfl, init, hinit, rfl⟩
  · cases h

/-- If it returns, the service is constructed, whatever it has returned. -/
theorem main_of_ok {argv : List String} {disk : Disk} {daemon : ℤ} {uninit : LkpConfig}
    {ROOT_DIR : String} {init : ConfigInit} (hargv : GoesOn argv daemon) (hroot : argv[1]? = some ROOT_DIR)
    (h : lkpConfigInit disk uninit ROOT_DIR = .ok init) :
    ∃ isServer, main argv disk daemon uninit = .serves isServer ROOT_DIR init.myConfig init.printed := by
  obtain ⟨hlen, hmode, hdaemon⟩ := hargv
  obtain ⟨name, root, ServerNClient, rfl⟩ := List.length_eq_three.1 hlen
  obtain rfl : root = ROOT_DIR := by simpa using hroot
  have hrun : ¬ daemon < 0 := not_lt.2 hdaemon
  rcases hmode with hmode | hmode
  · obtain rfl : ServerNClient = "server" := by simpa using hmode
    exact ⟨true, by simp only [main, h, serve, if_neg hrun, if_true]⟩
  · obtain rfl : ServerNClient = "client" := by simpa using hmode
    exact ⟨false, by simp [main, h, serve, hrun]⟩

/-! ## What the service starts with -/

/-- The fields of `lkpConfig` that are numbers. -/
def numericFields : List (String × (LkpConfig → UInt16)) :=
  [("ServerListenPort", (·.ServerListenPort)), ("ServerThreadsNum", (·.ServerThreadsNum)),
    ("ServerTimeControl", (·.ServerTimeControl)), ("ServerflushInterval", (·.ServerflushInterval)),
    ("ServerPort", (·.ServerPort)), ("HeartBeatTime", (·.HeartBeatTime))]

/-- If the service is constructed, all keys are in the file, and its numbers are the
    numbers that `stoi` reads there. -/
def StartsAsWritten (content : Bytes) (outcome : Outcome) : Prop :=
  ∀ isServer ROOT_DIR MyConfig printed, outcome = .serves isServer ROOT_DIR MyConfig printed →
    ∃ m, ReadConfig (some content) = some (true, m) ∧ (∀ config ∈ ConfigString, (m (ascii config)).isSome) ∧
      ∀ f ∈ numericFields, numberAt m f.1 = some ((f.2 MyConfig).toNat : ℤ)

/-- All keys are there, and if all numbers can be read all of them fit into `uint16_t`. -/
def WellConfigured (m : ConfigMap) : Prop :=
  (∀ config ∈ ConfigString, (m (ascii config)).isSome) ∧
    ((∀ f ∈ numericFields, (numberAt m f.1).isSome) →
      ∀ f ∈ numericFields, ∀ n ∈ numberAt m f.1, 0 ≤ n ∧ n < 2 ^ 16)

instance (m : ConfigMap) : Decidable (WellConfigured m) := inferInstanceAs (Decidable (_ ∧ _))

/-- The configuration file, if it can be opened. -/
def configFile (argv : List String) (disk : Disk) : Option Bytes :=
  argv[1]?.bind fun ROOT_DIR => disk (ROOT_DIR ++ "/lkp-extent.config")

/-! ## What is assigned -/

/-- What the assignments leave in the fields. -/
theorem assignFields_numbers {m : ConfigMap} {MyConfig : LkpConfig} (h : assignFields m = some MyConfig) :
    ∀ f ∈ numericFields, ∃ n, numberAt m f.1 = some n ∧ f.2 MyConfig = .ofInt n := by
  simp only [assignFields, Option.bind_eq_bind, Option.bind_eq_some_iff, Option.pure_def, Option.some.injEq] at h
  obtain ⟨listenPort, h₁, threadsNum, h₂, timeControl, h₃, flushInterval, h₄, -, -, -, -, -, -, port, h₅, time, h₆,
    -, -, rfl⟩ := h
  simp only [numericFields, List.forall_mem_cons]
  exact ⟨⟨_, h₁, rfl⟩, ⟨_, h₂, rfl⟩, ⟨_, h₃, rfl⟩, ⟨_, h₄, rfl⟩, ⟨_, h₅, rfl⟩, ⟨_, h₆, rfl⟩, by simp⟩

/-- They are made if all keys are there and all numbers can be read. -/
theorem exists_assignFields {m : ConfigMap} (hall : ∀ config ∈ ConfigString, (m (ascii config)).isSome)
    (hnum : ∀ f ∈ numericFields, (numberAt m f.1).isSome) : ∃ MyConfig, assignFields m = some MyConfig := by
  simp only [ConfigString, List.forall_mem_cons, Option.isSome_iff_exists] at hall
  simp only [numericFields, List.forall_mem_cons, Option.isSome_iff_exists] at hnum
  obtain ⟨-, -, -, -, ⟨pushPath, hp₁⟩, ⟨resultPath, hp₂⟩, ⟨address, hp₃⟩, -, -, ⟨clientPath, hp₄⟩, -⟩ := hall
  obtain ⟨⟨_, h₁⟩, ⟨_, h₂⟩, ⟨_, h₃⟩, ⟨_, h₄⟩, ⟨_, h₅⟩, ⟨_, h₆⟩, -⟩ := hnum
  simp only [assignFields, h₁, h₂, h₃, h₄, h₅, h₆, hp₁, hp₂, hp₃, hp₄]
  exact ⟨_, rfl⟩

section
variable {argv : List String} {disk : Disk} {daemon : ℤ} {uninit : LkpConfig} {content : Bytes}
  {ROOT_DIR : String} {m : ConfigMap}

/-- With a key missing the service would be constructed. -/
theorem StartsAsWritten.keys (h : StartsAsWritten content (main argv disk daemon uninit))
    (hargv : GoesOn argv daemon) (hroot : argv[1]? = some ROOT_DIR)
    (hdisk : disk (ROOT_DIR ++ "/lkp-extent.config") = some content)
    (hread : ReadConfig (some content) = some (true, m)) :
    ∀ config ∈ ConfigString, (m (ascii config)).isSome := by
  intro config hmem
  by_contra hnone
  obtain ⟨init, hinit⟩ := lkpConfigInit_missing uninit (hdisk ▸ hread) hmem (by simpa using hnone)
  obtain ⟨isServer, hserves⟩ := main_of_ok hargv hroot hinit
  obtain ⟨m', hread', hall, -⟩ := h _ _ _ _ hserves
  rw [hread] at hread'
  cases hread'
  exact hnone (hall config hmem)

/-- With a number that does not fit it would be constructed too. -/
theorem StartsAsWritten.fits (h : StartsAsWritten content (main argv disk daemon uninit))
    (hargv : GoesOn argv daemon) (hroot : argv[1]? = some ROOT_DIR)
    (hdisk : disk (ROOT_DIR ++ "/lkp-extent.config") = some content)
    (hread : ReadConfig (some content) = some (true, m))
    (hnum : ∀ f ∈ numericFields, (numberAt m f.1).isSome) :
    ∀ f ∈ numericFields, ∀ n ∈ numberAt m f.1, 0 ≤ n ∧ n < 2 ^ 16 := by
  intro f hf n hn
  have hall := h.keys hargv hroot hdisk hread
  obtain ⟨MyConfig, hassign⟩ := exists_assignFields hall hnum
  obtain ⟨init, hinit, rfl⟩ := lkpConfigInit_assigned uninit (hdisk ▸ hread) hall hassign
  obtain ⟨isServer, hserves⟩ := main_of_ok hargv hroot hinit
  obtain ⟨m', hread', -, hwritten⟩ := h _ _ _ _ hserves
  rw [hread] at hread'
  cases hread'
  obtain ⟨n', hn', hfield⟩ := assignFields_numbers hassign f hf
  have hsame := hwritten f hf
  rw [hfield, hn'] at hsame
  rw [hn'] at hn
  cases hn
  exact toNat_ofInt_iff.1 (Option.some.inj hsame)

/-- With all keys, and numbers that fit, the fields hold what was written. -/
theorem WellConfigured.numbers {MyConfig : LkpConfig} (h : WellConfigured m)
    (hassign : assignFields m = some MyConfig) :
    ∀ f ∈ numericFields, numberAt m f.1 = some ((f.2 MyConfig).toNat : ℤ) := by
  have hnumbers := assignFields_numbers hassign
  have hsome : ∀ f ∈ numericFields, (numberAt m f.1).isSome := by
    intro f hf
    obtain ⟨n, hn, -⟩ := hnumbers f hf
    rw [hn]; rfl
  intro f hf
  obtain ⟨n, hn, hfield⟩ := hnumbers f hf
  rw [hn, hfield, ← toNat_ofInt_iff.2 (h.2 hsome f hf n hn)]

end

/-- **When the service starts only with the configuration that was written.** -/
theorem startsAsWritten_iff {argv : List String} {disk : Disk} {daemon : ℤ} {uninit : LkpConfig}
    {content : Bytes} (hfile : configFile argv disk = some content) :
    StartsAsWritten content (main argv disk daemon uninit) ↔
      (GoesOn argv daemon → ∀ m, ReadConfig (some content) = some (true, m) → WellConfigured m) := by
  obtain ⟨ROOT_DIR, hroot, hdisk⟩ := Option.bind_eq_some_iff.1 hfile
  constructor
  · rintro h hargv m hread
    exact ⟨h.keys hargv hroot hdisk hread, h.fits hargv hroot hdisk hread⟩
  · rintro h isServer root MyConfig printed hserves
    obtain ⟨hargv, hroot', init, hinit, rfl⟩ := main_serves hserves
    obtain rfl : ROOT_DIR = root := Option.some.inj (hroot.symm.trans hroot')
    obtain ⟨hread, hinit⟩ := lkpConfigInit_ok hinit
    rw [hdisk] at hread
    have hwell := h hargv init.m hread
    refine ⟨init.m, hread, hwell.1, ?_⟩
    rcases hinit with ⟨-, -, config, hmem, hnone⟩ | ⟨-, hassign, -⟩
    · have hsome := hwell.1 config hmem
      rw [hnone] at hsome
      cases hsome
    · exact hwell.numbers hassign

/-- The configuration file of the repository without its comments, for another port. -/
def configText (port : String) : Bytes :=
  ["ServerListenPort = " ++ port, "ServerThreadsNum = 4", "ServerTimeControl = 10", "ServerflushInterval = 3",
    "ServerPushPath = testcases", "ServerResultPath = results", "ServerAddress = 172.28.158.128",
    "ServerPort = 7777", "HeartBeatTime = 5", "ClientPushPath = testcases"].flatMap fun line => ascii line ++ [10]

/-- What is made of it. -/
def configured (port : UInt16) : LkpConfig where
  ServerListenPort := port
  ServerThreadsNum := 4
  ServerTimeControl := 10
  ServerflushInterval := 3
  ServerPort := 7777
  HeartBeatTime := 5
  ServerPushPath := ascii "testcases"
  ServerResultPath := ascii "results"
  ServerAddress := ascii "172.28.158.128"
  ClientPushPath := ascii "testcases"

theorem startsAsWritten_configText : StartsAsWritten (configText "7777")
    (main ["lkp-extent", "/lkp", "server"] (fun _ => some (configText "7777")) 0 (configured 0)) := by
  refine (startsAsWritten_iff rfl).2 ?_
  rintro - m hread
  have hwell : ∀ r ∈ ReadConfig (some (configText "7777")), WellConfigured r.2 := by decide +kernel
  exact hwell _ hread

/-- A port of 70000 is narrowed. -/
theorem startsAsWritten_port : ¬ ∀ (argv : List String) (disk : Disk) (daemon : ℤ) (uninit : LkpConfig)
    (content : Bytes), configFile argv disk = some content →
    StartsAsWritten content (main argv disk daemon uninit) := by
  intro h
  let disk : Disk := fun _ => some (configText "70000")
  have hmain : main ["lkp-extent", "/lkp", "server"] disk 0 (configured 0) =
      .serves true "/lkp" (configured 4464) [] := by decide +kernel
  obtain ⟨m, hread, -, hwritten⟩ := h _ disk 0 (configured 0) _ rfl _ _ _ _ hmain
  have hport : ∀ r ∈ ReadConfig (some (configText "70000")), numberAt r.2 "ServerListenPort" = some 70000 := by
    decide +kernel
  have hfield := hwritten ("ServerListenPort", (·.ServerListenPort)) (List.mem_cons_self ..)
  rw [hport _ hread] at hfield
  exact absurd hfield (by decide)

/-- Without any key the service starts with whatever is in `MyConfig`. -/
example (uninit : LkpConfig) : main ["lkp-extent", "/lkp", "client"] (fun _ => some []) 0 uninit =
    .serves false "/lkp" uninit ["lkp-ctl service start failed: miss configure: ServerListenPort"] := rfl

/-! ## The keys and the grammar -/

/-- A line gives a value to a key of two characters or more, without a comment
    character, just as the grammar says. -/
theorem readEntry_key {line key value : Bytes} (hlen : 2 ≤ key.length) (hno : COMMENT_CHAR ∉ key) :
    readEntry line = some (key, value) ↔ entry line = some (key, value) := by
  by_cases hhidden : HiddenAssignment line
  · obtain ⟨key', value', hread, hcomment⟩ := readEntry_hidden hhidden
    rw [hread, entry, assignmentIn_of_not_mem hhidden.2.1]
    refine iff_of_false ?_ (by simp)
    intro heq
    cases heq
    exact hno hcomment
  · rw [readEntry_eq_some hhidden]
    refine and_iff_left ?_
    rintro k rfl
    simp at hlen

/-- **The keys of `ConfigString` are read as the grammar says**: their values are those
    of the last accepted lines for them. -/
theorem readConfig_configString {content : Bytes} {m : ConfigMap}
    (hlen : ∀ line ∈ getlines content, line.length < 2 ^ 31) (hread : ReadConfig (some content) = some (true, m))
    {config : String} (hmem : config ∈ ConfigString) :
    m (ascii config) = assign entry (getlines content) (ascii config) := by
  have hkeys : ∀ config ∈ ConfigString, 2 ≤ (ascii config).length ∧ COMMENT_CHAR ∉ ascii config := by
    decide +kernel
  obtain ⟨hsize, hno⟩ := hkeys config hmem
  rw [readConfig_eq hlen] at hread
  cases hread
  exact assign_congr_key fun line _ value => readEntry_key hsize hno

end LkpExtent
