import MmrService.JsonValue
import MmrService.Lib.Word
import MmrService.Logger

/-!
The command line of the service: `CCompFramework::dealCmd`, and `CLoggerCtrl::loop` and
`CLicenseCtrl::loop` that it calls. The three loops read lines from the same standard input.
-/

namespace MmrService.Command

open Json (newline colon strtol)
open Logger (emLogLevel)

/-! ### The standard library -/

/-- What the loops use of the standard library of a build and of the system it runs on: the
width of `size_t`, and `atoi`, whose result is undefined for a number that is no `int`. -/
structure Cxx where
  sizeBits : ℕ
  size_width : sizeBits = 32 ∨ sizeBits = 64
  atoi : List UInt8 → ℤ
  atoi_range : ∀ s, -2 ^ 31 ≤ atoi s ∧ atoi s < 2 ^ 31
  atoi_value : ∀ s, -2 ^ 31 ≤ (strtol s).getD 0 → (strtol s).getD 0 < 2 ^ 31 →
    atoi s = (strtol s).getD 0
  /-- Whether a file is loaded without an exception: memory for all that `tellg` says is in it
  is reserved outside of any `try`. -/
  loads : List UInt8 → Bool

lemma glibc_width : (64 : ℕ) = 32 ∨ (64 : ℕ) = 64 := .inr rfl

/-- `(int)strtol(s)` with a `long` of 64 bits, which is the nearest one for a larger number. -/
def glibc : Cxx where
  sizeBits := 64
  size_width := glibc_width
  atoi s := Int.bmod (max (-2 ^ 63) (min ((strtol s).getD 0) (2 ^ 63 - 1))) (2 ^ 32)
  atoi_range s := by
    generalize max (-2 ^ 63) (min ((strtol s).getD 0) (2 ^ 63 - 1)) = n
    have hlo := Int.le_bmod (x := n) (m := 2 ^ 32) (by decide)
    have hhi := Int.bmod_lt (x := n) (m := 2 ^ 32) (by decide)
    omega
  atoi_value s hlo hhi := by
    rw [min_eq_left (by omega), max_eq_right (by omega)]
    exact Int.bmod_eq_of_le (by omega) (by omega)
  loads _ := true

/-- `std::cin` -/
structure Stdin where
  rest : List UInt8
  eofbit : Bool
  failbit : Bool

/-- `std::getline(std::cin, str)`: without anything left to read, `str` is what it was. -/
def getline (cin : Stdin) (str : List UInt8) : Stdin × List UInt8 :=
  if cin.eofbit || cin.failbit then ({ cin with failbit := true }, str)
  else
    let line := cin.rest.takeWhile (· ≠ newline)
    match cin.rest.dropWhile (· ≠ newline) with
    | [] => (⟨[], true, cin.rest.isEmpty⟩, line)
    | _ :: rest => (⟨rest, false, false⟩, line)

variable (lib : Cxx)

def npos : ℕ := 2 ^ lib.sizeBits - 1

/-- `strCmd.find(':')` -/
def findColon (strCmd : List UInt8) : ℕ := (strCmd.idxOf? colon).getD (npos lib)

/-! ### The loggers -/

/-- `int16_t` -/
abbrev Index := { k : ℤ // -2 ^ 15 ≤ k ∧ k < 2 ^ 15 }

/-- The conversion of an `int`. -/
def toIndex (n : ℤ) : Index where
  val := Int.bmod n (2 ^ 16)
  property := by
    have hlo := Int.le_bmod (x := n) (m := 2 ^ 16) (by decide)
    have hhi := Int.bmod_lt (x := n) (m := 2 ^ 16) (by decide)
    omega

/-- `m_mapCompLogger`: a name and the address of a `LogWrapper` for each index. -/
abbrev MapLogCtrl := SortedMap Index (List UInt8 × ℕ)

/-- The levels of the `LogWrapper` objects that exist. -/
abbrev Wrappers := ℕ → Option emLogLevel

/-- `static_cast<emLogLevel>(level)` -/
def toLogLevel : ℤ → emLogLevel
  | 0 => .Log_Forece
  | 1 => .Log_Fatal
  | 2 => .Log_Error
  | 3 => .Log_Warn
  | 4 => .Log_Info
  | 5 => .Log_Debug
  | _ => .Log_Off

inductive Menu where
  | main
  | logger
  | license
  deriving DecidableEq

/-- What the loops print; the rows of the table are an index, a level and a name. -/
inductive Printed where
  | options (menu : Menu)
  | table (rows : List (Index × emLogLevel × List UInt8))
  /-- `set component log level like <index>:<level>. level -1 for log off.` -/
  | usage
  /-- `%s log level set %d success.` -/
  | success (name : List UInt8) (level : ℤ)
  /-- `unknown command! you can input [-vl] to view all component info.` -/
  | unknownCommand
  /-- `invalid command[%s]!` -/
  | invalidCommand (strCmd : List UInt8)
  /-- What a command that returns at once prints. -/
  | info (strCmd : List UInt8)
  | resetLicense (done : Bool)
  | quit (menu : Menu)
  | askQuit
  deriving DecidableEq

/-- The lines of the table. -/
def rows (map : MapLogCtrl) (loggers : Wrappers) : List (Index × emLogLevel × List UInt8) :=
  map.entries.filterMap fun e => (loggers e.2.2).map fun level => (e.1, level, e.2.1)

/-- `find(sIndex)`, and `lock()` where there is one. -/
def findLogger (map : MapLogCtrl) (loggers : Wrappers) (sIndex : Index) :
    Option (List UInt8 × ℕ) :=
  (map.find sIndex).filter fun e => (loggers e.2).isSome

/-- What follows `LoggerPtr`, which may be null. -/
def applyLevel (loggers : Wrappers) (level : ℤ) : Option (List UInt8 × ℕ) → Wrappers × Printed
  | some (name, LoggerPtr) =>
    if -1 ≤ level ∧ level ≤ 5 then
      (Function.update loggers LoggerPtr (some (toLogLevel level)), .success name level)
    else (loggers, .unknownCommand)
  | none => (loggers, .unknownCommand)

/-- What `-sl` does with the line that is typed for it; it throws where
`std::string(begin, begin + pos)` goes over the end. -/
def setLevel (map : MapLogCtrl) (loggers : Wrappers) (strCmd : List UInt8) :
    Option (Wrappers × Printed) :=
  let pos := findColon lib strCmd
  if 0 < pos ∧ pos = Word.sub lib.sizeBits strCmd.length 2 then
    if strCmd.length < pos then none
    else
      let compName := strCmd.take pos
      let sIndex := toIndex (lib.atoi compName)
      let level := Word.toInt 8 (strCmd.getD (pos + 1) 0).toNat - 0x30
      some (applyLevel loggers level (findLogger map loggers sIndex))
  else some (loggers, .unknownCommand)

/-! ### The loops -/

/-- `-vl`, `-sl`, `-rs`, `-q`, `-h`, `-lg` and `-lc` -/
def vl : List UInt8 := [45, 118, 108]
def sl : List UInt8 := [45, 115, 108]
def rs : List UInt8 := [45, 114, 115]
def q : List UInt8 := [45, 113]
def h : List UInt8 := [45, 104]
def lg : List UInt8 := [45, 108, 103]
def lc : List UInt8 := [45, 108, 99]

/-- `-sa`, `-ca` and `-tp`, which print something and return. -/
def infos : List (List UInt8) := [[45, 115, 97], [45, 99, 97], [45, 116, 112]]

/-- `"Y" == strCmd || "y" == strCmd` -/
def isYes (strCmd : List UInt8) : Bool := strCmd = [89] || strCmd = [121]

/-- The loop that is running, and what it works on. -/
structure State where
  menu : Menu
  cin : Stdin
  loggers : Wrappers
  out : List Printed

/-- What an iteration comes to. -/
inductive Outcome where
  | next (st : State)
  | stopped (out : List Printed)
  | threw

/-- `parseLicenFile` loads the file, and returns false as `checkLicense` would: neither is
written yet. -/
def reloadLicense (strFilePath : List UInt8) : Option Bool :=
  if lib.loads strFilePath then some false else none

/-- One iteration of `dealCmd`. The commands `-lg` and `-lc` run a loop of their own. -/
def dealCmd (st : State) : Outcome :=
  let (cin, strCmd) := getline st.cin []
  if strCmd = lg then .next { st with menu := .logger, cin, out := st.out ++ [.options .logger] }
  else if strCmd = lc then
    .next { st with menu := .license, cin, out := st.out ++ [.options .license] }
  else if infos.contains strCmd then .next { st with cin, out := st.out ++ [.info strCmd] }
  else if strCmd = h then .next { st with cin, out := st.out ++ [.options .main] }
  else if strCmd = q then
    let (cin, strCmd) := getline cin strCmd
    if isYes strCmd then .stopped (st.out ++ [.askQuit, .quit .main])
    else .next { st with cin, out := st.out ++ [.askQuit, .options .main] }
  else .next { st with cin, out := st.out ++ [.invalidCommand strCmd, .options .main] }

/-- One iteration of `CLoggerCtrl::loop`. -/
def loggerLoop (map : MapLogCtrl) (st : State) : Outcome :=
  let (cin, strCmd) := getline st.cin []
  if vl.isPrefixOf strCmd then
    .next { st with cin, out := st.out ++ [.table (rows map st.loggers)] }
  else if sl.isPrefixOf strCmd then
    let (cin, strCmd) := getline cin strCmd
    match setLevel lib map st.loggers strCmd with
    | none => .threw
    | some (loggers, printed) =>
      let out := st.out ++ [.table (rows map st.loggers), .usage, printed]
      .next { st with cin, loggers, out }
  else if strCmd = q then .next { st with menu := .main, cin, out := st.out ++ [.quit .logger] }
  else .next { st with cin, out := st.out ++ [.invalidCommand strCmd, .options .logger] }

/-- One iteration of `CLicenseCtrl::loop`. -/
def licenseLoop (st : State) : Outcome :=
  let (cin, strCmd) := getline st.cin []
  if vl.isPrefixOf strCmd then .next { st with cin, out := st.out ++ [.info strCmd] }
  else if rs.isPrefixOf strCmd then
    let (cin, strCmd) := getline cin strCmd
    match reloadLicense lib strCmd with
    | none => .threw
    | some done => .next { st with cin, out := st.out ++ [.resetLicense done] }
  else if strCmd = q then .next { st with menu := .main, cin, out := st.out ++ [.quit .license] }
  else .next { st with cin, out := st.out ++ [.invalidCommand strCmd, .options .license] }

/-- One iteration of the innermost loop; the run flag stays true. -/
def step (map : MapLogCtrl) (st : State) : Outcome :=
  match st.menu with
  | .main => dealCmd st
  | .logger => loggerLoop lib map st
  | .license => licenseLoop lib st

/-- The first `n` iterations. -/
def run (map : MapLogCtrl) : ℕ → State → Outcome
  | 0, st => .next st
  | n + 1, st =>
    match step lib map st with
    | .next st => run map n st
    | ended => ended

/-- The service is started with this standard input. -/
def start (loggers : Wrappers) (content : List UInt8) : State :=
  ⟨.main, ⟨content, false, false⟩, loggers, [.options .main]⟩

end MmrService.Command
