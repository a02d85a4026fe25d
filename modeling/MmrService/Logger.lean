import MmrService.BigBuff
import MmrService.LogFiles
import MmrService.Lib.Transition

/-!
`CLogger`: the calls that add a record to the write buffer, and the steps of `dealThread`
that write full buffers to the log file.

`logWrite` and the level functions run under `m_mutWrite`, each as one step. The deal thread
takes the lock to swap the queues and to give a buffer back, and writes a buffer without it.
-/

namespace MmrService.Logger

inductive emLogLevel where
  | Log_Off | Log_Forece | Log_Fatal | Log_Error | Log_Warn | Log_Info | Log_Debug
  deriving DecidableEq, Repr

def emLogLevel.toInt : emLogLevel → ℤ
  | Log_Off => -1
  | Log_Forece => 0
  | Log_Fatal => 1
  | Log_Error => 2
  | Log_Warn => 3
  | Log_Info => 4
  | Log_Debug => 5

/-- The fields of `std::tm` that the logger compares. -/
structure Tm where
  tm_sec : ℤ
  tm_min : ℤ
  tm_hour : ℤ
  tm_mday : ℤ
  tm_mon : ℤ
  tm_year : ℤ
  deriving DecidableEq, Repr

def m_lMaxStrLen : ℕ := 2048
def m_ulBigBufSize : ℕ := 1024 * 1024
def MIN_AVAILI_SIZE : ℕ := 1024

/-- A buffer as `DataImp` and `updateBufWrite` allocate it. -/
def newBuf (junk : ℕ → UInt8) : CBigBuff := CBigBuff.make m_ulBigBufSize (by decide) junk

structure CLogger where
  m_LogLevel : emLogLevel
  m_fileNum : ℕ
  m_fileSize : ℕ
  m_bAsynLog : Bool
  m_lastTime : Tm
  m_szLastTime : List UInt8
  m_strFilePath : String
  m_pBufWrite : CBigBuff
  m_pBufDeal : Option CBigBuff
  m_queBufsWrite : List CBigBuff
  m_queBufsDeal : List CBigBuff
  m_queBufsEmpty : List CBigBuff
  files : LogFiles.Files

/-- A logger after its constructor has opened the log file. `m_lastTime` and `m_szLastTime`
have no initialiser. -/
def construct (ulFileNum ullFileSize : ℕ) (bAsyn : Bool) (path : String) (lastTime : Tm)
    (szLastTime : List UInt8) (junk : Fin 4 → ℕ → UInt8) (files : LogFiles.Files) : CLogger where
  m_LogLevel := .Log_Debug
  m_fileNum := ulFileNum
  m_fileSize := ullFileSize * 1024 * 1024 % 2 ^ 64
  m_bAsynLog := bAsyn
  m_lastTime := lastTime
  m_szLastTime := szLastTime
  m_strFilePath := path
  m_pBufWrite := newBuf (junk 0)
  m_pBufDeal := none
  m_queBufsWrite := []
  m_queBufsDeal := []
  m_queBufsEmpty := [newBuf (junk 1), newBuf (junk 2), newBuf (junk 3)]
  files := LogFiles.openApp files path

/-! ### The time stamp -/

/-- `%0<width>d` of an integer. -/
def formatInt (width : ℕ) (n : ℤ) : List UInt8 :=
  let digits := (Nat.toDigits 10 n.natAbs).map fun c => UInt8.ofNat c.toNat
  if n < 0 then 45 :: digits.leftpad (width - 1) 48 else digits.leftpad width 48

/-- The text of `"%04d-%02d-%02d %02d:%02d:%02d"`, cut to the 32 bytes of `m_szLastTime`. -/
def formatTm (t : Tm) : List UInt8 :=
  (formatInt 4 (t.tm_year + 1900) ++ 45 :: formatInt 2 (t.tm_mon + 1) ++ 45 ::
    formatInt 2 t.tm_mday ++ 32 :: formatInt 2 t.tm_hour ++ 58 :: formatInt 2 t.tm_min ++
    58 :: formatInt 2 t.tm_sec).take 31

/-- `m_szLastTime` is formatted again only when a field of the time has changed. -/
def updateTime (s : CLogger) (time_info : Tm) : CLogger :=
  if time_info ≠ s.m_lastTime then
    { s with m_lastTime := time_info, m_szLastTime := formatTm time_info }
  else s

/-- The text of `"%s.%03d "`. -/
def stamp (s : CLogger) (now_ms : ℕ) : List UInt8 :=
  s.m_szLastTime ++ 46 :: formatInt 3 now_ms ++ [32]

/-! ### Writing a record -/

/-- The full buffer goes to the write queue, and an empty one or a new one in its place. -/
def updateBufWrite (s : CLogger) (junk : ℕ → UInt8) : Option CLogger :=
  s.m_pBufWrite.zeroEnd.map fun b =>
    let s := { s with m_queBufsWrite := s.m_queBufsWrite ++ [b] }
    match s.m_queBufsEmpty with
    | e :: rest => { s with m_pBufWrite := e, m_queBufsEmpty := rest }
    | [] => { s with m_pBufWrite := newBuf junk }

/-- The switch of buffers a call makes when little of the write buffer is left. -/
def reserve (s : CLogger) (junk : ℕ → UInt8) : Option CLogger :=
  if s.m_bAsynLog ∧ s.m_pBufWrite.getTryAvailid ≤ MIN_AVAILI_SIZE then updateBufWrite s junk
  else some s

/-- The time stamp, uncommitted. -/
def writeStamp (b : CBigBuff) (stamp : List UInt8) : Option CBigBuff :=
  (b.snprintf 25 stamp).map fun b => b.addTryIncrease 24

/-- The length a record's message is given, from what `vsnprintf` returned: `strLen` is an
`int`, and its comparison with `m_lMaxStrLen` one of unsigned numbers. -/
def messageLen (b : CBigBuff) (strLen : ℤ) : ℤ :=
  let strLen := if strLen < 0 then Word.toInt 32 b.getTryAvailid else strLen
  if m_lMaxStrLen < Word.ofInt 32 strLen then m_lMaxStrLen else strLen

/-- The message behind the stamp, and the newline. -/
def writeMessage (b : CBigBuff) (message : Formatted) : Option CBigBuff := do
  let (strLen, b) ← b.vsnprintf b.getTryAvailid message
  (b.addTryIncrease (messageLen b strLen)).doneTry

/-- Without `m_bAsynLog` the record goes to the file at once: `take` is what the call hands
to the stream. -/
def writeSync (s : CLogger) (take : CBigBuff → Option (List UInt8)) : Option CLogger :=
  if s.m_bAsynLog then some s
  else do
    let bs ← take s.m_pBufWrite
    let files ← LogFiles.fileSizeCheck (LogFiles.write s.files s.m_strFilePath bs)
      s.m_strFilePath s.m_fileNum s.m_fileSize
    pure { s with m_pBufWrite := s.m_pBufWrite.clear, files := files }

/-- The record begun: the time, a switch of buffers if need be, and the stamp. -/
def stamped (s : CLogger) (time_info : Tm) (now_ms : ℕ) (junk : ℕ → UInt8) : Option CLogger := do
  let s ← reserve (updateTime s time_info) junk
  let b ← writeStamp s.m_pBufWrite (stamp s now_ms)
  pure { s with m_pBufWrite := b }

/-- What `logWrite` and `LOG_BY_LEVEL` have in common. -/
def record (s : CLogger) (time_info : Tm) (now_ms : ℕ) (message : Formatted)
    (junk : ℕ → UInt8) (take : CBigBuff → Option (List UInt8)) : Option CLogger := do
  let s ← stamped s time_info now_ms junk
  let b ← writeMessage s.m_pBufWrite message
  writeSync { s with m_pBufWrite := b } take

def logWrite (s : CLogger) (time_info : Tm) (now_ms : ℕ) (message : Formatted)
    (junk : ℕ → UInt8) : Option CLogger :=
  record s time_info now_ms message junk CBigBuff.content

/-- `LOG_BY_LEVEL`, which hands the buffer to the stream as a C string. -/
def logByLevel (logLevel : emLogLevel) (s : CLogger) (time_info : Tm) (now_ms : ℕ)
    (message : Formatted) (junk : ℕ → UInt8) : Option CLogger :=
  if s.m_LogLevel.toInt < logLevel.toInt then some s
  else record s time_info now_ms message junk CBigBuff.cString

def logForce := logByLevel .Log_Forece
def logFatal := logByLevel .Log_Fatal
def logError := logByLevel .Log_Error
def logWarn := logByLevel .Log_Warn
def logInfo := logByLevel .Log_Info
def logDebug := logByLevel .Log_Debug

/-! ### The deal thread -/

/-- Under the lock: the write buffer joins the queue, and the queue moves to the thread. -/
def dealSwap (s : CLogger) (junk : ℕ → UInt8) : Option CLogger :=
  if s.m_pBufDeal.isNone ∧ s.m_queBufsDeal = [] ∧
      (0 < s.m_pBufWrite.getSize ∨ 0 < s.m_queBufsWrite.length) then
    (updateBufWrite s junk).map fun s =>
      { s with m_queBufsDeal := s.m_queBufsWrite, m_queBufsWrite := [] }
  else none

/-- Without the lock: the front buffer is written to the file and cleared. -/
def dealWrite (s : CLogger) : Option CLogger :=
  match s.m_pBufDeal, s.m_queBufsDeal with
  | none, b :: rest => do
    let bs ← b.content
    let files ← LogFiles.fileSizeCheck (LogFiles.write s.files s.m_strFilePath bs)
      s.m_strFilePath s.m_fileNum s.m_fileSize
    pure { s with m_pBufDeal := some b.clear, m_queBufsDeal := rest, files := files }
  | _, _ => none

/-- Under the lock: the buffer joins the empty ones. -/
def dealReturn (s : CLogger) : Option CLogger :=
  s.m_pBufDeal.map fun b =>
    { s with m_pBufDeal := none, m_queBufsEmpty := s.m_queBufsEmpty ++ [b] }

/-! ### Steps -/

/-- The functions that log a message. -/
inductive LogFn where
  | logWrite | logForce | logFatal | logError | logWarn | logInfo | logDebug
  deriving DecidableEq, Repr

def LogFn.run : LogFn → CLogger → Tm → ℕ → Formatted → (ℕ → UInt8) → Option CLogger
  | .logWrite => Logger.logWrite
  | .logForce => Logger.logForce
  | .logFatal => Logger.logFatal
  | .logError => Logger.logError
  | .logWarn => Logger.logWarn
  | .logInfo => Logger.logInfo
  | .logDebug => Logger.logDebug

/-- Whether the call gets past the test of the log level. -/
def LogFn.accepts (s : CLogger) : LogFn → Prop
  | .logWrite => True
  | .logForce => emLogLevel.Log_Forece.toInt ≤ s.m_LogLevel.toInt
  | .logFatal => emLogLevel.Log_Fatal.toInt ≤ s.m_LogLevel.toInt
  | .logError => emLogLevel.Log_Error.toInt ≤ s.m_LogLevel.toInt
  | .logWarn => emLogLevel.Log_Warn.toInt ≤ s.m_LogLevel.toInt
  | .logInfo => emLogLevel.Log_Info.toInt ≤ s.m_LogLevel.toInt
  | .logDebug => emLogLevel.Log_Debug.toInt ≤ s.m_LogLevel.toInt

inductive Action where
  | call (f : LogFn) (time_info : Tm) (now_ms : ℕ) (message : Formatted) (junk : ℕ → UInt8)
  | dealSwap (junk : ℕ → UInt8)
  | dealWrite
  | dealReturn

/-- A call has no successor when it stores outside a buffer. -/
def step (s : CLogger) : Action → Option CLogger
  | .call f time_info now_ms message junk => f.run s time_info now_ms message junk
  | .dealSwap junk => Logger.dealSwap s junk
  | .dealWrite => Logger.dealWrite s
  | .dealReturn => Logger.dealReturn s

/-- Every buffer the logger has. -/
def bufs (s : CLogger) : List CBigBuff :=
  s.m_pBufWrite :: s.m_pBufDeal.toList ++ s.m_queBufsWrite ++ s.m_queBufsDeal ++ s.m_queBufsEmpty

end MmrService.Logger
