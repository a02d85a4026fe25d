import MmrService.JsonParse
import MmrService.Lib.Effect
import MmrService.Lib.Transition

/-!
`CCompFramework`: reading the configuration, making the singletons, loading, initialising and
starting the components, and taking it all down again.

What is outside the framework is given with each start: the file, which of the things it makes
cannot be made, what a library brings along, and what the components do when they are called.
The calls of the logger and of the event callbacks come back normally, and so does `stop()` of
a component. Services are a matter of `m_upServPolicy` alone and left out here.
-/

namespace MmrService.Json.Value

variable {D : Type}

def IsNull : Value D → Bool
  | .null => true
  | _ => false

def hasKey (key : List UInt8) : Value D → Bool
  | .object Map => (Map.find? fun e => decide (e.1 = key)).isSome
  | _ => false

/-- `operator[]` and `at`: the value of a key, and null where there is none. -/
def atKey (key : List UInt8) : Value D → Value D
  | .object Map => ((Map.find? fun e => decide (e.1 = key)).map Prod.snd).getD .null
  | _ => .null

def ToInt : Value D → ℤ
  | .integral Int => Int
  | _ => 0

def ToBool : Value D → Bool
  | .boolean Bool => Bool
  | _ => false

def ObjectRange : Value D → List (List UInt8 × Value D)
  | .object Map => Map
  | _ => []

end MmrService.Json.Value

namespace MmrService.Framework

open Effect Json

/-- Names of components, topics, commands and of the keys of the configuration. -/
abbrev Key := List UInt8

/-! ### The configuration of the singletons -/

structure LoggerParas where
  LogFileNum : ℤ
  LogFileSize : ℤ
  Asyn : Bool

structure ChunkAllocParas where
  CAExpiredTime : ℤ
  CAMaxCache : ℤ

structure SmallAllocParas where
  SAExpiredTime : ℤ
  SAMaxCache : ℤ

structure ThreadpoolParas where
  Mode : ℤ
  FixThreadSize : ℤ
  TaskQueueMaxSize : ℤ
  MaxThreadSize : ℕ
  ThreadIdleTime : ℕ

section Parameters

variable {D : Type} (jsonRoot : Value D)

/-- The section of a singleton, if all of its keys are there; the default parameters are used
without it. -/
def configured (key : String) (fields : List String) : Option (Value D) :=
  if jsonRoot.hasKey (text key) && fields.all fun f => (jsonRoot.atKey (text key)).hasKey (text f)
  then some (jsonRoot.atKey (text key)) else none

def loggerParas : Option LoggerParas :=
  (configured jsonRoot "Logger" ["LogFileNum", "LogFileSize", "LogAsyn"]).map fun cfgLogger =>
    { LogFileNum := (cfgLogger.atKey (text "LogFileNum")).ToInt
      LogFileSize := (cfgLogger.atKey (text "LogFileSize")).ToInt
      Asyn := (cfgLogger.atKey (text "LogAsyn")).ToBool }

def chunkAllocParas : Option ChunkAllocParas :=
  (configured jsonRoot "ChunkAllocator" ["CacheExpiredTime", "CacheMaxSize"]).map fun cfgAlloc =>
    { CAExpiredTime := (cfgAlloc.atKey (text "CacheExpiredTime")).ToInt
      CAMaxCache := (cfgAlloc.atKey (text "CacheMaxSize")).ToInt }

def smallAllocParas : Option SmallAllocParas :=
  (configured jsonRoot "SmallAllocator" ["CacheExpiredTime", "CacheMaxSize"]).map fun cfgAlloc =>
    { SAExpiredTime := (cfgAlloc.atKey (text "CacheExpiredTime")).ToInt
      SAMaxCache := (cfgAlloc.atKey (text "CacheMaxSize")).ToInt }

/-- A number stored in a `uint16_t`, or the number there before. -/
def uint16Of (cfgAlloc : Value D) (key : String) (before : ℕ) : ℕ :=
  if cfgAlloc.hasKey (text key) then ((cfgAlloc.atKey (text key)).ToInt % 65536).toNat else before

def threadpoolParas : Option ThreadpoolParas :=
  (configured jsonRoot "ThreadPool" ["Mode", "FixThreadSize", "TaskQueueMaxSize"]).map
    fun cfgAlloc =>
    { Mode := (cfgAlloc.atKey (text "Mode")).ToInt
      FixThreadSize := (cfgAlloc.atKey (text "FixThreadSize")).ToInt
      TaskQueueMaxSize := (cfgAlloc.atKey (text "TaskQueueMaxSize")).ToInt
      MaxThreadSize := uint16Of cfgAlloc "MaxThreadSize" 1024
      ThreadIdleTime := uint16Of cfgAlloc "ThreadIdleTime" 120 }

end Parameters

/-! ### States -/

/-- An object of a singleton class, with the parameters it was made with. -/
structure Instance (π : Type) where
  id : ℕ
  paras : Option π

/-- A component object: `getName`, and which object it is. -/
structure IComponent where
  id : ℕ
  name : Key
  deriving DecidableEq

/-- How a call of a component comes back. -/
inductive Result
  | ret (b : Bool)
  | threw
  deriving DecidableEq

/-- A lifecycle call and how it came back. -/
inductive Call
  | initialise (r : Result)
  | start (r : Result)
  | stop
  deriving DecidableEq

/-- What a command is bound to: an object of the framework by its address, or a function of a
component. -/
inductive CmdFunc
  | loggerCtrl
  | licenseCtrl (p : Option ℕ)
  | smallAllocator (p : Option ℕ)
  | chunkAllocator (p : Option ℕ)
  | threadPool (p : Option ℕ)
  | component (f : ℕ)
  deriving DecidableEq

/-- `handleEvent`, in one of the functions `ptrFunc` held, or a function of a component. -/
inductive CallbackFunc
  | framework (p : ℕ)
  | component (f : ℕ)
  deriving DecidableEq

/-- The framework, its singletons, and as ghost state the lifecycle calls so far. -/
structure State where
  /-- `Singleton<..>::m_pInstance`, of the four classes. -/
  logger : Option (Instance LoggerParas)
  chunk : Option (Instance ChunkAllocParas)
  small : Option (Instance SmallAllocParas)
  pool : Option (Instance ThreadpoolParas)
  /-- The number of objects made so far, which is the next one's. -/
  made : ℕ
  /-- `m_ptrEventCtrl`: the flag, whether the future is of a running thread, the subscriptions. -/
  m_bTheadRun : Bool
  m_future : Bool
  m_mapFuncs : Key → List CallbackFunc
  /-- In the order of iteration. -/
  m_mapComponents : List IComponent
  m_libHandl : List ℕ
  /-- `m_ptrData`. -/
  m_mapCompLogger : List (ℤ × Key × ℕ)
  ptrLicenseCtrl : Option ℕ
  bRunflag : Bool
  ptrFunc : Option ℕ
  m_funcTimer : List ℕ
  m_wkFuncTimer : List ℕ
  m_mapCmdFunc : Key → Option (Key × CmdFunc)
  calls : List (ℕ × Call)

def init : State where
  logger := none
  chunk := none
  small := none
  pool := none
  made := 0
  m_bTheadRun := false
  m_future := false
  m_mapFuncs := fun _ => []
  m_mapComponents := []
  m_libHandl := []
  m_mapCompLogger := []
  ptrLicenseCtrl := none
  bRunflag := false
  ptrFunc := none
  m_funcTimer := []
  m_wkFuncTimer := []
  m_mapCmdFunc := fun _ => none
  calls := []

abbrev Prog := Effect.Prog Unit State

open Effect.Prog

/-- The use of what an address points to. -/
def nonNull {π : Type} (p : Option π) : Prog Unit := if p.isSome then pure () else stuck

/-- A call of the logger. -/
def log : Prog Unit := do
  let s ← get
  nonNull s.logger

def logIf (b : Bool) : Prog Unit := if b then log else pure ()

lemma log_apply (s : State) : log s = if s.logger.isSome then .done () s else .stuck := by
  simp only [log, nonNull, bind_apply, get_apply, Out.done_bind]
  split_ifs <;> rfl

/-! ### Requests of the components -/

inductive Request
  | addComponetLogWrapper (strCompName : Key) (logWrap : ℕ)
  | addTimerCallback (func : ℕ)
  | addTimerCallbackWk (func : ℕ)
  | addCmdCallback (strCmd strDesc : Key) (func : ℕ)
  | addFunc (strTopcs : Key) (ptrFunc : ℕ)

/-- The index is one of `uint16_t`, the key of the map one of `int16_t`. -/
def addComponetLogWrapper (strCompName : Key) (logWrap : ℕ) : Prog Unit :=
  modify fun s =>
    let sIndex := (s.m_mapCompLogger.length + 1) % 65536
    let key : ℤ := if sIndex < 32768 then sIndex else (sIndex : ℤ) - 65536
    { s with m_mapCompLogger :=
        s.m_mapCompLogger.filter (fun e => decide (e.1 ≠ key)) ++ [(key, strCompName, logWrap)] }

def addTimerCallback (func : ℕ) : Prog Unit :=
  modify fun s => { s with m_funcTimer := s.m_funcTimer ++ [func] }

def addTimerCallbackWk (func : ℕ) : Prog Unit :=
  modify fun s => { s with m_wkFuncTimer := s.m_wkFuncTimer ++ [func] }

/-- A command that is there already is reported, and replaced. -/
def addCmdCallback (strCmd strDesc : Key) (func : CmdFunc) : Prog Unit := do
  let s ← get
  logIf (s.m_mapCmdFunc strCmd).isSome
  modify fun s =>
    { s with m_mapCmdFunc := Function.update s.m_mapCmdFunc strCmd (some (strDesc, func)) }

def addFunc (strTopcs : Key) (ptrFunc : CallbackFunc) : Prog Unit :=
  modify fun s =>
    { s with
      m_mapFuncs :=
        Function.update s.m_mapFuncs strTopcs (s.m_mapFuncs strTopcs ++ [ptrFunc]) }

def perform : Request → Prog Unit
  | .addComponetLogWrapper strCompName logWrap => addComponetLogWrapper strCompName logWrap
  | .addTimerCallback func => addTimerCallback func
  | .addTimerCallbackWk func => addTimerCallbackWk func
  | .addCmdCallback strCmd strDesc func => addCmdCallback strCmd strDesc (.component func)
  | .addFunc strTopcs ptrFunc => addFunc strTopcs (.component ptrFunc)

/-! ### What a start meets -/

inductive File
  | unopened
  /-- `tellg` fails, and `reserve` with it. -/
  | unseekable
  | contents (str : List UInt8)

/-- Where a start may be left by an exception that is not a component's. -/
inductive Point
  | logger
  | chunk
  | small
  | pool
  | eventThread
  | load (name : Key)
  | callback
  | license
  | initLicense
  | command (strCmd : Key)
  | dealCmd
  deriving DecidableEq

/-- What a call of a component does: its requests, and how it comes back. -/
structure Called where
  requests : List Request
  result : Result

/-- A library: its handle, and the components its static objects register. -/
structure Library where
  handle : ℕ
  components : List Key

structure Env (N : Numbers) where
  strConfigPath : List UInt8
  config : File
  throws : Point → Bool
  dlopen : Key → Option Library
  initialise : IComponent → Value N.Double → Called
  start : IComponent → Called

/-- The order in which a hash table goes over its entries, after each insertion. -/
structure Layout where
  arrange : List IComponent → List IComponent
  perm : ∀ l, (arrange l).Perm l

/-- The last one in comes first. -/
def inOrder : Layout := ⟨id, fun l => .refl l⟩

variable {N : Numbers} (L : Layout) (is_Server : Bool) (env : Env N)

def mayThrow (p : Point) : Prog Unit := if env.throws p then throw () else pure ()

def load_from_file : Prog (List UInt8 × Value N.Double) :=
  match env.config with
  | .unopened => pure (text "open file " ++ env.strConfigPath ++ text " failed!", .null)
  | .unseekable => throw ()
  | .contents str =>
    match load N str .null with
    | .ok r _ => pure r
    | _ => stuck

/-! ### The singletons -/

/-- A singleton class: the point at which its constructor fails, whether its instance is there,
and the state with a new instance. -/
structure Slot where
  point : Point
  isThere : State → Bool
  make : State → State

def loggerSlot {D : Type} (jsonRoot : Value D) : Slot where
  point := .logger
  isThere s := s.logger.isSome
  make s := { s with logger := some ⟨s.made, loggerParas jsonRoot⟩, made := s.made + 1 }

def chunkSlot {D : Type} (jsonRoot : Value D) : Slot where
  point := .chunk
  isThere s := s.chunk.isSome
  make s := { s with chunk := some ⟨s.made, chunkAllocParas jsonRoot⟩, made := s.made + 1 }

def smallSlot {D : Type} (jsonRoot : Value D) : Slot where
  point := .small
  isThere s := s.small.isSome
  make s := { s with small := some ⟨s.made, smallAllocParas jsonRoot⟩, made := s.made + 1 }

def poolSlot {D : Type} (jsonRoot : Value D) : Slot where
  point := .pool
  isThere s := s.pool.isSome
  make s := { s with pool := some ⟨s.made, threadpoolParas jsonRoot⟩, made := s.made + 1 }

/-- In the order in which they are made. -/
def slots {D : Type} (jsonRoot : Value D) : List Slot :=
  [loggerSlot jsonRoot, chunkSlot jsonRoot, smallSlot jsonRoot, poolSlot jsonRoot]

def initInstance (c : Slot) : Prog Unit := do
  let s ← get
  if c.isThere s then pure ()
  else do
    mayThrow env c.point
    modify c.make

/-! ### The event thread -/

/-- The future of a thread before is released on the assignment, which waits for a thread that
goes on as long as the flag is up. -/
def eventStart : Prog Unit := do
  modify fun s => { s with m_bTheadRun := true }
  mayThrow env .eventThread
  let s ← get
  if s.m_future then stuck else modify fun s => { s with m_future := true }

/-- With the flag up and no thread, `wait_for` has no state to wait for. -/
def joinThread (s : State) : Prog Unit :=
  if s.m_bTheadRun then
    if s.m_future then modify fun s => { s with m_bTheadRun := false, m_future := false }
    else stuck
  else pure ()

def eventStop : Prog Unit := do
  let s ← get
  joinThread s
  modify fun s => { s with m_mapFuncs := fun _ => [] }

/-! ### Loading and calling components -/

def addComponent (strCompName : Key) : Prog Bool := do
  let s ← get
  log
  if s.m_mapComponents.any fun c => decide (c.name = strCompName) then pure false
  else do
    modify fun s =>
      { s with
        m_mapComponents := L.arrange (⟨s.made, strCompName⟩ :: s.m_mapComponents)
        made := s.made + 1 }
    pure true

/-- `CCompRegister`. -/
def registComponent (strCompName : Key) : Prog Unit := do
  let _ ← addComponent L strCompName
  pure ()

def loadComponent (iterComp : Key × Value N.Double) : Prog Unit :=
  if !iterComp.2.hasKey (text "Enable") then log
  else if !(iterComp.2.atKey (text "Enable")).ToBool then pure ()
  else do
    mayThrow env (.load iterComp.1)
    match env.dlopen iterComp.1 with
    | none => log
    | some lib => do
      forEach (registComponent L) lib.components
      modify fun s => { s with m_libHandl := s.m_libHandl.insert lib.handle }

/-- A lifecycle call of a component. -/
def call (c : IComponent) (b : Called) (how : Result → Call) : Prog Bool := do
  forEach perform b.requests
  modify fun s => { s with calls := s.calls ++ [(c.id, how b.result)] }
  match b.result with
  | .ret ok => pure ok
  | .threw => throw ()

/-- A component that fails, like one that does not, is left where it is. -/
def initialiseComponent (components : Value N.Double) (c : IComponent) : Prog Unit :=
  if !components.hasKey c.name then log
  else do
    let _ ← call c (env.initialise c (components.atKey c.name)) .initialise
    log

def startComponent (c : IComponent) : Prog Unit := do
  let ok ← call c (env.start c) .start
  logIf !ok

def stopComponent (c : IComponent) : Prog Unit :=
  modify fun s => { s with calls := s.calls ++ [(c.id, .stop)] }

/-! ### Starting and stopping -/

/-- Nothing where there are no components, and `start` returns false. -/
def loadComponents (jsonRoot : Value N.Double) : Prog (Option (Value N.Double)) :=
  let components := jsonRoot.atKey (text "Components")
  if components.IsNull then do
    log
    pure none
  else do
    forEach (loadComponent L env) components.ObjectRange
    pure (some components)

/-- The first part of `start`, up to the loading of the libraries. -/
def prepare : Prog (Option (Value N.Double)) := do
  let (strErr, jsonRoot) ← load_from_file env
  if jsonRoot.IsNull || decide (strErr ≠ []) then pure none
  else do
    forEach (initInstance env) (slots jsonRoot)
    log
    eventStart env
    loadComponents L env jsonRoot

def subscribeStop : Prog Unit := do
  mayThrow env .callback
  let s ← get
  modify fun s => { s with ptrFunc := some s.made, made := s.made + 1 }
  addFunc (text "stop") (.framework s.made)

/-- One built-in command, bound to what the state has for it. -/
def command (strCmd strDesc : String) (func : State → CmdFunc) : Prog Unit := do
  mayThrow env (.command (text strCmd))
  let s ← get
  addCmdCallback (text strCmd) (text strDesc) (func s)

def registerCommands : Prog Unit := do
  command env "-lg" "--log, component logger settings and viewing" fun _ => .loggerCtrl
  command env "-lc" "--license, license info setting and viewing"
    fun s => .licenseCtrl s.ptrLicenseCtrl
  command env "-sa" "--small allocator, small allocator control and viewing"
    fun s => .smallAllocator (s.small.map Instance.id)
  command env "-ca" "--chunk allocator, chunck allocator control and viewing"
    fun s => .chunkAllocator (s.chunk.map Instance.id)
  command env "-tp" "--thread pool, thread pool control and viewing"
    fun s => .threadPool (s.pool.map Instance.id)

/-- What is done on the first start of a server only. -/
def startServer : Prog Unit := do
  let s ← get
  if is_Server && s.ptrLicenseCtrl.isNone then do
    mayThrow env .license
    modify fun s => { s with ptrLicenseCtrl := some s.made, made := s.made + 1 }
    mayThrow env .initLicense
    registerCommands env
    modify fun s => { s with bRunflag := true }
    mayThrow env .dealCmd
  else pure ()

/-- The second part of `start`. -/
def bringUp (components : Value N.Double) : Prog Bool := do
  let s ← get
  forEach (initialiseComponent env components) s.m_mapComponents
  let s ← get
  forEach (startComponent env) s.m_mapComponents
  subscribeStop env
  log
  startServer is_Server env
  pure true

/-- The body of the `try`. -/
def startBody : Prog Bool := do
  let components ← prepare L env
  match components with
  | none => pure false
  | some components => bringUp is_Server env components

/-- Every exception is reported by `LOG_FATAL`. -/
def start : Prog Bool :=
  Prog.tryCatch (startBody L is_Server env) fun _ => do
    log
    pure false

/-- `DataFrame::clear`; `ptrLicenseCtrl` and the flag are left as they are. -/
def clear (s : State) : State :=
  { s with
    m_mapCompLogger := []
    m_funcTimer := []
    m_wkFuncTimer := []
    m_mapCmdFunc := fun _ => none }

/-- The components are stopped and dropped, and all that came from the libraries with them. -/
def unload : Prog Unit := do
  let s ← get
  forEach stopComponent s.m_mapComponents
  modify fun s => { s with m_mapComponents := [] }
  modify clear
  modify fun s => { s with m_libHandl := [] }

/-- The memory of the allocators is reported, and the singletons are destroyed. -/
def destroyInstances : Prog Unit := do
  let s ← get
  nonNull s.small
  nonNull s.chunk
  log
  modify fun s => { s with pool := none }
  modify fun s => { s with small := none }
  modify fun s => { s with chunk := none }
  log
  modify fun s => { s with logger := none }

def stop : Prog Unit := do
  eventStop
  unload
  destroyInstances

/-! ### Runs -/

/-- What happens to a framework: the two calls, a component that is added and a request that is
made from outside of them, and the flag lowered by `dealCmd` or a `stop` event. -/
inductive Action (N : Numbers)
  | start (env : Env N)
  | stop
  | addComponent (strCompName : Key)
  | request (r : Request)
  | lowerRunflag

def act : Action N → Prog Unit
  | .start env => do
    let _ ← start L is_Server env
    pure ()
  | .stop => stop
  | .addComponent strCompName => registComponent L strCompName
  | .request r => perform r
  | .lowerRunflag => modify fun s => { s with bRunflag := false }

def step (s : State) (a : Action N) : Option State :=
  match act L is_Server a s with
  | .done _ t => some t
  | _ => none

end MmrService.Framework
