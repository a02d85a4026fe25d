import MmrService.Lib.Mutex
import MmrService.Lib.Transition
import Mathlib.Logic.Function.Iterate

/-!
`ThreadPool`: a queue of tasks, the workers that run them, and the counters by which a pool
in `MODE_CACHED` grows and shrinks.

Any number of threads call `submit`, workers are created by them, and the destructor runs in
a thread of its own. Every lock, atomic operation and wait is a step; a wait ends at any time,
timed out or not, as spurious wakeups allow. Tasks return, and creating a thread succeeds.
-/

namespace MmrService.ThreadPool

open Transition

inductive emPoolMode
  | MODE_FIXED
  | MODE_CACHED
  deriving DecidableEq

/-- What the constructor of `ThreadPool` is given and nothing changes afterwards. -/
structure Config where
  m_poolMode : emPoolMode
  m_usThreadSize : UInt16
  m_ulTaskqueMaxSize : UInt32
  m_usMaxTreadSize : UInt16
  m_usMaxIdleTime : UInt16

/-- The members set by the constructor, with `std::thread::hardware_concurrency()`. -/
def Config.make (hardware_concurrency : UInt32) (mode : emPoolMode) (treadSize : UInt16)
    (ulMaxTaskSize : UInt32) (usMaxThreadSize usMaxIdleTime : UInt16) : Config where
  m_poolMode := mode
  m_usThreadSize := if treadSize = 0 then hardware_concurrency.toUInt16 else treadSize
  m_ulTaskqueMaxSize := ulMaxTaskSize
  m_usMaxTreadSize := usMaxThreadSize
  m_usMaxIdleTime := usMaxIdleTime

/-- A task is told by the thread that submits it and how many times that has called before. -/
abbrev Task (τ : Type) := τ × ℕ

inductive Holder (τ : Type)
  | worker (i : ℕ)
  | client (t : τ)
  deriving DecidableEq

/-- Where `threadFunc` is, each constructor before the operation it is named after. -/
inductive Pc (κ : Type)
  /-- The test of `m_isPoolRunning`. -/
  | loadRunning
  | lock
  | size
  /-- In the wait for a second, and behind it with the lock held. -/
  | waitOne
  | woken (timeout : Bool)
  | waitFive
  | execute (task : κ)
  | addIdle
  /-- Out of the loop. -/
  | subCur
  | subIdle
  | erase
  | gone
  deriving DecidableEq

def Pc.holds {κ : Type} : Pc κ → Bool
  | .size | .woken _ => true
  | _ => false

/-- The task a worker has taken from the queue and not finished. -/
def Pc.task {κ : Type} : Pc κ → Option κ
  | .execute task => some task
  | _ => none

def Pc.inLoop {κ : Type} : Pc κ → Bool
  | .subCur | .subIdle | .erase | .gone => false
  | _ => true

/-- Where `submit` is. -/
inductive ClientPc
  | outside
  | lock
  | wait
  /-- The predicate of the wait, for the `last` time when it has timed out. -/
  | test (last : Bool)
  | loadIdle
  | loadCur
  /-- `createThreadInner`. -/
  | emplace
  | addCur
  | addIdle
  | unlock
  deriving DecidableEq

def ClientPc.holds : ClientPc → Bool
  | .outside | .lock | .wait => false
  | _ => true

/-- The task is in the queue and its future not yet returned. -/
def ClientPc.pushed : ClientPc → Bool
  | .loadIdle | .loadCur | .emplace | .addCur | .addIdle | .unlock => true
  | _ => false

inductive StopPc
  | running
  | waiting
  | returned
  deriving DecidableEq

structure Worker (τ : Type) where
  threadId : UInt32
  pc : Pc (Task τ)
  deriving DecidableEq

/-- The pool, the threads, and what has become of the tasks so far. -/
structure State (τ : Type) where
  m_usCurThreadSize : UInt16
  m_usIdleThreadSize : UInt16
  m_mutex : Option (Holder τ)
  m_queueTask : List (Task τ)
  m_mapThreads : List UInt32
  m_isPoolRunning : Bool
  m_generateId : UInt32
  workers : List (Worker τ)
  client : τ → ClientPc
  stopping : StopPc
  calls : τ → ℕ
  accepted : List (Task τ)
  rejected : List (Task τ)
  executed : List (Task τ)

inductive Action (τ : Type)
  | submit (t : τ)
  /-- The next step of a thread in `submit`. -/
  | client (t : τ)
  | wakeClient (t : τ) (timeout : Bool)
  /-- The next step of a worker, `dur` seconds after its `lastTime`. -/
  | work (i : ℕ) (dur : ℕ)
  | wake (i : ℕ) (timeout : Bool)
  /-- The next step of `stop`. -/
  | stop

variable {τ : Type} [DecidableEq τ]

namespace State

/-- Worker `i` is at another place. -/
def goto (s : State τ) (i : ℕ) (w : Worker τ) (p : Pc (Task τ)) : State τ :=
  { s with workers := s.workers.set i ⟨w.threadId, p⟩ }

def goes (s : State τ) (t : τ) (p : ClientPc) : State τ :=
  { s with client := Function.update s.client t p }

/-- The task of the call that a thread is in. -/
def current (s : State τ) (t : τ) : Task τ := (t, s.calls t)

/-! ### Creating a thread -/

/-- A thread of the next id is put into the map, where none of this id is there, and started. -/
def emplaceThread (s : State τ) : State τ :=
  { s with
    m_generateId := s.m_generateId + 1
    m_mapThreads := s.m_mapThreads.insert (s.m_generateId + 1)
    workers := s.workers ++ [⟨s.m_generateId + 1, .loadRunning⟩] }

def addCur (s : State τ) : State τ := { s with m_usCurThreadSize := s.m_usCurThreadSize + 1 }

def addIdle (s : State τ) : State τ := { s with m_usIdleThreadSize := s.m_usIdleThreadSize + 1 }

def createThreadInner (s : State τ) : State τ := s.emplaceThread.addCur.addIdle

/-- The constructor has returned; the threads it has created have done nothing yet. -/
def start (τ : Type) (pool : Config) (m_generateId : UInt32) : State τ :=
  createThreadInner^[pool.m_usThreadSize.toNat]
    ⟨0, 0, none, [], [], true, m_generateId, [], fun _ => .outside, .running, fun _ => 0,
      [], [], []⟩

variable (pool : Config)

/-! ### `submit` -/

def submit (s : State τ) (t : τ) : Option (State τ) :=
  match s.client t with
  | .outside => some (s.goes t .lock)
  | _ => none

def stepClient (s : State τ) (t : τ) : Option (State τ) :=
  match s.client t with
  | .lock =>
    match s.m_mutex with
    | none => some { s.goes t (.test false) with m_mutex := some (.client t) }
    | some _ => none
  | .test last =>
    if s.m_queueTask.length < pool.m_ulTaskqueMaxSize.toNat then
      some { s.goes t .loadIdle with m_queueTask := s.m_queueTask ++ [s.current t] }
    else if last then
      -- "task queue is full!"
      some { s.goes t .outside with
        m_mutex := none
        rejected := s.rejected ++ [s.current t]
        calls := Function.update s.calls t (s.calls t + 1) }
    else some { s.goes t .wait with m_mutex := none }
  | .loadIdle =>
    if pool.m_poolMode = .MODE_CACHED ∧ s.m_usIdleThreadSize.toNat < s.m_queueTask.length then
      some (s.goes t .loadCur)
    else some (s.goes t .unlock)
  | .loadCur =>
    if s.m_usCurThreadSize < pool.m_usMaxTreadSize then some (s.goes t .emplace)
    else some (s.goes t .unlock)
  | .emplace => some (s.goes t .addCur).emplaceThread
  | .addCur => some (s.goes t .addIdle).addCur
  | .addIdle => some (s.goes t .unlock).addIdle
  | .unlock =>
    some { s.goes t .outside with
      m_mutex := none
      accepted := s.accepted ++ [s.current t]
      calls := Function.update s.calls t (s.calls t + 1) }
  | .outside | .wait => none

def wakeClient (s : State τ) (t : τ) (timeout : Bool) : Option (State τ) :=
  match s.client t, s.m_mutex with
  | .wait, none => some { s.goes t (.test timeout) with m_mutex := some (.client t) }
  | _, _ => none

/-! ### `threadFunc` -/

def stepWorker (s : State τ) (i : ℕ) (w : Worker τ) (dur : ℕ) : Option (State τ) :=
  match w.pc with
  | .loadRunning => some (s.goto i w (if s.m_isPoolRunning then .lock else .subCur))
  | .lock =>
    match s.m_mutex with
    | none => some { s.goto i w .size with m_mutex := some (.worker i) }
    | some _ => none
  | .size =>
    match s.m_queueTask with
    | [] =>
      some { s.goto i w (if pool.m_poolMode = .MODE_CACHED then .waitOne else .waitFive) with
        m_mutex := none }
    | task :: rest =>
      some { s.goto i w (.execute task) with
        m_mutex := none
        m_usIdleThreadSize := s.m_usIdleThreadSize - 1
        m_queueTask := rest }
  | .woken timeout =>
    if timeout ∧ pool.m_usThreadSize < s.m_usCurThreadSize then
      some { s.goto i w (if pool.m_usMaxIdleTime.toNat ≤ dur then .subCur else .loadRunning) with
        m_mutex := none }
    else some { s.goto i w .waitFive with m_mutex := none }
  | .execute task => some { s.goto i w .addIdle with executed := s.executed ++ [task] }
  | .addIdle => some (s.goto i w .loadRunning).addIdle
  | .subCur =>
    some { s.goto i w .subIdle with m_usCurThreadSize := s.m_usCurThreadSize - 1 }
  | .subIdle =>
    some { s.goto i w .erase with m_usIdleThreadSize := s.m_usIdleThreadSize - 1 }
  | .erase =>
    match s.m_mutex with
    | none =>
      some { s.goto i w .gone with
        m_mapThreads := s.m_mapThreads.filter (· ≠ w.threadId) }
    | some _ => none
  | .waitOne | .waitFive | .gone => none

/-- A wait ends with the lock taken again; the second one is the end of the turn. -/
def wakeWorker (s : State τ) (i : ℕ) (w : Worker τ) (timeout : Bool) : Option (State τ) :=
  match w.pc, s.m_mutex with
  | .waitOne, none => some { s.goto i w (.woken timeout) with m_mutex := some (.worker i) }
  | .waitFive, none => some (s.goto i w .loadRunning)
  | _, _ => none

/-! ### `stop` -/

/-- The flag is cleared; then the map is tested under the lock until it is empty. -/
def stop (s : State τ) : Option (State τ) :=
  match s.stopping, s.m_mutex with
  | .running, _ => some { s with m_isPoolRunning := false, stopping := .waiting }
  | .waiting, none =>
    if s.m_mapThreads.length = 0 then some { s with stopping := .returned } else some s
  | _, _ => none

/-- One step of one thread. There is no pool after `stop` has returned. -/
def step (s : State τ) (a : Action τ) : Option (State τ) :=
  if s.stopping = .returned then none
  else match a with
    | .submit t => s.submit t
    | .client t => s.stepClient pool t
    | .wakeClient t timeout => s.wakeClient t timeout
    | .work i dur => s.workers[i]?.bind fun w => s.stepWorker pool i w dur
    | .wake i timeout => s.workers[i]?.bind fun w => s.wakeWorker i w timeout
    | .stop => s.stop

end State

end MmrService.ThreadPool
