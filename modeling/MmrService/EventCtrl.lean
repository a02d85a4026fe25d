import MmrService.Lib.Mutex
import MmrService.Lib.Transition

/-!
`CEventDealWithLock`: events are posted to a queue and handed to the callbacks of their topic
by one worker, which swaps the queue for an empty one before it deals with it.

Any number of client threads post events and add callbacks, owners of callbacks go away at
any time, and every lock, flag and queue operation is a step of its own. A callback returns
normally; what it posts is posted by some client.
-/

namespace MmrService.EventCtrl

open Transition

abbrev Topic := List UInt8

/-- `mmrUtil::CVarDatas`: a name and the variables, of which nothing is used here. -/
structure CVarDatas (δ : Type) where
  strName : Topic
  vars : δ
  deriving DecidableEq

def CVarDatas.getName {δ : Type} (varData : CVarDatas δ) : Topic := varData.strName

inductive Thread (τ : Type)
  | worker
  | client (t : τ)
  deriving DecidableEq

/-- Where a thread is, each constructor before the operation it is named after. The ghost
values of `calling` are the live callbacks of the topic when the event came up, and those it
has been handed to. -/
inductive Pc (φ δ : Type)
  | idle
  /-- `addEvenVartData`, with `m_mutexData`. -/
  | emplace (varData : CVarDatas δ)
  | storeAdded
  | unlockData
  /-- `addFunc`, with `m_mutexFunc`. -/
  | emplaceBack (strTopcs : Topic) (ptrFunc : φ)
  | unlockFunc
  /-- `dealEventData`: the test of `m_bTheadRun`, then that of `m_bDataAdded`. -/
  | loadRun
  | loadAdded
  /-- The exchange of the queues. -/
  | lockSwap
  | swap
  | clearAdded
  | unlockSwap
  /-- The loop over the events, and over the callbacks of one. -/
  | lockDeal
  | deal
  | calling (iterFunc : ℕ) (before handed : List φ)
  | unlockDeal
  /-- The wait for more data. -/
  | lockWait
  | wait
  | unlockWait
  | finished
  deriving DecidableEq

def Pc.holdsData {φ δ : Type} : Pc φ δ → Bool
  | .emplace _ | .storeAdded | .unlockData | .swap | .clearAdded | .unlockSwap | .wait
  | .unlockWait => true
  | _ => false

def Pc.holdsFunc {φ δ : Type} : Pc φ δ → Bool
  | .emplaceBack .. | .unlockFunc | .deal | .calling .. | .unlockDeal => true
  | _ => false

/-- The worker has swapped the queues and is not yet through with the events. -/
def Pc.dealing {φ δ : Type} : Pc φ δ → Bool
  | .clearAdded | .unlockSwap | .lockDeal | .deal | .calling .. => true
  | _ => false

/-- `m_mapFuncs` holds weak pointers, given by the callbacks they were made from. -/
structure DataImp (φ δ τ : Type) where
  m_mapFuncs : Topic → Option (List φ)
  m_mutexFunc : Option (Thread τ)
  m_queueAddData : List (Topic × CVarDatas δ)
  m_queueDealData : List (Topic × CVarDatas δ)
  m_bDataAdded : Bool
  m_mutexData : Option (Thread τ)

/-- An event that has been dealt with: the callbacks of its topic that were alive when it came
up, those it was handed to, and those still alive when it was popped. -/
structure Delivery (φ δ : Type) where
  varData : CVarDatas δ
  before : List φ
  handed : List φ
  after : List φ

/-- What has happened so far: the events posted, the callbacks added to each topic, the calls
made, and the events dealt with. -/
structure History (φ δ : Type) where
  posted : List (CVarDatas δ)
  added : Topic → List φ
  calls : List (CVarDatas δ × φ)
  delivered : List (Delivery φ δ)

structure State (φ δ τ : Type) where
  data : DataImp φ δ τ
  m_bTheadRun : Bool
  pc : Thread τ → Pc φ δ
  alive : φ → Bool
  hist : History φ δ

inductive Action (φ δ τ : Type)
  /-- A client locks `m_mutexData` to post an event. -/
  | addEvenVartData (t : τ) (varData : CVarDatas δ)
  /-- A client locks `m_mutexFunc` to add a callback. -/
  | addFunc (t : τ) (strTopcs : Topic) (ptrFunc : φ)
  /-- The next step of a client. -/
  | client (t : τ)
  /-- The last owner of a callback lets go of it. -/
  | destroy (ptrFunc : φ)
  /-- `stop` clears `m_bTheadRun`. -/
  | stop
  /-- The next step of the worker. -/
  | work

variable {φ δ τ : Type} [DecidableEq τ]

namespace State

def goto (s : State φ δ τ) (t : Thread τ) (p : Pc φ δ) : State φ δ τ :=
  { s with pc := Function.update s.pc t p }

def setData (s : State φ δ τ) (data : DataImp φ δ τ) : State φ δ τ := { s with data := data }

lemma pc_goto (s : State φ δ τ) (t u : Thread τ) (p : Pc φ δ) :
    (s.goto t p).pc u = if u = t then p else s.pc u := by
  simp only [goto, Function.update_apply]

@[simp] lemma pc_goto_self (s : State φ δ τ) (t : Thread τ) (p : Pc φ δ) :
    (s.goto t p).pc t = p := by
  rw [pc_goto, if_pos rfl]

@[simp] lemma pc_goto_client (s : State φ δ τ) (t : τ) (p : Pc φ δ) :
    (s.goto (.client t) p).pc .worker = s.pc .worker := by
  rw [pc_goto, if_neg (by simp)]

@[simp] lemma alive_goto (s : State φ δ τ) (t : Thread τ) (p : Pc φ δ) :
    (s.goto t p).alive = s.alive := rfl

@[simp] lemma data_goto (s : State φ δ τ) (t : Thread τ) (p : Pc φ δ) :
    (s.goto t p).data = s.data := rfl

@[simp] lemma hist_goto (s : State φ δ τ) (t : Thread τ) (p : Pc φ δ) :
    (s.goto t p).hist = s.hist := rfl

/-- The live callbacks added to a topic. -/
def living (s : State φ δ τ) (topic : Topic) : List φ := (s.hist.added topic).filter s.alive

def addEvenVartData (s : State φ δ τ) (t : τ) (varData : CVarDatas δ) : Option (State φ δ τ) :=
  match s.pc (.client t), s.data.m_mutexData with
  | .idle, none =>
    some ((s.goto (.client t) (.emplace varData)).setData
      { s.data with m_mutexData := some (.client t) })
  | _, _ => none

def addFunc (s : State φ δ τ) (t : τ) (strTopcs : Topic) (ptrFunc : φ) :
    Option (State φ δ τ) :=
  match s.pc (.client t), s.data.m_mutexFunc with
  | .idle, none =>
    some ((s.goto (.client t) (.emplaceBack strTopcs ptrFunc)).setData
      { s.data with m_mutexFunc := some (.client t) })
  | _, _ => none

def client (s : State φ δ τ) (t : τ) : Option (State φ δ τ) :=
  match s.pc (.client t) with
  | .emplace varData =>
    some { s.goto (.client t) .storeAdded with
      data := { s.data with
        m_queueAddData := s.data.m_queueAddData ++ [(varData.getName, varData)] }
      hist := { s.hist with posted := s.hist.posted ++ [varData] } }
  | .storeAdded =>
    some ((s.goto (.client t) .unlockData).setData { s.data with m_bDataAdded := true })
  | .unlockData => some ((s.goto (.client t) .idle).setData { s.data with m_mutexData := none })
  | .emplaceBack strTopcs ptrFunc =>
    some { s.goto (.client t) .unlockFunc with
      data := { s.data with
        m_mapFuncs := Function.update s.data.m_mapFuncs strTopcs
          (some ((s.data.m_mapFuncs strTopcs).getD [] ++ [ptrFunc])) }
      hist := { s.hist with
        added := Function.update s.hist.added strTopcs (s.hist.added strTopcs ++ [ptrFunc]) } }
  | .unlockFunc => some ((s.goto (.client t) .idle).setData { s.data with m_mutexFunc := none })
  | _ => none

/-- The callbacks of an event have been walked through, and it is popped. -/
def popFront (s : State φ δ τ) (data : DataImp φ δ τ) (d : Delivery φ δ) : State φ δ τ :=
  { s.goto .worker .deal with
    data := { data with m_queueDealData := data.m_queueDealData.tail }
    hist := { s.hist with delivered := s.hist.delivered ++ [d] } }

/-- The head of the loop over the events. -/
def front (s : State φ δ τ) : State φ δ τ :=
  match s.data.m_queueDealData with
  | [] => s.goto .worker .unlockDeal
  | (topic, varData) :: _ =>
    let before := s.living varData.getName
    match s.data.m_mapFuncs topic with
    | none => s.popFront s.data ⟨varData, before, [], before⟩
    | some _ => s.goto .worker (.calling 0 before [])

/-- One turn of the loop over the callbacks of the front event, or its end: a topic left
without callbacks is erased. -/
def call (s : State φ δ τ) (i : ℕ) (before handed : List φ) : Option (State φ δ τ) :=
  match s.data.m_queueDealData with
  | [] => none
  | (topic, varData) :: _ =>
    match s.data.m_mapFuncs topic with
    | none => none
    | some funcs =>
      match funcs[i]? with
      | some ptrFunc =>
        if s.alive ptrFunc then
          some { s.goto .worker (.calling (i + 1) before (handed ++ [ptrFunc])) with
            hist := { s.hist with calls := s.hist.calls ++ [(varData, ptrFunc)] } }
        else
          some ((s.goto .worker (.calling i before handed)).setData
            { s.data with
              m_mapFuncs := Function.update s.data.m_mapFuncs topic
                (some (funcs.eraseIdx i)) })
      | none =>
        let mapFuncs := if funcs.length = 0 then Function.update s.data.m_mapFuncs topic none
          else s.data.m_mapFuncs
        some (s.popFront { s.data with m_mapFuncs := mapFuncs }
          ⟨varData, before, handed, s.living varData.getName⟩)

/-- `dealEventData`. A wait that finds nothing releases the lock until it is woken. -/
def work (s : State φ δ τ) : Option (State φ δ τ) :=
  match s.pc .worker with
  | .loadRun => some (s.goto .worker (if s.m_bTheadRun then .loadAdded else .finished))
  | .loadAdded => some (s.goto .worker (if s.data.m_bDataAdded then .lockSwap else .lockWait))
  | .lockSwap =>
    match s.data.m_mutexData with
    | none => some ((s.goto .worker .swap).setData { s.data with m_mutexData := some .worker })
    | some _ => none
  | .swap =>
    some ((s.goto .worker .clearAdded).setData
      { s.data with
        m_queueAddData := s.data.m_queueDealData
        m_queueDealData := s.data.m_queueAddData })
  | .clearAdded => some ((s.goto .worker .unlockSwap).setData { s.data with m_bDataAdded := false })
  | .unlockSwap => some ((s.goto .worker .lockDeal).setData { s.data with m_mutexData := none })
  | .lockDeal =>
    match s.data.m_mutexFunc with
    | none => some ((s.goto .worker .deal).setData { s.data with m_mutexFunc := some .worker })
    | some _ => none
  | .deal => some s.front
  | .calling i before handed => s.call i before handed
  | .unlockDeal => some ((s.goto .worker .lockWait).setData { s.data with m_mutexFunc := none })
  | .lockWait =>
    match s.data.m_mutexData with
    | none => some ((s.goto .worker .wait).setData { s.data with m_mutexData := some .worker })
    | some _ => none
  | .wait =>
    if s.data.m_bDataAdded = false ∧ s.m_bTheadRun = true then
      some ((s.goto .worker .lockWait).setData { s.data with m_mutexData := none })
    else some (s.goto .worker .unlockWait)
  | .unlockWait => some ((s.goto .worker .loadRun).setData { s.data with m_mutexData := none })
  | _ => none

/-- One step of one thread. -/
def step [DecidableEq φ] (s : State φ δ τ) : Action φ δ τ → Option (State φ δ τ)
  | .addEvenVartData t varData => s.addEvenVartData t varData
  | .addFunc t strTopcs ptrFunc => s.addFunc t strTopcs ptrFunc
  | .client t => s.client t
  | .destroy ptrFunc => some { s with alive := Function.update s.alive ptrFunc false }
  | .stop => some { s with m_bTheadRun := false }
  | .work => s.work

/-- After `start`: nothing posted, no callback added. -/
def start (φ δ τ : Type) [DecidableEq τ] : State φ δ τ where
  data := ⟨fun _ => none, none, [], [], false, none⟩
  m_bTheadRun := true
  pc := Function.update (fun _ => .idle) .worker .loadRun
  alive := fun _ => true
  hist := ⟨[], fun _ => [], [], []⟩

end State

end MmrService.EventCtrl
