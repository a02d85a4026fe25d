import MmrService.Queue
import MmrService.Lib.Mutex

/-!
The events that any thread posts to the loop: `hloop_post_event` and `eventfd_read_cb`, which
share a queue under a mutex and a counter of the kernel.

A thread has a place in `hloop_post_event`, and the thread of the loop has another one in
`eventfd_read_cb`; from the callback of an event it may post events as well. A step is what a
thread does between two points at which another one can come in between. With an eventfd the
read takes the whole counter, and with a pipe or a socket up to as many bytes as there are.
-/

namespace MmrService.CustomEvents

open Queue

def HEVENT_TYPE_CUSTOM : ℕ := 1024
def CUSTOM_EVENT_QUEUE_INIT_SIZE : ℕ := 16

structure hevent where
  event_type : ℕ
  event_id : ℕ
  cb : Option ℕ
  privdata : ℕ
  deriving Inhabited, DecidableEq

/-- A place in `hloop_post_event`. -/
inductive Post where
  | outside
  | lock (ev : hevent)
  | locked (ev : hevent)
  | written (ev : hevent)
  | unlock

/-- A place in `eventfd_read_cb`, and how many rounds of its loop are left. -/
inductive Read where
  | outside
  | round (left : ℕ)
  | locked (left : ℕ)
  | popped (left : ℕ) (ev : hevent)
  | callback (left : ℕ) (ev : hevent)
  | unlock

variable {τ : Type*}

/-- The loop and its threads, what was put into the queue, and the events that were handled. -/
structure State (τ : Type*) where
  custom_events_mutex : Option τ
  custom_events : queue hevent
  created : Bool
  count : ℕ
  s_id : ℕ
  pc : τ → Post × Read
  posted : List hevent
  handled : List hevent

def init (τ : Type*) : State τ := ⟨none, zeroed, false, 0, 0, fun _ => (.outside, .outside), [], []⟩

/-- What `hloop_post_event` fills in, and the last id. -/
def fill (s_id : ℕ) (ev : hevent) : hevent × ℕ :=
  let ev := if ev.event_type = 0 then { ev with event_type := HEVENT_TYPE_CUSTOM } else ev
  if ev.event_id = 0 then ({ ev with event_id := s_id + 1 }, s_id + 1) else (ev, s_id)

inductive Action (τ : Type*) where
  /-- A thread enters `hloop_post_event`. -/
  | post (t : τ) (ev : hevent)
  | lock (t : τ)
  /-- The descriptor is there or is created, and the counter is written, or not. -/
  | write (t : τ) (created ok : Bool)
  | push (t : τ)
  | unlock (t : τ)
  /-- The thread of the loop enters `eventfd_read_cb`. -/
  | read (k : ℕ)
  | readLock
  | pop
  | readUnlock
  /-- The callback returns. -/
  | called
  | leave

variable [DecidableEq τ] (loop : τ)

namespace State

variable (s : State τ) (t : τ)

def setPost (p : Post) : State τ := { s with pc := Function.update s.pc t (p, (s.pc t).2) }

def setRead (r : Read) : State τ := { s with pc := Function.update s.pc t ((s.pc t).1, r) }

def setMutex (m : Option τ) : State τ := { s with custom_events_mutex := m }

/-- The descriptor is there, and the counter is written if `ok`. -/
def writeCount (ok : Bool) : State τ :=
  { s with created := true, count := if ok then s.count + 1 else s.count }

/-- An event is put into the queue. -/
def put (q : queue hevent) (ev : hevent) : State τ :=
  { s with custom_events := q, posted := s.posted ++ [ev] }

end State

/-- A thread can call `hloop_post_event`: the one of the loop where it is not in the middle of
`eventfd_read_cb`. -/
def canPost (s : State τ) (t : τ) : Bool :=
  match s.pc t with
  | (.outside, .outside) | (.outside, .callback _ _) => true
  | _ => false

/-- The queue is initialised before the first event. -/
def initQueue (q : queue hevent) : queue hevent :=
  if q.maxsize = 0 then q.init CUSTOM_EVENT_QUEUE_INIT_SIZE else q

/-- `if (event_queue_empty(..)) goto unlock;`, or the front is copied and taken out. -/
def popFront (s : State τ) (left : ℕ) : Option (State τ) :=
  if s.custom_events.isEmpty then some (s.setRead loop .unlock)
  else
    s.custom_events.front.bind fun ev => s.custom_events.pop_front.map fun q =>
      State.setRead { s with custom_events := q } loop (.popped left ev)

/-- An event was taken: it is called after the mutex is unlocked, if it has a callback. -/
def handle (s : State τ) (left : ℕ) (ev : hevent) : State τ :=
  State.setRead { s with handled := s.handled ++ [ev] } loop
    (if ev.cb = none then .round left else .callback left ev)

/-- A step of a thread, unless it is not there or has to wait. -/
def step (s : State τ) : Action τ → Option (State τ)
  | .post t ev =>
    if canPost s t then
      some (State.setPost { s with s_id := (fill s.s_id ev).2 } t (.lock (fill s.s_id ev).1))
    else none
  | .lock t =>
    match s.pc t, s.custom_events_mutex with
    | (.lock ev, _), none => some ((s.setMutex (some t)).setPost t (.locked ev))
    | _, _ => none
  | .write t created ok =>
    match s.pc t with
    | (.locked ev, _) =>
      if s.created || created then
        some ((s.writeCount ok).setPost t (if ok then .written ev else .unlock))
      else some (s.setPost t .unlock)
    | _ => none
  | .push t =>
    match s.pc t with
    | (.written ev, _) =>
      ((initQueue s.custom_events).push_back ev).map fun q => (s.put q ev).setPost t .unlock
    | _ => none
  | .unlock t =>
    match s.pc t with
    | (.unlock, _) => some ((s.setMutex none).setPost t .outside)
    | _ => none
  | .read k =>
    match s.pc loop with
    | (.outside, .outside) =>
      if 1 ≤ k ∧ k ≤ s.count then
        some (State.setRead { s with count := s.count - k } loop (.round k))
      else none
    | _ => none
  | .readLock =>
    match s.pc loop, s.custom_events_mutex with
    | (_, .round (left + 1)), none => some ((s.setMutex (some loop)).setRead loop (.locked left))
    | _, _ => none
  | .pop =>
    match s.pc loop with
    | (_, .locked left) => popFront loop s left
    | _ => none
  | .readUnlock =>
    match s.pc loop with
    | (_, .popped left ev) => some (handle loop (s.setMutex none) left ev)
    | (_, .unlock) => some ((s.setMutex none).setRead loop .outside)
    | _ => none
  | .called =>
    match s.pc loop with
    | (.outside, .callback left _) => some (s.setRead loop (.round left))
    | _ => none
  | .leave =>
    match s.pc loop with
    | (_, .round 0) => some (s.setRead loop .outside)
    | _ => none

end MmrService.CustomEvents
