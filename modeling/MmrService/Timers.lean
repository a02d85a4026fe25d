import MmrService.HeapOps
import MmrService.Lib.Transition
import MmrService.Lib.Word

/-!
The timers of the event loop: adding, resetting and deleting them, the rounds of the loop that
make the timers that are due pending and call them, and the clean-up.

The timers are those that `htimer_add` makes: without `htimer_add_period` the loop has no
`realtimers`, and every timer is a `HEVENT_TYPE_TIMEOUT`. A timer that was freed has no memory
any more: to read, write or free it, as to follow a null pointer or to fail an assertion, is a
fault. A callback is a list of calls of the program, and it is misuse to call with a timer that
was freed.
-/

namespace MmrService.Timers

open Heap

/-- `(uint32_t)-1` -/
def INFINITE : ℕ := 2 ^ 32 - 1

structure htimeout where
  active : Bool
  pending : Bool
  destroy : Bool
  repeats : ℕ
  timeout : ℕ
  next_timeout : ℕ

/-- The loop, the timers in memory, and the addresses that were freed. -/
structure hloop where
  timers : heap
  timer : ℕ → Option htimeout
  fresh : ℕ
  freed : List ℕ
  ntimers : ℕ
  nactives : ℕ
  cur_hrtime : ℕ
  pendings : List ℕ

/-- Why a run ends. -/
inductive Stop where
  | misuse
  | fault
  deriving DecidableEq

def hloop_init (now : ℕ) : hloop := ⟨heap_init, fun _ => none, 0, [], 0, 0, now, []⟩

namespace hloop

variable (l : hloop) (t : ℕ)

/-- The member `next_timeout`, which `timers_compare` compares. -/
def key : ℕ := (l.timer t).elim 0 htimeout.next_timeout

def get : Except Stop htimeout := (l.timer t).elim (.error .fault) .ok

/-- A function of the heap is called. -/
def withHeap (f : (ℕ → ℕ) → heap → Option heap) : Except Stop hloop :=
  (f l.key l.timers).elim (.error .fault) fun h => .ok { l with timers := h }

def put (v : htimeout) : hloop := { l with timer := Function.update l.timer t (some v) }

/-- `HV_FREE` -/
def free : Except Stop hloop := do
  let _ ← l.get t
  .ok { l with timer := Function.update l.timer t none, freed := l.freed ++ [t] }

def EVENT_ACTIVE : Except Stop hloop := do
  let v ← l.get t
  if v.active then .ok l
  else .ok { l.put t { v with active := true } with nactives := l.nactives + 1 }

def EVENT_INACTIVE : Except Stop hloop := do
  let v ← l.get t
  if v.active then .ok { l.put t { v with active := false } with nactives := l.nactives - 1 }
  else .ok l

def EVENT_PENDING : Except Stop hloop := do
  let v ← l.get t
  if v.pending then .ok l
  else .ok { l.put t { v with pending := true } with pendings := t :: l.pendings }

def EVENT_DEL : Except Stop hloop := do
  let l ← l.EVENT_INACTIVE t
  let v ← l.get t
  if v.pending then .ok l else l.free t

def EVENT_RESET : Except Stop hloop := do
  let v ← l.get t
  let l ← (l.put t { v with destroy := false }).EVENT_ACTIVE t
  let v ← l.get t
  .ok (l.put t { v with pending := false })

end hloop

/-- Limit granularity to 100ms. -/
def granular (timeout_ms next : ℕ) : ℕ :=
  if 1000 ≤ timeout_ms ∧ timeout_ms % 100 = 0 then next / 100000 * 100000 else next

def htimer_add (l : hloop) (now timeout_ms repeats : ℕ) : Except Stop hloop :=
  if timeout_ms = 0 then .ok l
  else do
    let t := l.fresh
    let next := granular timeout_ms (now + timeout_ms * 1000)
    let l := { l with fresh := l.fresh + 1, cur_hrtime := now }
    let l := l.put t ⟨false, false, false, repeats, timeout_ms, next⟩
    let l ← l.withHeap fun key h => heap_insert key h t
    let l ← l.EVENT_ACTIVE t
    .ok { l with ntimers := l.ntimers + 1 }

/-- A timer that is to be reset is taken out of the heap, if it is in it. -/
def takeOut (l : hloop) (t : ℕ) (v : htimeout) : Except Stop hloop :=
  if v.destroy then .ok { l with ntimers := l.ntimers + 1 }
  else l.withHeap fun key h => heap_remove key h t

def htimer_reset (l : hloop) (t timeout_ms : ℕ) : Except Stop hloop := do
  let v ← l.get t
  let l ← takeOut l t v
  let repeats := if v.repeats = 0 then 1 else v.repeats
  let timeout := if 0 < timeout_ms then timeout_ms else v.timeout
  let next := granular timeout (l.cur_hrtime + timeout * 1000)
  let l := l.put t { v with repeats := repeats, timeout := timeout, next_timeout := next }
  let l ← l.withHeap fun key h => heap_insert key h t
  l.EVENT_RESET t

/-- `__htimer_del` -/
def unlinkTimer (l : hloop) (t : ℕ) : Except Stop hloop := do
  let v ← l.get t
  if v.destroy then .ok l
  else do
    let l ← l.withHeap fun key h => heap_remove key h t
    .ok { l.put t { v with destroy := true } with ntimers := l.ntimers - 1 }

def htimer_del (l : hloop) (t : ℕ) : Except Stop hloop := do
  let v ← l.get t
  if v.active then do
    let l ← unlinkTimer l t
    l.EVENT_DEL t
  else .ok l

/-- `while (next_timeout <= timeout) next_timeout += period;`, which a period of zero keeps from
its end. -/
def advance (next period timeout : ℕ) : Except Stop ℕ :=
  if next ≤ timeout then
    if period = 0 then .error .fault else advance (next + period) period timeout
  else .ok next
termination_by timeout + 1 - next
decreasing_by omega

/-- calc next timeout, then re-insert heap. -/
def rearm (l : hloop) (t : ℕ) (v : htimeout) (timeout : ℕ) : Except Stop hloop := do
  let l ← l.withHeap heap_dequeue
  let next ← advance v.next_timeout (v.timeout * 1000) timeout
  let l := l.put t { v with next_timeout := next }
  l.withHeap fun key h => heap_insert key h t

/-- `if (timer->repeat != INFINITE) --timer->repeat;` -/
def countdown (repeats : ℕ) : ℕ := if repeats = INFINITE then repeats else Word.sub 32 repeats 1

/-- The timer runs out, or is put back into the heap. -/
def turn (l : hloop) (t : ℕ) (v : htimeout) (timeout : ℕ) : Except Stop hloop :=
  if v.repeats = 0 then unlinkTimer l t else rearm l t v timeout

/-- One round of the loop below, for the timer at the root. -/
def expire (l : hloop) (t : ℕ) (v : htimeout) (timeout : ℕ) : Except Stop hloop := do
  let v := { v with repeats := countdown v.repeats }
  let l ← turn (l.put t v) t v timeout
  l.EVENT_PENDING t

/-- `__hloop_process_timers`, which comes to its end within `fuel` rounds. -/
def process_timers (timeout : ℕ) : ℕ → hloop → Except Stop hloop
  | 0, _ => .error .fault
  | fuel + 1, l =>
    match l.timers.root with
    | none => .ok l
    | some t => do
      let v ← l.get t
      if timeout < v.next_timeout then .ok l
      else do
        let l ← expire l t v timeout
        process_timers timeout fuel l

/-- `if (loop->ntimers) hloop_process_timers(loop);` -/
def hloop_process_timers (l : hloop) : Except Stop hloop :=
  if l.ntimers = 0 then .ok l else process_timers l.cur_hrtime (l.timers.nelts + 1) l

/-! ### The program -/

/-- A call of the program. -/
inductive Call where
  | add (now timeout_ms repeats : ℕ)
  | reset (t timeout_ms : ℕ)
  | del (t : ℕ)

def call (l : hloop) : Call → Except Stop hloop
  | .add now timeout_ms repeats => htimer_add l now timeout_ms repeats
  | .reset t timeout_ms => if l.timer t = none then .error .misuse else htimer_reset l t timeout_ms
  | .del t => if l.timer t = none then .error .misuse else htimer_del l t

def calls (l : hloop) (cs : List Call) : Except Stop hloop := cs.foldlM call l

/-- `cur->pending = 0;`, and then what is marked as destroy is deleted. -/
def finish (l : hloop) (cur : ℕ) : Except Stop hloop := do
  let v ← l.get cur
  let l := l.put cur { v with pending := false }
  if v.destroy then l.EVENT_DEL cur else .ok l

/-- What the callback of an event calls, if it is still active. -/
def turnCalls (cb : ℕ → List Call) (cur : ℕ) (v : htimeout) : List Call :=
  if v.active then cb cur else []

/-- One round of the loop below. -/
def processOne (cb : ℕ → List Call) (l : hloop) (cur : ℕ) : Except Stop hloop := do
  let v ← l.get cur
  if v.pending then do
    let l ← calls l (turnCalls cb cur v)
    finish l cur
  else .ok l

/-- `hloop_process_pendings`: `cur` and its successors. -/
def process_pendings (cb : ℕ → List Call) : List ℕ → hloop → Except Stop hloop
  | [], l => .ok { l with pendings := [] }
  | cur :: next, l => do
    let l ← processOne cb l cur
    process_pendings cb next l

/-- `hloop_process_events` at a time, where `cb` are the callbacks. -/
def hloop_process_events (l : hloop) (now : ℕ) (cb : ℕ → List Call) : Except Stop hloop := do
  let l ← hloop_process_timers { l with cur_hrtime := now }
  process_pendings cb l.pendings l

/-- The timers in `hloop_cleanup`. -/
def hloop_cleanup : ℕ → hloop → Except Stop hloop
  | 0, _ => .error .fault
  | fuel + 1, l =>
    match l.timers.root with
    | none => .ok l
    | some t => do
      let l ← l.withHeap heap_dequeue
      let l ← l.free t
      hloop_cleanup fuel l

/-- What happens to a loop: a call from outside of the callbacks, or a round at a time. -/
inductive Action where
  | call (c : Call)
  | events (now : ℕ) (cb : ℕ → List Call)

def act (l : hloop) : Action → Except Stop hloop
  | .call c => call l c
  | .events now cb => hloop_process_events l now cb

def run (l : hloop) (as : List Action) : Except Stop hloop := as.foldlM act l

/-! ### What the program has to keep to -/

/-- While the events of `busy` have not had their turn: the heap is not full, and no timer is
deleted that has its turn to come and is not marked as pending, since it was reset in this
round. -/
def fair (busy : List ℕ) (l : hloop) : Call → Bool
  | .add .. => l.timers.nelts < INT_MAX
  | .reset .. => l.timers.nelts < INT_MAX
  | .del t => (l.timer t).all fun v => !v.active || v.pending || t ∉ busy

def fairCalls (busy : List ℕ) (l : hloop) (cs : List Call) : Bool :=
  Transition.check (fun l c => (call l c).toOption) (fair busy) l cs

/-- The calls of the callbacks in `hloop_process_pendings`. -/
def fairPendings (cb : ℕ → List Call) : List ℕ → hloop → Bool
  | [], _ => true
  | cur :: next, l =>
    ((l.timer cur).all fun v => !v.pending || fairCalls (cur :: next) l (turnCalls cb cur v)) &&
      (processOne cb l cur).toOption.all (fairPendings cb next)

def fairAct (l : hloop) : Action → Bool
  | .call c => fair [] l c
  | .events now cb => (hloop_process_timers { l with cur_hrtime := now }).toOption.all fun l =>
      fairPendings cb l.pendings l

def fairRun (l : hloop) (as : List Action) : Bool :=
  Transition.check (fun l a => (act l a).toOption) fairAct l as

end MmrService.Timers
