import Mathlib.Data.Int.Notation
import MmrService.Lib.Transition
import MmrService.Queue

/-!
The write path of a connection of the event loop: writing, the queue of what the kernel has not
taken, the loop that writes it, and closing, at once or when the queue is empty.

The queue has buffers on the heap; to read or free a buffer that was freed, as to take from an
empty queue, is a fault. What the kernel answers to a write and what the callbacks call is part
of a run. What `hio_write` calls back at its end are further calls of the run. The socket is a
stream, and the calls are made by the thread of the loop. It is misuse to write `2 ^ 31` bytes
at a time, and to let `2 ^ 30` bytes wait.
-/

namespace MmrService.Hio

open Queue

def ERR_OVER_LIMIT : ℕ := 1022
def ETIMEDOUT : ℕ := 110
def MAX_WRITE_BUFSIZE : ℕ := 2 ^ 24

structure offset_buf_t where
  base : ℕ
  len : ℕ
  offset : ℕ
  deriving Inhabited

structure hio where
  ready : Bool
  closed : Bool
  close : Bool
  destroy : Bool
  id : ℕ
  error : ℕ
  /-- `events & HV_WRITE` -/
  writable : Bool
  write_queue : queue offset_buf_t
  write_bufsize : ℕ
  max_write_bufsize : ℕ
  close_timer : Bool

/-- The connection, the buffers in memory, the addresses that were freed, the ids of the events
that are to close a connection, and what the kernel has taken and the program has handed over
since the connection is ready. -/
structure world where
  io : hio
  buf : ℕ → Option (List UInt8)
  fresh : ℕ
  freed : List ℕ
  s_id : ℕ
  posted : List ℕ
  sent : List UInt8
  accepted : List UInt8

/-- Why a run ends. -/
inductive Stop where
  | misuse
  | fault
  deriving DecidableEq

/-- What the kernel answers to a write. -/
inductive Answer where
  | taken (n : ℕ)
  | again
  | failed (err : ℕ)

/-- A call of the program. -/
inductive Call where
  | write (buf : List UInt8) (answer : Answer)
  | close
  | close_async
  | set_max_write_bufsize (size : ℕ)

namespace world

variable (w : world)

/-- A part of a buffer. -/
def load (p : offset_buf_t) : Except Stop (List UInt8) :=
  (w.buf p.base).elim (.error .fault) fun data =>
    if p.offset ≤ p.len ∧ p.len ≤ data.length then .ok ((data.take p.len).drop p.offset)
    else .error .fault

/-- `HV_ALLOC`, and what is copied there. -/
def alloc (data : List UInt8) : world :=
  { w with buf := Function.update w.buf w.fresh (some data), fresh := w.fresh + 1 }

/-- `HV_FREE` -/
def free (base : ℕ) : Except Stop world :=
  if w.buf base = none then .error .fault
  else .ok { w with buf := Function.update w.buf base none, freed := w.freed ++ [base] }

/-- A function of the queue is called. -/
def withQueue (f : queue offset_buf_t → Option (queue offset_buf_t)) : Except Stop world :=
  (f w.io.write_queue).elim (.error .fault) fun q =>
    .ok { w with io := { w.io with write_queue := q } }

def front : Except Stop offset_buf_t := w.io.write_queue.front.elim (.error .fault) .ok

def setError (err : ℕ) : world := { w with io := { w.io with error := err } }

/-- `hio_add(io, hio_handle_events, HV_WRITE);` -/
def addWrite : world := { w with io := { w.io with writable := true } }

/-- `hio_del(io, HV_WRITE);` -/
def delWrite : world := { w with io := { w.io with writable := false } }

/-- The kernel takes `data`. -/
def take (data : List UInt8) : world := { w with sent := w.sent ++ data }

end world

/-- `hio_next_id` counts in 32 bits. -/
def hio_ready (w : world) : world :=
  if w.io.ready then w
  else { w with
    io := { w.io with
      ready := true, closed := false, close := false, id := (w.s_id + 1) % 2 ^ 32, error := 0,
      writable := false, write_bufsize := 0, max_write_bufsize := MAX_WRITE_BUFSIZE,
      close_timer := false }
    s_id := w.s_id + 1, sent := [], accepted := [] }

/-- A connection of zeros, as `hio_get` makes it. -/
def hio_init (s_id : ℕ) : world :=
  hio_ready ⟨⟨false, false, false, false, 0, 0, false, zeroed, 0, 0, false⟩, fun _ => none, 0, [],
    s_id, [], [], []⟩

/-- The loop that frees what is in the queue, which has as many rounds as the queue elements. -/
def freeQueue : ℕ → world → Except Stop world
  | 0, w => if w.io.write_queue.isEmpty then .ok w else .error .fault
  | n + 1, w =>
    if w.io.write_queue.isEmpty then .ok w
    else do
      let pbuf ← w.front
      let w ← w.free pbuf.base
      let w ← w.withQueue queue.pop_front
      freeQueue n w

def hio_done (w : world) : Except Stop world :=
  if w.io.ready then do
    let w := { w with io := { w.io with ready := false, writable := false } }
    let w ← freeQueue w.io.write_queue.size w
    w.withQueue fun q => some q.cleanup
  else .ok w

/-- `__close_cb` -/
def close_cb (w : world) : world :=
  { w with io := { w.io with closed := true, close_timer := false } }

def hio_close_async (w : world) : world := { w with posted := w.posted ++ [w.io.id] }

/-- `hio_close` waits for the queue to be written. -/
def waits (io : hio) : Bool :=
  !io.write_queue.isEmpty && io.error == 0 && !io.close && !io.destroy

def hio_close (w : world) : Except Stop world :=
  if w.io.closed then .ok w
  else if waits w.io then .ok { w with io := { w.io with close := true, close_timer := true } }
  else do
    let w ← hio_done { w with io := { w.io with closed := true } }
    .ok (close_cb w)

/-- `if (io->write_queue.maxsize == 0)` -/
def initQueue (q : queue offset_buf_t) : queue offset_buf_t := if q.maxsize = 0 then q.init 4 else q

/-- What `hio_write` does with the bytes behind `nwrite`. -/
def enqueue (w : world) (buf : List UInt8) (nwrite : ℕ) : Except Stop (world × ℤ) :=
  if nwrite < buf.length then
    if w.io.max_write_bufsize < w.io.write_bufsize + buf.length - nwrite then
      .ok (hio_close_async (w.setError ERR_OVER_LIMIT), -1)
    else do
      let remain : offset_buf_t := ⟨w.fresh, buf.length - nwrite, 0⟩
      let w := w.alloc (buf.drop nwrite)
      let w ← w.withQueue fun q => (initQueue q).push_back remain
      .ok ({ w with io := { w.io with write_bufsize := w.io.write_bufsize + remain.len } }, nwrite)
  else .ok (w, nwrite)

/-- The kernel took `nwrite` bytes of `hio_write`'s. -/
def written (w : world) (buf : List UInt8) (nwrite : ℕ) : Except Stop (world × ℤ) :=
  if nwrite = 0 then .ok (hio_close_async w, -1)
  else if nwrite = buf.length then .ok (w.take buf, nwrite)
  else enqueue (w.take (buf.take nwrite)).addWrite buf nwrite

def hio_write (w : world) (buf : List UInt8) (answer : Answer) : Except Stop (world × ℤ) :=
  if w.io.closed then .ok (w, -1)
  else if w.io.write_queue.isEmpty then
    match answer with
    | .failed err => .ok (hio_close_async (w.setError err), -1)
    | .again => enqueue w.addWrite buf 0
    | .taken n => written w buf (min n buf.length)
  else enqueue w buf 0

/-- What the program has handed over: all of `buf`, or where `hio_write` fails what the kernel
took of it. -/
def record (w : world) (buf : List UInt8) (r : world × ℤ) : world :=
  { r.1 with accepted :=
      w.accepted ++ if 0 ≤ r.2 then buf else r.1.sent.drop w.sent.length }

def call (w : world) : Call → Except Stop world
  | .write buf answer =>
    if buf.length < 2 ^ 31 then (hio_write w buf answer).map (record w buf) else .error .misuse
  | .close => hio_close w
  | .close_async => .ok (hio_close_async w)
  | .set_max_write_bufsize size =>
    if size < 2 ^ 30 then .ok { w with io := { w.io with max_write_bufsize := size } }
    else .error .misuse

def calls (w : world) (cs : List Call) : Except Stop world := cs.foldlM call w

/-- The queue is empty: `if (io->close)`. -/
def drained (w : world) : Except Stop world :=
  if w.io.close then hio_close { w with io := { w.io with close := false } } else .ok w

/-- The kernel took `nwrite` bytes of the first buffer. -/
def progress (w : world) (pbuf : offset_buf_t) (data : List UInt8) (nwrite : ℕ) : world :=
  { w.take (data.take nwrite) with
    io := { w.io with
      write_queue := w.io.write_queue.setFront { pbuf with offset := pbuf.offset + nwrite }
      write_bufsize := w.io.write_bufsize - nwrite } }

/-- The first buffer was written to its end: its callback is called, and it is freed and taken
out of the queue. -/
def finish (w : world) (pbuf : offset_buf_t) (cs : List Call) : Except Stop world := do
  let w ← calls w cs
  let w ← w.free pbuf.base
  w.withQueue queue.pop_front

/-- `nio_write`: what the kernel answers in each round of the loop, which would block where the
answers end, and what the callback of the round calls. -/
def nio_write : List (Answer × List Call) → world → Except Stop world
  | [], w => if w.io.write_queue.isEmpty then drained w else .ok w
  | (answer, cs) :: rounds, w =>
    if w.io.write_queue.isEmpty then drained w
    else do
      let pbuf ← w.front
      let data ← w.load pbuf
      match answer with
      | .again => .ok w
      | .failed err => hio_close (w.setError err)
      | .taken n =>
        if min n data.length = 0 then hio_close w
        else if min n data.length = data.length then do
          let w ← finish (progress w pbuf data data.length) pbuf cs
          if w.io.closed then .ok w else nio_write rounds w
        else calls (progress w pbuf data (min n data.length)) cs

/-- What `hio_handle_events` does where the connection is writable. -/
def hio_handle_events (w : world) (rounds : List (Answer × List Call)) : Except Stop world :=
  if w.io.writable then
    nio_write rounds (if w.io.write_queue.isEmpty then w.delWrite else w)
  else .ok w

/-- `hio_close_event_cb`, for the first event that was posted. -/
def hio_close_event_cb (w : world) : Except Stop world :=
  match w.posted with
  | [] => .ok w
  | id :: posted =>
    if w.io.id = id then hio_close { w with posted := posted } else .ok { w with posted := posted }

/-- `__close_timeout_cb`, if the timer was added. -/
def close_timeout_cb (w : world) : Except Stop world :=
  if w.io.close_timer then hio_close (w.setError ETIMEDOUT) else .ok w

/-- `nio_read` meets an error, or the end of the stream. -/
def read_error (w : world) (err : Option ℕ) : Except Stop world :=
  if w.io.closed then .ok w else hio_close (err.elim w w.setError)

/-- What happens to a connection. -/
inductive Action where
  | call (c : Call)
  | writable (rounds : List (Answer × List Call))
  | close_event
  | close_timeout
  | read_error (err : Option ℕ)
  | ready

def act (w : world) : Action → Except Stop world
  | .call c => call w c
  | .writable rounds => hio_handle_events w rounds
  | .close_event => hio_close_event_cb w
  | .close_timeout => close_timeout_cb w
  | .read_error err => read_error w err
  | .ready => .ok (hio_ready w)

def run (w : world) (as : List Action) : Except Stop world := as.foldlM act w

/-! ### What the program has to keep to -/

/-- The call does not close the connection at once: `hio_close` waits for the queue, or the
connection is closed already. -/
def gentle (w : world) : Call → Bool
  | .close => w.io.closed || waits w.io
  | _ => true

def gentleCalls (w : world) (cs : List Call) : Bool :=
  Transition.check (fun w c => (call w c).toOption) gentle w cs

/-- The first buffer and the connection in its callback, if the kernel takes all that is left of
the buffer. -/
def atEnd (w : world) : Answer → Option (offset_buf_t × world)
  | .taken n => do
    let pbuf ← w.io.write_queue.front
    let data ← (w.load pbuf).toOption
    if data.length ≤ n then some (pbuf, progress w pbuf data data.length) else none
  | _ => none

/-- No callback of a buffer that was written to its end closes the connection at once. -/
def fairRounds : List (Answer × List Call) → world → Bool
  | [], _ => true
  | (answer, cs) :: rounds, w => (atEnd w answer).all fun r =>
      gentleCalls r.2 cs && (finish r.2 r.1 cs).toOption.all (fairRounds rounds)

def fairAct (w : world) : Action → Bool
  | .writable rounds => !w.io.writable || fairRounds rounds w
  | _ => true

def fairRun (w : world) (as : List Action) : Bool :=
  Transition.check (fun w a => (act w a).toOption) fairAct w as

/-- `hio_free`, up to the freeing of `io`. -/
def hio_free (w : world) : Except Stop world :=
  if w.io.destroy then .ok w else hio_close { w with io := { w.io with destroy := true } }

end MmrService.Hio
