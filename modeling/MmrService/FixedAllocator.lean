import MmrService.ChunkLockFree
import MmrService.Lib.Mutex

/-!
`FixedAllocator`: a list of chunks, the chunk that `allocate` works on, and the mutex of both.

`allocate` reads `m_ptrAllocChunk` without the mutex and takes the mutex only to search the
list; `releaseFreeMemory` walks the list under the mutex and erases chunks. Any number of
threads do so one read or write at a time. What happens inside a chunk are the steps of
`ChunkLockFree`; a step on a chunk that has been erased has no effect that could be told.
-/

namespace MmrService.FixedAllocator

open Transition

def ALLOC_CHUNK_SIZE : ℕ := 8192

/-- `m_numBlocks`, as the constructor computes it. -/
def numBlocks (blockSize : ℕ) : UInt8 :=
  let n := ALLOC_CHUNK_SIZE / blockSize
  UInt8.ofNat (if 255 < n then 255 else if n = 0 then 8 * blockSize else n)

/-- A chunk, the threads between the exchange and the `fetch_sub` of its `allocate`, and the
threads in its `deallocate`. -/
structure Chunk (τ : Type) where
  core : LockFree.State τ
  taking : List τ
  returning : List τ

/-- `make_unique<ChunkType>()` and `init`, on memory with arbitrary contents. -/
def Chunk.make {τ : Type} (m : ℕ → UInt8) (blockSize : ℕ) : Chunk τ where
  core := LockFree.start (LockFree.init m blockSize (numBlocks blockSize))
  taking := []
  returning := []

def Chunk.availadeBlockNum {τ : Type} (k : Chunk τ) : UInt8 := k.core.chunk.m_availaBlockNum

/-- Where a thread is, each constructor before the operation it is named after. -/
inductive Pc
  | idle
  /-- `allocate`: the two reads of `m_ptrAllocChunk` in its test, and that of the counter of
  the chunk that was read. -/
  | testNull
  | testPtr
  | testAvail (c : ℕ)
  | lock
  /-- The search through the list, at an iterator. -/
  | search (i : ℕ)
  /-- `pairRet.second = m_ptrAllocChunk`. -/
  | second
  | call (c : ℕ)
  /-- In the `allocate` of a chunk. -/
  | inside (c : ℕ)
  /-- In the `deallocate` of a chunk. -/
  | freeing (c : ℕ)
  /-- `releaseFreeMemory`: the test of a chunk, and its erasure. -/
  | releaseLock
  | scan (i : ℕ)
  | erase (i : ℕ)
  deriving DecidableEq

def Pc.locked : Pc → Bool
  | .search _ | .scan _ | .erase _ => true
  | _ => false

/-- The chunk whose address a thread in `allocate` has read and will use. -/
def Pc.selected : Pc → Option ℕ
  | .testAvail c | .call c | .inside c => some c
  | _ => none

/-- Chunks are told by the number of chunks made before them. -/
structure State (τ : Type) where
  m_listChunks : List ℕ
  m_ptrAllocChunk : Option ℕ
  m_mutexChunks : Option τ
  chunks : ℕ → Chunk τ
  made : ℕ
  pc : τ → Pc

inductive Action (τ : Type)
  | allocate (t : τ)
  /-- The next step of a thread in `allocate`, outside the chunks; `m` is what a new chunk
  finds in its memory. -/
  | select (t : τ) (m : ℕ → UInt8)
  /-- The next step in the `allocate` of a chunk. -/
  | take (t : τ) (spurious : Bool)
  /-- A deleter begins to return a block. -/
  | deallocate (t : τ) (c ptr : ℕ)
  /-- The next step in the `deallocate` of a chunk. -/
  | put (t : τ) (spurious : Bool)
  /-- A thread hands its smart pointer to another one. -/
  | give (t u : τ) (c ptr : ℕ)
  /-- The holder of a block writes into it. -/
  | write (t : τ) (c ptr j : ℕ) (b : UInt8)
  | releaseFreeMemory (t : τ)
  /-- The next step of a thread in `releaseFreeMemory`. -/
  | sweep (t : τ)

variable {τ : Type} [DecidableEq τ]

/-- The steps of a chunk, with a record of the threads that are taking and returning blocks. -/
def Chunk.step (k : Chunk τ) (a : LockFree.Action τ) : Option (Chunk τ) :=
  (LockFree.step k.core a).map fun core =>
    { core := core
      taking :=
        match a with
        | .allocCas t _ =>
          match core.pc t with
          | .taken _ => t :: k.taking
          | _ => k.taking
        | .allocReturn t => k.taking.erase t
        | _ => k.taking
      returning :=
        match a with
        | .freeLoad t _ => t :: k.returning
        | .freeReturn t => k.returning.erase t
        | _ => k.returning }

namespace State

def goto (s : State τ) (t : τ) (p : Pc) : State τ :=
  { s with pc := Function.update s.pc t p }

def setChunk (s : State τ) (c : ℕ) (k : Chunk τ) : State τ :=
  { s with chunks := Function.update s.chunks c k }

/-- A thread does a step in a chunk that exists, and goes on at `p`. -/
def inChunk (s : State τ) (t : τ) (c : ℕ) (a : LockFree.Action τ) (p : Chunk τ → Pc) :
    Option (State τ) :=
  if c ∈ s.m_listChunks then
    ((s.chunks c).step a).map fun k => (s.setChunk c k).goto t (p k)
  else none

/-- The search has found a chunk; the lock is released. -/
def found (s : State τ) (t : τ) (c : ℕ) : State τ :=
  { s.goto t .second with m_ptrAllocChunk := some c, m_mutexChunks := none }

variable (blockSize : ℕ)

/-- `allocate` outside the chunks. -/
def select (s : State τ) (t : τ) (m : ℕ → UInt8) : Option (State τ) :=
  match s.pc t with
  | .testNull => some (s.goto t (if s.m_ptrAllocChunk = none then .lock else .testPtr))
  | .testPtr => s.m_ptrAllocChunk.map fun c => s.goto t (.testAvail c)
  | .testAvail c =>
    if c ∈ s.m_listChunks then
      some (s.goto t (if (s.chunks c).availadeBlockNum = 0 then .lock else .second))
    else none
  | .lock =>
    match s.m_mutexChunks with
    | none => some { s.goto t (.search 0) with m_mutexChunks := some t }
    | some _ => none
  | .search i =>
    match s.m_listChunks[i]? with
    | none =>
      some { (s.setChunk s.made (.make m blockSize)).found t s.made with
        m_listChunks := s.m_listChunks ++ [s.made]
        made := s.made + 1 }
    | some c =>
      if 0 < (s.chunks c).availadeBlockNum then some (s.found t c)
      else some (s.goto t (.search (i + 1)))
  | .second => s.m_ptrAllocChunk.map fun c => s.goto t (.call c)
  | _ => none

/-- `allocate` in a chunk: a null pointer starts the loop again. -/
def take (s : State τ) (t : τ) (spurious : Bool) : Option (State τ) :=
  match s.pc t with
  | .call c => s.inChunk t c (.allocLoad t) fun _ => .inside c
  | .inside c =>
    match (s.chunks c).core.pc t with
    | .loaded _ =>
      s.inChunk t c (.allocRead t) fun k => if k.core.pc t = .idle then .testNull else .inside c
    | .linked .. => s.inChunk t c (.allocCas t spurious) fun _ => .inside c
    | .taken _ => s.inChunk t c (.allocReturn t) fun _ => .idle
    | _ => none
  | _ => none

/-- `deallocate` in a chunk. -/
def put (s : State τ) (t : τ) (spurious : Bool) : Option (State τ) :=
  match s.pc t with
  | .freeing c =>
    match (s.chunks c).core.pc t with
    | .storing .. => s.inChunk t c (.freeStore t) fun _ => .freeing c
    | .pushing _ => s.inChunk t c (.freeCas t spurious) fun _ => .freeing c
    | .pushed => s.inChunk t c (.freeReturn t) fun _ => .idle
    | _ => none
  | _ => none

def give (s : State τ) (t u : τ) (c ptr : ℕ) : Option (State τ) :=
  let k := s.chunks c
  if k.core.held.contains (t, ptr) then
    some (s.setChunk c
      { k with core := { k.core with held := (u, ptr) :: k.core.held.erase (t, ptr) } })
  else none

/-- `releaseFreeMemory`. -/
def sweep (s : State τ) (t : τ) : Option (State τ) :=
  match s.pc t with
  | .releaseLock =>
    match s.m_mutexChunks with
    | none => some { s.goto t (.scan 0) with m_mutexChunks := some t }
    | some _ => none
  | .scan i =>
    match s.m_listChunks[i]? with
    | none => some { s.goto t .idle with m_mutexChunks := none }
    | some c =>
      if (s.chunks c).availadeBlockNum = numBlocks blockSize ∧ some c ≠ s.m_ptrAllocChunk then
        some (s.goto t (.erase i))
      else some (s.goto t (.scan (i + 1)))
  | .erase i => some { s.goto t (.scan i) with m_listChunks := s.m_listChunks.eraseIdx i }
  | _ => none

/-- One step of one thread. -/
def step (s : State τ) : Action τ → Option (State τ)
  | .allocate t => if s.pc t = .idle then some (s.goto t .testNull) else none
  | .select t m => s.select blockSize t m
  | .take t spurious => s.take t spurious
  | .deallocate t c ptr =>
    if s.pc t = .idle then s.inChunk t c (.freeLoad t ptr) fun _ => .freeing c else none
  | .put t spurious => s.put t spurious
  | .give t u c ptr => if s.pc t = .idle then s.give t u c ptr else none
  | .write t c ptr j b =>
    if s.pc t = .idle then s.inChunk t c (.write t ptr j b) fun _ => .idle else none
  | .releaseFreeMemory t => if s.pc t = .idle then some (s.goto t .releaseLock) else none
  | .sweep t => s.sweep blockSize t

/-- A new allocator: no chunks, nobody in it. -/
def start (τ : Type) (blockSize : ℕ) : State τ where
  m_listChunks := []
  m_ptrAllocChunk := none
  m_mutexChunks := none
  chunks := fun _ => .make (fun _ => 0) blockSize
  made := 0
  pc := fun _ => .idle

/-- Somebody holds a block of the chunk or is returning one, or a thread in `allocate` has
selected the chunk. -/
def InUse (s : State τ) (c : ℕ) : Prop :=
  (s.chunks c).core.held ≠ [] ∨ ∃ t, s.pc t = .freeing c ∨ (s.pc t).selected = some c

/-- The chunk that `releaseFreeMemory` erases is not in use. -/
def EraseSafe (s : State τ) (a : Action τ) : Prop :=
  ∀ t i c, a = .sweep t → s.pc t = .erase i → s.m_listChunks[i]? = some c → ¬ s.InUse c

/-- The blocks of a chunk that are out: held, or on their way back. -/
def out (s : State τ) (c : ℕ) : ℕ :=
  (s.chunks c).core.held.length + (s.chunks c).returning.length

/-- When `releaseFreeMemory` finds a chunk free, what the threads in `allocate` have read of
`m_ptrAllocChunk` is what is there now, and no more than 255 blocks of the chunk are out. -/
def Settled (s : State τ) (a : Action τ) : Prop :=
  ∀ t i c, a = .sweep t → s.pc t = .scan i → s.m_listChunks[i]? = some c →
    (s.chunks c).availadeBlockNum = numBlocks blockSize → some c ≠ s.m_ptrAllocChunk →
    (∀ u d, (s.pc u).selected = some d → s.m_ptrAllocChunk = some d) ∧ s.out c ≤ 255

end State

end MmrService.FixedAllocator
