import MmrService.Lib.SortedMap
import MmrService.Lib.Transition
import MmrService.Lib.Word

/-!
`ChunkAllocator`: blocks of rounded sizes that are cached by size when they are released.

A step is one mutex-protected section, or one of the actions a call makes outside the
mutex: `new char[]` after a miss, and the addition to `m_sizeFree` with which a release
begins. Calls of any number of threads interleave at this granularity.
-/

namespace MmrService.ChunkAlloc

open Transition

/-- A reading of the system clock, in nanoseconds. -/
abbrev TimeType := ℤ

/-- `DataImp::memBuffer` with the counters and limits of the allocator. -/
structure ChunkAllocator where
  m_ulExpireTime : ℕ
  m_usMaxFreeCacheSize : ℕ
  m_sizeFree : ℕ
  m_sizeTotal : ℕ
  memBuffer : SortedMap ℕ (List (TimeType × ℕ))

/-- The constructor, from the expiry time in minutes and the cache limit in megabytes. -/
def construct (ulExpiredTime ulMaxCache : ℕ) : ChunkAllocator where
  m_ulExpireTime := ulExpiredTime
  m_usMaxFreeCacheSize := ulMaxCache * 1024 * 1024 % 2 ^ 32
  m_sizeFree := 0
  m_sizeTotal := 0
  memBuffer := .empty

def minBlockSize (align : ℕ) : ℕ := 2 ^ align - 1

/-- The rounded size `allocate<T>(ulElemSize)` asks for: the sum is taken in `size_t`, the
mask and the result are `uint32_t`. -/
def allocSize (align ulElemSize sizeofT : ℕ) : ℕ :=
  ((ulElemSize * sizeofT + minBlockSize align) % 2 ^ 64 &&&
    ((2 ^ 32 - 1) ^^^ minBlockSize align)) % 2 ^ 32

/-- `duration_cast<minutes>(timeNow - t).count() > m_ulExpireTime`. -/
def expired (a : ChunkAllocator) (timeNow t : TimeType) : Bool :=
  decide ((timeNow - t).tdiv 60000000000 > (a.m_ulExpireTime : ℤ))

/-- A counter after the size of every expired block was subtracted from it in turn. -/
def sweepCount (a : ChunkAllocator) (timeNow : TimeType) (c : ℕ) : ℕ :=
  a.memBuffer.entries.foldl (fun c e =>
    e.2.foldl (fun c b => if expired a timeNow b.1 then Word.sub 32 c e.1 else c) c) c

/-- What the sweep leaves of one queue; an emptied queue leaves the map. -/
def sweepQueue (a : ChunkAllocator) (timeNow : TimeType) (q : List (TimeType × ℕ)) :
    Option (List (TimeType × ℕ)) :=
  let q' := q.filter fun b => !expired a timeNow b.1
  if q' = [] then none else some q'

/-- The loop over the cached blocks that `freeExpiredMemory` and `deallocate` share. -/
def sweep (a : ChunkAllocator) (timeNow : TimeType) : ChunkAllocator :=
  { a with
    m_sizeFree := sweepCount a timeNow a.m_sizeFree
    m_sizeTotal := sweepCount a timeNow a.m_sizeTotal
    memBuffer := a.memBuffer.filterMap fun _ q => sweepQueue a timeNow q }

def freeExpiredMemory (a : ChunkAllocator) (timeNow : TimeType) : ChunkAllocator :=
  sweep a timeNow

/-- Free the oldest block of the largest cached size. -/
def dropLargest (a : ChunkAllocator) : ChunkAllocator :=
  match a.memBuffer.last? with
  | some (size, _ :: q) =>
    { a with
      m_sizeFree := Word.sub 32 a.m_sizeFree size
      m_sizeTotal := Word.sub 32 a.m_sizeTotal size
      memBuffer := if q = [] then a.memBuffer.erase size else a.memBuffer.insert size q }
  | _ => a

/-- `memBuffer[ulBufSize].push_back(..)`. -/
def pushBack (a : ChunkAllocator) (ulBufSize pBuf : ℕ) (now : TimeType) : ChunkAllocator :=
  { a with memBuffer := a.memBuffer.alter ulBufSize fun q => q.getD [] ++ [(now, pBuf)] }

/-- A release leaves more cached than the limit allows. -/
def overLimit (a : ChunkAllocator) : Prop := a.m_usMaxFreeCacheSize < a.m_sizeFree

instance (a : ChunkAllocator) : Decidable (overLimit a) := inferInstanceAs (Decidable (_ < _))

/-- The locked section of `deallocate`. -/
def deallocate (a : ChunkAllocator) (ulBufSize pBuf : ℕ) (now timeNow : TimeType) :
    ChunkAllocator :=
  let a := pushBack a ulBufSize pBuf now
  if overLimit a then
    let a := sweep a timeNow
    if overLimit a then dropLargest a else a
  else a

/-- The locked section `alloRowMemory`; `back()` of an empty queue has no result. -/
def alloRowMemory (a : ChunkAllocator) (ulElemSize : ℕ) :
    Option (Option ℕ × ChunkAllocator) :=
  match a.memBuffer.find ulElemSize with
  | none => some (none, a)
  | some q =>
    match q.getLast? with
    | none => none
    | some b =>
      some (some b.2, { a with
        m_sizeFree := Word.sub 32 a.m_sizeFree ulElemSize
        memBuffer := a.memBuffer.insert ulElemSize q.dropLast })

/-! ### All callers together -/

/-- The allocator, the static local of `onTimer`, and every block outside the cache: wanted
from `new` after a miss, held by a live `shared_ptr`, or on its way back. -/
structure State where
  alloc : ChunkAllocator
  timeLast : Option ℤ
  pendingNew : List ℕ
  held : List (ℕ × ℕ)
  releasing : List (ℕ × ℕ)

inductive Action
  /-- `allocate<T>(ulElemSize)` up to the end of `alloRowMemory`. -/
  | alloRowMemory (ulElemSize sizeofT : ℕ)
  /-- `new char[size]` returns `p`. -/
  | newBlock (size p : ℕ)
  /-- The last `shared_ptr` of a block goes away: its deleter enters `deallocate`. -/
  | release (size p : ℕ)
  | deallocate (size p : ℕ) (now timeNow : TimeType)
  | freeExpiredMemory (timeNow : TimeType)
  | onTimer (framTime : ℤ) (timeNow : TimeType)

def cachedPtrs (a : ChunkAllocator) : List ℕ :=
  a.memBuffer.entries.flatMap fun e => e.2.map Prod.snd

/-- Every block of the allocator that has not been given back to the heap. -/
def owned (s : State) : List ℕ :=
  cachedPtrs s.alloc ++ (s.held.map Prod.snd ++ s.releasing.map Prod.snd)

/-- `onTimer` runs the sweep. -/
def timerFires (s : State) (framTime : ℤ) : Prop :=
  framTime - s.timeLast.getD framTime ≥ (s.alloc.m_ulExpireTime * 60 % 2 ^ 32 : ℕ)

instance (s : State) (framTime : ℤ) : Decidable (timerFires s framTime) :=
  inferInstanceAs (Decidable (_ ≥ _))

variable (align : ℕ)

/-- One step; a step that is not enabled or is undefined has no successor. -/
def step (s : State) : Action → Option State
  | .alloRowMemory ulElemSize sizeofT =>
    let size := allocSize align ulElemSize sizeofT
    match alloRowMemory s.alloc size with
    | none => none
    | some (none, a) => some { s with alloc := a, pendingNew := size :: s.pendingNew }
    | some (some p, a) => some { s with alloc := a, held := (size, p) :: s.held }
  | .newBlock size p =>
    if size ∈ s.pendingNew ∧ p ∉ owned s then
      some { s with
        alloc := { s.alloc with m_sizeTotal := Word.add 32 s.alloc.m_sizeTotal size }
        pendingNew := s.pendingNew.erase size
        held := (size, p) :: s.held }
    else none
  | .release size p =>
    if (size, p) ∈ s.held then
      some { s with
        alloc := { s.alloc with m_sizeFree := Word.add 32 s.alloc.m_sizeFree size }
        held := s.held.erase (size, p)
        releasing := (size, p) :: s.releasing }
    else none
  | .deallocate size p now timeNow =>
    if (size, p) ∈ s.releasing then
      some { s with
        alloc := deallocate s.alloc size p now timeNow
        releasing := s.releasing.erase (size, p) }
    else none
  | .freeExpiredMemory timeNow =>
    some { s with alloc := freeExpiredMemory s.alloc timeNow }
  | .onTimer framTime timeNow =>
    if timerFires s framTime then
      some { s with alloc := freeExpiredMemory s.alloc timeNow, timeLast := some framTime }
    else some { s with timeLast := some (s.timeLast.getD framTime) }

/-- A fresh allocator with no block handed out. -/
def init (ulExpiredTime ulMaxCache : ℕ) : State :=
  ⟨construct ulExpiredTime ulMaxCache, none, [], [], []⟩

/-- The pointer a step gives to its caller. -/
def returned (s : State) : Action → Option ℕ
  | .alloRowMemory ulElemSize sizeofT =>
    (alloRowMemory s.alloc (allocSize align ulElemSize sizeofT)).bind Prod.fst
  | .newBlock _ p => some p
  | _ => none

end MmrService.ChunkAlloc
