import MmrService.Lib.Chain
import MmrService.Lib.Transition
import Mathlib.Logic.Function.Basic

/-!
`FixedAllocator::ChunkLockFree`: blocks of one size in one piece of memory, kept on a free
list whose links are the first bytes of the free blocks and whose head is one atomic byte.

Threads run `allocate` and `deallocate` one atomic step at a time: the load of the head, the
read or write of a link, the compare-and-exchange, the change of the counter. A thread that
holds a block may write any byte of it in between.
-/

namespace MmrService.LockFree

open Transition

/-- Pointers into the chunk are offsets from `m_pData`, which is given by the bytes there. -/
structure ChunkLockFree where
  m_pData : ℕ → UInt8
  m_blockSize : ℕ
  m_availaBlockCurr : UInt8
  m_availaBlockNum : UInt8
  m_blockNum : UInt8

/-- The loop of `init` from `i` on, for `n` more blocks: `*p = ++i` at `p = i * blockSize`. -/
def initLoop (blockSize : ℕ) : ℕ → UInt8 → (ℕ → UInt8) → ℕ → UInt8
  | 0, _, m => m
  | n + 1, i, m =>
    initLoop blockSize n (i + 1) (Function.update m (i.toNat * blockSize) (i + 1))

/-- `init`, on memory with arbitrary contents. -/
def init (m : ℕ → UInt8) (blockSize : ℕ) (blockNum : UInt8) : ChunkLockFree where
  m_pData := initLoop blockSize blockNum.toNat 0 m
  m_blockSize := blockSize
  m_availaBlockCurr := 0
  m_availaBlockNum := blockNum
  m_blockNum := blockNum

/-- The address of a block. -/
def blockPtr (c : ChunkLockFree) (i : UInt8) : ℕ := i.toNat * c.m_blockSize

/-- The link stored in the first byte of a block. -/
def link (c : ChunkLockFree) (i : UInt8) : UInt8 := c.m_pData (blockPtr c i)

/-- `static_cast<uint8_t>((toRelease - m_pData) / m_blockSize)`. -/
def blockIndex (c : ChunkLockFree) (ptr : ℕ) : UInt8 := UInt8.ofNat (ptr / c.m_blockSize)

def poke (c : ChunkLockFree) (p : ℕ) (b : UInt8) : ChunkLockFree :=
  { c with m_pData := Function.update c.m_pData p b }

/-- Where a thread is. -/
inductive Pc
  /-- Outside `allocate` and `deallocate`. -/
  | idle
  /-- `allocate`, before the test of `current_avail` against `m_blockNum`. -/
  | loaded (current_avail : UInt8)
  /-- `allocate`, before the compare-and-exchange. -/
  | linked (current_avail next_avail : UInt8)
  /-- `allocate`, before `fetch_sub`. -/
  | taken (ptrRet : ℕ)
  /-- `deallocate`, before `*toRelease` gets the head that was loaded, at first or by a
  compare-and-exchange that failed. -/
  | storing (toRelease : ℕ) (head : UInt8)
  /-- `deallocate`, before the compare-and-exchange. -/
  | pushing (toRelease : ℕ)
  /-- `deallocate`, before `fetch_add`. -/
  | pushed
  deriving DecidableEq

inductive Action (τ : Type)
  | allocLoad (t : τ)
  | allocRead (t : τ)
  | allocCas (t : τ) (spurious : Bool)
  | allocReturn (t : τ)
  | freeLoad (t : τ) (ptr : ℕ)
  | freeStore (t : τ)
  | freeCas (t : τ) (spurious : Bool)
  | freeReturn (t : τ)
  /-- The holder of a block writes its byte number `j`. -/
  | write (t : τ) (ptr j : ℕ) (b : UInt8)

/-- The chunk, the threads, and which thread holds which block. -/
structure State (τ : Type) where
  chunk : ChunkLockFree
  pc : τ → Pc
  held : List (τ × ℕ)

variable {τ : Type} [DecidableEq τ]

def State.goto (s : State τ) (t : τ) (p : Pc) : State τ :=
  { s with pc := Function.update s.pc t p }

def State.head (s : State τ) : UInt8 := s.chunk.m_availaBlockCurr

def State.setHead (s : State τ) (i : UInt8) : State τ :=
  { s with chunk := { s.chunk with m_availaBlockCurr := i } }

/-- One atomic step of one thread. -/
def step (s : State τ) : Action τ → Option (State τ)
  | .allocLoad t =>
    match s.pc t with
    | .idle => some (s.goto t (.loaded s.head))
    | _ => none
  | .allocRead t =>
    match s.pc t with
    | .loaded cur =>
      if cur = s.chunk.m_blockNum then some (s.goto t .idle)
      else some (s.goto t (.linked cur (link s.chunk cur)))
    | _ => none
  | .allocCas t spurious =>
    match s.pc t with
    | .linked cur next =>
      if s.head = cur ∧ spurious = false then
        let ptr := blockPtr s.chunk cur
        some { (s.setHead next).goto t (.taken ptr) with held := (t, ptr) :: s.held }
      else some (s.goto t (.loaded s.head))
    | _ => none
  | .allocReturn t =>
    match s.pc t with
    | .taken _ =>
      some { s.goto t .idle with
        chunk := { s.chunk with m_availaBlockNum := s.chunk.m_availaBlockNum - 1 } }
    | _ => none
  | .freeLoad t ptr =>
    match s.pc t with
    | .idle =>
      if (t, ptr) ∈ s.held then
        some { s.goto t (.storing ptr s.head) with held := s.held.erase (t, ptr) }
      else none
    | _ => none
  | .freeStore t =>
    match s.pc t with
    | .storing ptr h => some { s.goto t (.pushing ptr) with chunk := poke s.chunk ptr h }
    | _ => none
  | .freeCas t spurious =>
    match s.pc t with
    | .pushing ptr =>
      if s.head = s.chunk.m_pData ptr ∧ spurious = false then
        some ((s.setHead (blockIndex s.chunk ptr)).goto t .pushed)
      else some (s.goto t (.storing ptr s.head))
    | _ => none
  | .freeReturn t =>
    match s.pc t with
    | .pushed =>
      some { s.goto t .idle with
        chunk := { s.chunk with m_availaBlockNum := s.chunk.m_availaBlockNum + 1 } }
    | _ => none
  | .write t ptr j b =>
    match s.pc t with
    | .idle =>
      if (t, ptr) ∈ s.held ∧ j < s.chunk.m_blockSize then
        some { s with chunk := poke s.chunk (ptr + j) b }
      else none
    | _ => none

/-- All threads idle, no block handed out. -/
def start (c : ChunkLockFree) : State τ := ⟨c, fun _ => .idle, []⟩

/-- No block is held twice, and what is held are blocks of the chunk. -/
def Exclusive (s : State τ) : Prop :=
  (s.held.map Prod.snd).Nodup ∧
    ∀ p ∈ s.held.map Prod.snd, ∃ i < s.chunk.m_blockNum, p = blockPtr s.chunk i

/-- The values the compare-and-exchange of `allocate` would compare and install. -/
def Pc.exchange : Pc → Option (UInt8 × UInt8)
  | .linked cur next => some (cur, next)
  | _ => none

/-- The compare-and-exchange of an `allocate` that succeeds installs the link its head block
has now, and not one the block had, or its holder wrote there, when it was read. -/
def LinkFresh (s : State τ) : Action τ → Prop
  | .allocCas t spurious =>
    ∀ x ∈ (s.pc t).exchange, s.head = x.1 ∧ spurious = false → x.2 = link s.chunk x.1
  | _ => True

instance (s : State τ) : (a : Action τ) → Decidable (LinkFresh s a)
  | .allocCas t _ => Option.decidableForallMem (s.pc t).exchange
  | .allocLoad _ | .allocRead _ | .allocReturn _ | .freeLoad .. | .freeStore _ | .freeCas ..
  | .freeReturn _ | .write .. => .isTrue trivial

end MmrService.LockFree
