import MmrService.ChunkSizes
import MmrService.Lib.Bytes

/-!
`Matrix<_Ty>`: a matrix in one block of `ChunkAllocator<10>`, and several of them in one run.

The counts, the size in bytes and the flat index are `uint32_t`. An element is the bytes of its
representation, `sizeofTy` of them. The blocks are those of the one allocator of the process,
whose calls are made by the matrices and by the timer. What is in a new block is not known, and
a block from the cache holds what was left in it.
-/

namespace MmrService.Matrices

open Transition

/-- `m_ptrData` is told by the address of its block and the size its deleter gives back. -/
structure Matrix where
  m_ulRowCount : UInt32
  m_ulColCount : UInt32
  m_ptrBegin : Option ℕ
  m_ptrData : Option (ℕ × ℕ)
  m_ulCapacity : UInt32

/-- `Matrix()`, and a matrix that has been moved from. -/
def Matrix.empty : Matrix := ⟨0, 0, none, none, 0⟩

def Matrix.reshaped (m : Matrix) (nRow nCol : UInt32) : Matrix :=
  { m with
    m_ulRowCount := nRow
    m_ulColCount := nCol }

/-- What the blocks hold, the allocator, and the steps it has taken. -/
structure Memory where
  bytes : ℕ → Option (List UInt8)
  allocator : ChunkAlloc.State
  calls : List ChunkAlloc.Action

/-- What a call gets from outside: where `new` would find a block and what is in it, and the
readings of the clock in `deallocate`. -/
structure Outside where
  p : ℕ
  junk : ℕ → UInt8
  now : ChunkAlloc.TimeType
  timeNow : ChunkAlloc.TimeType

namespace Memory

/-- A step of the allocator. -/
def act (memory : Memory) (a : ChunkAlloc.Action) : Option Memory :=
  (ChunkAlloc.step 10 memory.allocator a).map fun t =>
    { memory with
      allocator := t
      calls := memory.calls ++ [a] }

def set (memory : Memory) (p : ℕ) (block : List UInt8) : Memory :=
  { memory with bytes := Function.update memory.bytes p (some block) }

@[simp] lemma bytes_set_self (memory : Memory) (p : ℕ) (block : List UInt8) :
    (memory.set p block).bytes p = some block := Function.update_self ..

lemma bytes_set_of_ne {p q : ℕ} (h : q ≠ p) (memory : Memory) (block : List UInt8) :
    (memory.set p block).bytes q = memory.bytes q := Function.update_of_ne h ..

/-- `allocate<uint8_t>`: the size that is returned, and the address of a block from the cache or
of a new one. -/
def allocate (memory : Memory) (ulElemSize : ℕ) (o : Outside) : Option (Memory × (ℕ × ℕ)) :=
  let first := ChunkAlloc.allocSize 10 ulElemSize 1
  (memory.act (.alloRowMemory ulElemSize 1)).bind fun looked =>
    match ChunkAlloc.returned 10 memory.allocator (.alloRowMemory ulElemSize 1) with
    | some p => some (looked, (first, p))
    | none => (looked.act (.newBlock first o.p)).map fun taken =>
        (taken.set o.p ((List.range first).map o.junk), (first, o.p))

/-- The last `shared_ptr` of a block goes, and its deleter gives the block back. -/
def release (memory : Memory) (block : Option (ℕ × ℕ)) (o : Outside) : Option Memory :=
  match block with
  | none => some memory
  | some (size, p) => (memory.act (.release size p)).bind fun m =>
      m.act (.deallocate size p o.now o.timeNow)

end Memory

variable (sizeofTy : ℕ)

/-- `m_ulRowCount * m_ulColCount * sizeof(_Ty)`: the first product is a `uint32_t`, the second
a `size_t`, which is stored in a `uint32_t`. -/
def Matrix.byteSize (m : Matrix) : UInt32 :=
  UInt32.ofNat ((m.m_ulRowCount * m.m_ulColCount).toNat * sizeofTy)

/-- `sizeof(_Ty) * m_ulRowCount * m_ulColCount`, in `size_t`. -/
def Matrix.copySize (m : Matrix) : ℕ :=
  sizeofTy * m.m_ulRowCount.toNat * m.m_ulColCount.toNat % 2 ^ 64

/-- The block of before goes when `m_ptrData` has the new one. -/
def allocateMemory (memory : Memory) (m : Matrix) (o : Outside) : Option (Memory × Matrix) :=
  let ulSize := m.byteSize sizeofTy
  if m.m_ulCapacity < ulSize then
    (memory.allocate ulSize.toNat o).bind fun memoData =>
      (memoData.1.release m.m_ptrData o).map fun memory =>
        (memory, { m with
          m_ulCapacity := UInt32.ofNat memoData.2.1
          m_ptrData := some memoData.2
          m_ptrBegin := some memoData.2.2 })
  else some (memory, m)

/-- Bytes stored at the begin of a block. -/
def overwrite (memory : Memory) (dst : Option ℕ) (bs : List UInt8) : Option Memory :=
  if bs = [] then some memory
  else do
    let p ← dst
    let block ← memory.bytes p
    if bs.length ≤ block.length then some (memory.set p (Bytes.patch block 0 bs)) else none

def memcpy (memory : Memory) (dst src : Option ℕ) (n : ℕ) : Option Memory :=
  if n = 0 then some memory
  else do
    let p ← src
    let block ← memory.bytes p
    if n ≤ block.length then overwrite memory dst (block.take n) else none

/-! ### Elements -/

/-- `ulRowIndex * m_ulColCount + ulColIndex`. -/
def Matrix.flatIndex (m : Matrix) (ulRowIndex ulColIndex : UInt32) : UInt32 :=
  ulRowIndex * m.m_ulColCount + ulColIndex

/-- The condition `operator()` asserts. -/
def Matrix.InRange (m : Matrix) (ulRowIndex ulColIndex : UInt32) : Prop :=
  ulRowIndex < m.m_ulRowCount ∧ ulColIndex < m.m_ulColCount

instance (m : Matrix) (ulRowIndex ulColIndex : UInt32) :
    Decidable (m.InRange ulRowIndex ulColIndex) := inferInstanceAs (Decidable (_ ∧ _))

/-- `operator()` as a value. -/
def Matrix.get (memory : Memory) (m : Matrix) (ulRowIndex ulColIndex : UInt32) :
    Option (List UInt8) := do
  let p ← m.m_ptrBegin
  let block ← memory.bytes p
  let i := (m.flatIndex ulRowIndex ulColIndex).toNat
  if m.InRange ulRowIndex ulColIndex ∧ (i + 1) * sizeofTy ≤ block.length then
    some (Bytes.slice block (i * sizeofTy) sizeofTy)
  else none

/-- `m_ptrBegin[ulRowIndex * m_ulColCount + ulColIndex] = value`. -/
def Matrix.store (memory : Memory) (m : Matrix) (ulRowIndex ulColIndex : UInt32)
    (value : List UInt8) : Option Memory := do
  let p ← m.m_ptrBegin
  let block ← memory.bytes p
  let i := (m.flatIndex ulRowIndex ulColIndex).toNat
  if (i + 1) * sizeofTy ≤ block.length then
    some (memory.set p (Bytes.patch block (i * sizeofTy) value))
  else none

def Matrix.setValue (memory : Memory) (m : Matrix) (ulRowIndex ulColIndex : UInt32)
    (value : List UInt8) : Option (Bool × Memory) :=
  if m.m_ulRowCount < ulRowIndex ∨ m.m_ulColCount < ulColIndex then some (false, memory)
  else (m.store sizeofTy memory ulRowIndex ulColIndex value).map (true, ·)

/-! ### Several matrices -/

/-- The matrices by name, and the memory. -/
structure State where
  objects : ℕ → Option Matrix
  memory : Memory

inductive Op
  | construct (x : ℕ)
  | constructSized (x : ℕ) (nRow nCol : UInt32) (o : Outside)
  | copyConstruct (x rhs : ℕ) (o : Outside)
  | moveConstruct (x rhs : ℕ)
  | copyAssign (x rhs : ℕ) (o : Outside)
  | moveAssign (x rhs : ℕ) (o : Outside)
  | resize (x : ℕ) (nRow nCol : UInt32) (o : Outside)
  | setValue (x : ℕ) (ulRowIndex ulColIndex : UInt32) (value : List UInt8)
  /-- An assignment to `operator()`. -/
  | assign (x : ℕ) (ulRowIndex ulColIndex : UInt32) (value : List UInt8)
  | zero (x : ℕ)
  | destroy (x : ℕ) (o : Outside)
  /-- The timer of the allocator. -/
  | onTimer (framTime : ℤ) (timeNow : ChunkAlloc.TimeType)

def put (s : State) (x : ℕ) (m : Matrix) (memory : Memory) : State :=
  ⟨Function.update s.objects x (some m), memory⟩

/-- A matrix of the shape of another one takes its elements. -/
def copyElements (memory : Memory) (m rhs : Matrix) (o : Outside) :
    Option (Memory × Matrix) := do
  let (memory, m) ← allocateMemory sizeofTy memory
    (m.reshaped rhs.m_ulRowCount rhs.m_ulColCount) o
  let memory ← memcpy memory m.m_ptrBegin rhs.m_ptrBegin (m.copySize sizeofTy)
  some (memory, m)

/-- A matrix and its shape, given a block. -/
def reshape (memory : Memory) (m : Matrix) (nRow nCol : UInt32) (o : Outside) :
    Option (Memory × Matrix) :=
  allocateMemory sizeofTy memory (m.reshaped nRow nCol) o

/-- One operation; a name is constructed before it is used, and not twice. -/
def step (s : State) : Op → Option State
  | .construct x =>
    match s.objects x with
    | some _ => none
    | none => some (put s x .empty s.memory)
  | .constructSized x nRow nCol o =>
    match s.objects x with
    | some _ => none
    | none => (reshape sizeofTy s.memory .empty nRow nCol o).map fun r => put s x r.2 r.1
  | .copyConstruct x rhs o =>
    match s.objects x, s.objects rhs with
    | none, some r => (copyElements sizeofTy s.memory .empty r o).map fun r => put s x r.2 r.1
    | _, _ => none
  | .moveConstruct x rhs =>
    match s.objects x, s.objects rhs with
    | none, some r => some (put (put s rhs .empty s.memory) x r s.memory)
    | _, _ => none
  | .copyAssign x rhs o =>
    match s.objects x, s.objects rhs with
    | some m, some r =>
      if x = rhs then some s
      else (copyElements sizeofTy s.memory m r o).map fun r => put s x r.2 r.1
    | _, _ => none
  | .moveAssign x rhs o =>
    match s.objects x, s.objects rhs with
    | some m, some r =>
      if x = rhs then some s
      else (s.memory.release m.m_ptrData o).map fun memory =>
        put (put s rhs .empty memory) x r memory
    | _, _ => none
  | .resize x nRow nCol o =>
    match s.objects x with
    | none => none
    | some m => (reshape sizeofTy s.memory m nRow nCol o).map fun r => put s x r.2 r.1
  | .setValue x ulRowIndex ulColIndex value =>
    match s.objects x with
    | none => none
    | some m =>
      if value.length = sizeofTy then
        (m.setValue sizeofTy s.memory ulRowIndex ulColIndex value).map fun r => ⟨s.objects, r.2⟩
      else none
  | .assign x ulRowIndex ulColIndex value =>
    match s.objects x with
    | none => none
    | some m =>
      if value.length = sizeofTy ∧ m.InRange ulRowIndex ulColIndex then
        (m.store sizeofTy s.memory ulRowIndex ulColIndex value).map fun memory =>
          ⟨s.objects, memory⟩
      else none
  | .zero x =>
    match s.objects x with
    | none => none
    | some m =>
      (overwrite s.memory m.m_ptrBegin (List.replicate (m.copySize sizeofTy) 0)).map fun memory =>
        ⟨s.objects, memory⟩
  | .destroy x o =>
    match s.objects x with
    | none => none
    | some m => (s.memory.release m.m_ptrData o).map fun memory =>
        ⟨Function.update s.objects x none, memory⟩
  | .onTimer framTime timeNow =>
    (s.memory.act (.onTimer framTime timeNow)).map fun memory => ⟨s.objects, memory⟩

/-- No matrix, and the allocator as it is constructed. -/
def init (ulExpiredTime ulMaxCache : ℕ) : State :=
  ⟨fun _ => none, ⟨fun _ => none, ChunkAlloc.init ulExpiredTime ulMaxCache, []⟩⟩

end MmrService.Matrices
