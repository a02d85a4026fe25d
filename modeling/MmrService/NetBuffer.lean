import MmrService.Lib.Bytes
import MmrService.Lib.Fifo
import MmrService.Lib.Transition
import MmrService.Lib.Word

/-!
`mmrNet::Buffer`: bytes between a read index and a write index, in a vector that is compacted
or made larger when there is no room behind the write index.

A call whose assertion fails, and one that reads or writes outside the vector, has no result.
The indices are `uint32_t`. `readPosition` and `writePosition` form `&m_buffer[m_buffer.size()]`
where an index is at the end; no byte is accessed there.
-/

namespace MmrService.NetBuffer

def NET_BUFFER_SIZE : ℕ := 64 * 1024

structure Buffer where
  m_buffer : List UInt8
  m_readIndex : ℕ
  m_writeIndex : ℕ

/-- `'\n'` -/
def newline : UInt8 := 10

namespace Buffer

def new : Buffer := ⟨List.replicate NET_BUFFER_SIZE 0, 0, 0⟩

def tailIdleSize (b : Buffer) : ℕ := Word.sub 32 b.m_buffer.length b.m_writeIndex

def handIdleSize (b : Buffer) : ℕ := b.m_readIndex

def readAbleSize (b : Buffer) : ℕ := Word.sub 32 b.m_writeIndex b.m_readIndex

def moveReadOffset (b : Buffer) (len : ℕ) : Option Buffer :=
  if len ≤ b.readAbleSize then some { b with m_readIndex := Word.add 32 b.m_readIndex len }
  else none

def moveWriteOffset (b : Buffer) (len : ℕ) : Option Buffer :=
  if len ≤ b.tailIdleSize then some { b with m_writeIndex := Word.add 32 b.m_writeIndex len }
  else none

/-- `std::copy` out of the vector. -/
def load (b : Buffer) (i n : ℕ) : Option (List UInt8) :=
  if i + n ≤ b.m_buffer.length then some (Bytes.slice b.m_buffer i n) else none

/-- `std::copy` into the vector. -/
def store (b : Buffer) (i : ℕ) (data : List UInt8) : Option Buffer :=
  if i + data.length ≤ b.m_buffer.length then
    some { b with m_buffer := Bytes.patch b.m_buffer i data }
  else none

/-- `m_buffer.resize(n)` -/
def resize (b : Buffer) (n : ℕ) : Buffer :=
  { b with m_buffer := b.m_buffer.take n ++ List.replicate (n - b.m_buffer.length) 0 }

def ensureWriteSpace (b : Buffer) (len : ℕ) : Option Buffer :=
  if len ≤ b.tailIdleSize then some b
  else if len ≤ Word.add 32 b.tailIdleSize b.handIdleSize then do
    let rsz := b.readAbleSize
    let data ← b.load b.m_readIndex rsz
    let b ← b.store 0 data
    return { b with m_readIndex := 0, m_writeIndex := rsz }
  else some (b.resize (Word.add 32 b.m_writeIndex len))

/-- `len` bytes from `data` on. -/
def Write (b : Buffer) (data : List UInt8) (len : ℕ) : Option Buffer := do
  let b ← b.ensureWriteSpace len
  b.store b.m_writeIndex (data.take len)

def WriteAndPush (b : Buffer) (data : List UInt8) (len : ℕ) : Option Buffer := do
  let b ← b.Write data len
  b.moveWriteOffset len

/-- `data.size()` is converted to `uint32_t` in both calls. -/
def WriteStringAndPush (b : Buffer) (data : List UInt8) : Option Buffer :=
  b.WriteAndPush data (data.length % 2 ^ 32)

/-- `data` is another buffer. -/
def writeBufferAndPush (b data : Buffer) : Option Buffer := do
  let bytes ← data.load data.m_readIndex data.readAbleSize
  b.WriteAndPush bytes data.readAbleSize

def Read (b : Buffer) (len : ℕ) : Option (List UInt8) :=
  if len ≤ b.readAbleSize then b.load b.m_readIndex len else none

def readAndPop (b : Buffer) (len : ℕ) : Option (List UInt8 × Buffer) := do
  let buf ← b.Read len
  let b ← b.moveReadOffset len
  return (buf, b)

/-- It is asserted that `len` bytes can be read, as it is in `Read`. -/
def readAsString (b : Buffer) (len : ℕ) : Option (List UInt8) :=
  if len ≤ b.readAbleSize then b.Read len else none

def ReadAsStringAndPop (b : Buffer) (len : ℕ) : Option (List UInt8 × Buffer) :=
  if len ≤ b.readAbleSize then do
    let str ← b.readAsString len
    let b ← b.moveReadOffset len
    return (str, b)
  else none

/-- The offset behind the read index that `memchr` finds a newline at. -/
def FindCRLF (b : Buffer) : Option (Option ℕ) :=
  (b.load b.m_readIndex b.readAbleSize).map fun bytes => bytes.idxOf? newline

def getLine (b : Buffer) : Option (List UInt8) := do
  match ← b.FindCRLF with
  | none => return []
  | some pos => b.readAsString (Word.add 32 pos 1)

def getLineAndPop (b : Buffer) : Option (List UInt8 × Buffer) := do
  let str ← b.getLine
  let b ← b.moveReadOffset str.length
  return (str, b)

def Clear (b : Buffer) : Buffer := { b with m_readIndex := 0, m_writeIndex := 0 }

end Buffer

/-! ### Runs -/

/-- A call, on the buffer of a number. A length is a `uint32_t`. -/
inductive Call where
  | WriteAndPush (i : ℕ) (data : List UInt8) (len_lt : data.length < 2 ^ 32)
  | WriteStringAndPush (i : ℕ) (data : List UInt8)
  | writeBufferAndPush (i j : ℕ) (other : i ≠ j)
  | readAndPop (i : ℕ) (len : ℕ)
  | ReadAsStringAndPop (i : ℕ) (len : ℕ)
  | getLineAndPop (i : ℕ)
  | Clear (i : ℕ)

/-- The buffers, and for each of them what the calls since the last `Clear` were given and what
they returned. -/
structure State where
  buffers : ℕ → Buffer
  logs : ℕ → Fifo.Log UInt8

def start : State := ⟨fun _ => .new, fun _ => .empty⟩

namespace State

variable (s : State)

/-- The buffer `i` is written to. -/
def wrote (i : ℕ) (data : List UInt8) (b : Buffer) : State where
  buffers := Function.update s.buffers i b
  logs := Function.update s.logs i ((s.logs i).push data)

/-- The buffer `i` is read from. -/
def read (i : ℕ) (r : List UInt8 × Buffer) : State where
  buffers := Function.update s.buffers i r.2
  logs := Function.update s.logs i ((s.logs i).pop r.1)

/-- What is written from another buffer is what was written to that one and not read yet. -/
def step (s : State) : Call → Option State
  | .WriteAndPush i data _ =>
    ((s.buffers i).WriteAndPush data data.length).map (s.wrote i data)
  | .WriteStringAndPush i data => ((s.buffers i).WriteStringAndPush data).map (s.wrote i data)
  | .writeBufferAndPush i j _ =>
    ((s.buffers i).writeBufferAndPush (s.buffers j)).map (s.wrote i (s.logs j).pending)
  | .readAndPop i len => ((s.buffers i).readAndPop len).map (s.read i)
  | .ReadAsStringAndPop i len => ((s.buffers i).ReadAsStringAndPop len).map (s.read i)
  | .getLineAndPop i => (s.buffers i).getLineAndPop.map (s.read i)
  | .Clear i => some {
      buffers := Function.update s.buffers i (s.buffers i).Clear
      logs := Function.update s.logs i .empty }

end State

end MmrService.NetBuffer
