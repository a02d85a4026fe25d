import MmrService.Lib.Bytes
import MmrService.Lib.Word

/-!
`CBigBuff` of the logger: a block of `m_ulLen + 1` bytes with a write position and an
uncommitted increase behind it.

The counters are `uint32_t`, so their sums and differences wrap. A store outside the block
is undefined.
-/

namespace MmrService.Logger

/-- What the formatting of a message comes to: its whole text, or a failure that leaves
some bytes behind. -/
inductive Formatted where
  | text (bs : List UInt8)
  | failed (junk : List UInt8)

/-- The block always has one byte more than `m_ulLen`. -/
structure CBigBuff where
  m_buf : List UInt8
  m_ulLen : ℕ
  m_ulPos : ℕ
  m_usTryIncrease : ℕ
  alloc : m_buf.length = m_ulLen + 1

namespace CBigBuff

/-- The constructor; `new char[ulLen]` leaves the bytes as they are. -/
def make (ulLen : ℕ) (hlen : 0 < ulLen) (junk : ℕ → UInt8) : CBigBuff where
  m_buf := (List.range ulLen).map junk
  m_ulLen := ulLen - 1
  m_ulPos := 0
  m_usTryIncrease := 0
  alloc := by simp only [List.length_map, List.length_range]; omega

/-- Store bytes at an offset of the block. -/
def store (b : CBigBuff) (i : ℕ) (bs : List UInt8) : Option CBigBuff :=
  if h : i + bs.length ≤ b.m_ulLen + 1 then
    some { b with
      m_buf := Bytes.patch b.m_buf i bs
      alloc := by rw [Bytes.length_patch (by rw [b.alloc]; exact h), b.alloc] }
  else none

def doneTry (b : CBigBuff) : Option CBigBuff :=
  let pos := Word.add 32 b.m_ulPos b.m_usTryIncrease
  (b.store pos [10]).map fun b =>
    { b with m_ulPos := Word.add 32 pos 1, m_usTryIncrease := 0 }

def zeroEnd (b : CBigBuff) : Option CBigBuff := b.store b.m_ulPos [0]

def getTryAvailid (b : CBigBuff) : ℕ :=
  Word.sub 32 (Word.sub 32 b.m_ulLen b.m_ulPos) b.m_usTryIncrease

/-- The offset in the block that `getTryCurrent` points to. -/
def getTryCurrent (b : CBigBuff) : ℕ := b.m_ulPos + b.m_usTryIncrease

/-- `weakLen` is a `uint16_t`. -/
def addTryIncrease (b : CBigBuff) (weakLen : ℤ) : CBigBuff :=
  { b with m_usTryIncrease := Word.add 32 b.m_usTryIncrease (Word.ofInt 16 weakLen) }

def clear (b : CBigBuff) : CBigBuff := { b with m_ulPos := 0, m_usTryIncrease := 0 }

def getSize (b : CBigBuff) : ℕ := b.m_ulPos

/-- The first `getSize()` bytes, as `write(getBuf(), getSize())` takes them. -/
def content (b : CBigBuff) : Option (List UInt8) :=
  if b.getSize ≤ b.m_ulLen + 1 then some (b.m_buf.take b.getSize) else none

/-- The bytes up to the first zero, as `<< getBuf()` takes them. -/
def cString (b : CBigBuff) : Option (List UInt8) :=
  if 0 ∈ b.m_buf then some (b.m_buf.takeWhile (· ≠ 0)) else none

/-- `snprintf(getTryCurrent(), n, ..)` of a text: at most `n - 1` bytes and a zero. -/
def snprintf (b : CBigBuff) (n : ℕ) (bs : List UInt8) : Option CBigBuff :=
  if n = 0 then some b else b.store b.getTryCurrent (bs.take (n - 1) ++ [0])

/-- `vsnprintf(getTryCurrent(), n, ..)`: the length the whole text has, or a negative value
when the formatting fails or that length is no `int`. -/
def vsnprintf (b : CBigBuff) (n : ℕ) : Formatted → Option (ℤ × CBigBuff)
  | .text bs => (b.snprintf n bs).map fun b =>
      (if bs.length < 2 ^ 31 then (bs.length : ℤ) else -1, b)
  | .failed junk => (b.store b.getTryCurrent (junk.take n)).map fun b => (-1, b)

/-- `m_ulPos + m_usTryIncrease <= m_ulLen`. -/
def Fits (b : CBigBuff) : Prop := b.m_ulPos + b.m_usTryIncrease ≤ b.m_ulLen

end CBigBuff

end MmrService.Logger
