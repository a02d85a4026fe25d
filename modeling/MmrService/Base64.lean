import MmrService.Lib.Sextets
import MmrService.Lib.Word

/-!
`base64Encode`, `base64Decode` and the two functions that allocate for them.

A read behind the input or a write behind the buffer has no result. The indices are
`unsigned int`, so `i - 1` and `inlen - 2` wrap around.
-/

namespace MmrService.Base64

/-- `'='` -/
def BASE64_PAD : UInt8 := 61
/-- `'+'` -/
def BASE64DE_FIRST : UInt8 := 43
/-- `'z'` -/
def BASE64DE_LAST : UInt8 := 122

/-- `A` to `Z`, `a` to `z`, `0` to `9`, `+` and `/`. -/
def base64en : List UInt8 :=
  [65, 66, 67, 68, 69, 70, 71, 72, 73, 74, 75, 76, 77, 78, 79, 80,
   81, 82, 83, 84, 85, 86, 87, 88, 89, 90, 97, 98, 99, 100, 101, 102,
   103, 104, 105, 106, 107, 108, 109, 110, 111, 112, 113, 114, 115, 116, 117, 118,
   119, 120, 121, 122, 48, 49, 50, 51, 52, 53, 54, 55, 56, 57, 43, 47]

/-- From `'+'` on in ASCII order, -1 for a character that is not used. -/
def base64de : List ℤ :=
  [62, -1, -1, -1, 63, 52, 53, 54, 55, 56, 57, 58, 59, 60, 61, -1,
   -1, -1, -1, -1, -1, -1, 0, 1, 2, 3, 4, 5, 6, 7, 8, 9,
   10, 11, 12, 13, 14, 15, 16, 17, 18, 19, 20, 21, 22, 23, 24, 25,
   -1, -1, -1, -1, -1, -1, 26, 27, 28, 29, 30, 31, 32, 33, 34, 35,
   36, 37, 38, 39, 40, 41, 42, 43, 44, 45, 46, 47, 48, 49, 50, 51]

/-- The character of a digit. -/
def charOf (n : ℕ) : UInt8 := base64en.getD n 0

/-- The digit of a character; a byte from 128 on is below `'+'` or above `'z'`, whatever the
sign of `char`. -/
def digitOf (c : UInt8) : Option ℕ :=
  if c < BASE64DE_FIRST ∨ BASE64DE_LAST < c then none
  else
    let d := base64de.getD (c.toNat - BASE64DE_FIRST.toNat) (-1)
    if d = -1 then none else some d.toNat

/-- `outBuf` and the index `j` in it. -/
structure Out where
  outBuf : List UInt8
  j : ℕ
  deriving DecidableEq

namespace Out

/-- `outBuf[i] = c` -/
def set (o : Out) (i : ℕ) (c : UInt8) : Option Out :=
  if i < o.outBuf.length then some { o with outBuf := o.outBuf.set i c } else none

/-- `outBuf[j++] = c` -/
def put (o : Out) (c : UInt8) : Option Out :=
  (o.set o.j c).map fun o => { o with j := Word.add 32 o.j 1 }

/-- `outBuf[j++] += c` -/
def addPut (o : Out) (c : UInt8) : Option Out := do
  let old ← o.outBuf[o.j]?
  o.put (old + c)

end Out

/-! ### Encoding -/

/-- One round of the loop. The masks take away what the shift of a negative `char` brings in. -/
def encodeStep (inp : List UInt8) (i : ℕ) (o : Out) : Option Out := do
  let c ← inp[i]?
  match i % 3 with
  | 0 => o.put (charOf (c.toNat >>> 2 &&& 0x3F))
  | 1 =>
    let b ← inp[i - 1]?
    o.put (charOf (((b.toNat &&& 0x3) <<< 4) + (c.toNat >>> 4 &&& 0xF)))
  | _ =>
    let b ← inp[i - 1]?
    let o ← o.put (charOf (((b.toNat &&& 0xF) <<< 2) + (c.toNat >>> 6 &&& 0x3)))
    o.put (charOf (c.toNat &&& 0x3F))

/-- `for (; i < inlen; i++)`, the first argument is `inlen - i`. -/
def encodeLoop (inp : List UInt8) : ℕ → ℕ → Out → Option Out
  | 0, _, o => some o
  | n + 1, i, o => do
    let o ← encodeStep inp i o
    encodeLoop inp n (i + 1) o

/-- The last character and the padding, after `i -= 1`. -/
def encodeTail (inp : List UInt8) (i : ℕ) (o : Out) : Option Out :=
  if i % 3 = 0 then do
    let c ← inp[i]?
    let o ← o.put (charOf ((c.toNat &&& 0x3) <<< 4))
    let o ← o.put BASE64_PAD
    o.put BASE64_PAD
  else if i % 3 = 1 then do
    let c ← inp[i]?
    let o ← o.put (charOf ((c.toNat &&& 0xF) <<< 2))
    o.put BASE64_PAD
  else some o

/-- The buffer behind the call, and what is returned. -/
def base64Encode (inp : List UInt8) (inlen : ℕ) (outBuf : List UInt8) :
    Option (List UInt8 × ℕ) := do
  let o ← encodeLoop inp inlen 0 ⟨outBuf, 0⟩
  let o ← encodeTail inp (Word.sub 32 inlen 1) o
  return (o.outBuf, o.j)

/-- `uint32_t` arithmetic. -/
def BASE64_ENCODE_OUT_SIZE (s : ℕ) : ℕ := Word.add 32 s 2 / 3 * 4 % 2 ^ 32

/-- `str.resize(n)` -/
def resize (str : List UInt8) (n : ℕ) : List UInt8 :=
  str.take n ++ List.replicate (n - str.length) 0

def inBase64Encode (data : List UInt8) : Option (List UInt8) := do
  let encoded_size := BASE64_ENCODE_OUT_SIZE data.length
  let (encoded_str, encoded_size) ←
    base64Encode data data.length (List.replicate (Word.add 32 encoded_size 1) 0)
  return resize encoded_str encoded_size

/-! ### Decoding -/

/-- `i < inlen - (k + 1) || in[inlen - k] != '='`: no padding follows the digit at `i`. -/
def goesOn (inp : List UInt8) (inlen i k : ℕ) : Option Bool :=
  if i < Word.sub 32 inlen (k + 1) then some true
  else inp[Word.sub 32 inlen k]?.map (· ≠ BASE64_PAD)

/-- What is done with a digit `c`, at `i`. -/
def decodeDigit (inp : List UInt8) (inlen i c : ℕ) (o : Out) : Option Out :=
  match i % 4 with
  | 0 => o.set o.j (UInt8.ofNat (c <<< 2 &&& 0xFF))
  | 1 => do
    let o ← o.addPut (UInt8.ofNat (c >>> 4 &&& 0x3))
    if ← goesOn inp inlen i 2 then o.set o.j (UInt8.ofNat ((c &&& 0xF) <<< 4)) else some o
  | 2 => do
    let o ← o.addPut (UInt8.ofNat (c >>> 2 &&& 0xF))
    if ← goesOn inp inlen i 1 then o.set o.j (UInt8.ofNat ((c &&& 0x3) <<< 6)) else some o
  | _ => o.addPut (UInt8.ofNat c)

/-- `for (; i < inlen; i++)`, the first argument is `inlen - i`. The buffer and the result,
which is -1 behind a character that is none of base64. -/
def decodeLoop (inp : List UInt8) (inlen : ℕ) : ℕ → ℕ → Out → Option (List UInt8 × ℕ)
  | 0, _, o => some (o.outBuf, o.j)
  | n + 1, i, o => do
    let ch ← inp[i]?
    if ch = BASE64_PAD then return (o.outBuf, o.j)
    match digitOf ch with
    | none => return (o.outBuf, 2 ^ 32 - 1)
    | some c =>
      let o ← decodeDigit inp inlen i c o
      decodeLoop inp inlen n (i + 1) o

def base64Decode (inp : List UInt8) (inlen : ℕ) (outBuf : List UInt8) :
    Option (List UInt8 × ℕ) :=
  decodeLoop inp inlen inlen 0 ⟨outBuf, 0⟩

def BASE64_DECODE_OUT_SIZE (s : ℕ) : ℕ := s / 4 * 3

/-- `strlen`, defined where there is a zero. -/
def strlen (str : List UInt8) : Option ℕ := str.idxOf? 0

/-- A call returns, or throws `std::length_error`. -/
inductive Ended
  | returned (str : List UInt8)
  | threw
  deriving DecidableEq

/-- A negative length is a size above any that a string can have. -/
def sized (n : ℤ) : Option ℕ := if n < 0 then none else some n.toNat

/-- `decoded_buf.resize(n)` and the return of it -/
def resized (decoded_buf : List UInt8) (n : ℤ) : Ended :=
  match sized n with
  | none => .threw
  | some n => .returned (resize decoded_buf n)

/-- `if (len == 0) len = strlen(str)` -/
def lenOf (str : List UInt8) (len : ℕ) : Option ℕ :=
  if len = 0 then (strlen str).map (· % 2 ^ 32) else some len

/-- `str` is the memory from the pointer on. The sizes are `int`. -/
def inBase64Decode (str : List UInt8) (len : ℕ) : Option Ended := do
  let len ← lenOf str len
  match sized (Word.toInt 32 (BASE64_DECODE_OUT_SIZE len) + 1) with
  | none => return .threw
  | some n =>
    let (decoded_buf, ret) ← base64Decode (str.take len) len (List.replicate n 0)
    return resized decoded_buf (Word.toInt 32 ret)

end MmrService.Base64
