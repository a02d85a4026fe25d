import MmrService.BufConvert
import MmrService.Lib.Word

/-!
The frame codec: `codingToBuf` and `decodingFromBuf`.

Both walk a buffer with a pointer, flip integer fields in place and copy them. The buffer and
the ranges touched so far go from step to step; an access outside the buffer is undefined.
-/

namespace MmrService.ProtoCodec

open BufConvert

/-- What the code uses of protobuf and of the generated message types. `ParseFromArray` returns
the message it parsed into and whether it succeeded; given a negative size it returns false or
is undefined. -/
structure Protobuf where
  Descriptor : Type
  Message : Type
  FindMessageTypeByName : List UInt8 → Option Descriptor
  GetPrototype : Descriptor → Option Message
  New : Message → Message
  GetDescriptor : Message → Descriptor
  GetTypeName : Message → List UInt8
  ByteSizeLong : Message → ℕ
  SerializeToArray : Message → ℤ → Option (List UInt8)
  ParseFromArray : Message → List UInt8 → Message × Bool
  rejectsNegative : Bool

inductive EM_ErrCode where
  | ERR_UNDEFINE | ERR_NONE | ERR_NULL_PTR | ERR_INVALID_LENGTH | ERR_CHECK_SUM
  | ERR_INVALIDE_NAME_LEN | ERR_UNKNOWN_MSG_TYPE | ERR_PARSE
  deriving DecidableEq, Repr

def PROTO_MSG_MIN_LEN : ℕ := 16

structure ProtoRpcMessage (π : Protobuf) where
  ulSequeNum : ℕ
  usNameLen : ℕ
  strName : List UInt8
  lMsgLen : ℤ
  protoMsgPtr : Option π.Message
  lCheckSum : ℤ

/-- The default constructor. -/
def ProtoRpcMessage.fresh (π : Protobuf) : ProtoRpcMessage π := ⟨0, 0, [], 0, none, 0⟩

/-! ### Byte order -/

inductive emEndian where
  | UNKNOW | BIG | LITTLE
  deriving DecidableEq, Repr

/-- The first byte in memory of a `long` that is one. -/
def initEndian (m : Machine) : emEndian :=
  if (m.store (m.ulongBits / 8) 1).head? = some 1 then .LITTLE else .BIG

def protoFlipBuf (m : Machine) (buf : List UInt8) : List UInt8 :=
  if initEndian m ≠ .BIG ∧ 2 < buf.length then flipData buf else buf

/-! ### Walking a buffer -/

/-- A buffer, and the offsets and lengths of the ranges touched so far. -/
structure Cursor where
  buf : List UInt8
  touched : List (ℕ × ℕ)

namespace Cursor

/-- Copy `n` bytes out of the buffer. -/
def read (c : Cursor) (i n : ℕ) : Option (List UInt8 × Cursor) :=
  if i + n ≤ c.buf.length then
    some (Bytes.slice c.buf i n, { c with touched := c.touched ++ [(i, n)] })
  else none

/-- Copy bytes into the buffer. -/
def write (c : Cursor) (i : ℕ) (bs : List UInt8) : Option Cursor :=
  if i + bs.length ≤ c.buf.length then
    some { buf := Bytes.patch c.buf i bs, touched := c.touched ++ [(i, bs.length)] }
  else none

/-- `protoFlipBuf` of `n` bytes of the buffer, in place. -/
def flip (m : Machine) (c : Cursor) (i n : ℕ) : Option Cursor := do
  let (bs, c) ← c.read i n
  c.write i (protoFlipBuf m bs)

/-- An integer field read: flipped in place, then copied. -/
def getField (m : Machine) (c : Cursor) (i n : ℕ) : Option (ℕ × Cursor) := do
  let c ← c.flip m i n
  let (bs, c) ← c.read i n
  pure (m.load bs, c)

/-- An integer field written: copied, then flipped in place. -/
def putField (m : Machine) (c : Cursor) (i n : ℕ) (x : ℕ) : Option Cursor := do
  let c ← c.write i (m.store n x)
  c.flip m i n

end Cursor

/-! ### Decoding -/

variable {π : Protobuf}

def createMessage (π : Protobuf) (typeName : List UInt8) : Option π.Message := do
  let descriptor ← π.FindMessageTypeByName typeName
  let prototype ← π.GetPrototype descriptor
  pure (π.New prototype)

/-- The message length at offset `i`, and the message behind it. -/
def decodeMessage (m : Machine) (protoMsg : ProtoRpcMessage π) (message : π.Message) (i : ℕ)
    (c : Cursor) : Option (EM_ErrCode × ProtoRpcMessage π × Cursor) := do
  let (len, c) ← c.getField m i 4
  let lMsgLen := Word.toInt 32 len
  if lMsgLen < 0 then
    if π.rejectsNegative then pure (.ERR_PARSE, { protoMsg with lMsgLen := lMsgLen }, c) else none
  else
    let (bs, c) ← c.read (i + 4) lMsgLen.toNat
    let parsed := π.ParseFromArray message bs
    pure (if parsed.2 then .ERR_NONE else .ERR_PARSE,
      { protoMsg with lMsgLen := lMsgLen, protoMsgPtr := some parsed.1 }, c)

/-- The name, appended to `strName`, and the message it creates. An `append` of the range from
`pData` to one before it is undefined. -/
def decodeName (m : Machine) (protoMsg : ProtoRpcMessage π) (c : Cursor) :
    Option (EM_ErrCode × ProtoRpcMessage π × Cursor) :=
  if protoMsg.usNameLen = 0 then none
  else do
    let (name, c) ← c.read 6 (protoMsg.usNameLen - 1)
    let strName := protoMsg.strName ++ name
    let protoMsg := { protoMsg with strName := strName, protoMsgPtr := createMessage π strName }
    match createMessage π strName with
    | none => pure (.ERR_UNKNOWN_MSG_TYPE, protoMsg, c)
    | some message => decodeMessage m protoMsg message (6 + protoMsg.usNameLen) c

/-- The fields behind the checksum test. -/
def decodeFields (m : Machine) (protoMsg : ProtoRpcMessage π) (c : Cursor) :
    Option (EM_ErrCode × ProtoRpcMessage π × Cursor) := do
  let (ulSequeNum, c) ← c.getField m 0 4
  let (usNameLen, c) ← c.getField m 4 2
  decodeName m { protoMsg with ulSequeNum := ulSequeNum, usNameLen := usNameLen } c

/-- The length test and the checksum; the length is passed to `adler32` as a `uint32_t`. -/
def decodeBuf (m : Machine) (protoMsg : ProtoRpcMessage π) (buf : List UInt8) :
    Option (EM_ErrCode × ProtoRpcMessage π × Cursor) :=
  if buf.length < PROTO_MSG_MIN_LEN then pure (.ERR_INVALID_LENGTH, protoMsg, ⟨buf, []⟩)
  else do
    let c : Cursor := ⟨buf, []⟩
    let (body, c) ← c.read 0 ((buf.length - 4) % 2 ^ 32)
    let lcheckSum := adler32 m body
    let (sum, c) ← c.getField m (buf.length - 4) 4
    let lBufSum := Word.toInt 32 sum
    if lcheckSum ≠ lBufSum then pure (.ERR_CHECK_SUM, protoMsg, c)
    else decodeFields m protoMsg c

/-- The result, the message filled in, and the walk over the buffer; pointers may be null. -/
def decodingFromBuf (m : Machine) (protoMsg : Option (ProtoRpcMessage π))
    (buf : Option (List UInt8)) :
    Option (EM_ErrCode × Option (ProtoRpcMessage π) × Option Cursor) :=
  match protoMsg, buf with
  | some msg, some bytes =>
    (decodeBuf m msg bytes).map fun (ret, msg, c) => (ret, some msg, some c)
  | _, _ => some (.ERR_NULL_PTR, protoMsg, buf.map fun bytes => ⟨bytes, []⟩)

/-! ### Encoding -/

/-- The frame written into a buffer of the right size. -/
def encodeFields (m : Machine) (ulSequeNum usNameLen : ℕ) (strName : List UInt8)
    (lBufSize : ℤ) (message : π.Message) (c : Cursor) : Option (EM_ErrCode × Cursor) := do
  let c ← c.putField m 0 4 ulSequeNum
  let c ← c.putField m 4 2 usNameLen
  let c ← c.write 6 ((strName ++ [0]).take usNameLen)
  let c ← c.putField m (6 + usNameLen) 4 (Word.ofInt 32 lBufSize)
  match π.SerializeToArray message lBufSize with
  | none => pure (.ERR_PARSE, c)
  | some bs =>
    let c ← c.write (6 + usNameLen + 4) bs
    let (body, c) ← c.read 0 ((c.buf.length - 4) % 2 ^ 32)
    let lcheckSum := adler32 m body
    let c ← c.putField m (6 + usNameLen + 4 + lBufSize.toNat) 4 (Word.ofInt 32 lcheckSum)
    pure (.ERR_NONE, c)

/-- A fresh buffer is resized to the frame, its bytes zero. The size is computed as an `int`;
where that overflows or is negative the result is undefined. -/
def codingToBuf (m : Machine) (protoMsg : ProtoRpcMessage π) :
    Option (EM_ErrCode × ProtoRpcMessage π × List UInt8) :=
  match protoMsg.protoMsgPtr with
  | none => some (.ERR_NULL_PTR, protoMsg, [])
  | some message =>
    let strName := π.GetTypeName message
    let usNameLen : ℕ := (strName.length + 1) % 2 ^ 16
    let protoMsg := { protoMsg with strName := strName, usNameLen := usNameLen }
    let lBufSize := Word.toInt 32 (π.ByteSizeLong message)
    let size := 14 + (usNameLen : ℤ) + lBufSize
    if size < 0 ∨ 2 ^ 31 ≤ size then none
    else
      (encodeFields m protoMsg.ulSequeNum usNameLen strName lBufSize message
        ⟨List.replicate size.toNat 0, []⟩).map fun (ret, c) => (ret, protoMsg, c.buf)

end MmrService.ProtoCodec
