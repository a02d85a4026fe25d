import MmrService.Lib.Bytes
import MmrService.Lib.Framing
import MmrService.Lib.Transition
import MmrService.Lib.Word

/-!
Packages out of a stream: `unpack.c`, and how the bytes that are read come to it.

The kernel answers a read with some bytes, at most as many as were asked for, or with none at the
end of the stream. `packages` is what `read_cb` was called with; it does not call back into the
connection, and nothing waits to be written. A loop that does not end, an assertion that fails and
an answer of more bytes than were asked for have no result.
-/

namespace MmrService.Unpack

open Framing

def HLOOP_READ_BUFSIZE : ℕ := 8192
def READ_BUFSIZE_HIGH_WATER : ℕ := 65536
def MAX_READ_BUFSIZE : ℕ := 2 ^ 24
def DEFAULT_PACKAGE_MAX_LENGTH : ℕ := 2 ^ 21
def ERR_OVER_LIMIT : ℕ := 1022

inductive unpack_mode_e where
  | UNPACK_MODE_NONE | UNPACK_BY_FIXED_LENGTH | UNPACK_BY_DELIMITER | UNPACK_BY_LENGTH_FIELD
  deriving DecidableEq

inductive unpack_coding_e where
  | ENCODE_BY_VARINT | ENCODE_BY_LITTEL_ENDIAN | ENCODE_BY_BIG_ENDIAN
  deriving DecidableEq

structure unpack_setting_t where
  mode : unpack_mode_e
  package_max_length : ℕ
  fixed_length : ℕ
  delimiter : List UInt8
  delimiter_bytes : ℕ
  body_offset : ℕ
  length_field_offset : ℕ
  length_field_bytes : ℕ
  length_adjustment : ℤ
  length_field_coding : unpack_coding_e

/-- The setting that C++ code starts with: a byte of flags, four bytes of length, and the body. -/
def unpack_setting_s : unpack_setting_t where
  mode := .UNPACK_BY_LENGTH_FIELD
  package_max_length := DEFAULT_PACKAGE_MAX_LENGTH
  fixed_length := 0
  delimiter := List.replicate 8 0
  delimiter_bytes := 0
  body_offset := 5
  length_field_offset := 1
  length_field_bytes := 4
  length_adjustment := 0
  length_field_coding := .ENCODE_BY_BIG_ENDIAN

structure fifo_buf_t where
  base : List UInt8
  head : ℕ
  tail : ℕ

def fifo_buf_t.len (b : fifo_buf_t) : ℕ := b.base.length

structure hio_t where
  readbuf : fifo_buf_t
  alloced_readbuf : Bool
  loop_readbuf : List UInt8
  small_readbytes_cnt : ℕ
  max_read_bufsize : ℕ
  unpack_setting : Option unpack_setting_t
  error : ℕ
  closed : Bool
  close_posted : Bool
  packages : List (List UInt8)

inductive Stop where
  | endless | assertion | kernel

/-! ### The buffer of a connection -/

variable (io : hio_t)

/-- What `hio_ready` leaves of these fields. -/
def hio_ready (loop_readbuf : List UInt8) : hio_t where
  readbuf := ⟨loop_readbuf, 0, 0⟩
  alloced_readbuf := false
  loop_readbuf := loop_readbuf
  small_readbytes_cnt := 0
  max_read_bufsize := MAX_READ_BUFSIZE
  unpack_setting := none
  error := 0
  closed := false
  close_posted := false
  packages := []

def hio_close_async : hio_t := { io with close_posted := true }

/-- `len` is an `int` and is compared as an unsigned one. -/
def hio_alloc_readbuf (len : ℕ) : hio_t :=
  if io.max_read_bufsize < len % 2 ^ 32 then hio_close_async { io with error := ERR_OVER_LIMIT }
  else
    { io with
      readbuf := { io.readbuf with
        base := (if io.alloced_readbuf then io.readbuf.base.take (len % 2 ^ 32) else []) ++
          List.replicate (len % 2 ^ 32 - if io.alloced_readbuf then io.readbuf.len else 0) 0 }
      alloced_readbuf := true
      small_readbytes_cnt := 0 }

def hio_free_readbuf : hio_t :=
  if io.alloced_readbuf then
    { io with
      readbuf := { io.readbuf with base := io.loop_readbuf }
      alloced_readbuf := false }
  else io

def hio_memmove_readbuf : hio_t :=
  if io.readbuf.tail = io.readbuf.head then
    { io with readbuf := { io.readbuf with head := 0, tail := 0 } }
  else if io.readbuf.head < io.readbuf.tail then
    { io with readbuf :=
      { base := Bytes.patch io.readbuf.base 0
          (Bytes.slice io.readbuf.base io.readbuf.head (io.readbuf.tail - io.readbuf.head))
        head := 0
        tail := io.readbuf.tail - io.readbuf.head } }
  else io

/-- The connection is closed at once: there is no write queue to wait for. -/
def hio_close : hio_t := if io.closed then io else hio_free_readbuf { io with closed := true }

def over_limit : hio_t := hio_close { io with error := ERR_OVER_LIMIT }

/-- `read_cb` gets the `len` bytes at `buf`. -/
def hio_read_cb (buf len : ℕ) : hio_t :=
  { io with
    packages := io.packages ++ [Bytes.slice io.readbuf.base buf len]
    small_readbytes_cnt :=
      if io.alloced_readbuf ∧ READ_BUFSIZE_HIGH_WATER < io.readbuf.len then
        if len < io.readbuf.len / 2 then io.small_readbytes_cnt + 1 else 0
      else io.small_readbytes_cnt }

/-- The `remain` bytes at `p` are what is left, and move to the beginning of the buffer. -/
def keep (p remain : ℕ) : hio_t :=
  { io with readbuf :=
    { base :=
        if remain ≠ 0 ∧ p ≠ 0 then
          Bytes.patch io.readbuf.base 0 (Bytes.slice io.readbuf.base p remain)
        else io.readbuf.base
      head := 0
      tail := remain } }

/-! ### The loops -/

/-- Where a loop ended: the bytes that are left are the `remain` bytes at `p`. -/
structure Walk where
  io : hio_t
  p : ℕ
  remain : ℕ

def fixedLoop (fixed_length : ℕ) : ℕ → hio_t → ℕ → ℕ → Except Stop Walk
  | 0, _, _, _ => .error .endless
  | fuel + 1, io, p, remain =>
    if fixed_length ≤ remain then
      fixedLoop fixed_length fuel (hio_read_cb io p fixed_length) (p + fixed_length)
        (remain - fixed_length)
    else .ok ⟨io, p, remain⟩

def hio_unpack_by_fixed_length (setting : unpack_setting_t) (buf readbytes : ℕ) :
    Except Stop hio_t :=
  if io.readbuf.len < setting.fixed_length then .error .assertion
  else
    let sp := io.readbuf.head
    let ep := buf + readbytes
    (fixedLoop setting.fixed_length (ep - sp + 1) io sp (ep - sp)).map
      fun w => keep w.io w.p w.remain

/-- The package that is looked for begins at `sp`, and the delimiter may stand at `p`. -/
def delimiterLoop (delimiter : List UInt8) : ℕ → hio_t → ℕ → ℕ → ℕ → Except Stop Walk
  | 0, _, _, _, _ => .error .endless
  | fuel + 1, io, sp, p, remain =>
    if delimiter.length ≤ remain then
      if Bytes.slice io.readbuf.base p delimiter.length = delimiter then
        delimiterLoop delimiter fuel (hio_read_cb io sp (p + delimiter.length - sp))
          (p + delimiter.length) (p + delimiter.length) (remain - delimiter.length)
      else delimiterLoop delimiter fuel io sp (p + 1) (remain - 1)
    else .ok ⟨io, sp, p + remain - sp⟩

/-- The buffer that is full is made larger. -/
def makeRoom (setting : unpack_setting_t) : hio_t :=
  if io.readbuf.tail ≠ 0 ∧ io.readbuf.tail = io.readbuf.len then
    if setting.package_max_length ≤ io.readbuf.len then over_limit io
    else hio_alloc_readbuf io (min (io.readbuf.len * 2) setting.package_max_length)
  else io

/-- What was searched before is not searched again, but for a delimiter that began there. -/
def hio_unpack_by_delimiter (setting : unpack_setting_t) (buf readbytes : ℕ) :
    Except Stop hio_t :=
  let sp := io.readbuf.head
  let ep := buf + readbytes
  let p := max sp (buf + 1 - setting.delimiter_bytes)
  (delimiterLoop (setting.delimiter.take setting.delimiter_bytes) (ep - p + 1) io sp p
    (ep - p)).map fun w => makeRoom (keep w.io w.p w.remain) setting

/-! ### The length field -/

/-- `varint_decode`: `ret` and what becomes of `len`. -/
def varintLoop : ℕ → ℕ → ℕ → List UInt8 → ℕ × ℤ
  | 0, _, ret, _ => (ret, -1)
  | _ + 1, _, _, [] => (0, 0)
  | turns + 1, bytes, ret, b :: p =>
    let ret := (ret ||| (b &&& 0x7F).toNat <<< (7 * bytes)) % 2 ^ 64
    if b &&& 0x80 = 0 then (ret, bytes + 1) else varintLoop turns (bytes + 1) ret p

def varint_decode (buf : List UInt8) : ℕ × ℤ := varintLoop 10 0 0 buf

def bodyLenBE (lp : List UInt8) : ℕ :=
  lp.foldl (fun body_len b => (body_len <<< 8 ||| b.toNat) % 2 ^ 32) 0

def bodyLenLE (lp : List UInt8) : ℕ :=
  lp.zipIdx.foldl (fun body_len b => body_len ||| (b.1.toNat <<< (b.2 * 8)) % 2 ^ 32) 0

/-- What the bytes from the length field on say. -/
inductive Field where
  | short | tooBig
  | value (package_len : ℕ)

variable (setting : unpack_setting_t)

def package_len (head_len body_len : ℕ) : ℕ :=
  Word.ofInt 32 (head_len + body_len + setting.length_adjustment)

def field (lp : List UInt8) : Field :=
  match setting.length_field_coding with
  | .ENCODE_BY_BIG_ENDIAN =>
    .value (package_len setting setting.body_offset
      (bodyLenBE (lp.take setting.length_field_bytes)))
  | .ENCODE_BY_LITTEL_ENDIAN =>
    .value (package_len setting setting.body_offset
      (bodyLenLE (lp.take setting.length_field_bytes)))
  | .ENCODE_BY_VARINT =>
    let varint_bytes := (varint_decode lp).2
    if varint_bytes = 0 then .short
    else if varint_bytes = -1 then .tooBig
    else
      let head_len :=
        Word.ofInt 32 (setting.body_offset + varint_bytes - setting.length_field_bytes)
      .value (package_len setting head_len ((varint_decode lp).1 % 2 ^ 32))

/-- With the `package_len` that was found last, unless the length field is too big. -/
structure LengthWalk extends Walk where
  package_len : Option ℕ

def lengthLoop : ℕ → hio_t → ℕ → ℕ → ℕ → Except Stop LengthWalk
  | 0, _, _, _, _ => .error .endless
  | fuel + 1, io, p, remain, package_len =>
    if setting.body_offset ≤ remain then
      match field setting (Bytes.slice io.readbuf.base (p + setting.length_field_offset)
          (remain - setting.length_field_offset)) with
      | .short => .ok ⟨⟨io, p, remain⟩, some package_len⟩
      | .tooBig => .ok ⟨⟨io, p, remain⟩, none⟩
      | .value package_len =>
        if package_len ≤ remain then
          lengthLoop fuel (hio_read_cb io p package_len) (p + package_len) (remain - package_len)
            package_len
        else .ok ⟨⟨io, p, remain⟩, some package_len⟩
    else .ok ⟨⟨io, p, remain⟩, some package_len⟩

def LIMIT (lower v upper : ℕ) : ℕ := if v < lower then lower else if upper < v then upper else v

/-- The buffer that the package does not fit into is made larger. -/
def makeRoomFor (package_len : ℕ) : hio_t :=
  if io.readbuf.tail ≠ 0 ∧ io.readbuf.len < package_len then
    if setting.package_max_length < package_len then over_limit io
    else hio_alloc_readbuf io (LIMIT package_len (io.readbuf.len * 2) setting.package_max_length)
  else io

def hio_unpack_by_length_field (buf readbytes : ℕ) : Except Stop hio_t :=
  let sp := io.readbuf.head
  let ep := buf + readbytes
  (lengthLoop setting (ep - sp + 1) io sp (ep - sp) setting.body_offset).map fun w =>
    match w.package_len with
    | none => over_limit w.io
    | some package_len => makeRoomFor (keep w.io w.p w.remain) setting package_len

/-! ### Reading -/

def hio_unpack (buf readbytes : ℕ) : Except Stop hio_t :=
  match setting.mode with
  | .UNPACK_BY_FIXED_LENGTH => hio_unpack_by_fixed_length io setting buf readbytes
  | .UNPACK_BY_DELIMITER => hio_unpack_by_delimiter io setting buf readbytes
  | .UNPACK_BY_LENGTH_FIELD => hio_unpack_by_length_field io setting buf readbytes
  | .UNPACK_MODE_NONE => .ok (hio_read_cb io buf readbytes)

/-- The end of `hio_handle_read`. -/
def autosize : hio_t :=
  let io :=
    if io.readbuf.head = io.readbuf.tail then
      { io with readbuf := { io.readbuf with head := 0, tail := 0 } }
    else io
  if io.readbuf.tail = io.readbuf.len then
    if io.readbuf.head = 0 then hio_alloc_readbuf io (io.readbuf.len * 2)
    else hio_memmove_readbuf io
  else if io.readbuf.tail < io.readbuf.len / 2 ∧ 3 ≤ io.small_readbytes_cnt then
    hio_alloc_readbuf io (io.readbuf.len / 2)
  else io

def hio_handle_read (buf readbytes : ℕ) : Except Stop hio_t :=
  match io.unpack_setting with
  | some setting => (hio_unpack io setting buf readbytes).map autosize
  | none =>
    let sp := io.readbuf.head
    let ep := buf + readbytes
    let io := { io with readbuf := { io.readbuf with head := 0, tail := 0 } }
    .ok (autosize (hio_read_cb io sp (ep - sp)))

/-- The kernel has `bytes` for the connection, and none at the end of the stream. A connection that
is closed is not read. -/
def nio_read (bytes : List UInt8) : Except Stop hio_t :=
  if io.closed then .ok io
  else
    let buf := io.readbuf.tail
    let len := io.readbuf.len - io.readbuf.tail
    if len = 0 then .error .assertion
    else if len < bytes.length then .error .kernel
    else if bytes = [] then .ok (hio_close io)
    else
      -- the byte behind them is cleared, if it is in the buffer
      let stored := if bytes.length < len then bytes ++ [0] else bytes
      hio_handle_read { io with readbuf :=
        { io.readbuf with
          base := Bytes.patch io.readbuf.base buf stored
          tail := io.readbuf.tail + bytes.length } } buf bytes.length

def hio_unset_unpack : hio_t :=
  if io.unpack_setting.isSome then hio_free_readbuf { io with unpack_setting := none } else io

/-- The setting with what `hio_set_unpack` stores in it. -/
def completed : unpack_setting_t :=
  let setting :=
    if setting.package_max_length = 0 then
      { setting with package_max_length := DEFAULT_PACKAGE_MAX_LENGTH }
    else setting
  if setting.mode = .UNPACK_BY_DELIMITER ∧ setting.delimiter_bytes = 0 then
    { setting with delimiter_bytes := (setting.delimiter.takeWhile (· ≠ 0)).length }
  else setting

def hio_set_unpack : Except Stop hio_t :=
  let io := hio_unset_unpack io
  let setting := completed setting
  if setting.mode = .UNPACK_BY_FIXED_LENGTH ∧
      ¬ (setting.fixed_length ≠ 0 ∧ setting.fixed_length ≤ setting.package_max_length) then
    .error .assertion
  else if setting.mode = .UNPACK_BY_LENGTH_FIELD ∧
      ¬ setting.length_field_offset + setting.length_field_bytes ≤ setting.body_offset then
    .error .assertion
  else
    .ok (hio_alloc_readbuf
      { io with
        unpack_setting := some setting
        max_read_bufsize := setting.package_max_length }
      (if setting.mode = .UNPACK_BY_FIXED_LENGTH then setting.fixed_length
        else min HLOOP_READ_BUFSIZE setting.package_max_length))

def run (pieces : List (List UInt8)) : Except Stop hio_t := pieces.foldlM nio_read io

/-- The kernel can give these bytes before the end of the stream: some, and not more than the
buffer has room for. -/
def fits (bytes : List UInt8) : Bool :=
  io.closed || (bytes ≠ [] && bytes.length ≤ io.readbuf.len - io.readbuf.tail)

/-- The pieces that the kernel can give the bytes of a stream in. -/
def Fits (pieces : List (List UInt8)) : Prop :=
  Transition.check (fun io bytes => (nio_read io bytes).toOption) fits io pieces = true

end MmrService.Unpack
