import MmrService.BufConvert
import MmrService.Lib.Transition

/-!
`CDataStream`: values written to a buffer in the byte order of the stream and read back, also
on another machine, to which the buffer was moved.

A number is its bits; an integer, a `float` and an enumeration of one width are written alike.
A read that throws or that copies bytes behind the end of the buffer has no result.
-/

namespace MmrService.DataStream

open BufConvert Transition

inductive emEndian
  | LITTLE | BIG
  deriving DecidableEq

/-- The integer types of `operator <<`. -/
inductive Integer
  | char | uchar | int16 | uint16 | int32 | uint32 | int64 | uint64
  deriving DecidableEq

namespace Integer

def size : Integer → ℕ
  | char | uchar => 1
  | int16 | uint16 => 2
  | int32 | uint32 => 4
  | int64 | uint64 => 8

lemma size_pos (T : Integer) : 0 < T.size := by
  cases T <;> decide

end Integer

/-- The types of `operator <<`; an enumeration is given by its underlying type. -/
inductive Ty
  | integer (T : Integer)
  | float
  | double
  | enum (T : Integer)
  | string
  deriving DecidableEq

/-- A value, a number as its bits. -/
inductive Value
  | integer (T : Integer) (bits : BitVec (8 * T.size))
  | float (bits : BitVec 32)
  | double (bits : BitVec 64)
  | enum (T : Integer) (bits : BitVec (8 * T.size))
  | string (str : List UInt8)
  deriving DecidableEq

def Value.ty : Value → Ty
  | integer T _ => .integer T
  | float _ => .float
  | double _ => .double
  | enum T _ => .enum T
  | string _ => .string

/-- The length of a string is an `uint32_t`. -/
def Value.Fits : Value → Prop
  | string str => str.length < 2 ^ 32
  | _ => True

instance instDecidableFits : (v : Value) → Decidable v.Fits
  | .string str => inferInstanceAs (Decidable (str.length < 2 ^ 32))
  | .integer _ _ | .float _ | .double _ | .enum _ _ => .isTrue trivial

/-! ### The stream -/

structure CDataStream where
  _buffer : List UInt8
  _read_pos : ℕ
  _stream_endian : emEndian
  _machine_endian : emEndian

/-- The first byte of `long one(1)`. -/
def initMachineEndian (m : Machine) : emEndian :=
  if (m.store (m.ulongBits / 8) 1).head? = some 1 then .LITTLE else .BIG

namespace CDataStream

/-- The constructor that takes a buffer over; an empty one without it. -/
def new (m : Machine) (bufData : List UInt8) (stream : emEndian) : CDataStream where
  _buffer := bufData
  _read_pos := 0
  _stream_endian := stream
  _machine_endian := initMachineEndian m

variable (m : Machine) (s : CDataStream)

/-- The loop is that of `flipData`. -/
def DoFlip (buf : List UInt8) : List UInt8 :=
  if s._machine_endian = s._stream_endian ∨ buf.length < 2 then buf
  else flipLoop buf.length buf 0 (buf.length - 1)

def DoWrite (buf : List UInt8) : CDataStream := { s with _buffer := s._buffer ++ buf }

/-- `_buffer.at` throws at the end of the buffer. -/
def DoRead (bufsize : ℕ) : Option (List UInt8) :=
  if s._read_pos < s._buffer.length ∧ s._read_pos + bufsize ≤ s._buffer.length then
    some (Bytes.slice s._buffer s._read_pos bufsize)
  else none

/-- A number of `k` bytes. -/
def WriteAlgorithm (k n : ℕ) : CDataStream := s.DoWrite (s.DoFlip (m.store k n))

def ReadAlgorithm (k : ℕ) : Option (ℕ × CDataStream) :=
  (s.DoRead k).map fun ch =>
    (m.load (s.DoFlip ch), { s with _read_pos := s._read_pos + k })

/-- `operator << (const std::string& str)`. -/
def writeString (str : List UInt8) : CDataStream :=
  let strLen := str.length % 2 ^ 32
  (s.WriteAlgorithm m 4 strLen).DoWrite (str.take strLen)

/-- `operator >> (std::string& str)`. -/
def readString : Option (List UInt8 × CDataStream) := do
  let (strLen, s) ← s.ReadAlgorithm m 4
  if s._read_pos + strLen ≤ s._buffer.length then
    pure (Bytes.slice s._buffer s._read_pos strLen, { s with _read_pos := s._read_pos + strLen })
  else none

/-- `operator <<`. -/
def write : Value → CDataStream
  | .integer T bits => s.WriteAlgorithm m T.size bits.toNat
  | .float bits => s.WriteAlgorithm m 4 bits.toNat
  | .double bits => s.WriteAlgorithm m 8 bits.toNat
  | .enum T bits => s.WriteAlgorithm m T.size bits.toNat
  | .string str => s.writeString m str

/-- `operator >>`. -/
def read : Ty → Option (Value × CDataStream)
  | .integer T => (s.ReadAlgorithm m T.size).map fun r => (.integer T (BitVec.ofNat _ r.1), r.2)
  | .float => (s.ReadAlgorithm m 4).map fun r => (.float (BitVec.ofNat _ r.1), r.2)
  | .double => (s.ReadAlgorithm m 8).map fun r => (.double (BitVec.ofNat _ r.1), r.2)
  | .enum T => (s.ReadAlgorithm m T.size).map fun r => (.enum T (BitVec.ofNat _ r.1), r.2)
  | .string => (s.readString m).map fun r => (.string r.1, r.2)

/-- The buffer, and the stream that is left. -/
def moveBuffer : List UInt8 × CDataStream :=
  (s._buffer, { s with _read_pos := 0, _buffer := [] })

end CDataStream

/-! ### Scripts -/

inductive Action
  | write (v : Value)
  | read (T : Ty)
  /-- The buffer is moved to a new stream of the same byte order on another machine. -/
  | move (m : Machine)

/-- A stream on its machine, and what the reads so far returned. -/
structure State where
  machine : Machine
  dataStream : CDataStream
  returned : List Value

def init (m : Machine) (stream : emEndian) : State := ⟨m, .new m [] stream, []⟩

def step (s : State) : Action → Option State
  | .write v => some { s with dataStream := s.dataStream.write s.machine v }
  | .read T => (s.dataStream.read s.machine T).map fun r =>
    { s with dataStream := r.2, returned := s.returned ++ [r.1] }
  | .move m => some
    { s with
      machine := m
      dataStream := .new m s.dataStream.moveBuffer.1 s.dataStream._stream_endian }

/-- The values written. -/
def writes (as : List Action) : List Value :=
  as.filterMap fun
    | .write v => some v
    | _ => none

/-- The number of reads. -/
def reads (as : List Action) : ℕ :=
  as.countP fun
    | .read _ => true
    | _ => false

/-- The number of reads since the buffer was last moved. -/
def readsSince (as : List Action) : ℕ :=
  as.foldl (fun k a => match a with
    | .read _ => k + 1
    | .write _ => k
    | .move _ => 0) 0

/-- Every read, the `count`-th, follows the `count`-th write and is of its type. -/
def Matched (count : List Action → ℕ) (as : List Action) : Prop :=
  ∀ h T r, as = h ++ .read T :: r → ((writes h)[count h]?).map Value.ty = some T

/-- What `Matched` asks of the `i`-th action. -/
def matchedAt (count : List Action → ℕ) (as : List Action) (i : ℕ) : Bool :=
  match as[i]? with
  | some (.read T) => ((writes (as.take i))[count (as.take i)]?).map Value.ty = some T
  | _ => true

lemma matched_iff {count : List Action → ℕ} {as : List Action} :
    Matched count as ↔ ∀ i < as.length, matchedAt count as i = true := by
  constructor
  · intro h i hi
    unfold matchedAt
    split
    · next T hget =>
      refine decide_eq_true (h (as.take i) T (as.drop (i + 1)) ?_)
      have ha : as[i] = .read T := by
        rw [List.getElem?_eq_getElem hi] at hget
        exact Option.some.inj hget
      rw [← ha, ← List.drop_eq_getElem_cons hi, List.take_append_drop]
    · rfl
  · rintro h g T r rfl
    have hg := h g.length (by simp)
    unfold matchedAt at hg
    rw [List.getElem?_append_right le_rfl, Nat.sub_self, List.getElem?_cons_zero,
      List.take_left] at hg
    exact of_decide_eq_true hg

instance instDecidableMatched (count : List Action → ℕ) (as : List Action) :
    Decidable (Matched count as) := decidable_of_iff _ matched_iff.symm

/-! ### Bytes -/

/-- The bytes of a number in a byte order. -/
def emEndian.bytes (e : emEndian) (k n : ℕ) : List UInt8 :=
  match e with
  | .LITTLE => Bytes.toLE k n
  | .BIG => (Bytes.toLE k n).reverse

/-- What a value is on the stream. -/
def Value.bytes (e : emEndian) : Value → List UInt8
  | integer T bits => e.bytes T.size bits.toNat
  | float bits => e.bytes 4 bits.toNat
  | double bits => e.bytes 8 bits.toNat
  | enum T bits => e.bytes T.size bits.toNat
  | string str => e.bytes 4 str.length ++ str

@[simp] lemma emEndian.length_bytes (e : emEndian) (k n : ℕ) : (e.bytes k n).length = k := by
  cases e <;> simp [bytes]

lemma initMachineEndian_eq (m : Machine) :
    initMachineEndian m = if m.bigEndian then .BIG else .LITTLE := by
  unfold initMachineEndian Machine.store
  rcases m.ulong_width with hw | hw <;> rw [hw] <;> cases m.bigEndian <;> rfl

/-- A stream that was made on the machine. -/
def CDataStream.On (s : CDataStream) (m : Machine) : Prop :=
  s._machine_endian = initMachineEndian m

namespace CDataStream

variable {m : Machine} {s : CDataStream}

lemma doFlip_eq (s : CDataStream) (buf : List UInt8) :
    s.DoFlip buf = if s._machine_endian = s._stream_endian then buf else buf.reverse := by
  have hflip := flipData_eq buf
  unfold flipData at hflip
  unfold DoFlip
  by_cases he : s._machine_endian = s._stream_endian
  · rw [if_pos (.inl he), if_pos he]
  · rw [if_neg he]
    by_cases hlen : buf.length < 2
    · rw [if_pos (.inr hlen)]
      rwa [if_pos hlen] at hflip
    · rw [if_neg (not_or.mpr ⟨he, hlen⟩)]
      rwa [if_neg hlen] at hflip

/-- Whatever the machine, a number is flipped into the byte order of the stream. -/
lemma doFlip_store (hs : s.On m) (k n : ℕ) :
    s.DoFlip (m.store k n) = s._stream_endian.bytes k n := by
  rw [doFlip_eq, hs, initMachineEndian_eq, Machine.store]
  cases m.bigEndian <;> cases s._stream_endian <;> simp [emEndian.bytes]

/-- And back. -/
lemma load_doFlip (hs : s.On m) (k n : ℕ) :
    m.load (s.DoFlip (s._stream_endian.bytes k n)) = n % 256 ^ k := by
  rw [← m.load_store, ← doFlip_store hs, doFlip_eq, doFlip_eq]
  split_ifs <;> simp

lemma writeAlgorithm_eq (hs : s.On m) (k n : ℕ) :
    s.WriteAlgorithm m k n = { s with _buffer := s._buffer ++ s._stream_endian.bytes k n } := by
  rw [WriteAlgorithm, doFlip_store hs, DoWrite]

/-- A number at the read position is read. -/
lemma readAlgorithm_eq (hs : s.On m) {k n : ℕ} (hk : 0 < k) (hn : n < 256 ^ k)
    {pre post : List UInt8} (hbuf : s._buffer = pre ++ s._stream_endian.bytes k n ++ post)
    (hpos : s._read_pos = pre.length) :
    s.ReadAlgorithm m k = some (n, { s with _read_pos := s._read_pos + k }) := by
  have hlen := congrArg List.length hbuf
  simp only [List.length_append, emEndian.length_bytes] at hlen
  have hslice : Bytes.slice s._buffer s._read_pos k = s._stream_endian.bytes k n :=
    Bytes.slice_eq pre post hbuf hpos.symm (by simp)
  rw [ReadAlgorithm, DoRead, if_pos (by omega), hslice, Option.map_some, load_doFlip hs,
    Nat.mod_eq_of_lt hn]

lemma writeString_eq (hs : s.On m) {str : List UInt8} (hstr : str.length < 2 ^ 32) :
    s.writeString m str =
      { s with _buffer := s._buffer ++ (s._stream_endian.bytes 4 str.length ++ str) } := by
  simp only [writeString, Nat.mod_eq_of_lt hstr, writeAlgorithm_eq hs, DoWrite, List.take_length,
    List.append_assoc]

lemma readString_eq (hs : s.On m) {str : List UInt8} (hstr : str.length < 2 ^ 32)
    {pre post : List UInt8}
    (hbuf : s._buffer = pre ++ (s._stream_endian.bytes 4 str.length ++ str) ++ post)
    (hpos : s._read_pos = pre.length) :
    s.readString m = some (str, { s with _read_pos := s._read_pos + (4 + str.length) }) := by
  have hread : s.ReadAlgorithm m 4 =
      some (str.length, { s with _read_pos := s._read_pos + 4 }) := by
    have hbuf' : s._buffer = pre ++ s._stream_endian.bytes 4 str.length ++ (str ++ post) := by
      rw [hbuf]
      simp only [List.append_assoc]
    exact readAlgorithm_eq hs (by decide) (by omega) hbuf' hpos
  have hlen := congrArg List.length hbuf
  simp only [List.length_append, emEndian.length_bytes] at hlen
  have hslice : Bytes.slice s._buffer (s._read_pos + 4) str.length = str := by
    refine Bytes.slice_eq (pre ++ s._stream_endian.bytes 4 str.length) post ?_ ?_ rfl
    · rw [hbuf]
      simp only [List.append_assoc]
    · rw [List.length_append, emEndian.length_bytes, hpos]
  rw [readString, hread]
  simp only [Option.bind_eq_bind, Option.bind_some, hslice]
  rw [if_pos (by omega), Nat.add_assoc]
  rfl

lemma write_eq (hs : s.On m) {v : Value} (hv : v.Fits) :
    s.write m v = { s with _buffer := s._buffer ++ v.bytes s._stream_endian } := by
  cases v with
  | string str => exact writeString_eq hs hv
  | _ => exact writeAlgorithm_eq hs _ _

/-- **One value**: a value at the read position is read by its type. -/
lemma read_eq (hs : s.On m) {v : Value} (hv : v.Fits) {pre post : List UInt8}
    (hbuf : s._buffer = pre ++ v.bytes s._stream_endian ++ post)
    (hpos : s._read_pos = pre.length) :
    s.read m v.ty = some (v,
      { s with _read_pos := s._read_pos + (v.bytes s._stream_endian).length }) := by
  have hbits : ∀ {k : ℕ} (bits : BitVec (8 * k)), bits.toNat < 256 ^ k := by
    intro k bits
    have h := bits.isLt
    rwa [pow_mul] at h
  cases v with
  | integer T bits =>
    simp only [Value.ty, read, Value.bytes, emEndian.length_bytes,
      readAlgorithm_eq hs T.size_pos (hbits bits) hbuf hpos, Option.map_some, BitVec.ofNat_toNat,
      BitVec.setWidth_eq]
  | float bits =>
    simp only [Value.ty, read, Value.bytes, emEndian.length_bytes,
      readAlgorithm_eq hs (by decide) (hbits (k := 4) bits) hbuf hpos, Option.map_some,
      BitVec.ofNat_toNat, BitVec.setWidth_eq]
  | double bits =>
    simp only [Value.ty, read, Value.bytes, emEndian.length_bytes,
      readAlgorithm_eq hs (by decide) (hbits (k := 8) bits) hbuf hpos, Option.map_some,
      BitVec.ofNat_toNat, BitVec.setWidth_eq]
  | enum T bits =>
    simp only [Value.ty, read, Value.bytes, emEndian.length_bytes,
      readAlgorithm_eq hs T.size_pos (hbits bits) hbuf hpos, Option.map_some, BitVec.ofNat_toNat,
      BitVec.setWidth_eq]
  | string str =>
    simp only [Value.ty, read, Value.bytes, List.length_append, emEndian.length_bytes,
      readString_eq hs hv hbuf hpos, Option.map_some]

end CDataStream

/-! ### Whole scripts -/

lemma writes_snoc (as : List Action) (a : Action) :
    writes (as ++ [a]) = writes as ++ writes [a] := by
  simp [writes, List.filterMap_append]

lemma reads_append (as bs : List Action) : reads (as ++ bs) = reads as + reads bs :=
  List.countP_append

/-- A read has a number below the number of reads. -/
lemma reads_lt {as h r : List Action} {T : Ty} (he : as = h ++ .read T :: r) :
    reads h < reads as := by
  have hpos : 0 < reads (.read T :: r) := by simp [reads]
  rw [he, reads_append]
  omega

/-- The last action is the one in question, or it comes after it. -/
lemma split_snoc {as h r : List Action} {a b : Action} (he : as ++ [a] = h ++ b :: r) :
    as = h ∧ a = b ∨ ∃ r', as = h ++ b :: r' := by
  rcases List.eq_nil_or_concat r with rfl | ⟨r', c, rfl⟩
  · obtain ⟨has, hab⟩ := List.append_inj' he rfl
    exact .inl ⟨has, (List.cons.inj hab).1⟩
  · rw [List.concat_eq_append, ← List.cons_append, ← List.append_assoc] at he
    exact .inr ⟨r', (List.append_inj' he rfl).1⟩

lemma Matched.left {count : List Action → ℕ} {as : List Action} {a : Action}
    (h : Matched count (as ++ [a])) : Matched count as :=
  fun g T r he => h g T (r ++ [a]) (by rw [he, List.append_assoc, List.cons_append])

/-- Every read has returned the value of its number. -/
def Returned (count : List Action → ℕ) (as : List Action) (returned : List Value) : Prop :=
  ∀ h T r, as = h ++ .read T :: r → returned[reads h]? = (writes h)[count h]?

/-- The bytes of some values. -/
def bytesOf (e : emEndian) (vs : List Value) : List UInt8 := vs.flatMap (Value.bytes e)

lemma bytesOf_append (e : emEndian) (vs us : List Value) :
    bytesOf e (vs ++ us) = bytesOf e vs ++ bytesOf e us := List.flatMap_append

/-- After the actions `as` the buffer is the values written, and the read position is behind
as many of them as were read since the last move. -/
structure Inv (e : emEndian) (as : List Action) (s : State) : Prop where
  on : s.dataStream.On s.machine
  endian : s.dataStream._stream_endian = e
  buffer : s.dataStream._buffer = bytesOf e (writes as)
  since : readsSince as ≤ (writes as).length
  pos : s.dataStream._read_pos = (bytesOf e ((writes as).take (readsSince as))).length
  count : s.returned.length = reads as
  returned : Returned readsSince as s.returned

/-- A step that is no read returns nothing. -/
lemma Returned.snoc {as : List Action} {a : Action} {returned : List Value}
    (h : Returned readsSince as returned) (ha : ∀ T, a ≠ .read T) :
    Returned readsSince (as ++ [a]) returned := by
  intro g T r he
  rcases split_snoc he with ⟨-, rfl⟩ | ⟨r', he⟩
  · exact absurd rfl (ha T)
  · exact h g T r' he

lemma inv_write {e : emEndian} {as : List Action} {s : State} {v : Value} (hi : Inv e as s)
    (hv : v.Fits) :
    ∃ t, step s (.write v) = some t ∧ Inv e (as ++ [.write v]) t := by
  have hw : writes (as ++ [.write v]) = writes as ++ [v] := writes_snoc as _
  have hr : reads (as ++ [.write v]) = reads as := reads_append as _
  have hs : readsSince (as ++ [.write v]) = readsSince as := by
    simp [readsSince, List.foldl_append]
  refine ⟨_, rfl, ?_⟩
  rw [CDataStream.write_eq hi.on hv]
  refine ⟨hi.on, hi.endian, ?_, ?_, ?_, ?_, hi.returned.snoc nofun⟩
  · rw [hw, bytesOf_append, hi.buffer, hi.endian]
    simp [bytesOf]
  · have := hi.since
    rw [hw, hs, List.length_append]
    omega
  · rw [hw, hs, List.take_append_of_le_length hi.since]
    exact hi.pos
  · rw [hr]
    exact hi.count

lemma inv_read {e : emEndian} {as : List Action} {s : State} {T : Ty} (hi : Inv e as s)
    (hfits : ∀ v ∈ writes as, v.Fits)
    (hT : ((writes as)[readsSince as]?).map Value.ty = some T) :
    ∃ t, step s (.read T) = some t ∧ Inv e (as ++ [.read T]) t := by
  obtain ⟨v, hv, rfl⟩ := Option.map_eq_some_iff.mp hT
  obtain ⟨hlt, hget⟩ := List.getElem?_eq_some_iff.mp hv
  have hw : writes (as ++ [.read v.ty]) = writes as := by simp [writes, List.filterMap_append]
  have hs : readsSince (as ++ [.read v.ty]) = readsSince as + 1 := by
    simp [readsSince, List.foldl_append]
  have htake : (writes as).take (readsSince as + 1) =
      (writes as).take (readsSince as) ++ [v] := by
    rw [List.take_succ_eq_append_getElem hlt, hget]
  have hbuf : s.dataStream._buffer = bytesOf e ((writes as).take (readsSince as)) ++
      v.bytes s.dataStream._stream_endian ++
      bytesOf e ((writes as).drop (readsSince as + 1)) := by
    have hsplit := List.take_append_drop (readsSince as + 1) (writes as)
    rw [htake] at hsplit
    rw [hi.buffer, hi.endian, ← congrArg (bytesOf e) hsplit, bytesOf_append, bytesOf_append]
    simp [bytesOf]
  have hread := CDataStream.read_eq hi.on (hfits v (List.mem_of_getElem? hv)) hbuf hi.pos
  have hstep : step s (.read v.ty) = some
      { s with
        dataStream :=
          { s.dataStream with
            _read_pos := s.dataStream._read_pos + (v.bytes s.dataStream._stream_endian).length }
        returned := s.returned ++ [v] } := by
    rw [step, hread]
    rfl
  refine ⟨_, hstep, hi.on, hi.endian, ?_, ?_, ?_, ?_, ?_⟩
  · rw [hw]
    exact hi.buffer
  · rw [hw, hs]
    exact hlt
  · simp only [hw, hs, htake, bytesOf_append, List.length_append, hi.pos, hi.endian]
    simp [bytesOf]
  · rw [List.length_append, hi.count, reads_append]
    rfl
  · intro g U r he
    rcases split_snoc he with ⟨rfl, -⟩ | ⟨r', he⟩
    · rw [← hi.count, List.getElem?_concat_length, hv]
    · have hold := hi.returned g U r' he
      rwa [← List.getElem?_append_left (by rw [hi.count]; exact reads_lt he)] at hold

lemma inv_move {e : emEndian} {as : List Action} {s : State} (hi : Inv e as s) (m : Machine) :
    ∃ t, step s (.move m) = some t ∧ Inv e (as ++ [.move m]) t := by
  have hw : writes (as ++ [.move m]) = writes as := by simp [writes, List.filterMap_append]
  have hr : reads (as ++ [.move m]) = reads as := reads_append as _
  have hs : readsSince (as ++ [.move m]) = 0 := by simp [readsSince, List.foldl_append]
  refine ⟨_, rfl, rfl, hi.endian, ?_, ?_, ?_, ?_, hi.returned.snoc nofun⟩
  · rw [hw]
    exact hi.buffer
  · rw [hs]
    exact Nat.zero_le _
  · rw [hs]
    rfl
  · rw [hr]
    exact hi.count

/-- A script whose reads match its writes runs through. -/
lemma run_inv (m : Machine) (e : emEndian) {as : List Action}
    (hfits : ∀ v ∈ writes as, v.Fits) (has : Matched readsSince as) :
    ∃ t, exec step (init m e) as = some t ∧ Inv e as t := by
  induction as using List.reverseRecOn with
  | nil => exact ⟨_, rfl, rfl, rfl, rfl, le_rfl, rfl, rfl, fun h T r he => by simp at he⟩
  | append_singleton as a ih =>
    have hsub : ∀ v ∈ writes as, v.Fits := fun v hv => hfits v (by rw [writes_snoc]; simp [hv])
    obtain ⟨s, hs, hi⟩ := ih hsub has.left
    simp only [exec_snoc, hs, Option.bind_some]
    cases a with
    | write v => exact inv_write hi (hfits v (by rw [writes_snoc]; simp [writes]))
    | read T => exact inv_read hi hsub (has as T [] rfl)
    | move m => exact inv_move hi m

/-- **Values through a stream**: on whatever machines a script runs, a read returns the written
value whose number is that of the read since the buffer was last moved; the buffer is the bytes
of the values in the order of the stream; and when all are read, the read position is its end. -/
theorem values_through (m : Machine) (e : emEndian) {as : List Action}
    (hfits : ∀ v ∈ writes as, v.Fits) (has : Matched readsSince as) :
    ∃ t, exec step (init m e) as = some t ∧ Returned readsSince as t.returned ∧
      t.dataStream._buffer = bytesOf e (writes as) ∧
      (readsSince as = (writes as).length →
        t.dataStream._read_pos = t.dataStream._buffer.length) := by
  obtain ⟨t, ht, hi⟩ := run_inv m e hfits has
  refine ⟨t, ht, hi.returned, hi.buffer, fun hall => ?_⟩
  rw [hi.pos, hi.buffer, hall, List.take_length]

/-- `marshal` and `unmarshal` of `Mydata` with two strings, an `int`, a `float` and an
enumeration, on a little-endian and on a big-endian machine. -/
def mydata : List Action :=
  [.write (.string [228, 189, 160, 229, 165, 189]), .write (.integer .int32 5),
    .write (.float 0x40200000), .write (.string [104, 101, 108, 108, 111]),
    .write (.enum .int16 1), .move { linux64 with bigEndian := true }, .read .string,
    .read (.integer .int32), .read .float, .read .string, .read (.enum .int16)]

theorem mydata_through : ∃ t, exec step (init linux64 .BIG) mydata = some t ∧
    Returned readsSince mydata t.returned ∧
    t.dataStream._buffer = bytesOf .BIG (writes mydata) ∧
    (readsSince mydata = (writes mydata).length →
      t.dataStream._read_pos = t.dataStream._buffer.length) :=
  values_through linux64 .BIG (by decide +kernel) (by decide +kernel)

/-- A value is read, the buffer is moved, and another value is written and read. -/
def moved : List Action :=
  [.write (.integer .uchar 1), .read (.integer .uchar), .move linux64,
    .write (.integer .uchar 2), .read (.integer .uchar)]

/-- With all reads counted, the second one follows the second write and is of its type; but a
moved buffer is read from its start, and it returns the first value again. -/
theorem moved_reads_again : Matched reads moved ∧
    ∃ t, exec step (init linux64 .LITTLE) moved = some t ∧ ¬ Returned reads moved t.returned ∧
      reads moved = (writes moved).length ∧
      t.dataStream._read_pos ≠ t.dataStream._buffer.length := by
  refine ⟨by decide +kernel, _, rfl, fun h => ?_, rfl, by decide⟩
  have hlast := h (moved.take 4) (.integer .uchar) [] rfl
  exact absurd hlast (by decide)

end MmrService.DataStream
