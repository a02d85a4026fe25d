import MmrService.ProtoFrame

/-!
Decoding, step by step: what each part of `decodingFromBuf` does to any buffer, and what it
makes of a frame.
-/

namespace MmrService.ProtoCodec

open BufConvert

variable {m : Machine} {π : Protobuf}

/-- A buffer with the `n` bytes at `i` flipped in place. -/
def flipped (m : Machine) (buf : List UInt8) (i n : ℕ) : List UInt8 :=
  Bytes.patch buf i (protoFlipBuf m (Bytes.slice buf i n))

lemma length_flipped {buf : List UInt8} {i n : ℕ} (h : i + n ≤ buf.length) :
    (flipped m buf i n).length = buf.length := by
  have hs := Bytes.length_slice h
  exact Bytes.length_patch (by rw [length_protoFlipBuf, hs]; exact h)

lemma slice_flipped_after {buf : List UInt8} {i n j k : ℕ} (h : i + n ≤ buf.length)
    (hj : i + n ≤ j) : Bytes.slice (flipped m buf i n) j k = Bytes.slice buf j k := by
  have hs := Bytes.length_slice h
  exact Bytes.slice_patch_after (by rw [length_protoFlipBuf, hs]; exact h)
    (by rw [length_protoFlipBuf, hs]; exact hj)

lemma slice_flipped_before {buf : List UInt8} {i n j k : ℕ} (h : i + n ≤ buf.length)
    (hj : j + k ≤ i) : Bytes.slice (flipped m buf i n) j k = Bytes.slice buf j k := by
  have hs := Bytes.length_slice h
  exact Bytes.slice_patch_before (by rw [length_protoFlipBuf, hs]; exact h) hj

lemma Cursor.getField_some (m : Machine) {c : Cursor} {i n : ℕ} (h : i + n ≤ c.buf.length) :
    c.getField m i n = some (unwire m (Bytes.slice c.buf i n),
      ⟨flipped m c.buf i n, c.touched ++ [(i, n), (i, n), (i, n)]⟩) := by
  rw [Cursor.getField_eq, if_pos h]; rfl

lemma Cursor.getField_none (m : Machine) {c : Cursor} {i n : ℕ} (h : c.buf.length < i + n) :
    c.getField m i n = none := by
  rw [Cursor.getField_eq, if_neg (by omega)]

lemma Cursor.read_some {c : Cursor} {i n : ℕ} (h : i + n ≤ c.buf.length) :
    c.read i n = some (Bytes.slice c.buf i n, ⟨c.buf, c.touched ++ [(i, n)]⟩) := if_pos h

lemma Cursor.read_none {c : Cursor} {i n : ℕ} (h : c.buf.length < i + n) :
    c.read i n = none := if_neg (by omega)

/-! ### Any buffer -/

/-- The checksum field, as a number. -/
def sumField (m : Machine) (buf : List UInt8) : ℤ :=
  Word.toInt 32 (unwire m (Bytes.slice buf (buf.length - 4) 4))

/-- The bytes the checksum is computed over. -/
def covered (buf : List UInt8) : List UInt8 := Bytes.slice buf 0 ((buf.length - 4) % 2 ^ 32)

def nameLenField (m : Machine) (buf : List UInt8) : ℕ := unwire m (Bytes.slice buf 4 2)

/-- The name in a buffer, without the zero that ends its field. -/
def nameIn (m : Machine) (buf : List UInt8) : List UInt8 :=
  Bytes.slice buf 6 (nameLenField m buf - 1)

def msgLenField (m : Machine) (buf : List UInt8) : ℤ :=
  Word.toInt 32 (unwire m (Bytes.slice buf (6 + nameLenField m buf) 4))

/-- The buffer and the ranges touched when the checksum has been compared. -/
def afterSum (m : Machine) (buf : List UInt8) : Cursor :=
  ⟨flipped m buf (buf.length - 4) 4, [(0, (buf.length - 4) % 2 ^ 32), (buf.length - 4, 4),
    (buf.length - 4, 4), (buf.length - 4, 4)]⟩

lemma decodeBuf_long {buf : List UInt8} (h : PROTO_MSG_MIN_LEN ≤ buf.length) (m : Machine)
    (protoMsg : ProtoRpcMessage π) : decodeBuf m protoMsg buf =
      if adler32 m (covered buf) ≠ sumField m buf then
        some (.ERR_CHECK_SUM, protoMsg, afterSum m buf)
      else decodeFields m protoMsg (afterSum m buf) := by
  have hmin : PROTO_MSG_MIN_LEN = 16 := rfl
  have hmod : (buf.length - 4) % 2 ^ 32 ≤ buf.length - 4 := Nat.mod_le _ _
  have hread := Cursor.read_some (c := ⟨buf, []⟩) (i := 0) (n := (buf.length - 4) % 2 ^ 32)
    (by simp only; omega)
  have hsum := Cursor.getField_some m (c := ⟨buf, [(0, (buf.length - 4) % 2 ^ 32)]⟩)
    (i := buf.length - 4) (n := 4) (by simp only; omega)
  unfold decodeBuf
  rw [if_neg (by omega)]
  simp only [hread, Option.bind_eq_bind, Option.bind_some, List.nil_append, hsum]
  rfl

/-- The header fields. -/
lemma decodeFields_eq {c : Cursor} (h : 6 ≤ c.buf.length) (m : Machine)
    (protoMsg : ProtoRpcMessage π) :
    decodeFields m protoMsg c = decodeName m { protoMsg with
        ulSequeNum := unwire m (Bytes.slice c.buf 0 4)
        usNameLen := nameLenField m c.buf }
      ⟨flipped m (flipped m c.buf 0 4) 4 2,
        c.touched ++ [(0, 4), (0, 4), (0, 4)] ++ [(4, 2), (4, 2), (4, 2)]⟩ := by
  have hlen : (flipped m c.buf 0 4).length = c.buf.length := length_flipped (by omega)
  have hfield : Bytes.slice (flipped m c.buf 0 4) 4 2 = Bytes.slice c.buf 4 2 :=
    slice_flipped_after (by omega) (by omega)
  unfold decodeFields
  rw [Cursor.getField_some m (by omega)]
  simp only [Option.bind_eq_bind, Option.bind_some]
  rw [Cursor.getField_some m (by simp only; omega)]
  simp only [Option.bind_some, hfield]
  rfl

/-- They leave what is behind them as it was. -/
lemma decodeFields_some {c : Cursor} (h : 6 ≤ c.buf.length) (m : Machine)
    (protoMsg : ProtoRpcMessage π) : ∃ d : Cursor,
      decodeFields m protoMsg c = decodeName m { protoMsg with
        ulSequeNum := unwire m (Bytes.slice c.buf 0 4)
        usNameLen := nameLenField m c.buf } d ∧
      d.buf.length = c.buf.length ∧
      (∀ j n, 6 ≤ j → Bytes.slice d.buf j n = Bytes.slice c.buf j n) ∧
      d.touched = c.touched ++ [(0, 4), (0, 4), (0, 4)] ++ [(4, 2), (4, 2), (4, 2)] := by
  have hlen : (flipped m c.buf 0 4).length = c.buf.length := length_flipped (by omega)
  refine ⟨_, decodeFields_eq h m protoMsg, ?_, ?_, rfl⟩
  · simp only
    rw [length_flipped (by omega), hlen]
  · intro j n hj
    simp only
    rw [slice_flipped_after (by omega) (by omega), slice_flipped_after (by omega) (by omega)]

lemma decodeName_zero {protoMsg : ProtoRpcMessage π} (h : protoMsg.usNameLen = 0) (c : Cursor) :
    decodeName m protoMsg c = none := if_pos h

lemma decodeName_short {protoMsg : ProtoRpcMessage π} {c : Cursor}
    (h : c.buf.length < 6 + (protoMsg.usNameLen - 1)) : decodeName m protoMsg c = none := by
  unfold decodeName
  split_ifs
  · rfl
  · rw [Cursor.read_none h]; rfl

lemma decodeName_unknown {protoMsg : ProtoRpcMessage π} {c : Cursor}
    (hu : protoMsg.usNameLen ≠ 0) (hlen : 6 + (protoMsg.usNameLen - 1) ≤ c.buf.length)
    (hname : createMessage π
      (protoMsg.strName ++ Bytes.slice c.buf 6 (protoMsg.usNameLen - 1)) = none) :
    decodeName m protoMsg c = some (.ERR_UNKNOWN_MSG_TYPE,
      { protoMsg with
        strName := protoMsg.strName ++ Bytes.slice c.buf 6 (protoMsg.usNameLen - 1)
        protoMsgPtr := none },
      ⟨c.buf, c.touched ++ [(6, protoMsg.usNameLen - 1)]⟩) := by
  unfold decodeName
  rw [if_neg hu, Cursor.read_some hlen]
  simp only [Option.bind_eq_bind, Option.bind_some, hname]
  rfl

lemma decodeName_known {protoMsg : ProtoRpcMessage π} {c : Cursor} {message : π.Message}
    (hu : protoMsg.usNameLen ≠ 0) (hlen : 6 + (protoMsg.usNameLen - 1) ≤ c.buf.length)
    (hname : createMessage π
      (protoMsg.strName ++ Bytes.slice c.buf 6 (protoMsg.usNameLen - 1)) = some message) :
    decodeName m protoMsg c = decodeMessage m
      { protoMsg with
        strName := protoMsg.strName ++ Bytes.slice c.buf 6 (protoMsg.usNameLen - 1)
        protoMsgPtr := some message }
      message (6 + protoMsg.usNameLen) ⟨c.buf, c.touched ++ [(6, protoMsg.usNameLen - 1)]⟩ := by
  unfold decodeName
  rw [if_neg hu, Cursor.read_some hlen]
  simp only [Option.bind_eq_bind, Option.bind_some, hname]

section Message

variable {protoMsg : ProtoRpcMessage π} {message : π.Message} {i : ℕ} {c : Cursor}

lemma decodeMessage_short (h : c.buf.length < i + 4) :
    decodeMessage m protoMsg message i c = none := by
  unfold decodeMessage
  rw [Cursor.getField_none m h]
  rfl

lemma decodeMessage_negative (h : i + 4 ≤ c.buf.length)
    (hneg : Word.toInt 32 (unwire m (Bytes.slice c.buf i 4)) < 0) :
    decodeMessage m protoMsg message i c = if π.rejectsNegative then
      some (.ERR_PARSE,
        { protoMsg with lMsgLen := Word.toInt 32 (unwire m (Bytes.slice c.buf i 4)) },
        ⟨flipped m c.buf i 4, c.touched ++ [(i, 4), (i, 4), (i, 4)]⟩)
      else none := by
  unfold decodeMessage
  rw [Cursor.getField_some m h, Option.bind_eq_bind, Option.bind_some]
  dsimp only
  rw [if_pos hneg]
  rfl

lemma decodeMessage_long (h : i + 4 ≤ c.buf.length) {n : ℕ}
    (hn : Word.toInt 32 (unwire m (Bytes.slice c.buf i 4)) = n)
    (hlong : c.buf.length < i + 4 + n) : decodeMessage m protoMsg message i c = none := by
  unfold decodeMessage
  rw [Cursor.getField_some m h, Option.bind_eq_bind, Option.bind_some]
  dsimp only
  rw [hn, if_neg (show ¬ (n : ℤ) < 0 by omega), Int.toNat_natCast]
  rw [Cursor.read_none (by simp only [length_flipped h]; exact hlong)]
  rfl

lemma decodeMessage_some (h : i + 4 ≤ c.buf.length) {n : ℕ}
    (hn : Word.toInt 32 (unwire m (Bytes.slice c.buf i 4)) = n)
    (hlen : i + 4 + n ≤ c.buf.length) : decodeMessage m protoMsg message i c =
      some (if (π.ParseFromArray message (Bytes.slice c.buf (i + 4) n)).2 then .ERR_NONE
        else .ERR_PARSE,
      { protoMsg with
        lMsgLen := n
        protoMsgPtr := some (π.ParseFromArray message (Bytes.slice c.buf (i + 4) n)).1 },
      ⟨flipped m c.buf i 4, c.touched ++ [(i, 4), (i, 4), (i, 4)] ++ [(i + 4, n)]⟩) := by
  unfold decodeMessage
  rw [Cursor.getField_some m h, Option.bind_eq_bind, Option.bind_some]
  dsimp only
  rw [hn, if_neg (show ¬ (n : ℤ) < 0 by omega), Int.toNat_natCast]
  rw [Cursor.read_some (by simp only [length_flipped h]; exact hlen), Option.bind_eq_bind,
    Option.bind_some]
  dsimp only
  rw [slice_flipped_after h le_rfl]
  rfl

end Message

/-! ### A whole buffer -/

/-- What the checksum test touches: the bytes it covers, and the checksum itself. -/
def sumRanges (len : ℕ) : List (ℕ × ℕ) :=
  [(0, (len - 4) % 2 ^ 32), (len - 4, 4), (len - 4, 4), (len - 4, 4)]

/-- What reading the sequence number and the name length touches. -/
def headerRanges : List (ℕ × ℕ) := [(0, 4), (0, 4), (0, 4), (4, 2), (4, 2), (4, 2)]

lemma decodingFromBuf_eq_some {protoMsg msg : ProtoRpcMessage π} {buf : List UInt8}
    {ret : EM_ErrCode} {c : Cursor} :
    decodingFromBuf m (some protoMsg) (some buf) = some (ret, some msg, some c) ↔
      decodeBuf m protoMsg buf = some (ret, msg, c) := by
  constructor
  · intro h
    obtain ⟨⟨ret', msg', c'⟩, hd, he⟩ := Option.map_eq_some_iff.mp h
    simp only [Prod.mk.injEq, Option.some.injEq] at he
    obtain ⟨rfl, rfl, rfl⟩ := he
    exact hd
  · exact fun h => Option.map_eq_some_iff.mpr ⟨_, h, rfl⟩

lemma decodeBuf_small {buf : List UInt8} (h : buf.length < PROTO_MSG_MIN_LEN) (m : Machine)
    (protoMsg : ProtoRpcMessage π) :
    decodeBuf m protoMsg buf = some (.ERR_INVALID_LENGTH, protoMsg, ⟨buf, []⟩) := if_pos h

/-- Behind the checksum test the header is read, and what lies between it and the checksum is
still as it was. -/
lemma decodeBuf_summed {buf : List UInt8} (h : PROTO_MSG_MIN_LEN ≤ buf.length)
    (hsum : adler32 m (covered buf) = sumField m buf) (protoMsg : ProtoRpcMessage π) :
    ∃ d : Cursor, decodeBuf m protoMsg buf = decodeName m { protoMsg with
        ulSequeNum := unwire m (Bytes.slice buf 0 4)
        usNameLen := nameLenField m buf } d ∧
      d.buf.length = buf.length ∧
      (∀ j n, 6 ≤ j → j + n ≤ buf.length - 4 → Bytes.slice d.buf j n = Bytes.slice buf j n) ∧
      d.touched = sumRanges buf.length ++ headerRanges := by
  have hmin : PROTO_MSG_MIN_LEN = 16 := rfl
  have hlen : (afterSum m buf).buf.length = buf.length := length_flipped (by omega)
  have hslice : ∀ j n, j + n ≤ buf.length - 4 →
      Bytes.slice (afterSum m buf).buf j n = Bytes.slice buf j n :=
    fun j n hj => slice_flipped_before (by omega) hj
  obtain ⟨d, hd, hdlen, hdslice, hdt⟩ :=
    decodeFields_some (c := afterSum m buf) (by omega) m protoMsg
  refine ⟨d, ?_, hdlen.trans hlen, fun j n hj hn => (hdslice j n hj).trans (hslice j n hn), ?_⟩
  · rw [decodeBuf_long h, if_neg (not_not.mpr hsum), hd, hslice 0 4 (by omega), nameLenField,
      hslice 4 2 (by omega)]
    rfl
  · rw [hdt]; rfl

/-- The message as the header and the name fill it in. -/
def named (m : Machine) (protoMsg : ProtoRpcMessage π) (buf : List UInt8)
    (message : Option π.Message) : ProtoRpcMessage π :=
  { protoMsg with
    ulSequeNum := unwire m (Bytes.slice buf 0 4)
    usNameLen := nameLenField m buf
    strName := protoMsg.strName ++ nameIn m buf
    protoMsgPtr := message }

/-- Behind a name that ends before the checksum comes an unknown type or the message. -/
lemma decodeBuf_named {buf : List UInt8} (h : PROTO_MSG_MIN_LEN ≤ buf.length)
    (hsum : adler32 m (covered buf) = sumField m buf) (hu : nameLenField m buf ≠ 0)
    (hlen : 9 + nameLenField m buf ≤ buf.length) (protoMsg : ProtoRpcMessage π) :
    ∃ d : Cursor, d.buf.length = buf.length ∧
      (∀ j n, 6 ≤ j → j + n ≤ buf.length - 4 → Bytes.slice d.buf j n = Bytes.slice buf j n) ∧
      d.touched = sumRanges buf.length ++ (headerRanges ++ [(6, nameLenField m buf - 1)]) ∧
      (createMessage π (protoMsg.strName ++ nameIn m buf) = none →
        decodeBuf m protoMsg buf = some (.ERR_UNKNOWN_MSG_TYPE, named m protoMsg buf none, d)) ∧
      ∀ message, createMessage π (protoMsg.strName ++ nameIn m buf) = some message →
        decodeBuf m protoMsg buf = decodeMessage m (named m protoMsg buf (some message)) message
          (6 + nameLenField m buf) d := by
  obtain ⟨d, hd, hdlen, hslice, hdt⟩ := decodeBuf_summed h hsum protoMsg
  have hnm : Bytes.slice d.buf 6 (nameLenField m buf - 1) = nameIn m buf :=
    hslice _ _ le_rfl (by omega)
  refine ⟨⟨d.buf, d.touched ++ [(6, nameLenField m buf - 1)]⟩, hdlen, hslice, ?_, ?_, ?_⟩
  · simp only [hdt, List.append_assoc]
  · intro hname
    rw [hd, decodeName_unknown (by exact hu) (by simp only; omega)
      (by simp only [hnm]; exact hname)]
    simp only [hnm, named]
  · intro message hname
    rw [hd, decodeName_known (by exact hu) (by simp only; omega)
      (by simp only [hnm]; exact hname)]
    simp only [hnm, named]

/-- A buffer whose lengths fit is decoded. -/
lemma decodeBuf_fits (protoMsg : ProtoRpcMessage π) {buf : List UInt8} {message : π.Message}
    {n : ℕ} (hsum : adler32 m (covered buf) = sumField m buf) (hu : nameLenField m buf ≠ 0)
    (hname : createMessage π (protoMsg.strName ++ nameIn m buf) = some message)
    (hn : msgLenField m buf = n) (hlen : 14 + nameLenField m buf + n ≤ buf.length)
    (hmin : PROTO_MSG_MIN_LEN ≤ buf.length) : ∃ c : Cursor, decodeBuf m protoMsg buf =
      some (if (π.ParseFromArray message
          (Bytes.slice buf (6 + nameLenField m buf + 4) n)).2 then .ERR_NONE else .ERR_PARSE,
        { named m protoMsg buf (some (π.ParseFromArray message
            (Bytes.slice buf (6 + nameLenField m buf + 4) n)).1) with
          lMsgLen := n }, c) := by
  obtain ⟨d, hdlen, hslice, -, -, hsome⟩ := decodeBuf_named hmin hsum hu (by omega) protoMsg
  have hml : Word.toInt 32 (unwire m (Bytes.slice d.buf (6 + nameLenField m buf) 4)) = n := by
    rw [hslice _ _ (by omega) (by omega)]
    exact hn
  have hpl : Bytes.slice d.buf (6 + nameLenField m buf + 4) n =
      Bytes.slice buf (6 + nameLenField m buf + 4) n := hslice _ _ (by omega) (by omega)
  rw [hsome message hname, decodeMessage_some (by omega) hml (by omega), hpl]
  exact ⟨_, rfl⟩

/-! ### Big-endian builds -/

end MmrService.ProtoCodec
