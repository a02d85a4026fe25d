import MmrService.ProtoRoundTrip

/-!
Which accepted buffers are one frame.

The decoder takes the name and the message where the two length fields put them. What lies
between the message and the checksum is covered by the checksum and by nothing else, and the
byte that ends the name is stepped over.
-/

namespace MmrService.ProtoCodec

open BufConvert

variable {m : Machine} {π : Protobuf}

/-- No type has a name with a zero in it: names are identifiers joined by dots. -/
def Protobuf.PlainNames (π : Protobuf) : Prop :=
  ∀ name, (π.FindMessageTypeByName name).isSome → 0 ∉ name

/-- The buffer is the frame of what was read from it: its length is that of a frame with the two
lengths read, its name field ends with its only zero, and encoding the sequence number and the
name around the same payload gives the buffer back. -/
structure ExactFrame (m : Machine) (msg : ProtoRpcMessage π) (buf : List UInt8) : Prop where
  length : (buf.length : ℤ) = 14 + msg.usNameLen + msg.lMsgLen
  name : ∃ name, Bytes.slice buf 6 msg.usNameLen = name ++ [0] ∧ 0 ∉ name
  bytes : frame m msg.ulSequeNum msg.strName
    (Bytes.slice buf (6 + msg.usNameLen + 4) msg.lMsgLen.toNat) = buf

/-- The name field ends with a zero, and the message reaches up to the checksum. -/
def LengthsExact (m : Machine) (buf : List UInt8) : Prop :=
  Bytes.slice buf (5 + nameLenField m buf) 1 = [0] ∧
    ∃ n : ℕ, msgLenField m buf = n ∧ buf.length = 14 + nameLenField m buf + n

/-- What is known of a buffer that was accepted. -/
structure Accepted (m : Machine) (protoMsg msg : ProtoRpcMessage π) (buf : List UInt8) (n : ℕ) :
    Prop where
  sum : adler32 m (covered buf) = sumField m buf
  long : PROTO_MSG_MIN_LEN ≤ buf.length
  seq : msg.ulSequeNum = unwire m (Bytes.slice buf 0 4)
  nameLen : msg.usNameLen = nameLenField m buf
  named : nameLenField m buf ≠ 0
  name : msg.strName = protoMsg.strName ++ nameIn m buf
  known : (π.FindMessageTypeByName msg.strName).isSome
  msgLen : msg.lMsgLen = n
  inside : 10 + nameLenField m buf + n ≤ buf.length
  field : 14 + nameLenField m buf ≤ buf.length → msgLenField m buf = n

lemma decodeMessage_accepts {protoMsg msg : ProtoRpcMessage π} {message : π.Message} {i : ℕ}
    {c d : Cursor} (h : decodeMessage m protoMsg message i c = some (.ERR_NONE, msg, d)) :
    ∃ n : ℕ, Word.toInt 32 (unwire m (Bytes.slice c.buf i 4)) = n ∧ i + 4 + n ≤ c.buf.length ∧
      msg.lMsgLen = n ∧ msg.ulSequeNum = protoMsg.ulSequeNum ∧
      msg.usNameLen = protoMsg.usNameLen ∧ msg.strName = protoMsg.strName := by
  by_cases hi : i + 4 ≤ c.buf.length
  swap
  · rw [decodeMessage_short (by omega)] at h
    cases h
  by_cases hneg : Word.toInt 32 (unwire m (Bytes.slice c.buf i 4)) < 0
  · rw [decodeMessage_negative hi hneg] at h
    split_ifs at h
    cases (Prod.mk.inj (Option.some.inj h)).1
  obtain ⟨n, hn⟩ := Int.eq_ofNat_of_zero_le (not_lt.mp hneg)
  refine ⟨n, hn, ?_⟩
  by_cases hlong : c.buf.length < i + 4 + n
  · rw [decodeMessage_long hi hn hlong] at h
    cases h
  rw [decodeMessage_some hi hn (by omega)] at h
  obtain ⟨-, hmsg⟩ := Prod.mk.inj (Option.some.inj h)
  rw [← (Prod.mk.inj hmsg).1]
  exact ⟨by omega, rfl, rfl, rfl, rfl⟩

lemma decodeBuf_accepts {protoMsg msg : ProtoRpcMessage π} {buf : List UInt8} {c : Cursor}
    (h : decodeBuf m protoMsg buf = some (.ERR_NONE, msg, c)) :
    ∃ n, Accepted m protoMsg msg buf n := by
  have hmin : PROTO_MSG_MIN_LEN = 16 := rfl
  by_cases hlong : PROTO_MSG_MIN_LEN ≤ buf.length
  swap
  · rw [decodeBuf_small (by omega)] at h
    cases (Prod.mk.inj (Option.some.inj h)).1
  by_cases hsum : adler32 m (covered buf) = sumField m buf
  swap
  · rw [decodeBuf_long hlong, if_pos hsum] at h
    cases (Prod.mk.inj (Option.some.inj h)).1
  obtain ⟨d, hd, hdlen, hslice, -⟩ := decodeBuf_summed hlong hsum protoMsg
  rw [hd] at h
  by_cases hu : nameLenField m buf = 0
  · rw [decodeName_zero hu] at h
    cases h
  by_cases hshort : d.buf.length < 6 + (nameLenField m buf - 1)
  · rw [decodeName_short hshort] at h
    cases h
  rw [not_lt] at hshort
  rcases hname : createMessage π
    (protoMsg.strName ++ Bytes.slice d.buf 6 (nameLenField m buf - 1)) with _ | message
  · rw [decodeName_unknown hu hshort hname] at h
    cases (Prod.mk.inj (Option.some.inj h)).1
  rw [decodeName_known hu hshort hname] at h
  obtain ⟨n, hn, hle, hmsg, hseq, hlen, hstr⟩ := decodeMessage_accepts h
  simp only at hn hle hseq hlen hstr
  have hin : Bytes.slice d.buf 6 (nameLenField m buf - 1) = nameIn m buf :=
    hslice _ _ le_rfl (by omega)
  have hfind : (π.FindMessageTypeByName msg.strName).isSome := by
    obtain ⟨descriptor, hfind, -⟩ := Option.bind_eq_some_iff.mp hname
    rw [hstr, hfind]
    rfl
  refine ⟨n, hsum, hlong, hseq, hlen, hu, by rw [hstr, hin], hfind, hmsg, by omega, fun h14 => ?_⟩
  rw [hslice _ _ (by omega) (by omega)] at hn
  exact hn

/-- A field read and written again is as it was. -/
lemma wire_slice {buf : List UInt8} {i n : ℕ} (h : i + n ≤ buf.length) :
    wire m n (unwire m (Bytes.slice buf i n)) = Bytes.slice buf i n := by
  have hw := wire_unwire m (Bytes.slice buf i n)
  rw [Bytes.length_slice h] at hw
  exact hw

lemma unwire_slice_lt {buf : List UInt8} {i n : ℕ} (h : i + n ≤ buf.length) :
    unwire m (Bytes.slice buf i n) < 256 ^ n := by
  have hlt := unwire_lt m (Bytes.slice buf i n)
  rw [Bytes.length_slice h] at hlt
  exact hlt

section

variable {protoMsg msg : ProtoRpcMessage π} {buf : List UInt8} {n : ℕ}

/-- The fields one after the other are what the checksum covers. -/
lemma frameBody_of_accepted (h : Accepted m protoMsg msg buf n) (hfresh : protoMsg.strName = [])
    (hzero : Bytes.slice buf (5 + nameLenField m buf) 1 = [0])
    (hlen : buf.length = 14 + nameLenField m buf + n) :
    frameBody m msg.ulSequeNum msg.strName (Bytes.slice buf (6 + nameLenField m buf + 4) n) =
      Bytes.slice buf 0 (buf.length - 4) := by
  have hu := h.named
  have hfield := h.field (by omega)
  have hulen : nameLenField m buf < 256 ^ 2 := unwire_slice_lt (by omega)
  have hname : msg.strName = nameIn m buf := by rw [h.name, hfresh, List.nil_append]
  have hnlen : (nameIn m buf).length = nameLenField m buf - 1 := Bytes.length_slice (by omega)
  have hnameLen : nameLen (nameIn m buf) = nameLenField m buf := by
    rw [nameLen_of_lt (by omega)]
    omega
  have hnameField : nameField (nameIn m buf) = Bytes.slice buf 6 (nameLenField m buf) := by
    have hsplit := Bytes.slice_add buf 6 (nameLenField m buf - 1) 1
    rw [show nameLenField m buf - 1 + 1 = nameLenField m buf by omega,
      show 6 + (nameLenField m buf - 1) = 5 + nameLenField m buf by omega, hzero] at hsplit
    unfold nameField
    rw [hnameLen, hsplit]
    refine List.take_of_length_le ?_
    rw [List.length_append, hnlen, List.length_singleton]
    omega
  have hmsgLen : wire m 4 n = Bytes.slice buf (6 + nameLenField m buf) 4 := by
    have hlt : unwire m (Bytes.slice buf (6 + nameLenField m buf) 4) < 2 ^ 32 :=
      unwire_slice_lt (by omega)
    rw [← Word.eq_of_toInt hlt hfield]
    exact wire_slice (by omega)
  have hulenBytes : wire m 2 (nameLenField m buf) = Bytes.slice buf 4 2 := wire_slice (by omega)
  have hpayload : (Bytes.slice buf (6 + nameLenField m buf + 4) n).length = n :=
    Bytes.length_slice (by omega)
  unfold frameBody
  rw [hname, hnameLen, hnameField, hpayload, hmsgLen, hulenBytes, h.seq, wire_slice (by omega),
    show buf.length - 4 = 4 + 2 + nameLenField m buf + 4 + n by omega]
  simp only [Bytes.slice_add buf 0, Nat.zero_add]

lemma frame_of_accepted (h : Accepted m protoMsg msg buf n) (hfresh : protoMsg.strName = [])
    (hzero : Bytes.slice buf (5 + nameLenField m buf) 1 = [0])
    (hlen : buf.length = 14 + nameLenField m buf + n) :
    frame m msg.ulSequeNum msg.strName (Bytes.slice buf (6 + nameLenField m buf + 4) n) = buf := by
  have hu : nameLenField m buf < 256 ^ 2 := unwire_slice_lt (by omega)
  have hn : (n : ℤ) < 2 ^ 31 := by
    have hlt := Word.two_mul_toInt_lt (w := 32) (by decide)
      (unwire m (Bytes.slice buf (6 + nameLenField m buf) 4))
    rw [← h.field (by omega), msgLenField]
    omega
  have hcovered : covered buf = Bytes.slice buf 0 (buf.length - 4) := by
    unfold covered
    rw [Nat.mod_eq_of_lt (by omega)]
  have hsum : wire m 4 (Word.ofInt 32 (adler32 m (Bytes.slice buf 0 (buf.length - 4)))) =
      Bytes.slice buf (buf.length - 4) 4 := by
    have hlt : unwire m (Bytes.slice buf (buf.length - 4) 4) < 2 ^ 32 :=
      unwire_slice_lt (by omega)
    rw [← hcovered, h.sum, sumField, Word.ofInt_toInt hlt]
    exact wire_slice (by omega)
  unfold frame
  rw [frameBody_of_accepted h hfresh hzero hlen, hsum]
  have hall := Bytes.slice_add buf 0 (buf.length - 4) 4
  rw [Nat.zero_add] at hall
  rw [← hall, show buf.length - 4 + 4 = buf.length by omega]
  exact List.take_length

lemma exact_of_lengths (hπ : π.PlainNames) (h : Accepted m protoMsg msg buf n)
    (hfresh : protoMsg.strName = []) (hexact : LengthsExact m buf) : ExactFrame m msg buf := by
  obtain ⟨hzero, k, hk, hlen⟩ := hexact
  obtain rfl : k = n := by
    have hfield := h.field (by omega)
    omega
  refine ⟨?_, ?_, ?_⟩
  · rw [h.nameLen, h.msgLen, hlen]
    push_cast
    rfl
  · refine ⟨nameIn m buf, ?_, ?_⟩
    · have hu := h.named
      have hsplit := Bytes.slice_add buf 6 (nameLenField m buf - 1) 1
      rw [show nameLenField m buf - 1 + 1 = nameLenField m buf by omega,
        show 6 + (nameLenField m buf - 1) = 5 + nameLenField m buf by omega, hzero] at hsplit
      rw [h.nameLen]
      exact hsplit
    · have hname := hπ _ h.known
      rw [h.name, hfresh, List.nil_append] at hname
      exact hname
  · rw [h.nameLen, h.msgLen, Int.toNat_natCast]
    exact frame_of_accepted h hfresh hzero hlen

lemma lengths_of_exact (h : Accepted m protoMsg msg buf n) (he : ExactFrame m msg buf) :
    LengthsExact m buf := by
  have hlen := he.length
  have hu := h.named
  rw [h.nameLen, h.msgLen] at hlen
  refine ⟨?_, n, h.field (by omega), by omega⟩
  obtain ⟨name, hname, -⟩ := he.name
  rw [h.nameLen] at hname
  have hcount := congrArg List.length hname
  rw [Bytes.length_slice (by omega), List.length_append, List.length_singleton] at hcount
  have hsplit := Bytes.slice_add buf 6 name.length 1
  rw [← hcount, hname, show 6 + name.length = 5 + nameLenField m buf by omega] at hsplit
  exact (List.append_inj_right' hsplit (by rw [Bytes.length_slice (by omega)]; rfl)).symm

end

/-- **Accepted buffers**: a buffer that decodes is one frame, and encodes back to itself, exactly
when its name field ends with a zero and its message reaches up to the checksum. -/
theorem exact_iff (hπ : π.PlainNames) {protoMsg msg : ProtoRpcMessage π} {buf : List UInt8}
    {walk : Option Cursor} (hfresh : protoMsg.strName = [])
    (h : decodingFromBuf m (some protoMsg) (some buf) = some (.ERR_NONE, some msg, walk)) :
    ExactFrame m msg buf ↔ LengthsExact m buf := by
  obtain ⟨⟨ret, msg', c⟩, hd, he⟩ := Option.map_eq_some_iff.mp h
  simp only [Prod.mk.injEq, Option.some.injEq] at he
  obtain ⟨rfl, rfl, -⟩ := he
  obtain ⟨n, hacc⟩ := decodeBuf_accepts hd
  exact ⟨lengths_of_exact hacc, exact_of_lengths hπ hacc hfresh⟩

lemma rawProtobuf_plainNames {types : List (List UInt8)} (h : ∀ name ∈ types, 0 ∉ name) :
    (rawProtobuf types).PlainNames := by
  intro name hname
  simp only [rawProtobuf] at hname
  split_ifs at hname with hmem
  · exact h name hmem
  · cases hname

/-- The frame of a message of type `"p.A"`. -/
def sampleFrame : List UInt8 := frame linux64 7 [112, 46, 65] [8, 1]

theorem sampleFrame_exact_iff :
    ExactFrame linux64 (π := rawProtobuf [[112, 46, 65]])
      ⟨7, 4, [112, 46, 65], 2, some sampleMessage, 0⟩ sampleFrame ↔
      LengthsExact linux64 sampleFrame := by
  have hcreate : createMessage (rawProtobuf [[112, 46, 65]]) [112, 46, 65] =
      some ([112, 46, 65], []) := rfl
  have hn : 7 < 2 ^ 32 := by decide
  have htotal : 14 + nameLen [112, 46, 65] + [(8 : UInt8), 1].length < 2 ^ 31 := by decide
  obtain ⟨c, hc⟩ := decodeBuf_frame hn (by decide) (by decide) htotal hcreate linux64
  exact exact_iff (rawProtobuf_plainNames (by decide)) rfl (decodingFromBuf_eq_some.mpr hc)

/-- The same frame with a byte more between the message and the checksum. -/
def paddedFrame : List UInt8 :=
  [0, 0, 0, 7, 4, 0, 112, 46, 65, 0, 0, 0, 0, 2, 8, 1, 9, 9, 183, 0, 255]

/-- It is accepted, and is longer than the frame of what was read from it. -/
theorem paddedFrame_accepted : ∃ (msg : ProtoRpcMessage (rawProtobuf [[112, 46, 65]]))
    (walk : Cursor), decodingFromBuf linux64 (some (ProtoRpcMessage.fresh _)) (some paddedFrame) =
      some (.ERR_NONE, some msg, some walk) ∧ ¬ ExactFrame linux64 msg paddedFrame := by
  have hread : (decodeBuf linux64 (ProtoRpcMessage.fresh (rawProtobuf [[112, 46, 65]]))
      paddedFrame).map (fun r => (r.1, r.2.1.usNameLen, r.2.1.lMsgLen)) =
        some (.ERR_NONE, 4, 2) := by decide +kernel
  obtain ⟨⟨ret, msg, walk⟩, hd, he⟩ := Option.map_eq_some_iff.mp hread
  obtain ⟨rfl, hu, hn⟩ := Prod.mk.inj he |>.imp_right Prod.mk.inj
  refine ⟨msg, walk, decodingFromBuf_eq_some.mpr hd, fun h => ?_⟩
  have hlen := h.length
  rw [hu, hn] at hlen
  simp [paddedFrame] at hlen

end MmrService.ProtoCodec
