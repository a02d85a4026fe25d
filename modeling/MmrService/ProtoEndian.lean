import MmrService.ProtoRoundTrip

/-!
Frames on machines of either byte order.

`protoFlipBuf` leaves buffers of two bytes alone, so the name length is the one field of a
frame that stands in the byte order of the machine that wrote it.
-/

namespace MmrService.ProtoCodec

open BufConvert

variable {m : Machine} {π : Protobuf}

/-- The machine with a byte order. -/
def withOrder (m : Machine) (big : Bool) : Machine := { m with bigEndian := big }

/-- An integer of `n` bytes in big-endian order. -/
def bigEndian (n x : ℕ) : List UInt8 := (Bytes.toLE n x).reverse

lemma adler32_withOrder (m : Machine) (big : Bool) (buf : List UInt8) :
    adler32 (withOrder m big) buf = adler32 m buf := rfl

/-! ### What a frame decodes to -/

/-- The result and the message of decoding a buffer into a fresh message. -/
def decoded (m : Machine) (π : Protobuf) (buf : List UInt8) :
    Option (EM_ErrCode × Option (ProtoRpcMessage π)) :=
  (decodingFromBuf m (some (ProtoRpcMessage.fresh π)) (some buf)).map fun r => (r.1, r.2.1)

lemma decoded_of_decodeBuf {buf : List UInt8} {ret : EM_ErrCode} {msg : ProtoRpcMessage π}
    {c : Cursor} (h : decodeBuf m (ProtoRpcMessage.fresh π) buf = some (ret, msg, c)) :
    decoded m π buf = some (ret, some msg) := by
  unfold decoded
  rw [decodingFromBuf_eq_some.mpr h]
  rfl

/-- What a frame decodes to, in terms of what went into it. -/
def decodedFrame (π : Protobuf) (n : ℕ) (name payload : List UInt8) :
    Option (EM_ErrCode × Option (ProtoRpcMessage π)) :=
  let shown := (nameField name).take (nameLen name - 1)
  if 14 + nameLen name + payload.length < PROTO_MSG_MIN_LEN then
    some (.ERR_INVALID_LENGTH, some (ProtoRpcMessage.fresh π))
  else if nameLen name = 0 then none
  else match createMessage π shown with
    | none => some (.ERR_UNKNOWN_MSG_TYPE,
        some ⟨n % 256 ^ 4, nameLen name, shown, 0, none, 0⟩)
    | some prototype =>
      some (if (π.ParseFromArray prototype payload).2 then .ERR_NONE else .ERR_PARSE,
        some ⟨n % 256 ^ 4, nameLen name, shown, payload.length,
          some (π.ParseFromArray prototype payload).1, 0⟩)

lemma decodedFrame_ne_checkSum {n : ℕ} {name payload : List UInt8}
    {r : EM_ErrCode × Option (ProtoRpcMessage π)} (h : decodedFrame π n name payload = some r) :
    r.1 ≠ .ERR_CHECK_SUM := by
  unfold decodedFrame at h
  simp only at h
  split_ifs at h
  · rw [← Option.some.inj h]; simp
  · split at h
    · rw [← Option.some.inj h]; simp
    · rw [← Option.some.inj h]; simp only; split_ifs <;> simp

/-- A frame decodes, on the machine that wrote it, to what went into it. -/
lemma decoded_frame {n : ℕ} {name payload : List UInt8}
    (h : 14 + nameLen name + payload.length < 2 ^ 31) (m : Machine) :
    decoded m π (frame m n name payload) = decodedFrame π n name payload := by
  have hlen := length_frame m n name payload
  have hmin : PROTO_MSG_MIN_LEN = 16 := rfl
  have hsum :
      adler32 m (covered (frame m n name payload)) = sumField m (frame m n name payload) := by
    rw [covered_frame h, sumField_frame]
  have hu := nameLenField_frame m n name payload
  have hnm := nameIn_frame_take m n name payload
  have hseq : unwire m (Bytes.slice (frame m n name payload) 0 4) = n % 256 ^ 4 := by
    rw [slice_seq, unwire_wire]
  unfold decodedFrame
  simp only
  split_ifs with hsmall hzero
  · exact decoded_of_decodeBuf (decodeBuf_small (by omega) _ _)
  · obtain ⟨d, hd, -⟩ := decodeBuf_summed (π := π) (by omega) hsum (ProtoRpcMessage.fresh π)
    rw [decodeName_zero (by simp only; omega)] at hd
    unfold decoded decodingFromBuf
    simp only [hd]
    rfl
  · rcases hcreate : createMessage π ((nameField name).take (nameLen name - 1)) with _ | prototype
    · obtain ⟨c, -, -, -, hc, -⟩ := decodeBuf_named (by omega) hsum (by omega) (by omega)
        (ProtoRpcMessage.fresh π)
      rw [decoded_of_decodeBuf (hc (by rw [hnm]; exact hcreate)), named, hseq, hu, hnm]
      rfl
    · obtain ⟨c, hc⟩ := decodeBuf_fits (ProtoRpcMessage.fresh π) hsum (by omega)
        (by rw [hnm]; exact hcreate) (msgLenField_frame name (by omega) m n) (by omega) (by omega)
      rw [decoded_of_decodeBuf hc, named, hseq, hu, hnm, slice_payload]
      rfl

/-! ### Two byte orders -/

/-- Both byte orders write the same frame, its integer fields are big-endian, and it decodes to
the same fields on both. -/
def Portable (m : Machine) (protoMsg : ProtoRpcMessage π) : Prop :=
  ∃ little big buf, codingToBuf (withOrder m false) protoMsg = some (.ERR_NONE, little, buf) ∧
    codingToBuf (withOrder m true) protoMsg = some (.ERR_NONE, big, buf) ∧
    Bytes.slice buf 0 4 = bigEndian 4 little.ulSequeNum ∧
    Bytes.slice buf 4 2 = bigEndian 2 little.usNameLen ∧
    Bytes.slice buf (6 + little.usNameLen) 4 =
      bigEndian 4 (buf.length - 14 - little.usNameLen) ∧
    Bytes.slice buf (buf.length - 4) 4 =
      bigEndian 4 (Word.ofInt 32 (adler32 m (Bytes.slice buf 0 (buf.length - 4)))) ∧
    decoded (withOrder m false) π buf = decoded (withOrder m true) π buf

/-- The two bytes of a name length are equal. -/
def EvenBytes (u : ℕ) : Prop := u % 256 = u / 256

lemma toLE_two (x : ℕ) : Bytes.toLE 2 x = [UInt8.ofNat x, UInt8.ofNat (x / 256)] := rfl

lemma reverse_toLE_two {u : ℕ} (h : u < 2 ^ 16) :
    (Bytes.toLE 2 u).reverse = Bytes.toLE 2 u ↔ EvenBytes u := by
  have hinj : UInt8.ofNat u = UInt8.ofNat (u / 256) ↔ u % 256 = u / 256 := by
    rw [← UInt8.toNat_inj, UInt8.toNat_ofNat', UInt8.toNat_ofNat']
    omega
  rw [toLE_two]
  simp only [List.reverse_cons, List.reverse_nil, List.nil_append, List.singleton_append,
    List.cons.injEq, and_true]
  rw [eq_comm (a := UInt8.ofNat (u / 256)), and_self, hinj]
  rfl

lemma wire_withOrder {n : ℕ} (h : 2 < n) (m : Machine) (x : ℕ) (big : Bool) :
    wire (withOrder m big) n x = bigEndian n x := wire_of_two_lt _ x h

lemma wire_two_little (m : Machine) (x : ℕ) : wire (withOrder m false) 2 x = Bytes.toLE 2 x := by
  rw [wire_two]; rfl

lemma wire_two_big (m : Machine) (x : ℕ) : wire (withOrder m true) 2 x = bigEndian 2 x := by
  rw [wire_two]; rfl

/-- The frames of the two byte orders agree when the bytes of the name length do. -/
lemma frame_withOrder {name : List UInt8} (h : EvenBytes (nameLen name)) (m : Machine) (n : ℕ)
    (payload : List UInt8) :
    frame (withOrder m false) n name payload = frame (withOrder m true) n name payload := by
  have hu : nameLen name < 2 ^ 16 := Nat.mod_lt _ (by omega)
  have htwo : wire (withOrder m false) 2 (nameLen name) =
      wire (withOrder m true) 2 (nameLen name) := by
    rw [wire_two_little, wire_two_big]
    exact ((reverse_toLE_two hu).mpr h).symm
  have hbody : frameBody (withOrder m false) n name payload =
      frameBody (withOrder m true) n name payload := by
    unfold frameBody
    simp only [htwo, wire_withOrder (show 2 < 4 by omega)]
  unfold frame
  simp only [hbody, adler32_withOrder, wire_withOrder (show 2 < 4 by omega)]

/-- **Byte orders**: a message has the same frame on machines of either byte order, and crosses
between them, exactly when the two bytes of its name length are equal. -/
theorem portable_iff {protoMsg : ProtoRpcMessage π} {message : π.Message} {payload : List UInt8}
    (hmsg : protoMsg.protoMsgPtr = some message) (henc : Encodable message payload) (m : Machine) :
    Portable m protoMsg ↔ EvenBytes (nameLen (π.GetTypeName message)) := by
  have hu : nameLen (π.GetTypeName message) < 2 ^ 16 := Nat.mod_lt _ (by omega)
  have hlittle := codingToBuf_eq hmsg henc (withOrder m false)
  have hbig := codingToBuf_eq hmsg henc (withOrder m true)
  constructor
  · rintro ⟨little, big, buf, hl, hb, -, hfield, -⟩
    rw [hlittle] at hl
    simp only [Option.some.injEq, Prod.mk.injEq, true_and] at hl
    obtain ⟨rfl, rfl⟩ := hl
    rw [slice_nameLen, wire_two_little] at hfield
    exact (reverse_toLE_two hu).mp hfield.symm
  · intro heven
    have hsame := frame_withOrder heven m protoMsg.ulSequeNum payload
    refine ⟨_, _, _, hlittle, hsame ▸ hbig, ?_, ?_, ?_, ?_, ?_⟩
    · rw [slice_seq, wire_withOrder (by omega)]
    · rw [slice_nameLen, wire_two_little]
      exact ((reverse_toLE_two hu).mpr heven).symm
    · rw [slice_msgLen, wire_withOrder (by omega), length_frame]
      congr 1
      simp only
      omega
    · have hbody : Bytes.slice (frame (withOrder m false) protoMsg.ulSequeNum
          (π.GetTypeName message) payload) 0 (frameBody (withOrder m false) protoMsg.ulSequeNum
          (π.GetTypeName message) payload).length = frameBody (withOrder m false)
          protoMsg.ulSequeNum (π.GetTypeName message) payload :=
        Bytes.slice_eq [] _ rfl rfl rfl
      rw [slice_sum, wire_withOrder (by omega), length_frame_sub, hbody, adler32_withOrder]
    · rw [decoded_frame henc.total, hsame, decoded_frame henc.total]

/-- A call of the message of type `"p.A"`. -/
def sampleCall : ProtoRpcMessage (rawProtobuf [[112, 46, 65]]) :=
  ⟨7, 0, [], 0, some sampleMessage, 0⟩

theorem sampleCall_portable_iff : Portable linux64 sampleCall ↔ EvenBytes 4 :=
  portable_iff (π := rawProtobuf [[112, 46, 65]]) rfl sampleMessage_encodable linux64

/-- The name length 4 is written `4, 0` by one byte order and `0, 4` by the other. -/
theorem sampleCall_not_portable : ¬ Portable linux64 sampleCall := by
  rintro ⟨little, big, buf, hl, hb, -⟩
  have hne : (codingToBuf (withOrder linux64 false) sampleCall).map (fun r => r.2.2) ≠
      (codingToBuf (withOrder linux64 true) sampleCall).map (fun r => r.2.2) := by decide +kernel
  rw [hl, hb] at hne
  exact hne rfl

end MmrService.ProtoCodec
