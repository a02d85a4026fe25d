import MmrService.ProtoDecode

/-!
Frames read back, on the machine that wrote them and on one of the other byte order.
-/

namespace MmrService.ProtoCodec

open BufConvert

variable {m : Machine} {π : Protobuf}

/-! ### The fields of a frame -/

section Frame

variable {n : ℕ} {name payload : List UInt8}

lemma length_frame_sub (m : Machine) (n : ℕ) (name payload : List UInt8) :
    (frame m n name payload).length - 4 = (frameBody m n name payload).length := by
  rw [length_frame, length_frameBody]; omega

lemma covered_frame (h : 14 + nameLen name + payload.length < 2 ^ 31) (m : Machine) (n : ℕ) :
    covered (frame m n name payload) = frameBody m n name payload := by
  have hlen := length_frameBody m n name payload
  unfold covered
  rw [length_frame_sub, Nat.mod_eq_of_lt (by omega)]
  exact Bytes.slice_eq [] _ rfl rfl rfl

lemma toInt_unwire_sum (m : Machine) (buf : List UInt8) :
    Word.toInt 32 (unwire m (wire m 4 (Word.ofInt 32 (adler32 m buf)))) = adler32 m buf := by
  have hr := adler32_range m buf
  have hlt := Word.ofInt_lt 32 (adler32 m buf)
  rw [unwire_wire, Nat.mod_eq_of_lt (by exact hlt), Word.toInt_ofInt hr.1 hr.2]

lemma slice_sum (m : Machine) (n : ℕ) (name payload : List UInt8) :
    Bytes.slice (frame m n name payload) ((frame m n name payload).length - 4) 4 =
      wire m 4 (Word.ofInt 32 (adler32 m (frameBody m n name payload))) := by
  rw [length_frame_sub]
  exact Bytes.slice_eq _ [] (List.append_nil _).symm rfl (by simp)

/-- A frame passes the checksum test of the machine that wrote it. -/
lemma sumField_frame (m : Machine) (n : ℕ) (name payload : List UInt8) :
    sumField m (frame m n name payload) = adler32 m (frameBody m n name payload) := by
  unfold sumField
  rw [slice_sum, toInt_unwire_sum]

lemma slice_seq (m : Machine) (n : ℕ) (name payload : List UInt8) :
    Bytes.slice (frame m n name payload) 0 4 = wire m 4 n := by
  refine Bytes.slice_eq [] (wire m 2 (nameLen name) ++ nameField name ++
    wire m 4 payload.length ++ payload ++
    wire m 4 (Word.ofInt 32 (adler32 m (frameBody m n name payload)))) ?_ rfl (by simp)
  simp only [frame, frameBody, List.nil_append, List.append_assoc]

lemma slice_nameLen (m : Machine) (n : ℕ) (name payload : List UInt8) :
    Bytes.slice (frame m n name payload) 4 2 = wire m 2 (nameLen name) := by
  refine Bytes.slice_eq (wire m 4 n) (nameField name ++
    wire m 4 payload.length ++ payload ++
    wire m 4 (Word.ofInt 32 (adler32 m (frameBody m n name payload)))) ?_ (by simp) (by simp)
  simp only [frame, frameBody, List.append_assoc]

lemma slice_msgLen (m : Machine) (n : ℕ) (name payload : List UInt8) :
    Bytes.slice (frame m n name payload) (6 + nameLen name) 4 = wire m 4 payload.length := by
  refine Bytes.slice_eq (wire m 4 n ++ wire m 2 (nameLen name) ++ nameField name)
    (payload ++
      wire m 4 (Word.ofInt 32 (adler32 m (frameBody m n name payload)))) ?_ (by simp; omega)
    (by simp)
  simp only [frame, frameBody, List.append_assoc]

lemma slice_payload (m : Machine) (n : ℕ) (name payload : List UInt8) :
    Bytes.slice (frame m n name payload) (6 + nameLen name + 4) payload.length = payload := by
  refine Bytes.slice_eq (wire m 4 n ++ wire m 2 (nameLen name) ++ nameField name ++
    wire m 4 payload.length)
    (wire m 4 (Word.ofInt 32 (adler32 m (frameBody m n name payload)))) ?_
    (by simp; omega) rfl
  simp only [frame, frameBody]

lemma nameLenField_frame (m : Machine) (n : ℕ) (name payload : List UInt8) :
    nameLenField m (frame m n name payload) = nameLen name := by
  unfold nameLenField
  rw [slice_nameLen, unwire_wire]
  exact Nat.mod_eq_of_lt (Nat.mod_lt _ (by omega))

lemma msgLenField_frame (name : List UInt8) (h : payload.length < 2 ^ 31) (m : Machine) (n : ℕ) :
    msgLenField m (frame m n name payload) = payload.length := by
  unfold msgLenField
  rw [nameLenField_frame, slice_msgLen, unwire_wire, Nat.mod_eq_of_lt (by omega),
    Word.toInt_natCast (by omega)]

lemma nameLen_of_lt (h : name.length < 65535) : nameLen name = name.length + 1 :=
  Nat.mod_eq_of_lt (by omega)

lemma nameIn_frame_take (m : Machine) (n : ℕ) (name payload : List UInt8) :
    nameIn m (frame m n name payload) = (nameField name).take (nameLen name - 1) := by
  have hsplit : (nameField name).take (nameLen name - 1) ++
      (nameField name).drop (nameLen name - 1) = nameField name := List.take_append_drop _ _
  unfold nameIn
  rw [nameLenField_frame]
  refine Bytes.slice_eq (wire m 4 n ++ wire m 2 (nameLen name))
    ((nameField name).drop (nameLen name - 1) ++ wire m 4 payload.length ++ payload ++
      wire m 4 (Word.ofInt 32 (adler32 m (frameBody m n name payload)))) ?_ (by simp) (by simp)
  unfold frame
  generalize adler32 m (frameBody m n name payload) = sum
  unfold frameBody
  conv_lhs => rw [← hsplit]
  simp only [List.append_assoc]

lemma nameIn_frame (h : name.length < 65535) (m : Machine) (n : ℕ) :
    nameIn m (frame m n name payload) = name := by
  have hfield : nameField name = name ++ [0] := by
    unfold nameField
    rw [nameLen_of_lt h]
    exact List.take_of_length_le (by simp)
  rw [nameIn_frame_take, hfield, nameLen_of_lt h]
  exact List.take_left

/-- A frame of a type that the decoder knows comes back as it went in. -/
lemma decodeBuf_frame {prototype : π.Message} (hn : n < 2 ^ 32) (hname : name ≠ [])
    (hlt : name.length < 65535) (htotal : 14 + nameLen name + payload.length < 2 ^ 31)
    (hcreate : createMessage π name = some prototype) (m : Machine) : ∃ c : Cursor,
    decodeBuf m (ProtoRpcMessage.fresh π) (frame m n name payload) =
      some (if (π.ParseFromArray prototype payload).2 then .ERR_NONE else .ERR_PARSE,
        { ulSequeNum := n
          usNameLen := nameLen name
          strName := name
          lMsgLen := payload.length
          protoMsgPtr := some (π.ParseFromArray prototype payload).1
          lCheckSum := 0 }, c) := by
  have hu := nameLen_of_lt hlt
  have hpos : 0 < name.length := List.length_pos_iff.mpr hname
  have hlen := length_frame m n name payload
  have hmin : PROTO_MSG_MIN_LEN = 16 := rfl
  have hseq : unwire m (Bytes.slice (frame m n name payload) 0 4) = n := by
    rw [slice_seq, unwire_wire]; exact Nat.mod_eq_of_lt hn
  obtain ⟨c, hc⟩ := decodeBuf_fits (ProtoRpcMessage.fresh π) (n := payload.length)
    (by rw [covered_frame htotal, sumField_frame]) (by rw [nameLenField_frame]; omega)
    (by rw [nameIn_frame hlt]; exact hcreate) (msgLenField_frame name (by omega) m n)
    (by rw [nameLenField_frame, hlen]) (by omega)
  refine ⟨c, hc.trans ?_⟩
  simp only [named, nameLenField_frame, slice_payload, hseq, nameIn_frame hlt]
  rfl

end Frame

/-! ### The same machine -/

/-- What the codec takes from protobuf: a message of a size that fits an `int` serialises into
that many bytes, a message parses back from them, and a registered name creates a message of
its type. -/
structure Protobuf.Lawful (π : Protobuf) : Prop where
  serialize : ∀ message, π.ByteSizeLong message < 2 ^ 31 →
    ∃ bs, π.SerializeToArray message (π.ByteSizeLong message) = some bs ∧
      bs.length = π.ByteSizeLong message
  parse : ∀ message bs prototype, π.SerializeToArray message (π.ByteSizeLong message) = some bs →
    π.GetTypeName prototype = π.GetTypeName message →
      π.ParseFromArray prototype bs = (message, true)
  create : ∀ name descriptor, π.FindMessageTypeByName name = some descriptor →
    ∃ prototype, π.GetPrototype descriptor = some prototype ∧ π.GetTypeName (π.New prototype) = name

lemma Protobuf.Lawful.createMessage (hπ : π.Lawful) {name : List UInt8}
    (h : (π.FindMessageTypeByName name).isSome) :
    ∃ prototype, createMessage π name = some prototype ∧ π.GetTypeName prototype = name := by
  obtain ⟨descriptor, hd⟩ := Option.isSome_iff_exists.mp h
  obtain ⟨prototype, hp, hname⟩ := hπ.create name descriptor hd
  refine ⟨π.New prototype, ?_, hname⟩
  unfold ProtoCodec.createMessage
  rw [hd, Option.bind_eq_bind, Option.bind_some, hp]
  rfl

lemma Protobuf.Lawful.encodable (hπ : π.Lawful) (message : π.Message)
    (h : 14 + nameLen (π.GetTypeName message) + π.ByteSizeLong message < 2 ^ 31) :
    ∃ payload, Encodable message payload := by
  obtain ⟨bs, hser, hlen⟩ := hπ.serialize message (by omega)
  exact ⟨bs, hser, hlen, by omega⟩

/-- **Round trip**: what `codingToBuf` writes, `decodingFromBuf` reads back. -/
theorem coding_decoding (hπ : π.Lawful) (m : Machine) {protoMsg : ProtoRpcMessage π}
    {message : π.Message} (hmsg : protoMsg.protoMsgPtr = some message)
    (hseq : protoMsg.ulSequeNum < 2 ^ 32) (hname : π.GetTypeName message ≠ [])
    (hlt : (π.GetTypeName message).length < 65535)
    (hreg : (π.FindMessageTypeByName (π.GetTypeName message)).isSome)
    (hsize : 14 + ((π.GetTypeName message).length + 1) + π.ByteSizeLong message < 2 ^ 31) :
    ∃ sent buf received walk, codingToBuf m protoMsg = some (.ERR_NONE, sent, buf) ∧
      decodingFromBuf m (some (ProtoRpcMessage.fresh π)) (some buf) =
        some (.ERR_NONE, some received, some walk) ∧
      received.ulSequeNum = protoMsg.ulSequeNum ∧
      received.strName = π.GetTypeName message ∧ received.protoMsgPtr = some message := by
  have hu := nameLen_of_lt hlt
  obtain ⟨payload, henc⟩ := hπ.encodable message (by omega)
  obtain ⟨prototype, hcreate, htype⟩ := hπ.createMessage hreg
  have hparse := hπ.parse message payload prototype henc.serialize htype
  obtain ⟨c, hc⟩ := decodeBuf_frame hseq hname hlt henc.total hcreate m
  rw [hparse, if_pos rfl] at hc
  exact ⟨_, _, _, c, codingToBuf_eq hmsg henc m, decodingFromBuf_eq_some.mpr hc, rfl, rfl, rfl⟩

lemma rawProtobuf_lawful (types : List (List UInt8)) : (rawProtobuf types).Lawful where
  serialize message _ := ⟨message.2, if_pos le_rfl, rfl⟩
  parse message bs prototype hser htype := by
    have hbs : message.2 = bs := by
      simp only [rawProtobuf, le_refl, if_true, Option.some.injEq] at hser
      exact hser
    have hname : prototype.1 = message.1 := htype
    change ((prototype.1, bs), true) = (message, true)
    rw [hname, ← hbs]
    rfl
  create name descriptor h := by
    simp only [rawProtobuf] at h ⊢
    split_ifs at h
    exact ⟨_, rfl, (Option.some.inj h).symm⟩

/-- A message of the type `"p.A"` with one field. -/
def sampleMessage : List UInt8 × List UInt8 := ([112, 46, 65], [8, 1])

lemma sampleMessage_encodable :
    Encodable (π := rawProtobuf [[112, 46, 65]]) sampleMessage [8, 1] :=
  ⟨by decide, by decide, by decide⟩

/-- The message comes back on a little-endian machine. -/
theorem sampleMessage_round_trip : ∃ sent buf received walk,
    codingToBuf linux64 (π := rawProtobuf [[112, 46, 65]]) ⟨7, 0, [], 0, some sampleMessage, 0⟩ =
      some (.ERR_NONE, sent, buf) ∧
    decodingFromBuf linux64 (some (ProtoRpcMessage.fresh (rawProtobuf [[112, 46, 65]])))
      (some buf) = some (.ERR_NONE, some received, some walk) ∧
    received.ulSequeNum = 7 ∧ received.strName = [112, 46, 65] ∧
    received.protoMsgPtr = some sampleMessage :=
  coding_decoding (rawProtobuf_lawful [[112, 46, 65]]) linux64
    (show ProtoRpcMessage.protoMsgPtr (π := rawProtobuf [[112, 46, 65]])
      ⟨7, 0, [], 0, some sampleMessage, 0⟩ = some sampleMessage from rfl)
    (by decide) (by decide) (by decide) (by decide) (by decide)

end MmrService.ProtoCodec
