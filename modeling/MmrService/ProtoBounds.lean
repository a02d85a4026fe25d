import MmrService.ProtoDecode

/-!
Where the decoder reads and writes.

The decoder tests the length of a buffer against the shortest frame and then follows the two
length fields without a test; a sender chooses both, and a checksum to go with them.
-/

namespace MmrService.ProtoCodec

open BufConvert

variable {π : Protobuf}

/-- Behind the checksum test every range lies before the checksum. -/
def InBounds (len : ℕ) (touched : List (ℕ × ℕ)) : Prop :=
  touched = [] ∨ ∃ rest, touched = sumRanges len ++ rest ∧ ∀ r ∈ rest, r.1 + r.2 ≤ len - 4

/-- A name length of zero or too large, or a message length negative or too large. -/
def BadLength (m : Machine) (buf : List UInt8) : Prop :=
  nameLenField m buf = 0 ∨ buf.length < 14 + nameLenField m buf ∨ msgLenField m buf < 0 ∨
    (buf.length : ℤ) < 14 + nameLenField m buf + msgLenField m buf

/-- Decoding the buffer is defined, stays in bounds, and fails on a bad length. -/
def DecodeSafe (m : Machine) (protoMsg : ProtoRpcMessage π) (buf : List UInt8) : Prop :=
  ∃ ret msg c, decodingFromBuf m (some protoMsg) (some buf) = some (ret, some msg, some c) ∧
    InBounds buf.length c.touched ∧ (BadLength m buf → ret ≠ .ERR_NONE)

/-- The buffer is turned down before its lengths are used, or they fit: the name is not empty
and ends before the checksum, and so do a message of a known type and its length field. -/
def LengthsFit (m : Machine) (protoMsg : ProtoRpcMessage π) (buf : List UInt8) : Prop :=
  buf.length < PROTO_MSG_MIN_LEN ∨ adler32 m (covered buf) ≠ sumField m buf ∨
  nameLenField m buf ≠ 0 ∧ 9 + nameLenField m buf ≤ buf.length ∧
    (createMessage π (protoMsg.strName ++ nameIn m buf) = none ∨
      14 + nameLenField m buf ≤ buf.length ∧
        (msgLenField m buf < 0 ∧ π.rejectsNegative = true ∨
          0 ≤ msgLenField m buf ∧
            14 + nameLenField m buf + msgLenField m buf ≤ (buf.length : ℤ)))

lemma inBounds_sum (len : ℕ) (rest : List (ℕ × ℕ)) (h : ∀ r ∈ rest, r.1 + r.2 ≤ len - 4) :
    InBounds len (sumRanges len ++ rest) := Or.inr ⟨rest, rfl, h⟩

/-- A range behind the header is in bounds only when it ends before the checksum. -/
lemma le_of_inBounds {len : ℕ} {rest : List (ℕ × ℕ)} {r : ℕ × ℕ}
    (h : InBounds len (sumRanges len ++ rest)) (hr : r ∈ rest) : r.1 + r.2 ≤ len - 4 := by
  rcases h with h | ⟨rest', h, hall⟩
  · simp [sumRanges] at h
  · rw [List.append_cancel_left_eq] at h
    exact hall r (h ▸ hr)

section

variable {m : Machine} {protoMsg : ProtoRpcMessage π} {buf : List UInt8}

lemma headerRanges_le (h : PROTO_MSG_MIN_LEN ≤ buf.length) :
    ∀ r ∈ headerRanges, r.1 + r.2 ≤ buf.length - 4 := by
  have hmin : PROTO_MSG_MIN_LEN = 16 := rfl
  intro r hr
  simp only [headerRanges, List.mem_cons, List.not_mem_nil, or_false] at hr
  rcases hr with rfl | rfl | rfl | rfl | rfl | rfl <;> simp only <;> omega

lemma named_inBounds (h : PROTO_MSG_MIN_LEN ≤ buf.length)
    (hlen : 9 + nameLenField m buf ≤ buf.length) :
    ∀ r ∈ headerRanges ++ [(6, nameLenField m buf - 1)], r.1 + r.2 ≤ buf.length - 4 := by
  have hmin : PROTO_MSG_MIN_LEN = 16 := rfl
  intro r hr
  rcases List.mem_append.mp hr with hr | hr
  · exact headerRanges_le h r hr
  · rw [List.mem_singleton.mp hr]
    simp only
    omega

lemma decodeSafe_of_fit (h : LengthsFit m protoMsg buf) : DecodeSafe m protoMsg buf := by
  have hmin : PROTO_MSG_MIN_LEN = 16 := rfl
  unfold DecodeSafe
  simp only [decodingFromBuf_eq_some]
  by_cases hsmall : buf.length < PROTO_MSG_MIN_LEN
  · exact ⟨_, _, _, decodeBuf_small hsmall m protoMsg, Or.inl rfl, fun _ => by simp⟩
  rw [not_lt] at hsmall
  by_cases hsum : adler32 m (covered buf) = sumField m buf
  swap
  · refine ⟨_, _, _, (decodeBuf_long hsmall m protoMsg).trans (if_pos hsum), ?_, fun _ => by simp⟩
    exact Or.inr ⟨[], by simp [afterSum, sumRanges], by simp⟩
  obtain ⟨hu, hlen, h⟩ :=
    (h.resolve_left (not_lt.mpr hsmall)).resolve_left (not_not.mpr hsum)
  have hnamed := named_inBounds hsmall hlen
  obtain ⟨d, hdlen, hslice, hdt, hnone, hsome⟩ := decodeBuf_named hsmall hsum hu hlen protoMsg
  rcases hname : createMessage π (protoMsg.strName ++ nameIn m buf) with _ | message
  · exact ⟨_, _, _, hnone hname, hdt ▸ inBounds_sum _ _ hnamed, fun _ => by simp⟩
  have hmsg := hsome message hname
  obtain ⟨hlen', h⟩ := h.resolve_left (by rw [hname]; simp)
  have hfield : Word.toInt 32 (unwire m (Bytes.slice d.buf (6 + nameLenField m buf) 4)) =
      msgLenField m buf := by rw [hslice _ _ (by omega) (by omega)]; rfl
  rcases h with ⟨hneg, hrej⟩ | ⟨hpos, hfit⟩
  · rw [decodeMessage_negative (by omega) (by rw [hfield]; exact hneg), if_pos hrej] at hmsg
    refine ⟨_, _, _, hmsg, ?_, fun _ => by simp⟩
    simp only [hdt, List.append_assoc]
    refine inBounds_sum _ _ fun r hr => ?_
    rw [← List.append_assoc] at hr
    rcases List.mem_append.mp hr with hr | hr
    · exact hnamed r hr
    · simp only [List.mem_cons, List.not_mem_nil, or_false, or_self] at hr
      rw [hr]; simp only; omega
  · obtain ⟨n, hn⟩ := Int.eq_ofNat_of_zero_le hpos
    rw [decodeMessage_some (n := n) (by omega) (by rw [hfield, hn]) (by omega)] at hmsg
    refine ⟨_, _, _, hmsg, ?_, fun hbad => ?_⟩
    · simp only [hdt, List.append_assoc]
      refine inBounds_sum _ _ fun r hr => ?_
      rw [← List.append_assoc] at hr
      rcases List.mem_append.mp hr with hr | hr
      · exact hnamed r hr
      · simp only [List.cons_append, List.nil_append, List.mem_cons, List.not_mem_nil,
          or_false] at hr
        rcases hr with rfl | rfl | rfl | rfl <;> simp only <;> omega
    · unfold BadLength at hbad
      omega

/-- What decoding a message has touched when it comes to an end. -/
lemma decodeMessage_touched {message : π.Message} {i : ℕ} {c c' : Cursor} {ret : EM_ErrCode}
    {msg : ProtoRpcMessage π} (h : decodeMessage m protoMsg message i c = some (ret, msg, c')) :
    ∃ rest, c'.touched = c.touched ++ (i, 4) :: rest ∧
      (Word.toInt 32 (unwire m (Bytes.slice c.buf i 4)) < 0 ∧ π.rejectsNegative = true ∨
        ∃ n : ℕ, Word.toInt 32 (unwire m (Bytes.slice c.buf i 4)) = n ∧ (i + 4, n) ∈ rest) := by
  by_cases hi : i + 4 ≤ c.buf.length
  swap
  · rw [decodeMessage_short (by omega)] at h; simp at h
  by_cases hneg : Word.toInt 32 (unwire m (Bytes.slice c.buf i 4)) < 0
  · rw [decodeMessage_negative hi hneg] at h
    split_ifs at h with hrej
    simp only [Option.some.injEq, Prod.mk.injEq] at h
    obtain ⟨-, -, rfl⟩ := h
    exact ⟨[(i, 4), (i, 4)], by simp, Or.inl ⟨hneg, hrej⟩⟩
  · obtain ⟨n, hn⟩ := Int.eq_ofNat_of_zero_le (not_lt.mp hneg)
    by_cases hlong : c.buf.length < i + 4 + n
    · rw [decodeMessage_long hi hn hlong] at h; simp at h
    · rw [decodeMessage_some hi hn (by omega)] at h
      simp only [Option.some.injEq, Prod.mk.injEq] at h
      obtain ⟨-, -, rfl⟩ := h
      exact ⟨[(i, 4), (i, 4), (i + 4, n)], by simp, Or.inr ⟨n, hn, by simp⟩⟩

lemma decodeName_touched {c c' : Cursor} {ret : EM_ErrCode} {msg : ProtoRpcMessage π}
    (h : decodeName m protoMsg c = some (ret, msg, c')) : protoMsg.usNameLen ≠ 0 ∧
      ∃ rest, c'.touched = c.touched ++ (6, protoMsg.usNameLen - 1) :: rest := by
  by_cases hu : protoMsg.usNameLen = 0
  · rw [decodeName_zero hu] at h; simp at h
  by_cases hlen : c.buf.length < 6 + (protoMsg.usNameLen - 1)
  · rw [decodeName_short hlen] at h; simp at h
  rw [not_lt] at hlen
  refine ⟨hu, ?_⟩
  rcases hname : createMessage π
    (protoMsg.strName ++ Bytes.slice c.buf 6 (protoMsg.usNameLen - 1)) with _ | message
  · rw [decodeName_unknown hu hlen hname] at h
    simp only [Option.some.injEq, Prod.mk.injEq] at h
    obtain ⟨-, -, rfl⟩ := h
    exact ⟨[], rfl⟩
  · rw [decodeName_known hu hlen hname] at h
    obtain ⟨rest, hrest, -⟩ := decodeMessage_touched h
    exact ⟨(6 + protoMsg.usNameLen, 4) :: rest, by rw [hrest]; simp⟩

lemma fit_of_decodeSafe (h : DecodeSafe m protoMsg buf) : LengthsFit m protoMsg buf := by
  have hmin : PROTO_MSG_MIN_LEN = 16 := rfl
  unfold DecodeSafe at h
  simp only [decodingFromBuf_eq_some] at h
  obtain ⟨ret, msg, c, hdec, hin, hbad⟩ := h
  by_cases hsmall : buf.length < PROTO_MSG_MIN_LEN
  · exact Or.inl hsmall
  rw [not_lt] at hsmall
  by_cases hsum : adler32 m (covered buf) = sumField m buf
  swap
  · exact Or.inr (Or.inl hsum)
  refine Or.inr (Or.inr ?_)
  have hname : nameLenField m buf ≠ 0 ∧ 9 + nameLenField m buf ≤ buf.length := by
    obtain ⟨d, hd, -, -, hdt⟩ := decodeBuf_summed hsmall hsum protoMsg
    obtain ⟨hu, rest, hrest⟩ := decodeName_touched (hd.symm.trans hdec)
    rw [hrest, hdt, List.append_assoc] at hin
    have hle := le_of_inBounds hin (List.mem_append_right _ List.mem_cons_self)
    simp only at hu hle
    exact ⟨hu, by omega⟩
  obtain ⟨hu, hlen⟩ := hname
  refine ⟨hu, hlen, ?_⟩
  obtain ⟨d, hdlen, hslice, hdt, -, hsome⟩ := decodeBuf_named hsmall hsum hu hlen protoMsg
  rcases hmsg : createMessage π (protoMsg.strName ++ nameIn m buf) with _ | message
  · exact Or.inl rfl
  have hmsg := hsome message hmsg
  obtain ⟨rest, hrest, hcases⟩ := decodeMessage_touched (hmsg.symm.trans hdec)
  rw [hrest, hdt, List.append_assoc] at hin
  have hle := le_of_inBounds hin (List.mem_append_right _ List.mem_cons_self)
  simp only at hle
  have hfield : Word.toInt 32 (unwire m (Bytes.slice d.buf (6 + nameLenField m buf) 4)) =
      msgLenField m buf := by rw [hslice _ _ (by omega) (by omega)]; rfl
  rw [hfield] at hcases
  refine Or.inr ⟨by omega, ?_⟩
  rcases hcases with hneg | ⟨n, hn, hmem⟩
  · exact Or.inl hneg
  · have hle := le_of_inBounds hin (List.mem_append_right _ (List.mem_cons_of_mem _ hmem))
    simp only at hle
    exact Or.inr ⟨by omega, by omega⟩

/-- **Bounds of the decoder**: decoding is defined, stays before the checksum and turns down bad
lengths exactly when the buffer fails an earlier test or its lengths fit. -/
theorem decodeSafe_iff (m : Machine) (protoMsg : ProtoRpcMessage π) (buf : List UInt8) :
    DecodeSafe m protoMsg buf ↔ LengthsFit m protoMsg buf :=
  ⟨fit_of_decodeSafe, decodeSafe_of_fit⟩

end

/-- Sixteen bytes with a name length of 65535 and the checksum to go with it. -/
def longName : List UInt8 := [0, 0, 0, 1, 255, 255, 0, 0, 0, 0, 0, 0, 0, 6, 0, 0]

/-- The decoder reads the name past the end of the buffer. -/
theorem longName_out_of_bounds :
    ¬ DecodeSafe linux64 (ProtoRpcMessage.fresh (rawProtobuf [])) longName := by
  rintro ⟨ret, msg, c, h, -⟩
  have hnone : (decodingFromBuf linux64 (some (ProtoRpcMessage.fresh (rawProtobuf [])))
      (some longName)).isNone = true := by decide +kernel
  rw [h] at hnone
  simp at hnone

end MmrService.ProtoCodec
