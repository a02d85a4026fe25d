import MmrService.ProtoServer

/-!
What is left of a buffer that is turned down.

The decoder flips fields in place: the checksum, the sequence number and, behind a known name,
the message length. A buffer is sent back as it came only where these flips change nothing or
undo each other.
-/

namespace MmrService.ProtoServer

open BufConvert ProtoCodec

variable {m : Machine} {π : Protobuf} {κ : Type}

/-! ### Flips -/

/-- The four bytes at `i` read the same in both orders, or the build flips nothing. -/
def SameReversed (m : Machine) (buf : List UInt8) (i : ℕ) : Prop :=
  m.bigEndian = true ∨ (Bytes.slice buf i 4).reverse = Bytes.slice buf i 4

lemma flip_eq_self_iff {bs : List UInt8} (h : 2 < bs.length) :
    protoFlipBuf m bs = bs ↔ m.bigEndian = true ∨ bs.reverse = bs := by
  rw [protoFlipBuf_eq]
  cases hm : m.bigEndian <;> simp [h]

lemma flipped_append (pre bs post : List UInt8) :
    flipped m (pre ++ bs ++ post) pre.length bs.length = pre ++ protoFlipBuf m bs ++ post := by
  unfold flipped
  rw [Bytes.slice_append, Bytes.patch_append _ _ (length_protoFlipBuf m bs)]

lemma flipped_eq_self {buf : List UInt8} {i n : ℕ} (h : i + n ≤ buf.length) :
    flipped m buf i n = buf ↔ protoFlipBuf m (Bytes.slice buf i n) = Bytes.slice buf i n := by
  obtain ⟨pre, bs, post, rfl, rfl, rfl⟩ := Bytes.exists_split h
  rw [flipped_append, Bytes.slice_append, List.append_left_inj, List.append_right_inj]

lemma flipped_four {buf : List UInt8} {i : ℕ} (h : i + 4 ≤ buf.length) :
    flipped m buf i 4 = buf ↔ SameReversed m buf i := by
  rw [flipped_eq_self h, flip_eq_self_iff (by rw [Bytes.length_slice h]; omega)]
  rfl

/-- Two bytes are not flipped. -/
lemma flipped_two {buf : List UInt8} {i : ℕ} (h : i + 2 ≤ buf.length) :
    flipped m buf i 2 = buf := by
  rw [flipped_eq_self h, protoFlipBuf_eq, if_neg (by rw [Bytes.length_slice h]; omega)]

lemma flipped_flipped {buf : List UInt8} {i n : ℕ} (h : i + n ≤ buf.length) :
    flipped m (flipped m buf i n) i n = buf := by
  obtain ⟨pre, bs, post, rfl, rfl, rfl⟩ := Bytes.exists_split h
  have hf := flipped_append (m := m) pre (protoFlipBuf m bs) post
  rw [length_protoFlipBuf, protoFlipBuf_flip] at hf
  rw [flipped_append, hf]

lemma flipped_bigEndian {buf : List UInt8} {i n : ℕ} (hm : m.bigEndian = true)
    (h : i + n ≤ buf.length) : flipped m buf i n = buf := by
  rw [flipped_eq_self h, protoFlipBuf_eq, if_neg (by simp [hm])]

/-- On a build that flips, four bytes at an offset inside the buffer. -/
lemma flipped_at (hm : m.bigEndian = false) {pre bs post : List UInt8} {i : ℕ}
    (hi : pre.length = i) (hbs : bs.length = 4) :
    flipped m (pre ++ bs ++ post) i 4 = pre ++ bs.reverse ++ post := by
  rw [← hi, ← hbs, flipped_append, protoFlipBuf_eq, if_pos ⟨by simp [hm], by omega⟩]

lemma sameReversed_at (hm : m.bigEndian = false) {pre bs post : List UInt8} {i : ℕ}
    (hi : pre.length = i) (hbs : bs.length = 4) :
    SameReversed m (pre ++ bs ++ post) i ↔ bs.reverse = bs := by
  unfold SameReversed
  rw [Bytes.slice_eq pre post rfl hi hbs]
  simp [hm]

/-- The last four bytes `v`, and then the four bytes `a` with `post` behind them, which overlap
where `post` is short: both flips change nothing when together they do not. -/
lemma flipped_overlap (hm : m.bigEndian = false) {pre a post u v w z : List UInt8}
    (ha : a.length = 4) (hv : v.length = 4) (hw : w.length = 4) (ht : a ++ post = u ++ v)
    (he : u ++ v.reverse = w ++ z)
    (hlist : w.reverse ++ z = a ++ post ↔ v.reverse = v ∧ a.reverse = a) :
    flipped m (flipped m (pre ++ a ++ post) ((pre ++ a ++ post).length - 4) 4) pre.length 4 =
        pre ++ a ++ post ↔
      SameReversed m (pre ++ a ++ post) ((pre ++ a ++ post).length - 4) ∧
        SameReversed m (pre ++ a ++ post) pre.length := by
  have hbuf : pre ++ a ++ post = pre ++ u ++ v ++ [] := by
    rw [List.append_nil, List.append_assoc, List.append_assoc, ht]
  have hlen : (pre ++ u).length = (pre ++ a ++ post).length - 4 := by
    rw [hbuf]
    simp only [List.length_append, List.append_nil]
    omega
  have hlast : flipped m (pre ++ a ++ post) ((pre ++ a ++ post).length - 4) 4 =
      pre ++ w ++ z := by
    rw [← hlen, hbuf, flipped_at hm rfl hv, List.append_nil, List.append_assoc, he,
      List.append_assoc]
  have hsame : SameReversed m (pre ++ a ++ post) ((pre ++ a ++ post).length - 4) ↔
      v.reverse = v := by
    rw [← hlen, hbuf]
    exact sameReversed_at hm rfl hv
  rw [hlast, flipped_at hm rfl hw, hsame, sameReversed_at hm rfl ha, ← hlist, List.append_assoc,
    List.append_assoc, List.append_right_inj]

/-- The last four bytes and then four others: the flips cancel if they are the same ones, and
otherwise only if neither changes anything, also where they overlap. -/
lemma flipped_twice {buf : List UInt8} {i : ℕ} (h : i + 4 ≤ buf.length) :
    flipped m (flipped m buf (buf.length - 4) 4) i 4 = buf ↔
      i + 4 = buf.length ∨ SameReversed m buf (buf.length - 4) ∧ SameReversed m buf i := by
  have hlen : (flipped m buf (buf.length - 4) 4).length = buf.length := length_flipped (by omega)
  cases hm : m.bigEndian with
  | true =>
    rw [flipped_bigEndian hm (by omega), flipped_bigEndian hm (by omega)]
    simp [SameReversed, hm]
  | false =>
    by_cases hi : i + 4 = buf.length
    · have hsub : buf.length - 4 = i := by omega
      rw [hsub, flipped_flipped h]
      simp [hi]
    obtain ⟨pre, a, post, rfl, rfl, ha⟩ := Bytes.exists_split h
    rw [or_iff_right hi]
    obtain ⟨x₀, x₁, x₂, x₃, rfl⟩ : ∃ x₀ x₁ x₂ x₃, a = [x₀, x₁, x₂, x₃] := by
      match a, ha with
      | [x₀, x₁, x₂, x₃], _ => exact ⟨x₀, x₁, x₂, x₃, rfl⟩
    match post with
    | [] => simp at hi
    | [y₀] =>
      exact flipped_overlap hm (u := [x₀]) (v := [x₁, x₂, x₃, y₀]) (w := [x₀, y₀, x₃, x₂])
        (z := [x₁]) rfl rfl rfl rfl rfl (by simp; grind)
    | [y₀, y₁] =>
      exact flipped_overlap hm (u := [x₀, x₁]) (v := [x₂, x₃, y₀, y₁]) (w := [x₀, x₁, y₁, y₀])
        (z := [x₃, x₂]) rfl rfl rfl rfl rfl (by simp; grind)
    | [y₀, y₁, y₂] =>
      exact flipped_overlap hm (u := [x₀, x₁, x₂]) (v := [x₃, y₀, y₁, y₂])
        (w := [x₀, x₁, x₂, y₂]) (z := [y₁, y₀, x₃]) rfl rfl rfl rfl rfl (by simp; grind)
    | y₀ :: y₁ :: y₂ :: y₃ :: ys =>
      have hfour : ys.length + 4 ≤ (y₀ :: y₁ :: y₂ :: y₃ :: ys).length := by simp
      obtain ⟨mid, v, tail, hpost, hmid, hv⟩ := Bytes.exists_split hfour
      have htail : tail = [] := by
        have hcount := congrArg List.length hpost
        simp only [List.length_cons, List.length_append] at hcount
        exact List.eq_nil_of_length_eq_zero (by omega)
      rw [htail, List.append_nil] at hpost
      rw [hpost]
      refine flipped_overlap hm (u := [x₀, x₁, x₂, x₃] ++ mid) (v := v) (w := [x₀, x₁, x₂, x₃])
        (z := mid ++ v.reverse) rfl hv rfl (by simp) (by simp) ?_
      constructor
      · intro he
        obtain ⟨ha, hrest⟩ := List.append_inj he (by simp)
        exact ⟨List.append_cancel_left hrest, ha⟩
      · rintro ⟨hv', ha'⟩
        rw [hv', ha']

/-! ### What the decoder leaves -/

variable {protoMsg msg : ProtoRpcMessage π} {ret : EM_ErrCode} {buf : List UInt8} {c d : Cursor}

/-- The message that the name in a buffer creates, as the decoder reads the name: behind the
flip of the checksum. -/
def messageIn (m : Machine) (protoMsg : ProtoRpcMessage π) (buf : List UInt8) :
    Option π.Message :=
  createMessage π (protoMsg.strName ++ nameIn m (afterSum m buf).buf)

/-- The flips that are made change nothing or undo each other: none in a short buffer, that of
the checksum if it does not match, that of the sequence number as well behind a matching one,
and that of the message length behind a known name. -/
def FlipsCancel (m : Machine) : Option (ProtoRpcMessage π) → List UInt8 → Prop
  | none, _ => True
  | some protoMsg, buf =>
    buf.length < PROTO_MSG_MIN_LEN ∨
    adler32 m (covered buf) ≠ sumField m buf ∧ SameReversed m buf (buf.length - 4) ∨
    adler32 m (covered buf) = sumField m buf ∧ SameReversed m buf 0 ∧
      (messageIn m protoMsg buf = none ∧ SameReversed m buf (buf.length - 4) ∨
        messageIn m protoMsg buf ≠ none ∧
          (10 + nameLenField m buf = buf.length ∨
            SameReversed m buf (buf.length - 4) ∧ SameReversed m buf (6 + nameLenField m buf)))

lemma decodeMessage_left {message : π.Message} {i : ℕ}
    (h : decodeMessage m protoMsg message i c = some (ret, msg, d)) :
    i + 4 ≤ c.buf.length ∧ d.buf = flipped m c.buf i 4 := by
  by_cases hi : i + 4 ≤ c.buf.length
  swap
  · rw [decodeMessage_short (by omega)] at h
    cases h
  refine ⟨hi, ?_⟩
  by_cases hneg : Word.toInt 32 (unwire m (Bytes.slice c.buf i 4)) < 0
  · rw [decodeMessage_negative hi hneg] at h
    split_ifs at h
    rw [← (Prod.mk.inj (Prod.mk.inj (Option.some.inj h)).2).2]
  · obtain ⟨n, hn⟩ := Int.eq_ofNat_of_zero_le (not_lt.mp hneg)
    by_cases hlong : c.buf.length < i + 4 + n
    · rw [decodeMessage_long hi hn hlong] at h
      cases h
    · rw [decodeMessage_some hi hn (by omega)] at h
      rw [← (Prod.mk.inj (Prod.mk.inj (Option.some.inj h)).2).2]

/-- The name is not touched, and the length of a message of a known name is flipped. -/
lemma decodeName_left (h : decodeName m protoMsg c = some (ret, msg, d)) :
    (createMessage π (protoMsg.strName ++ Bytes.slice c.buf 6 (protoMsg.usNameLen - 1)) = none ∧
      d.buf = c.buf) ∨
    (createMessage π (protoMsg.strName ++ Bytes.slice c.buf 6 (protoMsg.usNameLen - 1)) ≠ none ∧
      6 + protoMsg.usNameLen + 4 ≤ c.buf.length ∧
      d.buf = flipped m c.buf (6 + protoMsg.usNameLen) 4) := by
  by_cases hu : protoMsg.usNameLen = 0
  · rw [decodeName_zero hu] at h
    cases h
  by_cases hlen : c.buf.length < 6 + (protoMsg.usNameLen - 1)
  · rw [decodeName_short hlen] at h
    cases h
  rw [not_lt] at hlen
  rcases hname : createMessage π
    (protoMsg.strName ++ Bytes.slice c.buf 6 (protoMsg.usNameLen - 1)) with _ | message
  · rw [decodeName_unknown hu hlen hname] at h
    rw [← (Prod.mk.inj (Prod.mk.inj (Option.some.inj h)).2).2]
    exact .inl ⟨rfl, rfl⟩
  · rw [decodeName_known hu hlen hname] at h
    obtain ⟨hle, hbuf⟩ := decodeMessage_left h
    exact .inr ⟨by simp, hle, hbuf⟩

/-- What the decoder has done to a buffer whose checksum matches, when it gets to the name. -/
def afterHeader (m : Machine) (buf : List UInt8) : List UInt8 :=
  flipped m (afterSum m buf).buf 0 4

lemma decodeBuf_left (h : decodeBuf m protoMsg buf = some (ret, msg, d))
    (hmin : PROTO_MSG_MIN_LEN ≤ buf.length) (hsum : adler32 m (covered buf) = sumField m buf) :
    (messageIn m protoMsg buf = none ∧ d.buf = afterHeader m buf) ∨
    (messageIn m protoMsg buf ≠ none ∧ 10 + nameLenField m buf ≤ buf.length ∧
      d.buf = flipped m (afterHeader m buf) (6 + nameLenField m buf) 4) := by
  have hmin' : PROTO_MSG_MIN_LEN = 16 := rfl
  have hlen : (afterSum m buf).buf.length = buf.length := length_flipped (by omega)
  have hlen' : (afterHeader m buf).length = buf.length := (length_flipped (by omega)).trans hlen
  have hu : nameLenField m (afterSum m buf).buf = nameLenField m buf := by
    unfold nameLenField
    rw [show Bytes.slice (afterSum m buf).buf 4 2 = Bytes.slice buf 4 2 from
      slice_flipped_before (by omega) (by omega)]
  have hname : Bytes.slice (afterHeader m buf) 6 (nameLenField m buf - 1) =
      nameIn m (afterSum m buf).buf := by
    unfold nameIn
    rw [hu]
    exact slice_flipped_after (by omega) (by omega)
  -- of the header fields only the sequence number is flipped
  have htwo : flipped m (afterHeader m buf) 4 2 = afterHeader m buf := flipped_two (by omega)
  rw [decodeBuf_long hmin, if_neg (not_not.mpr hsum), decodeFields_eq (by omega), hu] at h
  change decodeName m _ ⟨flipped m (afterHeader m buf) 4 2, _⟩ = _ at h
  rw [htwo] at h
  unfold messageIn
  rw [← hname]
  rcases decodeName_left h with ⟨hnone, hbuf⟩ | ⟨hsome, hle, hbuf⟩
  · exact .inl ⟨hnone, hbuf⟩
  · have hle' : 6 + nameLenField m buf + 4 ≤ (afterHeader m buf).length := hle
    exact .inr ⟨hsome, by omega, hbuf⟩

lemma flipped_behind (a r : List UInt8) (i n : ℕ) :
    flipped m (a ++ r) (a.length + i) n = a ++ flipped m r i n := by
  unfold flipped
  rw [Bytes.slice_append_right, Bytes.patch_append_right]

lemma sameReversed_behind (a r : List UInt8) (i : ℕ) :
    SameReversed m (a ++ r) (a.length + i) ↔ SameReversed m r i := by
  unfold SameReversed
  rw [Bytes.slice_append_right]

lemma flipped_header {a : List UInt8} (r : List UInt8) (ha : a.length = 4) :
    flipped m (a ++ r) 0 4 = protoFlipBuf m a ++ r := by
  have h := flipped_append (m := m) [] a r
  rw [ha] at h
  exact h

/-- The flip of the sequence number does not meet the others. -/
lemma header_cancels {a r r' : List UInt8} (ha : a.length = 4) :
    protoFlipBuf m a ++ r' = a ++ r ↔ SameReversed m (a ++ r) 0 ∧ r' = r := by
  have hs : Bytes.slice (a ++ r) 0 4 = a := Bytes.slice_eq [] r rfl rfl ha
  have hsame : SameReversed m (a ++ r) 0 ↔ protoFlipBuf m a = a := by
    rw [flip_eq_self_iff (by omega)]
    unfold SameReversed
    rw [hs]
  rw [hsame]
  constructor
  · intro he
    exact List.append_inj he (by rw [length_protoFlipBuf])
  · rintro ⟨h1, h2⟩
    rw [h1, h2]

/-- **What the decoder leaves**: a buffer is as it was when the flips cancel. -/
lemma decodeBuf_restores (h : decodeBuf m protoMsg buf = some (ret, msg, d)) :
    d.buf = buf ↔ FlipsCancel m (some protoMsg) buf := by
  have hmin' : PROTO_MSG_MIN_LEN = 16 := rfl
  dsimp only [FlipsCancel]
  by_cases hmin : PROTO_MSG_MIN_LEN ≤ buf.length
  swap
  · rw [decodeBuf_small (by omega)] at h
    rw [← (Prod.mk.inj (Prod.mk.inj (Option.some.inj h)).2).2]
    exact iff_of_true rfl (.inl (by omega))
  rw [or_iff_right (by omega)]
  by_cases hsum : adler32 m (covered buf) = sumField m buf
  swap
  · rw [decodeBuf_long hmin, if_pos hsum] at h
    rw [← (Prod.mk.inj (Prod.mk.inj (Option.some.inj h)).2).2]
    simp only [hsum, ne_eq, not_false_eq_true, true_and, false_and, or_false]
    exact flipped_four (by omega)
  simp only [hsum, ne_eq, not_true_eq_false, false_and, true_and, false_or]
  have hleft := decodeBuf_left h hmin hsum
  generalize messageIn m protoMsg buf = message at hleft ⊢
  generalize nameLenField m buf = u at hleft ⊢
  -- the sequence number, and the rest of the buffer
  obtain ⟨a, r, rfl, ha⟩ : ∃ a r, buf = a ++ r ∧ a.length = 4 :=
    ⟨buf.take 4, buf.drop 4, (List.take_append_drop 4 buf).symm, by simp; omega⟩
  have hlast : (a ++ r).length - 4 = a.length + (r.length - 4) := by
    rw [List.length_append] at hmin ⊢
    omega
  have hsumBuf : (afterSum m (a ++ r)).buf = a ++ flipped m r (r.length - 4) 4 := by
    change flipped m (a ++ r) ((a ++ r).length - 4) 4 = _
    rw [hlast, flipped_behind]
  have hheader : afterHeader m (a ++ r) = protoFlipBuf m a ++ flipped m r (r.length - 4) 4 := by
    rw [afterHeader, hsumBuf, flipped_header _ ha]
  have hlen : (protoFlipBuf m a).length = a.length := length_protoFlipBuf m a
  rw [hlast, sameReversed_behind]
  rw [List.length_append] at hmin hleft
  rcases hleft with ⟨hnone, hbuf⟩ | ⟨hsome, hle, hbuf⟩
  · simp only [hnone, not_true_eq_false, true_and, false_and, or_false]
    rw [hbuf, hheader, header_cancels ha, flipped_four (by omega)]
  · simp only [hsome, not_false_eq_true, true_and, false_and, false_or]
    rw [hbuf, hheader, show 6 + u = (protoFlipBuf m a).length + (2 + u) by omega, flipped_behind,
      header_cancels ha, flipped_twice (by omega), hlen, sameReversed_behind, List.length_append,
      show 2 + u + 4 = r.length ↔ 10 + u = a.length + r.length by omega]

/-! ### What the server sends back -/

lemma verdict_eq_echo {bLegState : Bool} {sent : List UInt8}
    (h : verdict m π bLegState buf = some (.echo sent)) :
    ∃ ret msg walk, decodeBuf m (ProtoRpcMessage.fresh π) buf = some (ret, msg, walk) ∧
      walk.buf = sent := by
  obtain ⟨⟨ret, msg, walk⟩, hd, h⟩ := Option.bind_eq_some_iff.mp h
  refine ⟨ret, msg, walk, hd, ?_⟩
  simp only at h
  split_ifs at h with herr
  · obtain ⟨request, hmsg, h⟩ := Option.bind_eq_some_iff.mp h
    split_ifs at h with hleg
    · cases Option.some.inj h
    · exact Verdict.echo.inj (Option.some.inj h)
  · exact Verdict.echo.inj (Option.some.inj h)

/-- A read that dispatches nothing writes the buffer as the decoder left it. -/
lemma onDealMessage_rejects {sv : CProtoServer π κ} {onMessage : OnMessage π κ}
    {s t : Session π κ} (h : onDealMessage sv onMessage s buf = some t)
    (hopen : s.channel.opened = true) (hrej : t.dispatched = s.dispatched) :
    ∃ ret msg walk, decodeBuf sv.machine (ProtoRpcMessage.fresh π) buf = some (ret, msg, walk) ∧
      t.sent = s.sent ++ [walk.buf] := by
  rw [onDealMessage_eq] at h
  obtain ⟨v, hv, hdeal⟩ := Option.bind_eq_some_iff.mp h
  have hnone := deal_dispatched sv onMessage hdeal
  rw [hrej] at hnone
  cases v with
  | dispatch protoRequest request => simp [Verdict.dispatches] at hnone
  | echo sent =>
    obtain ⟨ret, msg, walk, hd, rfl⟩ := verdict_eq_echo hv
    refine ⟨ret, msg, walk, hd, ?_⟩
    rw [← Option.some.inj hdeal]
    unfold Session.close Session.write
    rw [if_pos hopen]

/-- **Buffers sent back**: a buffer that the decoder turns down is as it was, and a read of which
the server dispatches nothing is sent back as it came, exactly when the flips cancel. -/
theorem echo_iff (sv : CProtoServer π κ) (buf : List UInt8) :
    (∀ (protoMsg : Option (ProtoRpcMessage π)) ret msg walk,
      decodingFromBuf sv.machine protoMsg (some buf) = some (ret, msg, some walk) →
        ret ≠ .ERR_NONE → (walk.buf = buf ↔ FlipsCancel sv.machine protoMsg buf)) ∧
    ∀ onMessage s t, onDealMessage sv onMessage s buf = some t → s.channel.opened = true →
      t.dispatched = s.dispatched →
        (t.sent = s.sent ++ [buf] ↔
          FlipsCancel sv.machine (some (ProtoRpcMessage.fresh π)) buf) := by
  constructor
  · intro protoMsg ret msg walk h _
    cases protoMsg with
    | none =>
      obtain ⟨-, -, hwalk⟩ := Prod.mk.inj (Option.some.inj h) |>.imp_right Prod.mk.inj
      rw [← Option.some.inj hwalk]
      exact iff_of_true rfl trivial
    | some protoMsg =>
      obtain ⟨⟨ret', msg', walk'⟩, hd, he⟩ := Option.map_eq_some_iff.mp h
      simp only [Prod.mk.injEq, Option.some.injEq] at he
      obtain ⟨-, -, rfl⟩ := he
      exact decodeBuf_restores hd
  · intro onMessage s t h hopen hrej
    obtain ⟨ret, msg, walk, hd, hsent⟩ := onDealMessage_rejects h hopen hrej
    rw [hsent, List.append_cancel_left_eq, List.cons.injEq, and_iff_left rfl]
    exact decodeBuf_restores hd

/-- Sixteen bytes whose checksum does not match. -/
def wrongSum : List UInt8 := [0, 0, 0, 1, 1, 0, 0, 0, 0, 0, 0, 0, 1, 2, 3, 4]

/-- The four bytes of the checksum come back in reverse. -/
theorem wrongSum_not_echoed : ∃ walk : Cursor,
    decodingFromBuf linux64 (some (ProtoRpcMessage.fresh (rawProtobuf []))) (some wrongSum) =
      some (.ERR_CHECK_SUM, some (ProtoRpcMessage.fresh (rawProtobuf [])), some walk) ∧
    walk.buf ≠ wrongSum := by
  refine ⟨⟨[0, 0, 0, 1, 1, 0, 0, 0, 0, 0, 0, 0, 4, 3, 2, 1],
    [(0, 12), (12, 4), (12, 4), (12, 4)]⟩, ?_, by decide⟩
  rfl

end MmrService.ProtoServer
