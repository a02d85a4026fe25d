import MmrService.ProtoCodec

/-!
The fields of a frame, and what `codingToBuf` writes.

A field of four bytes is big-endian on the wire, whatever the machine. A field of two bytes
is not flipped and stands in the byte order of the machine that wrote it.
-/

namespace MmrService.ProtoCodec

open BufConvert

variable {m : Machine} {π : Protobuf}

lemma initEndian_eq (m : Machine) : initEndian m = if m.bigEndian then .BIG else .LITTLE := by
  have hk : m.ulongBits / 8 = 4 ∨ m.ulongBits / 8 = 8 := by
    rcases m.ulong_width with h | h <;> simp [h]
  unfold initEndian Machine.store
  rcases hk with hk | hk <;> cases m.bigEndian <;> simp [hk, Bytes.toLE]

lemma protoFlipBuf_eq (m : Machine) (buf : List UInt8) :
    protoFlipBuf m buf = if ¬ m.bigEndian ∧ 2 < buf.length then buf.reverse else buf := by
  unfold protoFlipBuf
  rw [initEndian_eq, flipData_eq]
  cases m.bigEndian <;> simp

@[simp] lemma length_protoFlipBuf (m : Machine) (buf : List UInt8) :
    (protoFlipBuf m buf).length = buf.length := by
  rw [protoFlipBuf_eq]
  split_ifs <;> simp

lemma protoFlipBuf_flip (m : Machine) (buf : List UInt8) :
    protoFlipBuf m (protoFlipBuf m buf) = buf := by
  rw [protoFlipBuf_eq m buf]
  split_ifs with h
  · rw [protoFlipBuf_eq, if_pos (by simpa using h), List.reverse_reverse]
  · rw [protoFlipBuf_eq, if_neg h]

/-- An integer of `n` bytes as it stands in a frame. -/
def wire (m : Machine) (n x : ℕ) : List UInt8 := protoFlipBuf m (m.store n x)

/-- The integer read from bytes of a frame. -/
def unwire (m : Machine) (bs : List UInt8) : ℕ := m.load (protoFlipBuf m bs)

@[simp] lemma length_wire (m : Machine) (n x : ℕ) : (wire m n x).length = n := by simp [wire]

lemma unwire_wire (m : Machine) (n x : ℕ) : unwire m (wire m n x) = x % 256 ^ n := by
  unfold unwire wire
  rw [protoFlipBuf_flip, Machine.load_store]

lemma wire_unwire (m : Machine) (bs : List UInt8) : wire m bs.length (unwire m bs) = bs := by
  unfold unwire wire
  have h := m.store_load (protoFlipBuf m bs)
  rw [length_protoFlipBuf] at h
  rw [h, protoFlipBuf_flip]

lemma unwire_lt (m : Machine) (bs : List UInt8) : unwire m bs < 256 ^ bs.length := by
  have h := m.load_lt (protoFlipBuf m bs)
  rw [length_protoFlipBuf] at h
  exact h

/-- More than two bytes are big-endian on every machine. -/
lemma wire_of_two_lt (m : Machine) {n : ℕ} (x : ℕ) (h : 2 < n) :
    wire m n x = (Bytes.toLE n x).reverse := by
  unfold wire
  rw [protoFlipBuf_eq]
  unfold Machine.store
  cases m.bigEndian <;> simp [h]

/-- A field is the same on machines of one byte order. -/
lemma wire_congr {m m' : Machine} (h : m.bigEndian = m'.bigEndian) (n x : ℕ) :
    wire m n x = wire m' n x := by
  unfold wire
  rw [protoFlipBuf_eq, protoFlipBuf_eq]
  unfold Machine.store
  rw [h]

/-- Two bytes are in the byte order of the machine. -/
lemma wire_two (m : Machine) (x : ℕ) : wire m 2 x = m.store 2 x := by
  unfold wire
  rw [protoFlipBuf_eq, if_neg (by simp)]

/-! ### Accesses -/

namespace Cursor

lemma getField_eq (m : Machine) (c : Cursor) (i n : ℕ) : c.getField m i n =
    if i + n ≤ c.buf.length then
      some (unwire m (Bytes.slice c.buf i n),
        { buf := Bytes.patch c.buf i (protoFlipBuf m (Bytes.slice c.buf i n))
          touched := c.touched ++ [(i, n), (i, n), (i, n)] })
    else none := by
  unfold getField flip read write
  split_ifs with h
  · have hs := Bytes.length_slice h
    have hf : (protoFlipBuf m (Bytes.slice c.buf i n)).length = n := by
      rw [length_protoFlipBuf, hs]
    have hp :
        (Bytes.patch c.buf i (protoFlipBuf m (Bytes.slice c.buf i n))).length = c.buf.length :=
      Bytes.length_patch (by rw [hf]; exact h)
    have hself : Bytes.slice (Bytes.patch c.buf i (protoFlipBuf m (Bytes.slice c.buf i n))) i n =
        protoFlipBuf m (Bytes.slice c.buf i n) := Bytes.slice_patch_self h hf
    simp only [Option.bind_eq_bind, Option.bind_some, hf, h, if_true, hp, hself, unwire]
    simp
  · rfl

lemma read_at (pre bs post : List UInt8) (t : List (ℕ × ℕ)) {i n : ℕ} (hi : pre.length = i)
    (hn : bs.length = n) :
    read ⟨pre ++ bs ++ post, t⟩ i n = some (bs, ⟨pre ++ bs ++ post, t ++ [(i, n)]⟩) := by
  unfold read
  rw [if_pos (by simp only [List.length_append]; omega), ← hi, ← hn, Bytes.slice_append]

lemma write_at {pre old post bs : List UInt8} (t : List (ℕ × ℕ)) {i : ℕ} (hi : pre.length = i)
    (hn : bs.length = old.length) :
    write ⟨pre ++ old ++ post, t⟩ i bs =
      some ⟨pre ++ bs ++ post, t ++ [(i, bs.length)]⟩ := by
  unfold write
  rw [if_pos (by simp only [List.length_append]; omega), ← hi, Bytes.patch_append pre post hn]

lemma flip_at (m : Machine) {pre bs post : List UInt8} (t : List (ℕ × ℕ)) {i n : ℕ}
    (hi : pre.length = i) (hn : bs.length = n) :
    flip m ⟨pre ++ bs ++ post, t⟩ i n =
      some ⟨pre ++ protoFlipBuf m bs ++ post, t ++ [(i, n)] ++ [(i, n)]⟩ := by
  have hlen := length_protoFlipBuf m bs
  unfold flip
  rw [read_at _ _ _ t hi hn]
  simp only [Option.bind_eq_bind, Option.bind_some]
  rw [write_at _ hi hlen, hlen, hn]

lemma putField_at (m : Machine) {pre old post : List UInt8} (t : List (ℕ × ℕ)) {i n : ℕ} (x : ℕ)
    (hi : pre.length = i) (hn : old.length = n) :
    putField m ⟨pre ++ old ++ post, t⟩ i n x =
      some ⟨pre ++ wire m n x ++ post, t ++ [(i, n)] ++ [(i, n)] ++ [(i, n)]⟩ := by
  have hlen : (m.store n x).length = n := m.length_store n x
  unfold putField
  rw [write_at t hi (hlen.trans hn.symm)]
  simp only [Option.bind_eq_bind, Option.bind_some]
  rw [flip_at m _ hi hlen, hlen]
  rfl

/-- A field put behind what is written of a buffer otherwise zero. -/
lemma putField_zeros (m : Machine) (pre : List UInt8) (t : List (ℕ × ℕ)) {i n k : ℕ} (x : ℕ)
    (hi : pre.length = i) (hk : n ≤ k) :
    ∃ t', putField m ⟨pre ++ List.replicate k 0, t⟩ i n x =
      some ⟨(pre ++ wire m n x) ++ List.replicate (k - n) 0, t'⟩ := by
  have hsplit : pre ++ List.replicate k (0 : UInt8) =
      pre ++ List.replicate n 0 ++ List.replicate (k - n) 0 := by
    rw [List.append_assoc, ← List.replicate_add, Nat.add_sub_cancel' hk]
  rw [hsplit]
  exact ⟨_, putField_at m t x hi List.length_replicate⟩

lemma write_zeros (pre : List UInt8) (t : List (ℕ × ℕ)) {i k : ℕ} (bs : List UInt8)
    (hi : pre.length = i) (hk : bs.length ≤ k) :
    ∃ t', write ⟨pre ++ List.replicate k 0, t⟩ i bs =
      some ⟨(pre ++ bs) ++ List.replicate (k - bs.length) 0, t'⟩ := by
  have hsplit : pre ++ List.replicate k (0 : UInt8) =
      pre ++ List.replicate bs.length 0 ++ List.replicate (k - bs.length) 0 := by
    rw [List.append_assoc, ← List.replicate_add, Nat.add_sub_cancel' hk]
  rw [hsplit]
  exact ⟨_, write_at t hi List.length_replicate.symm⟩

end Cursor

/-! ### The frame of a message -/

/-- `usNameLen` of a type name: its length and one, in 16 bits. -/
def nameLen (name : List UInt8) : ℕ := (name.length + 1) % 2 ^ 16

/-- The bytes copied for a type name: the name and its zero, unless it is too long. -/
def nameField (name : List UInt8) : List UInt8 := (name ++ [0]).take (nameLen name)

/-- What the checksum of a frame covers. -/
def frameBody (m : Machine) (ulSequeNum : ℕ) (name payload : List UInt8) : List UInt8 :=
  wire m 4 ulSequeNum ++ wire m 2 (nameLen name) ++ nameField name ++ wire m 4 payload.length ++
    payload

/-- The frame of a sequence number, a type name and a serialised message. -/
def frame (m : Machine) (ulSequeNum : ℕ) (name payload : List UInt8) : List UInt8 :=
  frameBody m ulSequeNum name payload ++
    wire m 4 (Word.ofInt 32 (adler32 m (frameBody m ulSequeNum name payload)))

@[simp] lemma length_nameField (name : List UInt8) : (nameField name).length = nameLen name := by
  have h : nameLen name ≤ name.length + 1 := Nat.mod_le _ _
  simp only [nameField, List.length_take, List.length_append, List.length_singleton]
  omega

lemma length_frameBody (m : Machine) (n : ℕ) (name payload : List UInt8) :
    (frameBody m n name payload).length = 10 + nameLen name + payload.length := by
  simp only [frameBody, List.length_append, length_wire, length_nameField]
  omega

lemma length_frame (m : Machine) (n : ℕ) (name payload : List UInt8) :
    (frame m n name payload).length = 14 + nameLen name + payload.length := by
  simp only [frame, List.length_append, length_wire, length_frameBody]
  omega

/-- The message serialises to `payload`, and the length of its frame fits an `int`. -/
structure Encodable (message : π.Message) (payload : List UInt8) : Prop where
  serialize : π.SerializeToArray message (π.ByteSizeLong message) = some payload
  size : payload.length = π.ByteSizeLong message
  total : 14 + nameLen (π.GetTypeName message) + payload.length < 2 ^ 31

/-- The walk of the encoder over a zero buffer. -/
lemma encodeFields_eq {message : π.Message} {payload : List UInt8} (h : Encodable message payload)
    (m : Machine) (n : ℕ) : ∃ t,
    encodeFields m n (nameLen (π.GetTypeName message)) (π.GetTypeName message) payload.length
      message ⟨List.replicate (14 + nameLen (π.GetTypeName message) + payload.length) 0, []⟩ =
    some (.ERR_NONE, ⟨frame m n (π.GetTypeName message) payload, t⟩) := by
  have htotal := h.total
  have hser := h.serialize
  rw [← h.size] at hser
  generalize π.GetTypeName message = name at *
  generalize hk : 14 + nameLen name + payload.length = k at *
  have hfield := length_nameField name
  generalize hu : nameLen name = u at *
  obtain ⟨t₁, h₁⟩ := Cursor.putField_zeros m [] [] (i := 0) (n := 4) (k := k) n rfl (by omega)
  obtain ⟨t₂, h₂⟩ := Cursor.putField_zeros m (wire m 4 n) t₁ (i := 4) (n := 2) (k := k - 4) u
    (by simp) (by omega)
  obtain ⟨t₃, h₃⟩ := Cursor.write_zeros (wire m 4 n ++ wire m 2 u) t₂ (i := 6) (k := k - 4 - 2)
    (nameField name) (by simp) (by omega)
  obtain ⟨t₄, h₄⟩ := Cursor.putField_zeros m (wire m 4 n ++ wire m 2 u ++ nameField name) t₃
    (i := 6 + u) (n := 4) (k := k - 4 - 2 - (nameField name).length) payload.length
    (by simp; omega) (by omega)
  obtain ⟨t₅, h₅⟩ := Cursor.write_zeros
    (wire m 4 n ++ wire m 2 u ++ nameField name ++ wire m 4 payload.length) t₄
    (i := 6 + u + 4) (k := k - 4 - 2 - (nameField name).length - 4) payload
    (by simp; omega) (by omega)
  have hbody : wire m 4 n ++ wire m 2 u ++ nameField name ++ wire m 4 payload.length ++ payload =
      frameBody m n name payload := by rw [← hu]; rfl
  have hblen := length_frameBody m n name payload
  have hend : k - 4 - 2 - (nameField name).length - 4 - payload.length = 4 := by omega
  have hread := Cursor.read_at [] (frameBody m n name payload)
    (List.replicate 4 0) t₅ (i := 0) (n := (frameBody m n name payload).length) rfl rfl
  obtain ⟨t₆, h₆⟩ := Cursor.putField_zeros m (frameBody m n name payload)
    (t₅ ++ [(0, (frameBody m n name payload).length)]) (i := 6 + u + 4 + payload.length) (n := 4)
    (k := 4) (Word.ofInt 32 (adler32 m (frameBody m n name payload))) (by omega) le_rfl
  have hcover : (frameBody m n name payload ++ List.replicate 4 0).length - 4 =
      (frameBody m n name payload).length := by simp
  have hmod : (frameBody m n name payload).length % 2 ^ 32 = (frameBody m n name payload).length :=
    Nat.mod_eq_of_lt (by omega)
  have hint : Word.ofInt 32 (payload.length : ℤ) = payload.length := Word.ofInt_natCast (by omega)
  have htake : (name ++ [0]).take u = nameField name := by unfold nameField; rw [hu]
  refine ⟨t₆, ?_⟩
  unfold encodeFields
  simp only [List.nil_append] at h₁ hread
  simp only [Option.bind_eq_bind, h₁, h₂, Option.bind_some, htake, h₃, hint, h₄, hser, h₅, hbody,
    hend, hcover, hmod, hread, Int.toNat_natCast, h₆]
  simp [frame]

/-- **What the encoder writes**: the frame of the message. -/
theorem codingToBuf_eq {protoMsg : ProtoRpcMessage π} {message : π.Message}
    {payload : List UInt8} (hp : protoMsg.protoMsgPtr = some message)
    (h : Encodable message payload) (m : Machine) :
    codingToBuf m protoMsg = some (.ERR_NONE,
      { protoMsg with
        strName := π.GetTypeName message
        usNameLen := nameLen (π.GetTypeName message) },
      frame m protoMsg.ulSequeNum (π.GetTypeName message) payload) := by
  obtain ⟨t, ht⟩ := encodeFields_eq h m protoMsg.ulSequeNum
  have htotal := h.total
  have hint : Word.toInt 32 (π.ByteSizeLong message) = payload.length := by
    rw [← h.size]; exact Word.toInt_natCast (by omega)
  have hsize : ¬ (14 + (nameLen (π.GetTypeName message) : ℤ) + payload.length < 0 ∨
      2 ^ 31 ≤ 14 + (nameLen (π.GetTypeName message) : ℤ) + payload.length) := by omega
  have hnat : (14 + (nameLen (π.GetTypeName message) : ℤ) + payload.length).toNat =
      14 + nameLen (π.GetTypeName message) + payload.length := by omega
  have hu : ((π.GetTypeName message).length + 1) % 2 ^ 16 = nameLen (π.GetTypeName message) := rfl
  unfold codingToBuf
  simp only [hp, hint, hu, if_neg hsize, hnat, ht]
  rfl

/-- Protobuf for messages that are their type name and the bytes of their fields. -/
def rawProtobuf (types : List (List UInt8)) : Protobuf where
  Descriptor := List UInt8
  Message := List UInt8 × List UInt8
  FindMessageTypeByName name := if name ∈ types then some name else none
  GetPrototype descriptor := some (descriptor, [])
  New prototype := prototype
  GetDescriptor message := message.1
  GetTypeName message := message.1
  ByteSizeLong message := message.2.length
  SerializeToArray message n := if (message.2.length : ℤ) ≤ n then some message.2 else none
  ParseFromArray message bs := ((message.1, bs), true)
  rejectsNegative := true

end MmrService.ProtoCodec
