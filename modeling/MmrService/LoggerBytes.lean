import MmrService.LoggerFill

/-!
What a call of an asynchronous logger adds to the bytes in its buffers.

The bytes of the buffers that wait to be swapped, and then of the write buffer, are the same
before and after a switch of buffers, and grow by one record in a call whose message leaves
room.
-/

namespace MmrService.Logger

/-- What `write(getBuf(), getSize())` takes from a buffer within its bounds. -/
def CBigBuff.bytes (b : CBigBuff) : List UInt8 := b.m_buf.take b.m_ulPos

namespace CBigBuff

lemma content_of_fits {b : CBigBuff} (h : b.m_ulPos ≤ b.m_ulLen) : b.content = some b.bytes := by
  unfold content getSize
  rw [if_pos (by omega)]
  rfl

lemma bytes_of_pos {b : CBigBuff} (h : b.m_ulPos = 0) : b.bytes = [] := by
  rw [bytes, h, List.take_zero]

lemma store_buf {b b' : CBigBuff} {i : ℕ} {bs : List UInt8} (h : b.store i bs = some b') :
    i + bs.length ≤ b.m_buf.length ∧ b'.m_buf = Bytes.patch b.m_buf i bs := by
  unfold store at h
  split_ifs at h with hle
  rw [← Option.some.inj h, b.alloc]
  exact ⟨hle, rfl⟩

/-- A store behind the position leaves the bytes before it. -/
lemma store_bytes {b b' : CBigBuff} {i : ℕ} {bs : List UInt8} (h : b.store i bs = some b')
    (hi : b.m_ulPos ≤ i) : b'.bytes = b.bytes := by
  obtain ⟨hle, hbuf⟩ := store_buf h
  rw [bytes, bytes, hbuf, (store_same h).pos, Bytes.take_patch hi (by omega)]

/-- The newline is stored behind what was tried. -/
lemma doneTry_buf {b b' : CBigBuff} (h : b.doneTry = some b')
    (hs : b.m_ulPos + b.m_usTryIncrease + 1 < 2 ^ 32) :
    b.m_ulPos + b.m_usTryIncrease + 1 ≤ b.m_buf.length ∧
      b'.m_buf = Bytes.patch b.m_buf (b.m_ulPos + b.m_usTryIncrease) [10] := by
  obtain ⟨c, hc, rfl⟩ := Option.map_eq_some_iff.mp h
  rw [Word.add_of_lt (a := b.m_ulPos) (by omega)] at hc
  exact store_buf hc

lemma doneTry_bytes {b b' : CBigBuff} (h : b.doneTry = some b')
    (hs : b.m_ulPos + b.m_usTryIncrease + 1 < 2 ^ 32) :
    b'.bytes = b.m_buf.take (b.m_ulPos + b.m_usTryIncrease) ++ [10] := by
  obtain ⟨hle, hbuf⟩ := doneTry_buf h hs
  rw [bytes, (doneTry_eq_some h hs).2.1, hbuf]
  exact Bytes.take_patch_append [10] [] (by omega)

end CBigBuff

/-- The bytes that wait for the deal thread to swap. -/
def waiting (s : CLogger) : List UInt8 :=
  (s.m_queBufsWrite ++ [s.m_pBufWrite]).flatMap CBigBuff.bytes

lemma waiting_eq (s : CLogger) :
    waiting s = s.m_queBufsWrite.flatMap CBigBuff.bytes ++ s.m_pBufWrite.bytes := by
  simp [waiting]

/-! ### A switch of buffers -/

/-- The logger after a switch, the new write buffer named. -/
lemma updateBufWrite_eq_some {s t : CLogger} {junk : ℕ → UInt8}
    (h : updateBufWrite s junk = some t) : ∃ b e rest, s.m_pBufWrite.zeroEnd = some b ∧
      t =
        { s with
          m_queBufsWrite := s.m_queBufsWrite ++ [b]
          m_pBufWrite := e
          m_queBufsEmpty := rest } ∧
      (e ∈ s.m_queBufsEmpty ∨ e = newBuf junk) := by
  obtain ⟨b, hb, rfl⟩ := Option.map_eq_some_iff.mp h
  cases he : s.m_queBufsEmpty with
  | nil => exact ⟨b, newBuf junk, [], hb, rfl, .inr rfl⟩
  | cons e rest => exact ⟨b, e, rest, hb, rfl, .inl (List.mem_cons_self ..)⟩

lemma updateBufWrite_waiting {s t : CLogger} (hi : Inv s) {junk : ℕ → UInt8}
    (h : updateBufWrite s junk = some t) :
    waiting t = waiting s ∧ t.m_pBufWrite.bytes = [] := by
  obtain ⟨b, e, rest, hb, rfl, he⟩ := updateBufWrite_eq_some h
  have hbytes : b.bytes = s.m_pBufWrite.bytes := CBigBuff.store_bytes hb le_rfl
  have hempty : e.bytes = [] := by
    rcases he with he | rfl
    · exact CBigBuff.bytes_of_pos (hi.empty e he).2
    · exact CBigBuff.bytes_of_pos rfl
  refine ⟨?_, hempty⟩
  rw [waiting_eq, waiting_eq]
  simp only [List.flatMap_append, List.flatMap_cons, List.flatMap_nil, hbytes, hempty,
    List.append_nil]

lemma updateTime_waiting (s : CLogger) (time_info : Tm) :
    waiting (updateTime s time_info) = waiting s := by
  unfold updateTime
  split_ifs <;> rfl

lemma reserve_waiting {s t : CLogger} (hi : Inv s) {junk : ℕ → UInt8}
    (h : reserve s junk = some t) : waiting t = waiting s := by
  unfold reserve at h
  split_ifs at h
  · exact (updateBufWrite_waiting hi h).1
  · rw [← Option.some.inj h]

/-- A switch of buffers leaves the time and the number of files. -/
lemma reserve_same {s t : CLogger} {junk : ℕ → UInt8} (h : reserve s junk = some t) :
    t.m_szLastTime = s.m_szLastTime ∧ t.m_fileNum = s.m_fileNum := by
  unfold reserve at h
  split_ifs at h
  · obtain ⟨b, e, rest, -, rfl, -⟩ := updateBufWrite_eq_some h
    exact ⟨rfl, rfl⟩
  · rw [← Option.some.inj h]
    exact ⟨rfl, rfl⟩

lemma stamped_fileNum {s p : CLogger} {time_info : Tm} {now_ms : ℕ} {junk : ℕ → UInt8}
    (h : stamped s time_info now_ms junk = some p) : p.m_fileNum = s.m_fileNum := by
  obtain ⟨r, hr, h⟩ := Option.bind_eq_some_iff.mp h
  obtain ⟨b, -, h⟩ := Option.bind_eq_some_iff.mp h
  obtain rfl := Option.some.inj h
  obtain ⟨-, -, hnum, -⟩ := updateTime_same s time_info
  exact (reserve_same hr).2.trans hnum

/-! ### A record -/

/-- The text of a message. -/
def Formatted.bytes : Formatted → List UInt8
  | .text bs => bs
  | .failed _ => []

/-- The bytes that `snprintf` leaves for the time stamp. -/
def stampBytes (p : CLogger) : List UInt8 :=
  Bytes.slice p.m_pBufWrite.m_buf p.m_pBufWrite.m_ulPos 24

/-- The record of a call: the time stamp, the text and a newline. -/
def recordOf (s : CLogger) (time_info : Tm) (now_ms : ℕ) (message : Formatted)
    (junk : ℕ → UInt8) : List UInt8 :=
  match stamped s time_info now_ms junk with
  | some p => stampBytes p ++ message.bytes ++ [10]
  | none => []

/-- The text fits into what is kept in reserve. -/
def Formatted.FitsReserve (message : Formatted) : Prop :=
  ∃ bs, message = .text bs ∧ bs.length ≤ 1000

lemma stamped_waiting {s p : CLogger} (hi : Inv s) {time_info : Tm} {now_ms : ℕ}
    {junk : ℕ → UInt8} (h : stamped s time_info now_ms junk = some p) :
    waiting p = waiting s := by
  obtain ⟨r, hr, h⟩ := Option.bind_eq_some_iff.mp h
  obtain ⟨b, hb, h⟩ := Option.bind_eq_some_iff.mp h
  obtain rfl := Option.some.inj h
  obtain ⟨c, hc, rfl⟩ := Option.map_eq_some_iff.mp hb
  have hstore : r.m_pBufWrite.store r.m_pBufWrite.getTryCurrent
      ((stamp r now_ms).take 24 ++ [0]) = some c := hc
  have hbytes : c.bytes = r.m_pBufWrite.bytes :=
    CBigBuff.store_bytes hstore (Nat.le_add_right _ _)
  have hsplit : waiting { r with m_pBufWrite := c.addTryIncrease 24 } =
      r.m_queBufsWrite.flatMap CBigBuff.bytes ++ c.bytes := waiting_eq _
  rw [hsplit, hbytes, ← waiting_eq, reserve_waiting (hi.updateTime time_info) hr,
    updateTime_waiting]

/-- The stamp, the message and the newline follow what the buffer had. -/
lemma writeMessage_bytes {s p : CLogger} (hi : Inv s) (hst : Stamped s p) {bs : List UInt8}
    (hn : bs.length ≤ 1000) {b : CBigBuff}
    (hb : writeMessage p.m_pBufWrite (.text bs) = some b) :
    b.bytes = p.m_pBufWrite.bytes ++ (stampBytes p ++ bs ++ [10]) := by
  have hav := hst.avail hi
  have hle := startPos_le hi
  have hsize : m_ulBigBufSize = 1048576 := rfl
  obtain ⟨⟨strLen, c⟩, hc, hd⟩ := Option.bind_eq_some_iff.mp hb
  have hlen : messageLen c strLen = (bs.length : ℕ) := by
    rw [messageLen_vsnprintf hc (by rw [hav]; omega)]
    have hmax : m_lMaxStrLen = 2048 := rfl
    simp only [kept]
    rw [if_pos (by omega)]
    congr 1
    omega
  obtain ⟨c, hstore, he⟩ := Option.map_eq_some_iff.mp hc
  obtain ⟨-, rfl⟩ := Prod.mk.inj he
  unfold CBigBuff.snprintf at hstore
  rw [if_neg (by rw [hav]; omega), List.take_of_length_le (by rw [hav]; omega)] at hstore
  obtain ⟨hfit, hbuf⟩ := CBigBuff.store_buf hstore
  have hsame := CBigBuff.store_same hstore
  have htry : c.m_usTryIncrease = 24 := hsame.tried.trans hst.tried
  have hpos : c.m_ulPos = startPos s := hsame.pos.trans hst.pos
  have hinc : (c.addTryIncrease (messageLen c strLen)).m_usTryIncrease = 24 + bs.length := by
    rw [hlen, CBigBuff.addTryIncrease_nat (by omega) (by omega), htry]
  have hpos' : (c.addTryIncrease (messageLen c strLen)).m_ulPos = startPos s := hpos
  have hcur : p.m_pBufWrite.getTryCurrent = startPos s + 24 := by
    rw [CBigBuff.getTryCurrent, hst.pos, hst.tried]
  rw [CBigBuff.doneTry_bytes hd (by rw [hinc, hpos']; omega), hinc, hpos']
  change c.m_buf.take _ ++ _ = _
  rw [hcur] at hfit hbuf
  rw [List.length_append, List.length_singleton] at hfit
  rw [hbuf, ← Nat.add_assoc, Bytes.take_patch_append bs [0] (by omega), List.take_add,
    CBigBuff.bytes, stampBytes, hst.pos]
  simp only [Bytes.slice, List.append_assoc]

/-- **One record**: a call whose text fits the reserve adds its record to the bytes that wait. -/
lemma record_waiting {s : CLogger} (hi : Inv s) (time_info : Tm) (now_ms : ℕ)
    {message : Formatted} (hm : message.FitsReserve) (junk : ℕ → UInt8)
    (take : CBigBuff → Option (List UInt8)) :
    ∃ t, record s time_info now_ms message junk take = some t ∧ Inv t ∧
      t.m_fileNum = s.m_fileNum ∧
      waiting t = waiting s ++ recordOf s time_info now_ms message junk := by
  obtain ⟨bs, rfl, hn⟩ := hm
  have hmin : MIN_AVAILI_SIZE = 1024 := rfl
  have hroom : HasRoom s (.text bs) := by
    have hwant : wanted (.text bs) ≤ 1000 := by
      simp only [wanted]
      rw [if_pos (by omega)]
      omega
    unfold HasRoom
    omega
  obtain ⟨t, ht, hit, -⟩ := record_of_hasRoom hi time_info now_ms junk take hroom
  obtain ⟨p, b, hst, hp, hb, rfl⟩ := record_eq_some hi ht
  have hnum := stamped_fileNum hp
  refine ⟨_, ht, hit, hnum, ?_⟩
  rw [waiting_eq, recordOf, hp]
  simp only [writeMessage_bytes hi hst hn hb, Formatted.bytes]
  rw [← List.append_assoc, ← waiting_eq, stamped_waiting hi hp]

end MmrService.Logger
