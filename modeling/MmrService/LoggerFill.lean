import MmrService.Logger

/-!
How full the buffers of an asynchronous logger get.

A call switches buffers when at most 1024 bytes are free, and then has the whole of an empty
buffer. With more than 1024 bytes free it does not, and its record may need up to 2073.
-/

namespace MmrService.Logger

open Transition

namespace CBigBuff

/-- Two states of a buffer that differ at most in its bytes. -/
structure SameCounters (b b' : CBigBuff) : Prop where
  len : b'.m_ulLen = b.m_ulLen
  pos : b'.m_ulPos = b.m_ulPos
  tried : b'.m_usTryIncrease = b.m_usTryIncrease

lemma SameCounters.avail {b b' : CBigBuff} (h : SameCounters b b') :
    b'.getTryAvailid = b.getTryAvailid := by
  unfold getTryAvailid
  rw [h.len, h.pos, h.tried]

lemma store_same {b b' : CBigBuff} {i : ℕ} {bs : List UInt8} (h : b.store i bs = some b') :
    SameCounters b b' := by
  unfold store at h
  split_ifs at h
  rw [← Option.some.inj h]
  exact ⟨rfl, rfl, rfl⟩

lemma store_isSome {b : CBigBuff} {i : ℕ} (bs : List UInt8)
    (h : i + bs.length ≤ b.m_ulLen + 1) : ∃ b', b.store i bs = some b' := by
  unfold store
  rw [dif_pos h]
  exact ⟨_, rfl⟩

/-- `getTryAvailid` does not wrap on a buffer that fits. -/
lemma getTryAvailid_of_fits {b : CBigBuff} (h : b.Fits) (hl : b.m_ulLen < 2 ^ 32) :
    b.getTryAvailid = b.m_ulLen - b.m_ulPos - b.m_usTryIncrease := by
  unfold Fits at h
  unfold getTryAvailid
  rw [Word.sub_of_le (b := b.m_ulPos) (by omega) hl, Word.sub_of_le (by omega) (by omega)]

lemma snprintf_same {b b' : CBigBuff} {n : ℕ} {bs : List UInt8}
    (h : b.snprintf n bs = some b') : SameCounters b b' := by
  unfold snprintf at h
  split_ifs at h
  · rw [← Option.some.inj h]; exact ⟨rfl, rfl, rfl⟩
  · exact store_same h

lemma snprintf_isSome {b : CBigBuff} {n : ℕ} (bs : List UInt8)
    (h : b.getTryCurrent + n ≤ b.m_ulLen + 1) : ∃ b', b.snprintf n bs = some b' := by
  unfold snprintf
  split_ifs with hn
  · exact ⟨b, rfl⟩
  · refine store_isSome _ ?_
    have : (bs.take (n - 1)).length ≤ n - 1 := List.length_take_le _ _
    rw [List.length_append, List.length_singleton]
    omega

lemma vsnprintf_same {b b' : CBigBuff} {n : ℕ} {message : Formatted} {strLen : ℤ}
    (h : b.vsnprintf n message = some (strLen, b')) : SameCounters b b' := by
  cases message with
  | text bs =>
    obtain ⟨c, hc, he⟩ := Option.map_eq_some_iff.mp h
    exact (Prod.mk.inj he).2 ▸ snprintf_same hc
  | failed junk =>
    obtain ⟨c, hc, he⟩ := Option.map_eq_some_iff.mp h
    exact (Prod.mk.inj he).2 ▸ store_same hc

lemma vsnprintf_isSome {b : CBigBuff} {n : ℕ} (message : Formatted)
    (h : b.getTryCurrent + n ≤ b.m_ulLen + 1) :
    ∃ strLen b', b.vsnprintf n message = some (strLen, b') := by
  cases message with
  | text bs =>
    obtain ⟨c, hc⟩ := snprintf_isSome bs h
    exact ⟨_, c, Option.map_eq_some_iff.mpr ⟨c, hc, rfl⟩⟩
  | failed junk =>
    have hlen : (junk.take n).length ≤ n := List.length_take_le _ _
    obtain ⟨c, hc⟩ := store_isSome (b := b) (i := b.getTryCurrent) (junk.take n) (by omega)
    exact ⟨_, c, Option.map_eq_some_iff.mpr ⟨c, hc, rfl⟩⟩

lemma addTryIncrease_nat {b : CBigBuff} {n : ℕ} (hn : n < 2 ^ 16)
    (hb : b.m_usTryIncrease + n < 2 ^ 32) :
    (b.addTryIncrease n).m_usTryIncrease = b.m_usTryIncrease + n := by
  unfold addTryIncrease
  simp only [Word.ofInt_natCast hn]
  exact Word.add_of_lt hb

lemma doneTry_eq_some {b b' : CBigBuff} (h : b.doneTry = some b')
    (hs : b.m_ulPos + b.m_usTryIncrease + 1 < 2 ^ 32) :
    b'.m_ulLen = b.m_ulLen ∧ b'.m_ulPos = b.m_ulPos + b.m_usTryIncrease + 1 ∧
      b'.m_usTryIncrease = 0 := by
  obtain ⟨c, hc, rfl⟩ := Option.map_eq_some_iff.mp h
  refine ⟨(store_same hc).len, ?_, rfl⟩
  simp only
  rw [Word.add_of_lt (a := b.m_ulPos) (by omega), Word.add_of_lt (by omega)]

lemma doneTry_isSome {b : CBigBuff} (h : b.Fits) (hl : b.m_ulLen < 2 ^ 32) :
    ∃ b', b.doneTry = some b' := by
  unfold Fits at h
  have hpos : Word.add 32 b.m_ulPos b.m_usTryIncrease = b.m_ulPos + b.m_usTryIncrease :=
    Word.add_of_lt (by omega)
  obtain ⟨c, hc⟩ := store_isSome (b := b) (i := b.m_ulPos + b.m_usTryIncrease) [10]
    (by rw [List.length_singleton]; omega)
  exact ⟨_, by unfold doneTry; simp only [hpos, hc]; rfl⟩

end CBigBuff

/-! ### The length a record takes -/

/-- How many bytes of the message a record keeps, with `avail` bytes free. -/
def kept (avail : ℕ) : Formatted → ℕ
  | .text bs => if bs.length < 2 ^ 31 then min bs.length m_lMaxStrLen else min avail m_lMaxStrLen
  | .failed _ => min avail m_lMaxStrLen

/-- How many it keeps in a buffer without end: a message that cannot be formatted counts as
one of the greatest length. -/
def wanted : Formatted → ℕ
  | .text bs => if bs.length < 2 ^ 31 then min bs.length m_lMaxStrLen else m_lMaxStrLen
  | .failed _ => m_lMaxStrLen

lemma kept_lt_iff {avail : ℕ} {message : Formatted} :
    kept avail message < avail ↔ wanted message < avail := by
  cases message with
  | text bs => simp only [kept, wanted]; split_ifs <;> omega
  | failed junk => simp only [kept, wanted]; omega

lemma kept_of_wanted_lt {avail : ℕ} {message : Formatted} (h : wanted message < avail) :
    kept avail message = wanted message := by
  cases message with
  | text bs => simp only [kept, wanted] at h ⊢; split_ifs at h ⊢ <;> omega
  | failed junk => simp only [kept, wanted] at h ⊢; omega

lemma kept_le (avail : ℕ) (message : Formatted) : kept avail message ≤ m_lMaxStrLen := by
  cases message with
  | text bs => simp only [kept]; split_ifs <;> omega
  | failed junk => simp only [kept]; omega

lemma messageLen_natCast (b : CBigBuff) {n : ℕ} (h : n < 2 ^ 31) :
    messageLen b n = (min n m_lMaxStrLen : ℕ) := by
  unfold messageLen
  have hneg : ¬ (n : ℤ) < 0 := by omega
  simp only [if_neg hneg, Word.ofInt_natCast (show n < 2 ^ 32 by omega)]
  split_ifs <;> omega

lemma messageLen_neg {b : CBigBuff} (h : b.getTryAvailid < 2 ^ 31) :
    messageLen b (-1) = (min b.getTryAvailid m_lMaxStrLen : ℕ) := by
  have hint : Word.toInt 32 b.getTryAvailid = b.getTryAvailid := Word.toInt_natCast (by omega)
  have hneg : ¬ (b.getTryAvailid : ℤ) < 0 := by omega
  rw [← messageLen_natCast b h]
  unfold messageLen
  simp only [hint, if_neg hneg, Int.reduceNeg, Int.reduceLT, if_true]

/-- What `vsnprintf` returns gives the message its length. -/
lemma messageLen_vsnprintf {b b' : CBigBuff} {n : ℕ} {message : Formatted} {strLen : ℤ}
    (h : b.vsnprintf n message = some (strLen, b')) (ha : b.getTryAvailid < 2 ^ 31) :
    messageLen b' strLen = kept b.getTryAvailid message := by
  have hsame := (CBigBuff.vsnprintf_same h).avail
  rw [← hsame] at ha ⊢
  cases message with
  | text bs =>
    obtain ⟨c, hc, he⟩ := Option.map_eq_some_iff.mp h
    obtain ⟨rfl, rfl⟩ := Prod.mk.inj he
    simp only [kept]
    split_ifs with hl
    · exact messageLen_natCast c hl
    · exact messageLen_neg ha
  | failed junk =>
    obtain ⟨c, hc, he⟩ := Option.map_eq_some_iff.mp h
    obtain ⟨rfl, rfl⟩ := Prod.mk.inj he
    exact messageLen_neg ha

/-! ### The buffers between calls -/

/-- A buffer no call is writing to: nothing uncommitted, and the position inside. -/
structure Ready (b : CBigBuff) : Prop where
  len : b.m_ulLen = m_ulBigBufSize - 1
  idle : b.m_usTryIncrease = 0
  pos : b.m_ulPos ≤ b.m_ulLen

/-- The buffers of an asynchronous logger other than the one it writes to. -/
structure Rest (s : CLogger) : Prop where
  asyn : s.m_bAsynLog = true
  deal : ∀ b ∈ s.m_pBufDeal, Ready b ∧ b.m_ulPos = 0
  queWrite : ∀ b ∈ s.m_queBufsWrite, Ready b
  queDeal : ∀ b ∈ s.m_queBufsDeal, Ready b
  empty : ∀ b ∈ s.m_queBufsEmpty, Ready b ∧ b.m_ulPos = 0

structure Inv (s : CLogger) : Prop extends Rest s where
  write : Ready s.m_pBufWrite

lemma Ready.fits {b : CBigBuff} (h : Ready b) : b.Fits := by
  have h1 := h.pos
  have h2 := h.idle
  unfold CBigBuff.Fits
  omega

lemma ready_newBuf (junk : ℕ → UInt8) : Ready (newBuf junk) where
  len := rfl
  idle := rfl
  pos := Nat.zero_le _

lemma Inv.fits {s : CLogger} (h : Inv s) : ∀ b ∈ bufs s, b.Fits := by
  intro b hb
  simp only [bufs, List.mem_append, List.mem_cons, Option.mem_toList] at hb
  rcases hb with (((rfl | hb) | hb) | hb) | hb
  · exact h.write.fits
  · exact (h.deal b hb).1.fits
  · exact (h.queWrite b hb).fits
  · exact (h.queDeal b hb).fits
  · exact (h.empty b hb).1.fits

lemma updateTime_write (s : CLogger) (time_info : Tm) :
    (updateTime s time_info).m_pBufWrite = s.m_pBufWrite := by
  unfold updateTime
  split_ifs <;> rfl

/-- Only the time that is kept changes, and its text. -/
lemma updateTime_same (s : CLogger) (time_info : Tm) :
    (updateTime s time_info).files = s.files ∧
      (updateTime s time_info).m_strFilePath = s.m_strFilePath ∧
      (updateTime s time_info).m_fileNum = s.m_fileNum ∧
      (updateTime s time_info).m_fileSize = s.m_fileSize ∧
      (updateTime s time_info).m_bAsynLog = s.m_bAsynLog ∧
      (updateTime s time_info).m_LogLevel = s.m_LogLevel := by
  unfold updateTime
  split_ifs <;> exact ⟨rfl, rfl, rfl, rfl, rfl, rfl⟩

lemma Inv.updateTime {s : CLogger} (h : Inv s) (time_info : Tm) :
    Inv (updateTime s time_info) := by
  unfold Logger.updateTime
  split_ifs
  · exact ⟨⟨h.asyn, h.deal, h.queWrite, h.queDeal, h.empty⟩, h.write⟩
  · exact h

lemma updateBufWrite_spec {s : CLogger} (h : Inv s) (junk : ℕ → UInt8) :
    ∃ t, updateBufWrite s junk = some t ∧ Inv t ∧ t.m_pBufWrite.m_ulPos = 0 ∧
      t.m_pBufDeal = s.m_pBufDeal ∧ t.m_queBufsDeal = s.m_queBufsDeal := by
  have hp := h.write.pos
  obtain ⟨b, hb⟩ := CBigBuff.store_isSome (b := s.m_pBufWrite) (i := s.m_pBufWrite.m_ulPos)
    [0] (by simpa using hp)
  obtain ⟨hlen, hpos, htry⟩ := CBigBuff.store_same hb
  have hr : Ready b := by
    refine ⟨hlen.trans h.write.len, htry.trans h.write.idle, ?_⟩
    rw [hlen, hpos]; exact hp
  have hq : ∀ c ∈ s.m_queBufsWrite ++ [b], Ready c := by
    intro c hc
    rcases List.mem_append.mp hc with hc | hc
    · exact h.queWrite c hc
    · rw [List.mem_singleton.mp hc]; exact hr
  unfold updateBufWrite
  rw [CBigBuff.zeroEnd, hb]
  rcases he : s.m_queBufsEmpty with _ | ⟨e, rest⟩
  · refine ⟨{ s with m_queBufsWrite := s.m_queBufsWrite ++ [b], m_pBufWrite := newBuf junk },
      by simp only [Option.map_some, he], ?_, rfl, rfl, rfl⟩
    exact ⟨⟨h.asyn, h.deal, hq, h.queDeal, by simp [he]⟩, ready_newBuf junk⟩
  · have hall : ∀ c ∈ e :: rest, Ready c ∧ c.m_ulPos = 0 := he ▸ h.empty
    refine ⟨{ s with
        m_queBufsWrite := s.m_queBufsWrite ++ [b]
        m_pBufWrite := e
        m_queBufsEmpty := rest },
      by simp only [Option.map_some], ?_, (hall e (by simp)).2, rfl, rfl⟩
    exact ⟨⟨h.asyn, h.deal, hq, h.queDeal, fun c hc => hall c (by simp [hc])⟩,
      (hall e (by simp)).1⟩

/-! ### One call -/

/-- The bytes of a buffer not yet written. -/
def CBigBuff.free (b : CBigBuff) : ℕ := b.m_ulLen - b.m_ulPos

/-- Where the record of the next call starts. -/
def startPos (s : CLogger) : ℕ :=
  if s.m_pBufWrite.free ≤ MIN_AVAILI_SIZE then 0 else s.m_pBufWrite.m_ulPos

/-- The call switches buffers, or the record and its newline leave room in this one. -/
def HasRoom (s : CLogger) (message : Formatted) : Prop :=
  s.m_pBufWrite.free ≤ MIN_AVAILI_SIZE ∨ 24 + wanted message < s.m_pBufWrite.free

lemma reserve_spec {s : CLogger} (h : Inv s) (junk : ℕ → UInt8) :
    ∃ t, reserve s junk = some t ∧ Inv t ∧ t.m_pBufWrite.m_ulPos = startPos s := by
  have hlen := h.write.len
  have hav : s.m_pBufWrite.getTryAvailid = s.m_pBufWrite.free := by
    rw [CBigBuff.getTryAvailid_of_fits h.write.fits (by rw [hlen]; decide), h.write.idle]
    rfl
  unfold reserve startPos
  simp only [h.asyn, hav, true_and]
  split_ifs with hm
  · obtain ⟨t, ht, hi, hpos, -⟩ := updateBufWrite_spec h junk
    exact ⟨t, ht, hi, hpos⟩
  · exact ⟨s, rfl, h, rfl⟩

/-- The stamp always has room: at least 1025 bytes are free after a possible switch. -/
lemma startPos_le {s : CLogger} (h : Inv s) : startPos s + 1025 ≤ m_ulBigBufSize - 1 := by
  have hlen := h.write.len
  have hpos := h.write.pos
  have hsize : m_ulBigBufSize = 1048576 := rfl
  have hmin : MIN_AVAILI_SIZE = 1024 := rfl
  unfold startPos
  split_ifs with hm
  · omega
  · unfold CBigBuff.free at hm
    omega

/-- The write buffer with a stamp not yet committed. -/
structure Stamped (s p : CLogger) : Prop extends Rest p where
  len : p.m_pBufWrite.m_ulLen = m_ulBigBufSize - 1
  pos : p.m_pBufWrite.m_ulPos = startPos s
  tried : p.m_pBufWrite.m_usTryIncrease = 24

lemma stamped_spec {s : CLogger} (h : Inv s) (time_info : Tm) (now_ms : ℕ)
    (junk : ℕ → UInt8) : ∃ p, stamped s time_info now_ms junk = some p ∧ Stamped s p := by
  obtain ⟨r, hr, hi, hpos⟩ := reserve_spec (h.updateTime time_info) junk
  have hstart : startPos (updateTime s time_info) = startPos s := by
    unfold startPos; rw [updateTime_write]
  have hle := startPos_le h
  have hlen := hi.write.len
  have hidle := hi.write.idle
  obtain ⟨b, hb⟩ := CBigBuff.snprintf_isSome (b := r.m_pBufWrite) (n := 25)
    (stamp r now_ms) (by unfold CBigBuff.getTryCurrent; omega)
  obtain ⟨h1, h2, h3⟩ := CBigBuff.snprintf_same hb
  refine ⟨{ r with m_pBufWrite := b.addTryIncrease 24 }, ?_, ?_⟩
  · unfold stamped
    rw [hr]
    simp only [Option.bind_eq_bind, Option.bind_some, writeStamp, hb, Option.map_some]
    rfl
  · refine ⟨⟨hi.asyn, hi.deal, hi.queWrite, hi.queDeal, hi.empty⟩, h1.trans hlen,
      (h2.trans hpos).trans hstart, ?_⟩
    change Word.add 32 b.m_usTryIncrease (Word.ofInt 16 24) = 24
    rw [h3, hidle]
    decide

lemma Stamped.fits {s p : CLogger} (hi : Inv s) (h : Stamped s p) : p.m_pBufWrite.Fits := by
  have hle := startPos_le hi
  have h1 := h.len
  have h2 := h.pos
  have h3 := h.tried
  unfold CBigBuff.Fits
  omega

/-- The bytes free behind the stamp. -/
lemma Stamped.avail {s p : CLogger} (hi : Inv s) (h : Stamped s p) :
    p.m_pBufWrite.getTryAvailid = m_ulBigBufSize - 1 - startPos s - 24 := by
  rw [CBigBuff.getTryAvailid_of_fits (h.fits hi) (by rw [h.len]; decide), h.len, h.pos, h.tried]

/-- How far a record reaches. -/
lemma writeMessage_eq_some {s p : CLogger} (hi : Inv s) (h : Stamped s p) {message : Formatted}
    {b : CBigBuff} (hb : writeMessage p.m_pBufWrite message = some b) :
    b.m_ulLen = m_ulBigBufSize - 1 ∧ b.m_usTryIncrease = 0 ∧
      b.m_ulPos = startPos s + 24 + kept p.m_pBufWrite.getTryAvailid message + 1 := by
  have hsize : m_ulBigBufSize = 1048576 := rfl
  have hmax : m_lMaxStrLen = 2048 := rfl
  have hle := startPos_le hi
  have hk := kept_le p.m_pBufWrite.getTryAvailid message
  obtain ⟨⟨strLen, c⟩, hc, hd⟩ := Option.bind_eq_some_iff.mp hb
  have hsame := CBigBuff.vsnprintf_same hc
  have htry : c.m_usTryIncrease = 24 := hsame.tried.trans h.tried
  have hpos : (c.addTryIncrease (messageLen c strLen)).m_ulPos = startPos s :=
    hsame.pos.trans h.pos
  have hinc : (c.addTryIncrease (messageLen c strLen)).m_usTryIncrease =
      24 + kept p.m_pBufWrite.getTryAvailid message := by
    rw [messageLen_vsnprintf hc (by rw [h.avail hi]; omega),
      CBigBuff.addTryIncrease_nat (by omega) (by omega), htry]
  obtain ⟨h1, h2, h3⟩ := CBigBuff.doneTry_eq_some hd (by omega)
  exact ⟨h1.trans (hsame.len.trans h.len), h3, by omega⟩

/-- With room for the record nothing is stored outside the buffer. -/
lemma writeMessage_isSome {s p : CLogger} (hi : Inv s) (h : Stamped s p) {message : Formatted}
    (hroom : wanted message < p.m_pBufWrite.getTryAvailid) :
    ∃ b, writeMessage p.m_pBufWrite message = some b := by
  have hsize : m_ulBigBufSize = 1048576 := rfl
  have hmax : m_lMaxStrLen = 2048 := rfl
  have hle := startPos_le hi
  have hk := kept_le p.m_pBufWrite.getTryAvailid message
  have hav := h.avail hi
  have hroom := kept_lt_iff.mpr hroom
  obtain ⟨strLen, c, hc⟩ := CBigBuff.vsnprintf_isSome (b := p.m_pBufWrite)
    (n := p.m_pBufWrite.getTryAvailid) message
    (by rw [CBigBuff.getTryCurrent, h.pos, h.tried, h.len]; omega)
  have hsame := CBigBuff.vsnprintf_same hc
  have htry : c.m_usTryIncrease = 24 := hsame.tried.trans h.tried
  have hlen : c.m_ulLen = m_ulBigBufSize - 1 := hsame.len.trans h.len
  have hfits : (c.addTryIncrease (messageLen c strLen)).Fits := by
    unfold CBigBuff.Fits
    rw [messageLen_vsnprintf hc (by omega), CBigBuff.addTryIncrease_nat (by omega) (by omega)]
    have hpos : c.m_ulPos = startPos s := hsame.pos.trans h.pos
    change c.m_ulPos + _ ≤ c.m_ulLen
    omega
  obtain ⟨b, hb⟩ := CBigBuff.doneTry_isSome hfits
    (by change c.m_ulLen < 2 ^ 32; omega)
  exact ⟨b, Option.bind_eq_some_iff.mpr ⟨_, hc, hb⟩⟩

/-- A call without room behind the stamp leaves the buffer over its end. -/
lemma hasRoom_iff {s p : CLogger} (hi : Inv s) (h : Stamped s p) (message : Formatted) :
    HasRoom s message ↔ wanted message < p.m_pBufWrite.getTryAvailid := by
  have hsize : m_ulBigBufSize = 1048576 := rfl
  have hmin : MIN_AVAILI_SIZE = 1024 := rfl
  have hmax : wanted message ≤ 2048 := by
    have h1 := kept_le m_ulBigBufSize message
    rwa [kept_of_wanted_lt] at h1
    cases message with
    | text bs => simp only [wanted, m_lMaxStrLen, hsize]; split_ifs <;> omega
    | failed junk => simp only [wanted, m_lMaxStrLen, hsize]; omega
  have hlen := hi.write.len
  have hpos := hi.write.pos
  rw [h.avail hi]
  unfold HasRoom startPos CBigBuff.free
  split_ifs with hm <;> omega

lemma record_eq_some {s t : CLogger} (hi : Inv s) {time_info : Tm} {now_ms : ℕ}
    {message : Formatted} {junk : ℕ → UInt8} {take : CBigBuff → Option (List UInt8)}
    (h : record s time_info now_ms message junk take = some t) :
    ∃ p b, Stamped s p ∧ stamped s time_info now_ms junk = some p ∧
      writeMessage p.m_pBufWrite message = some b ∧ t = { p with m_pBufWrite := b } := by
  obtain ⟨p, hp, hst⟩ := stamped_spec hi time_info now_ms junk
  obtain ⟨q, hq, h⟩ := Option.bind_eq_some_iff.mp h
  obtain rfl := Option.some.inj (hp.symm.trans hq)
  obtain ⟨b, hb, h⟩ := Option.bind_eq_some_iff.mp h
  refine ⟨p, b, hst, hp, hb, ?_⟩
  unfold writeSync at h
  rw [if_pos hst.asyn] at h
  exact (Option.some.inj h).symm

/-- After a call that kept its buffer within bounds everything is as between calls. -/
lemma inv_record {s t : CLogger} (hi : Inv s) {time_info : Tm} {now_ms : ℕ}
    {message : Formatted} {junk : ℕ → UInt8} {take : CBigBuff → Option (List UInt8)}
    (h : record s time_info now_ms message junk take = some t) (hfit : t.m_pBufWrite.Fits) :
    Inv t := by
  obtain ⟨p, b, hst, -, hb, rfl⟩ := record_eq_some hi h
  obtain ⟨hlen, htry, -⟩ := writeMessage_eq_some hi hst hb
  refine ⟨⟨hst.asyn, hst.deal, hst.queWrite, hst.queDeal, hst.empty⟩, hlen, htry, ?_⟩
  unfold CBigBuff.Fits at hfit
  exact le_trans (Nat.le_add_right _ _) hfit

lemma hasRoom_of_record {s t : CLogger} (hi : Inv s) {time_info : Tm} {now_ms : ℕ}
    {message : Formatted} {junk : ℕ → UInt8} {take : CBigBuff → Option (List UInt8)}
    (h : record s time_info now_ms message junk take = some t) (hfit : t.m_pBufWrite.Fits) :
    HasRoom s message := by
  obtain ⟨p, b, hst, -, hb, rfl⟩ := record_eq_some hi h
  obtain ⟨hlen, htry, hpos⟩ := writeMessage_eq_some hi hst hb
  rw [hasRoom_iff hi hst, ← kept_lt_iff]
  have hav := hst.avail hi
  have hle := startPos_le hi
  have hfit : b.m_ulPos + b.m_usTryIncrease ≤ b.m_ulLen := hfit
  omega

lemma record_of_hasRoom {s : CLogger} (hi : Inv s) (time_info : Tm) (now_ms : ℕ)
    {message : Formatted} (junk : ℕ → UInt8) (take : CBigBuff → Option (List UInt8))
    (hroom : HasRoom s message) :
    ∃ t, record s time_info now_ms message junk take = some t ∧ Inv t ∧
      t.m_pBufWrite.m_ulPos = startPos s + 24 + wanted message + 1 := by
  obtain ⟨p, hp, hst⟩ := stamped_spec hi time_info now_ms junk
  have hwant := (hasRoom_iff hi hst message).mp hroom
  obtain ⟨b, hb⟩ := writeMessage_isSome hi hst hwant
  obtain ⟨hlen, htry, hpos⟩ := writeMessage_eq_some hi hst hb
  rw [kept_of_wanted_lt hwant] at hpos
  have hrec : record s time_info now_ms message junk take = some { p with m_pBufWrite := b } := by
    refine Option.bind_eq_some_iff.mpr ⟨p, hp, Option.bind_eq_some_iff.mpr ⟨b, hb, ?_⟩⟩
    unfold writeSync
    exact if_pos hst.asyn
  refine ⟨_, hrec, inv_record hi hrec ?_, hpos⟩
  have hav := hst.avail hi
  have hle := startPos_le hi
  change b.m_ulPos + b.m_usTryIncrease ≤ b.m_ulLen
  omega

/-! ### Whole runs -/

/-- What the function hands to the stream. -/
def LogFn.take : LogFn → CBigBuff → Option (List UInt8)
  | .logWrite => CBigBuff.content
  | _ => CBigBuff.cString

lemma run_take {s : CLogger} {f : LogFn} (h : f.accepts s) (time_info : Tm) (now_ms : ℕ)
    (message : Formatted) (junk : ℕ → UInt8) :
    f.run s time_info now_ms message junk = record s time_info now_ms message junk f.take := by
  cases f with
  | logWrite => rfl
  | _ => exact if_neg (not_lt.mpr h)

lemma run_not_accepts {s : CLogger} {f : LogFn} (h : ¬ f.accepts s) (time_info : Tm)
    (now_ms : ℕ) (message : Formatted) (junk : ℕ → UInt8) :
    f.run s time_info now_ms message junk = some s := by
  cases f with
  | logWrite => exact absurd trivial h
  | _ => exact if_pos (not_le.mp h)

/-- Every buffer is within its bounds before and after the call, the call stores inside the
blocks only, and it finds its buffer within bounds each time it asks for the bytes left. -/
structure Safe (s : CLogger) (a : Action) : Prop where
  before : ∀ b ∈ bufs s, b.Fits
  after : ∀ f time_info now_ms message junk, a = .call f time_info now_ms message junk →
    ∃ t, step s a = some t ∧ ∀ b ∈ bufs t, b.Fits
  between : ∀ f time_info now_ms message junk p, a = .call f time_info now_ms message junk →
    f.accepts s → stamped s time_info now_ms junk = some p → p.m_pBufWrite.Fits

/-- An accepted call that does not switch buffers has room for its record. -/
def CallHasRoom (s : CLogger) (a : Action) : Prop :=
  ∀ f time_info now_ms message junk, a = .call f time_info now_ms message junk →
    f.accepts s → HasRoom s message

lemma safe_of_hasRoom {s : CLogger} {a : Action} (hi : Inv s) (h : CallHasRoom s a) :
    Safe s a where
  before := hi.fits
  after := by
    intro f time_info now_ms message junk ha
    subst ha
    by_cases hf : f.accepts s
    · obtain ⟨t, ht, hit, -⟩ :=
        record_of_hasRoom hi time_info now_ms junk f.take (h _ _ _ _ _ rfl hf)
      exact ⟨t, (run_take hf ..).trans ht, hit.fits⟩
    · exact ⟨s, run_not_accepts hf _ _ _ _, hi.fits⟩
  between := by
    intro f time_info now_ms message junk p _ _ hp
    obtain ⟨q, hq, hst⟩ := stamped_spec hi time_info now_ms junk
    rw [Option.some.inj (hp.symm.trans hq)]
    exact hst.fits hi

lemma hasRoom_of_safe {s : CLogger} {a : Action} (hi : Inv s) (h : Safe s a) :
    CallHasRoom s a := by
  intro f time_info now_ms message junk ha hf
  obtain ⟨t, ht, hfit⟩ := h.after _ _ _ _ _ ha
  subst ha
  exact hasRoom_of_record hi ((run_take hf ..).symm.trans ht) (hfit _ (by simp [bufs]))

lemma inv_step {s t : CLogger} {a : Action} (hi : Inv s) (hsafe : Safe s a)
    (h : step s a = some t) : Inv t := by
  cases a with
  | call f time_info now_ms message junk =>
    obtain ⟨u, hu, hfit⟩ := hsafe.after _ _ _ _ _ rfl
    obtain rfl := Option.some.inj (h.symm.trans hu)
    by_cases hf : f.accepts s
    · exact inv_record hi ((run_take hf ..).symm.trans h) (hfit _ (by simp [bufs]))
    · exact Option.some.inj ((run_not_accepts hf _ _ _ _).symm.trans h) ▸ hi
  | dealSwap junk =>
    unfold step dealSwap at h
    split_ifs at h with hc
    obtain ⟨u, hu, rfl⟩ := Option.map_eq_some_iff.mp h
    obtain ⟨u', hu', hiu, -⟩ := updateBufWrite_spec hi junk
    obtain rfl := Option.some.inj (hu.symm.trans hu')
    exact ⟨⟨hiu.asyn, hiu.deal, by simp, hiu.queWrite, hiu.empty⟩, hiu.write⟩
  | dealWrite =>
    change dealWrite s = some t at h
    unfold dealWrite at h
    split at h
    · rename_i b rest _ hq
      obtain ⟨bs, -, h⟩ := Option.bind_eq_some_iff.mp h
      obtain ⟨files, -, h⟩ := Option.bind_eq_some_iff.mp h
      rw [← Option.some.inj h]
      have hall : ∀ c ∈ b :: rest, Ready c := hq ▸ hi.queDeal
      have hb : Ready b.clear := ⟨(hall b (by simp)).len, rfl, Nat.zero_le _⟩
      refine ⟨⟨hi.asyn, ?_, hi.queWrite, fun c hc => hall c (by simp [hc]), hi.empty⟩, hi.write⟩
      intro c hc
      rw [← Option.mem_some_iff.mp hc]
      exact ⟨hb, rfl⟩
    · simp at h
  | dealReturn =>
    obtain ⟨b, hb, rfl⟩ := Option.map_eq_some_iff.mp h
    refine ⟨⟨hi.asyn, by simp, hi.queWrite, hi.queDeal, ?_⟩, hi.write⟩
    intro c hc
    rcases List.mem_append.mp hc with hc | hc
    · exact hi.empty c hc
    · rw [List.mem_singleton.mp hc]; exact hi.deal b hb

lemma inv_construct (ulFileNum ullFileSize : ℕ) (path : String) (lastTime : Tm)
    (szLastTime : List UInt8) (junk : Fin 4 → ℕ → UInt8) (files : LogFiles.Files) :
    Inv (construct ulFileNum ullFileSize true path lastTime szLastTime junk files) where
  asyn := rfl
  write := ready_newBuf _
  deal := by simp [construct]
  queWrite := by simp [construct]
  queDeal := by simp [construct]
  empty := by
    intro b hb
    simp only [construct, List.mem_cons, List.not_mem_nil, or_false] at hb
    rcases hb with rfl | rfl | rfl <;> exact ⟨ready_newBuf _, rfl⟩

/-- **Bounds of the buffers**: along a run of an asynchronous logger every buffer stays within
its bounds and every store inside its block, exactly when each accepted call finds at most
1024 bytes free or more than its stamp and message need. -/
theorem safe_run_iff (ulFileNum ullFileSize : ℕ) (path : String) (lastTime : Tm)
    (szLastTime : List UInt8) (junk : Fin 4 → ℕ → UInt8) (files : LogFiles.Files)
    (as : List Action) :
    Always step (fun _ => Safe)
        (construct ulFileNum ullFileSize true path lastTime szLastTime junk files) as ↔
      Always step (fun _ => CallHasRoom)
        (construct ulFileNum ullFileSize true path lastTime szLastTime junk files) as := by
  have h0 := inv_construct ulFileNum ullFileSize path lastTime szLastTime junk files
  exact always_congr (P := fun _ => Safe) (Q := fun _ => CallHasRoom) (I := fun _ => Inv) h0
    (fun _ _ _ _ => inv_step)
    (fun _ _ _ hi => ⟨hasRoom_of_safe hi, safe_of_hasRoom hi⟩) as

/-- A default logger, and a call with a message of 2048 bytes. -/
def freshLogger : CLogger :=
  construct 10 16 true "log/app.log" ⟨0, 0, 0, 1, 0, 0⟩ [] (fun _ _ => 0) (fun _ => none)

def longMessage : Formatted := .text (List.replicate 2048 97)

def longCall : Action := .call .logWrite ⟨0, 0, 0, 1, 0, 124⟩ 0 longMessage fun _ => 0

lemma wanted_replicate {n : ℕ} (c : UInt8) (h : n < 2 ^ 31) :
    wanted (.text (List.replicate n c)) = min n m_lMaxStrLen := by
  simp only [wanted, List.length_replicate, if_pos h]

lemma wanted_longMessage : wanted longMessage = 2048 := wanted_replicate 97 (by decide)

/-- Each of these calls advances the write position by 2073. -/
lemma exec_longCalls {k : ℕ} (hk : k ≤ 505) :
    ∃ s, exec step freshLogger (List.replicate k longCall) = some s ∧ Inv s ∧
      s.m_pBufWrite.m_ulPos = 2073 * k := by
  have hwant := wanted_longMessage
  have hsize : m_ulBigBufSize = 1048576 := rfl
  have hmin : MIN_AVAILI_SIZE = 1024 := rfl
  induction k with
  | zero => exact ⟨freshLogger, rfl, inv_construct _ _ _ _ _ _ _, rfl⟩
  | succ k ih =>
    obtain ⟨s, hs, hi, hpos⟩ := ih (by omega)
    have hlen := hi.write.len
    have hfree : s.m_pBufWrite.free = 1048575 - 2073 * k := by
      unfold CBigBuff.free; omega
    have hroom : HasRoom s longMessage := by
      unfold HasRoom; omega
    obtain ⟨t, ht, hit, htpos⟩ := record_of_hasRoom hi ⟨0, 0, 0, 1, 0, 124⟩ 0 (fun _ => 0)
      CBigBuff.content hroom
    have hstart : startPos s = 2073 * k := by
      unfold startPos; rw [if_neg (by omega), hpos]
    refine ⟨t, ?_, hit, by omega⟩
    rw [List.replicate_succ', exec_snoc, hs]
    exact ht

/-- The 506th of these calls finds 1710 bytes free, does not switch, and needs 2073. -/
theorem longCalls_overrun :
    ¬ Always step (fun _ => Safe) freshLogger (List.replicate 506 longCall) := by
  intro h
  obtain ⟨s, hs, hi, hpos⟩ := exec_longCalls le_rfl
  rw [List.replicate_succ'] at h
  have hroom := hasRoom_of_safe hi (h.last hs) .logWrite _ _ _ _ rfl trivial
  have hlen := hi.write.len
  have hwant := wanted_longMessage
  have hsize : m_ulBigBufSize = 1048576 := rfl
  have hmin : MIN_AVAILI_SIZE = 1024 := rfl
  unfold HasRoom CBigBuff.free at hroom
  omega

end MmrService.Logger
