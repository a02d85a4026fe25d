import MmrService.LoggerOrder
import Mathlib.Data.List.GetD

/-!
What a synchronous logger hands to its stream.

Every record starts at the beginning of the one write buffer, which is cleared after the call
but not overwritten. `logWrite` hands a record over by its length, and the level functions as
a C string, up to the first zero that the buffer happens to have.
-/

namespace MmrService.Logger

open Transition

/-- The bytes that a call without `m_bAsynLog` hands to the stream. -/
def handed (f : LogFn) (s : CLogger) (time_info : Tm) (now_ms : ℕ) (message : Formatted)
    (junk : ℕ → UInt8) : Option (List UInt8) :=
  if f.accepts s then do
    let p ← stamped s time_info now_ms junk
    let b ← writeMessage p.m_pBufWrite message
    f.take b
  else some []

/-- The 24 bytes of a time. -/
def timeStamp (time_info : Tm) (now_ms : ℕ) : List UInt8 :=
  (formatTm time_info ++ 46 :: formatInt 3 now_ms ++ [32]).take 24

/-- The record of a call: its time, the message cut and a newline. -/
def syncRecord (time_info : Tm) (now_ms : ℕ) (bs : List UInt8) : List UInt8 :=
  timeStamp time_info now_ms ++ bs.take m_lMaxStrLen ++ [10]

/-- A call with the text its message is formatted to. -/
structure Call where
  f : LogFn
  time_info : Tm
  now_ms : ℕ
  text : List UInt8
  junk : ℕ → UInt8

/-- A logger, the bytes that went to its stream and the records of the accepted calls. -/
structure SyncLog where
  log : CLogger
  appended : List UInt8
  records : List UInt8

/-- A call that the level lets pass has a record, whatever the function. -/
def Call.record (c : Call) (s : CLogger) : List UInt8 :=
  if c.f.accepts s then syncRecord c.time_info c.now_ms c.text else []

def Call.handed (c : Call) (s : CLogger) : Option (List UInt8) :=
  Logger.handed c.f s c.time_info c.now_ms (.text c.text) c.junk

def SyncLog.step (x : SyncLog) (c : Call) : Option SyncLog := do
  let bs ← c.handed x.log
  let log ← c.f.run x.log c.time_info c.now_ms (.text c.text) c.junk
  pure { log := log, appended := x.appended ++ bs, records := x.records ++ c.record x.log }

/-! ### C strings -/

/-- A C string is followed by a zero and has none itself. -/
lemma CBigBuff.cString_eq_some_iff {b : CBigBuff} {ys : List UInt8} :
    b.cString = some ys ↔
      b.m_buf.take ys.length = ys ∧ b.m_buf[ys.length]? = some 0 ∧ (0 : UInt8) ∉ ys := by
  have hwhile : 0 ∈ b.m_buf ∧ b.m_buf.takeWhile (· ≠ 0) = ys ↔
      (∃ rest, b.m_buf = ys ++ 0 :: rest) ∧ (0 : UInt8) ∉ ys := Bytes.takeWhile_ne_iff
  have hsome : b.cString = some ys ↔ 0 ∈ b.m_buf ∧ b.m_buf.takeWhile (· ≠ 0) = ys := by
    unfold cString
    split_ifs with h <;> simp [h]
  rw [hsome, hwhile, ← and_assoc]
  refine and_congr_left fun _ => ?_
  constructor
  · rintro ⟨rest, hbuf⟩
    rw [hbuf, List.take_left, List.getElem?_append_right le_rfl, Nat.sub_self]
    exact ⟨rfl, rfl⟩
  · rintro ⟨htake, hzero⟩
    refine ⟨b.m_buf.drop (ys.length + 1), ?_⟩
    obtain ⟨hlt, hget⟩ := List.getElem?_eq_some_iff.mp hzero
    have hdrop := List.drop_eq_getElem_cons hlt
    rw [hget] at hdrop
    calc b.m_buf = b.m_buf.take ys.length ++ b.m_buf.drop ys.length :=
          (List.take_append_drop _ _).symm
      _ = ys ++ 0 :: b.m_buf.drop (ys.length + 1) := by rw [htake, hdrop]

/-! ### The time stamp -/

lemma length_formatInt (width : ℕ) (hw : 0 < width) (n : ℤ) :
    width ≤ (formatInt width n).length := by
  unfold formatInt
  simp only
  split_ifs
  · rw [List.length_cons, List.length_leftpad]
    omega
  · rw [List.length_leftpad]
    omega

lemma zero_notMem_formatInt (width : ℕ) (n : ℤ) : (0 : UInt8) ∉ formatInt width n := by
  have hdigits : (0 : UInt8) ∉ (Nat.toDigits 10 n.natAbs).map fun c => UInt8.ofNat c.toNat := by
    intro h
    obtain ⟨c, hc, h0⟩ := List.mem_map.mp h
    have hdigit := Nat.isDigit_of_mem_toDigits (by decide) (by decide) hc
    rw [Char.isDigit_iff_toNat] at hdigit
    have hval := congrArg UInt8.toNat h0
    rw [UInt8.toNat_ofNat'] at hval
    have hzero : (0 : UInt8).toNat = 0 := rfl
    have hlow : '0'.toNat = 48 := rfl
    have hhigh : '9'.toNat = 57 := rfl
    omega
  unfold formatInt
  simp only [List.leftpad]
  split_ifs <;> simp [hdigits]

/-- A time takes at least the 19 bytes of `"%04d-%02d-%02d %02d:%02d:%02d"`. -/
lemma length_formatTm (t : Tm) : 19 ≤ (formatTm t).length := by
  have h1 := length_formatInt 4 (by decide) (t.tm_year + 1900)
  have h2 := length_formatInt 2 (by decide) (t.tm_mon + 1)
  have h3 := length_formatInt 2 (by decide) t.tm_mday
  have h4 := length_formatInt 2 (by decide) t.tm_hour
  have h5 := length_formatInt 2 (by decide) t.tm_min
  have h6 := length_formatInt 2 (by decide) t.tm_sec
  simp only [formatTm, List.length_take, List.length_append, List.length_cons]
  omega

lemma zero_notMem_formatTm (t : Tm) : (0 : UInt8) ∉ formatTm t := by
  intro h
  have h := List.mem_of_mem_take h
  simp [zero_notMem_formatInt] at h

lemma length_timeStamp (time_info : Tm) (now_ms : ℕ) :
    (timeStamp time_info now_ms).length = 24 := by
  have h1 := length_formatTm time_info
  have h2 := length_formatInt 3 (by decide) now_ms
  simp only [timeStamp, List.length_take, List.length_append, List.length_cons,
    List.length_nil]
  omega

lemma zero_notMem_timeStamp (time_info : Tm) (now_ms : ℕ) :
    (0 : UInt8) ∉ timeStamp time_info now_ms := by
  intro h
  have h := List.mem_of_mem_take h
  simp [zero_notMem_formatInt, zero_notMem_formatTm] at h

/-! ### The write buffer -/

/-- A synchronous logger between calls: its buffer is cleared. -/
structure SyncInv (s : CLogger) : Prop where
  sync : s.m_bAsynLog = false
  write : Ready s.m_pBufWrite
  pos : s.m_pBufWrite.m_ulPos = 0

/-- A cleared buffer with a stamp not yet committed. -/
structure SyncStamped (b : CBigBuff) : Prop where
  len : b.m_ulLen = m_ulBigBufSize - 1
  pos : b.m_ulPos = 0
  tried : b.m_usTryIncrease = 24

lemma SyncStamped.avail {b : CBigBuff} (h : SyncStamped b) :
    b.getTryAvailid = m_ulBigBufSize - 1 - 24 := by
  have hsize : m_ulBigBufSize = 1048576 := rfl
  have h1 := h.len
  have h2 := h.pos
  have h3 := h.tried
  rw [CBigBuff.getTryAvailid_of_fits (by unfold CBigBuff.Fits; omega) (by omega), h1, h2, h3]
  rfl

/-- The stamp overwrites the beginning of the buffer. -/
lemma sync_stamped {s : CLogger} (hi : SyncInv s) (time_info : Tm) (now_ms : ℕ)
    (junk : ℕ → UInt8) : ∃ b, SyncStamped b ∧
      stamped s time_info now_ms junk =
        some { updateTime s time_info with m_pBufWrite := b } ∧
      b.m_buf = Bytes.patch s.m_pBufWrite.m_buf 0
        ((stamp (updateTime s time_info) now_ms).take 24 ++ [0]) := by
  have hsize : m_ulBigBufSize = 1048576 := rfl
  have hlen := hi.write.len
  obtain ⟨-, -, -, -, hsync, -⟩ := updateTime_same s time_info
  rw [hi.sync] at hsync
  have hcur : s.m_pBufWrite.getTryCurrent = 0 := by
    rw [CBigBuff.getTryCurrent, hi.pos, hi.write.idle]
  obtain ⟨b, hb⟩ := CBigBuff.snprintf_isSome (b := s.m_pBufWrite) (n := 25)
    (stamp (updateTime s time_info) now_ms) (by omega)
  obtain ⟨h1, h2, h3⟩ := CBigBuff.snprintf_same hb
  have hstore : s.m_pBufWrite.store s.m_pBufWrite.getTryCurrent
      ((stamp (updateTime s time_info) now_ms).take 24 ++ [0]) = some b := hb
  refine ⟨b.addTryIncrease 24, ⟨h1.trans hlen, h2.trans hi.pos, ?_⟩, ?_, ?_⟩
  · change Word.add 32 b.m_usTryIncrease (Word.ofInt 16 24) = 24
    rw [h3, hi.write.idle]
    decide
  · unfold stamped reserve
    rw [if_neg (by rw [hsync]; simp)]
    simp only [Option.bind_eq_bind, Option.bind_some, writeStamp, updateTime_write, hb,
      Option.map_some]
    rfl
  · rw [← hcur]
    exact (CBigBuff.store_buf hstore).2

/-- The byte behind a text of one byte too many is its zero. -/
lemma getElem?_cut {bs : List UInt8} {i n : ℕ} (hi : i ≤ bs.length) (hn : i < n) :
    (bs.take n ++ [0])[i]? = some (bs.getD i 0) := by
  rcases Nat.lt_or_ge i bs.length with hlt | hge
  · rw [List.getElem?_append_left (by rw [List.length_take]; omega),
      List.getElem?_take_of_lt hn, List.getElem?_eq_getElem hlt, List.getD_eq_getElem _ _ hlt]
  · obtain rfl : i = bs.length := by omega
    rw [List.take_of_length_le (by omega), List.getElem?_append_right le_rfl,
      List.getD_eq_default _ _ le_rfl, Nat.sub_self]
    rfl

/-- The message follows the stamp, and the newline the message; behind it the buffer is as it
was, unless the message was cut. -/
lemma sync_message {b : CBigBuff} (h : SyncStamped b) (bs : List UInt8) :
    ∃ c, writeMessage b (.text bs) = some c ∧ c.m_ulLen = b.m_ulLen ∧ c.m_usTryIncrease = 0 ∧
      c.m_ulPos = 25 + (bs.take m_lMaxStrLen).length ∧
      c.bytes = b.m_buf.take 24 ++ bs.take m_lMaxStrLen ++ [10] ∧
      c.m_buf[c.m_ulPos]? =
        if bs.length ≤ m_lMaxStrLen then b.m_buf[25 + bs.length]?
        else some (bs.getD (m_lMaxStrLen + 1) 0) := by
  have hsize : m_ulBigBufSize = 1048576 := rfl
  have hmax : m_lMaxStrLen = 2048 := rfl
  have hlen := h.len
  have hav := h.avail
  have halloc := b.alloc
  have hcur : b.getTryCurrent = 24 := by rw [CBigBuff.getTryCurrent, h.pos, h.tried]
  -- what `vsnprintf` stores
  obtain ⟨c, hc⟩ := CBigBuff.snprintf_isSome (b := b) (n := b.getTryAvailid) bs (by omega)
  obtain ⟨strLen, hv⟩ : ∃ strLen, b.vsnprintf b.getTryAvailid (.text bs) = some (strLen, c) :=
    ⟨_, Option.map_eq_some_iff.mpr ⟨c, hc, rfl⟩⟩
  have hsame := CBigBuff.vsnprintf_same hv
  have hstore := hc
  unfold CBigBuff.snprintf at hstore
  rw [if_neg (by omega), hcur] at hstore
  obtain ⟨hfit, hbuf⟩ := CBigBuff.store_buf hstore
  obtain ⟨n, hn⟩ : ∃ n, n = (bs.take m_lMaxStrLen).length := ⟨_, rfl⟩
  have hn' := hn
  rw [List.length_take] at hn'
  have hkept : messageLen c strLen = (n : ℕ) := by
    rw [messageLen_vsnprintf hv (by omega), hn']
    simp only [kept]
    split_ifs <;> congr 1 <;> omega
  have htry : (c.addTryIncrease (messageLen c strLen)).m_usTryIncrease = 24 + n := by
    rw [hkept, CBigBuff.addTryIncrease_nat (by omega) (by rw [hsame.tried, h.tried]; omega),
      hsame.tried, h.tried]
  have hpos : (c.addTryIncrease (messageLen c strLen)).m_ulPos = 0 := hsame.pos.trans h.pos
  have hclen : (c.addTryIncrease (messageLen c strLen)).m_ulLen = b.m_ulLen := hsame.len
  -- the newline
  obtain ⟨d, hd⟩ := CBigBuff.doneTry_isSome (b := c.addTryIncrease (messageLen c strLen))
    (by unfold CBigBuff.Fits; omega) (by omega)
  obtain ⟨h1, h2, h3⟩ := CBigBuff.doneTry_eq_some hd (by omega)
  have hdpos : d.m_ulPos = 25 + n := by omega
  refine ⟨d, Option.bind_eq_some_iff.mpr ⟨_, hv, hd⟩, h1.trans hclen, h3, by rw [hdpos, hn],
    ?_, ?_⟩
  · have hsplit : bs.take (b.getTryAvailid - 1) ++ [0] = bs.take m_lMaxStrLen ++
        ((bs.take (b.getTryAvailid - 1)).drop m_lMaxStrLen ++ [0]) := by
      have htake : (bs.take (b.getTryAvailid - 1)).take m_lMaxStrLen = bs.take m_lMaxStrLen := by
        rw [List.take_take, Nat.min_eq_left (by omega)]
      rw [← List.append_assoc, ← htake, List.take_append_drop]
    rw [CBigBuff.doneTry_bytes hd (by omega), hpos, htry, Nat.zero_add]
    change c.m_buf.take _ ++ _ = _
    rw [hbuf, hsplit, hn, Bytes.take_patch_append _ _ (by omega)]
  · obtain ⟨hle, hdbuf⟩ := CBigBuff.doneTry_buf hd (by omega)
    rw [hpos, htry] at hle hdbuf
    have hcell := Bytes.getElem?_patch (i := 24) (j := 25 + n) hfit
    rw [← hbuf] at hcell
    rw [hdbuf, hdpos, Bytes.getElem?_patch (by rw [List.length_singleton]; exact hle),
      if_neg (by rw [List.length_singleton]; omega)]
    change c.m_buf[25 + n]? = _
    rw [hcell, List.length_append, List.length_take, List.length_singleton]
    split_ifs with h1 h2 h2
    · omega
    · rw [show 25 + n - 24 = m_lMaxStrLen + 1 by omega]
      exact getElem?_cut (by omega) (by omega)
    · rw [show n = bs.length by omega]
    · omega

/-! ### One call -/

/-- The byte behind the record's newline: of a message that was cut its own, and else what
earlier records left there. -/
def behind (s : CLogger) (bs : List UInt8) : UInt8 :=
  if bs.length ≤ m_lMaxStrLen then s.m_pBufWrite.m_buf.getD (25 + bs.length) 0
  else bs.getD (m_lMaxStrLen + 1) 0

/-- The time text at hand is that of the call, and a record that is handed over as a C string
ends where the string ends. -/
structure Terminated (s : CLogger) (c : Call) : Prop where
  time : c.time_info = s.m_lastTime →
    (stamp s c.now_ms).take 24 = timeStamp c.time_info c.now_ms
  text : c.f ≠ .logWrite → (0 : UInt8) ∉ c.text.take m_lMaxStrLen ∧ behind s c.text = 0

lemma take_stamp_iff {s : CLogger} {time_info : Tm} {now_ms : ℕ} :
    (stamp (updateTime s time_info) now_ms).take 24 = timeStamp time_info now_ms ↔
      (time_info = s.m_lastTime → (stamp s now_ms).take 24 = timeStamp time_info now_ms) := by
  unfold updateTime
  split_ifs with h
  · exact ⟨fun _ he => absurd he h, fun _ => rfl⟩
  · rw [not_not] at h
    exact ⟨fun he _ => he, fun he => he h⟩

/-- A stamp that is too short leaves a zero among the 24 bytes. -/
lemma take_patch_stamp {buf st : List UInt8} (hbuf : 25 ≤ buf.length) (time_info : Tm)
    (now_ms : ℕ) : (Bytes.patch buf 0 (st.take 24 ++ [0])).take 24 = timeStamp time_info now_ms ↔
      st.take 24 = timeStamp time_info now_ms := by
  have hlen := length_timeStamp time_info now_ms
  rcases Nat.lt_or_ge st.length 24 with hlt | hge
  · have hzero : (0 : UInt8) ∈ (Bytes.patch buf 0 (st.take 24 ++ [0])).take 24 := by
      refine List.mem_of_getElem? (i := st.length) ?_
      rw [List.getElem?_take_of_lt hlt, Bytes.getElem?_patch (by simp; omega),
        if_pos (by simp; omega), List.take_of_length_le hlt.le, Nat.sub_zero,
        List.getElem?_append_right le_rfl, Nat.sub_self]
      rfl
    constructor
    · intro h
      exact absurd (h ▸ hzero) (zero_notMem_timeStamp time_info now_ms)
    · intro h
      rw [← h, List.length_take] at hlen
      omega
  · have htake := Bytes.take_patch_append (st.take 24) [0] (Nat.zero_le buf.length)
    rw [List.length_take, Nat.min_eq_left hge, Nat.zero_add, List.take_zero,
      List.nil_append] at htake
    rw [htake]

/-- What the buffer has when a call hands it over. -/
lemma sync_written {s : CLogger} (hi : SyncInv s) (time_info : Tm) (now_ms : ℕ)
    (bs : List UInt8) (junk : ℕ → UInt8) : ∃ b c,
      stamped s time_info now_ms junk =
        some { updateTime s time_info with m_pBufWrite := b } ∧
      writeMessage b (.text bs) = some c ∧
      c.m_ulLen = m_ulBigBufSize - 1 ∧ c.m_usTryIncrease = 0 ∧
      c.m_ulPos = 25 + (bs.take m_lMaxStrLen).length ∧
      c.bytes = b.m_buf.take 24 ++ bs.take m_lMaxStrLen ++ [10] ∧
      c.m_buf[c.m_ulPos]? = some (behind s bs) ∧
      (b.m_buf.take 24 = timeStamp time_info now_ms ↔
        (time_info = s.m_lastTime →
          (stamp s now_ms).take 24 = timeStamp time_info now_ms)) := by
  have hsize : m_ulBigBufSize = 1048576 := rfl
  have hmax : m_lMaxStrLen = 2048 := rfl
  have halloc := s.m_pBufWrite.alloc
  have hlen := hi.write.len
  obtain ⟨b, hb, hst, hbuf⟩ := sync_stamped hi time_info now_ms junk
  obtain ⟨c, hc, h1, h2, h3, h4, h5⟩ := sync_message hb bs
  refine ⟨b, c, hst, hc, h1.trans hb.len, h2, h3, h4, ?_, ?_⟩
  · rw [h5, behind]
    split_ifs with hle
    · have hin : 25 + bs.length < s.m_pBufWrite.m_buf.length := by omega
      rw [hbuf, Bytes.getElem?_patch (by simp; omega), if_neg (by simp; omega),
        List.getElem?_eq_getElem hin, List.getD_eq_getElem _ _ hin]
    · rfl
  · rw [hbuf, take_patch_stamp (by omega), take_stamp_iff]

/-- **One call**: what is handed to the stream is the record exactly when the call's buffer is
terminated. -/
lemma handed_iff {s : CLogger} (hi : SyncInv s) (c : Call) :
    c.handed s = some (c.record s) ↔ (c.f.accepts s → Terminated s c) := by
  unfold Call.handed Call.record handed
  split_ifs with hf
  · obtain ⟨b, d, hst, hd, hlen, -, hpos, hbytes, hbehind, htime⟩ :=
      sync_written hi c.time_info c.now_ms c.text c.junk
    have hsize : m_ulBigBufSize = 1048576 := rfl
    have hmax : m_lMaxStrLen = 2048 := rfl
    have hcut : (c.text.take m_lMaxStrLen).length ≤ 2048 := List.length_take_le _ _
    have hrec : d.bytes = syncRecord c.time_info c.now_ms c.text ↔
        (c.time_info = s.m_lastTime →
          (stamp s c.now_ms).take 24 = timeStamp c.time_info c.now_ms) := by
      rw [hbytes, syncRecord, List.append_left_inj, List.append_left_inj, htime]
    have hreclen : (syncRecord c.time_info c.now_ms c.text).length = d.m_ulPos := by
      rw [syncRecord, List.length_append, List.length_append, length_timeStamp, hpos,
        List.length_singleton]
      omega
    have hclean : (0 : UInt8) ∉ syncRecord c.time_info c.now_ms c.text ↔
        (0 : UInt8) ∉ c.text.take m_lMaxStrLen := by
      simp [syncRecord, zero_notMem_timeStamp]
    rw [hst]
    simp only [Option.bind_eq_bind, Option.bind_some, hd, forall_const, hf]
    by_cases hw : c.f = .logWrite
    · rw [hw]
      change d.content = _ ↔ _
      rw [CBigBuff.content_of_fits (by omega), Option.some.injEq, hrec]
      exact ⟨fun h => ⟨h, fun hne => absurd hw hne⟩, fun h => h.time⟩
    · have htake : c.f.take d = d.cString := by
        cases hcf : c.f with
        | logWrite => exact absurd hcf hw
        | _ => rfl
      have hsome : (some (behind s c.text) = some 0) ↔ behind s c.text = 0 := Option.some_inj
      rw [htake, CBigBuff.cString_eq_some_iff, hreclen, hbehind, hclean, hsome]
      change d.bytes = _ ∧ _ ↔ _
      rw [hrec]
      constructor
      · rintro ⟨h1, h2, h3⟩
        exact ⟨h1, fun _ => ⟨h3, h2⟩⟩
      · intro h
        exact ⟨h.time, (h.text hw).2, (h.text hw).1⟩
  · simp [hf]

/-- An accepted call appends what it hands over to the log file, and clears the buffer. -/
lemma run_sync {s t : CLogger} (hi : SyncInv s) {c : Call} (hf : c.f.accepts s)
    (h : c.f.run s c.time_info c.now_ms (.text c.text) c.junk = some t) : ∃ bs b d,
      c.handed s = some bs ∧
      LogFiles.fileSizeCheck (LogFiles.write s.files s.m_strFilePath bs) s.m_strFilePath
        s.m_fileNum s.m_fileSize = some t.files ∧
      writeMessage b (.text c.text) = some d ∧ SyncStamped b ∧ t.m_pBufWrite = d.clear ∧
      t.m_bAsynLog = false ∧ t.m_LogLevel = s.m_LogLevel := by
  obtain ⟨b, hst, hstamped, -⟩ := sync_stamped hi c.time_info c.now_ms c.junk
  obtain ⟨d, hd, -⟩ := sync_message hst c.text
  obtain ⟨h1, h2, h3, h4, h5, h6⟩ := updateTime_same s c.time_info
  rw [hi.sync] at h5
  rw [run_take hf, record, hstamped] at h
  simp only [Option.bind_eq_bind, Option.bind_some, hd, writeSync, h1, h2, h3, h4, h5] at h
  obtain ⟨bs, hbs, h⟩ := Option.bind_eq_some_iff.mp h
  obtain ⟨files, hfiles, h⟩ := Option.bind_eq_some_iff.mp h
  obtain rfl := Option.some.inj h
  refine ⟨bs, b, d, ?_, hfiles, hd, hst, rfl, rfl, h6⟩
  unfold Call.handed handed
  rw [if_pos hf, hstamped]
  simp only [Option.bind_eq_bind, Option.bind_some, hd]
  exact hbs

/-- While the log file is small a call comes to its end. -/
lemma run_small {s : CLogger} (hi : SyncInv s) {c : Call} (hf : c.f.accepts s)
    {bs : List UInt8} (hbs : c.handed s = some bs)
    (hsmall : ((s.files s.m_strFilePath).getD []).length + bs.length ≤ s.m_fileSize) :
    ∃ t, c.f.run s c.time_info c.now_ms (.text c.text) c.junk = some t := by
  obtain ⟨b, hst, hstamped, -⟩ := sync_stamped hi c.time_info c.now_ms c.junk
  obtain ⟨d, hd, -⟩ := sync_message hst c.text
  unfold Call.handed handed at hbs
  rw [if_pos hf, hstamped] at hbs
  simp only [Option.bind_eq_bind, Option.bind_some, hd] at hbs
  have htell : LogFiles.tellp (LogFiles.write s.files s.m_strFilePath bs) s.m_strFilePath ≤
      s.m_fileSize := by
    rw [LogFiles.tellp, LogFiles.write, Function.update_self, Option.getD_some,
      List.length_append]
    exact hsmall
  have hcheck : LogFiles.fileSizeCheck (LogFiles.write s.files s.m_strFilePath bs)
      s.m_strFilePath s.m_fileNum s.m_fileSize =
        some (LogFiles.write s.files s.m_strFilePath bs) := if_pos htell
  obtain ⟨h1, h2, h3, h4, h5, -⟩ := updateTime_same s c.time_info
  rw [hi.sync] at h5
  rw [run_take hf, record, hstamped]
  simp only [Option.bind_eq_bind, Option.bind_some, hd, writeSync, h1, h2, h3, h4, h5, hbs,
    hcheck]
  exact ⟨_, rfl⟩

lemma SyncInv.run {s t : CLogger} (hi : SyncInv s) {c : Call}
    (h : c.f.run s c.time_info c.now_ms (.text c.text) c.junk = some t) : SyncInv t := by
  by_cases hf : c.f.accepts s
  · obtain ⟨bs, b, d, -, -, hd, hst, hbuf, hsync, -⟩ := run_sync hi hf h
    obtain ⟨d', hd', hlen, -⟩ := sync_message hst c.text
    obtain rfl := Option.some.inj (hd.symm.trans hd')
    refine ⟨hsync, ?_, by rw [hbuf]; rfl⟩
    rw [hbuf]
    exact ⟨hlen.trans hst.len, rfl, Nat.zero_le _⟩
  · exact Option.some.inj ((run_not_accepts hf _ _ _ _).symm.trans h) ▸ hi

/-- What an earlier record leaves behind a shorter one. -/
lemma behind_run {s t : CLogger} (hi : SyncInv s) {c : Call} (hf : c.f.accepts s)
    (h : c.f.run s c.time_info c.now_ms (.text c.text) c.junk = some t) {bs : List UInt8}
    (hlen : bs.length + 1 < (c.text.take m_lMaxStrLen).length) :
    behind t bs = c.text.getD (bs.length + 1) 0 := by
  have hcut : (c.text.take m_lMaxStrLen).length ≤ m_lMaxStrLen := List.length_take_le _ _
  have hle : (c.text.take m_lMaxStrLen).length ≤ c.text.length := List.length_take_le' _ _
  obtain ⟨-, b, d, -, -, hd, hst, hbuf, -⟩ := run_sync hi hf h
  obtain ⟨d', hd', -, -, hpos, hbytes, -⟩ := sync_message hst c.text
  obtain rfl := Option.some.inj (hd.symm.trans hd')
  have hhead : (b.m_buf.take 24).length = 24 := by
    have hsize : m_ulBigBufSize = 1048576 := rfl
    have halloc := b.alloc
    have hblen := hst.len
    rw [List.length_take]
    omega
  have hcell : d.m_buf[25 + bs.length]? = c.text[bs.length + 1]? := by
    calc d.m_buf[25 + bs.length]? = d.bytes[25 + bs.length]? :=
          (List.getElem?_take_of_lt (by omega)).symm
      _ = (c.text.take m_lMaxStrLen ++ [10])[bs.length + 1]? := by
          rw [hbytes, List.append_assoc, List.getElem?_append_right (by omega), hhead]
          congr 1
          omega
      _ = c.text[bs.length + 1]? := by
          rw [List.getElem?_append_left hlen, List.getElem?_take_of_lt (by omega)]
  unfold behind
  rw [if_pos (by omega), hbuf, List.getD_eq_getElem?_getD, List.getD_eq_getElem?_getD]
  change d.m_buf[25 + bs.length]?.getD 0 = _
  rw [hcell]

/-! ### Whole runs -/

lemma sync_construct (ulFileNum ullFileSize : ℕ) (path : String) (lastTime : Tm)
    (szLastTime : List UInt8) (junk : Fin 4 → ℕ → UInt8) (files : LogFiles.Files) :
    SyncInv (construct ulFileNum ullFileSize false path lastTime szLastTime junk files) where
  sync := rfl
  write := ready_newBuf _
  pos := rfl

/-- A logger as its constructor leaves it, before the record of `start`. -/
def SyncLog.start (log : CLogger) : SyncLog := ⟨log, [], []⟩

/-- The stream has the records of the accepted calls, and the call is about to append its own. -/
structure Exact (x : SyncLog) (c : Call) : Prop where
  sofar : x.appended = x.records
  next : c.handed x.log = some (c.record x.log)

def AcceptedTerminated (x : SyncLog) (c : Call) : Prop := c.f.accepts x.log → Terminated x.log c

/-- **The synchronous stream**: along a run of a synchronous logger the stream has exactly the
records of the accepted calls when each accepted call finds the time text its own and, where a
level function hands over the buffer, has no zero in its text and one behind its newline. -/
theorem appended_run_iff (ulFileNum ullFileSize : ℕ) (path : String) (lastTime : Tm)
    (szLastTime : List UInt8) (junk : Fin 4 → ℕ → UInt8) (files : LogFiles.Files)
    (cs : List Call) :
    Always SyncLog.step (fun _ => Exact)
        (.start (construct ulFileNum ullFileSize false path lastTime szLastTime junk files)) cs ↔
      Always SyncLog.step (fun _ => AcceptedTerminated)
        (.start (construct ulFileNum ullFileSize false path lastTime szLastTime junk files))
        cs := by
  refine always_congr (I := fun _ x => SyncInv x.log ∧ x.appended = x.records)
    ⟨sync_construct .., rfl⟩ ?_ ?_ cs
  · intro _ x c y hi hexact hs
    obtain ⟨bs, hbs, hs⟩ := Option.bind_eq_some_iff.mp hs
    obtain ⟨log, hlog, hs⟩ := Option.bind_eq_some_iff.mp hs
    obtain rfl := Option.some.inj hs
    obtain rfl := Option.some.inj (hbs.symm.trans hexact.next)
    exact ⟨hi.1.run hlog, by simp only [hi.2]⟩
  · intro _ x c hi
    rw [AcceptedTerminated, ← handed_iff hi.1 c]
    exact ⟨fun h => h.next, fun h => ⟨hi.2, h⟩⟩

/-- A default synchronous logger. -/
def freshSync : CLogger :=
  construct 10 16 false "log/app.log" ⟨0, 0, 0, 0, 0, 0⟩ [] (fun _ _ => 0) (fun _ => none)

/-- `logWrite("ab")`, and then `logInfo("")`. -/
def staleCalls : List Call :=
  [⟨.logWrite, ⟨0, 0, 0, 1, 0, 124⟩, 0, [97, 98], fun _ => 0⟩,
    ⟨.logInfo, ⟨0, 0, 0, 1, 0, 124⟩, 0, [], fun _ => 0⟩]

/-- The second record is followed by what the first has left, `"b\n"`. -/
theorem staleCalls_not_exact :
    ¬ Always SyncLog.step (fun _ => Exact) (.start freshSync) staleCalls := by
  intro h
  have hi : SyncInv freshSync := sync_construct ..
  obtain ⟨c, hc⟩ : ∃ c, c = (⟨.logWrite, ⟨0, 0, 0, 1, 0, 124⟩, 0, [97, 98], fun _ => 0⟩ : Call) :=
    ⟨_, rfl⟩
  have hf : c.f.accepts freshSync := by rw [hc]; trivial
  rw [staleCalls, ← hc] at h
  obtain ⟨hfirst, hrest⟩ := h.uncons
  have hbs : c.handed freshSync = some (c.record freshSync) := hfirst.next
  have hlen : (c.record freshSync).length = 27 := by
    rw [Call.record, if_pos hf, syncRecord, List.length_append, List.length_append,
      length_timeStamp, hc]
    rfl
  obtain ⟨t, ht⟩ := run_small hi hf hbs (by
    have hsize : freshSync.m_fileSize = 16777216 := rfl
    have hfiles : (freshSync.files freshSync.m_strFilePath).getD [] = [] := rfl
    rw [hfiles, hlen, hsize]
    decide)
  have hbehind : behind t [] = 98 := by
    rw [behind_run hi hf ht (by rw [hc]; decide), hc]
    rfl
  obtain ⟨hsecond, -⟩ := (hrest ⟨t, c.record freshSync, c.record freshSync⟩ (by
    refine Option.bind_eq_some_iff.mpr ⟨_, hbs, Option.bind_eq_some_iff.mpr ⟨_, ht, rfl⟩⟩)).uncons
  have hlevel : emLogLevel.Log_Info.toInt ≤ t.m_LogLevel.toInt := by
    obtain ⟨-, -, -, -, -, -, -, -, -, hlevel⟩ := run_sync hi hf ht
    rw [hlevel]
    decide
  have hterm := (handed_iff (hi.run ht) _).mp hsecond.next hlevel
  have hzero := (hterm.text (by simp)).2
  rw [hbehind] at hzero
  exact absurd hzero (by decide)

end MmrService.Logger
