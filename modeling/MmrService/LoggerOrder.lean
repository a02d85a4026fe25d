import MmrService.LoggerBytes

/-!
The order of the records of an asynchronous logger, from the calls to the log stream.

The calls run under `m_mutWrite`, each as one step, at any point of `dealThread`; `stop` logs a
record of its own, clears the run flag and joins the thread. The tests of `dealThread` are made
without the lock: while there are calls they may see anything.
-/

namespace MmrService.Logger

open Transition

/-- Where the deal thread stands. -/
inductive DealPc
  /-- At the test of the outer loop. -/
  | head
  /-- In `wait_for`. -/
  | waiting
  /-- At the test behind the wait. -/
  | woken
  /-- Before the lock under which the queues are swapped. -/
  | swap
  /-- At the test of the inner loop. -/
  | inner
  /-- With a buffer to write. -/
  | write
  /-- With a buffer to give back. -/
  | giveBack
  | exited

/-- Where `stop` stands. -/
inductive StopPc
  | idle
  /-- Its record is logged. -/
  | recorded
  /-- The run flag is cleared, and the thread notified. -/
  | flagged
  /-- The thread is joined, and the stream closed. -/
  | joined
  deriving DecidableEq

/-- A logger with its threads; `accepted` are the records of its calls, and `written` is what
went to the stream. -/
structure System where
  log : CLogger
  pc : DealPc
  m_bRunning : Bool
  stopPc : StopPc
  accepted : List (List UInt8)
  written : List UInt8

inductive SysAction
  | call (f : LogFn) (time_info : Tm) (now_ms : ℕ) (message : Formatted) (junk : ℕ → UInt8)
  | stopLog (time_info : Tm) (now_ms : ℕ) (message : Formatted) (junk : ℕ → UInt8)
  | stopFlag
  | join
  | head
  /-- The wait ends, whatever for. -/
  | wake
  /-- The test behind the wait. -/
  | look (sees : Bool)
  | swap (junk : ℕ → UInt8)
  | take
  | write
  | giveBack

/-- A message that the reserve has room for. -/
def SysAction.Fits : SysAction → Prop
  | .call _ _ _ message _ | .stopLog _ _ message _ => message.FitsReserve
  | _ => True

/-- There is something to write. -/
def pending (s : CLogger) : Bool := 0 < s.m_pBufWrite.getSize ∨ 0 < s.m_queBufsWrite.length

instance instDecidableAccepts (s : CLogger) (f : LogFn) : Decidable (f.accepts s) := by
  cases f <;> unfold LogFn.accepts <;> infer_instance

namespace System

variable (x : System)

/-- A call that gets past the test of the log level has a record. -/
def call (f : LogFn) (time_info : Tm) (now_ms : ℕ) (message : Formatted) (junk : ℕ → UInt8) :
    Option System :=
  (f.run x.log time_info now_ms message junk).map fun log =>
    { x with
      log := log
      accepted := if f.accepts x.log then
        x.accepted ++ [recordOf x.log time_info now_ms message junk] else x.accepted }

/-- `while (m_bRunning.load() || m_pBufWrite->getSize() || m_queBufsWrite.size())`. -/
def head : Option System :=
  match x.pc with
  | .head => some { x with pc := if x.m_bRunning || pending x.log then .waiting else .exited }
  | _ => none

def wake : Option System :=
  match x.pc with
  | .waiting => some { x with pc := .woken }
  | _ => none

/-- Once `stop` has logged its record there are no more calls, and the test sees what there is. -/
def look (sees : Bool) : Option System :=
  match x.pc with
  | .woken =>
    if x.stopPc = .idle ∨ sees = pending x.log then
      some { x with pc := if sees then .swap else .head }
    else none
  | _ => none

/-- Under the lock: the write buffer joins the queue, and the queue moves to the thread. -/
def swap (junk : ℕ → UInt8) : Option System :=
  match x.pc with
  | .swap => (updateBufWrite x.log junk).map fun s =>
    { x with
      log := { s with m_queBufsDeal := s.m_queBufsWrite, m_queBufsWrite := [] }
      pc := .inner }
  | _ => none

/-- The test of the inner loop, and the front buffer taken from the queue. -/
def take : Option System :=
  match x.pc with
  | .inner =>
    match x.log.m_queBufsDeal with
    | [] => some { x with pc := .head }
    | b :: rest => some
      { x with
        log := { x.log with m_pBufDeal := some b, m_queBufsDeal := rest }
        pc := .write }
  | _ => none

/-- `m_logStream.write`, `clear` and `fileSizeCheck`. -/
def write : Option System :=
  match x.pc, x.log.m_pBufDeal with
  | .write, some b => do
    let bs ← b.content
    let files ← LogFiles.fileSizeCheck (LogFiles.write x.log.files x.log.m_strFilePath bs)
      x.log.m_strFilePath x.log.m_fileNum x.log.m_fileSize
    pure
      { x with
        log := { x.log with m_pBufDeal := some b.clear, files := files }
        pc := .giveBack
        written := x.written ++ bs }
  | _, _ => none

/-- Under the lock: the buffer joins the empty ones. -/
def giveBack : Option System :=
  match x.pc with
  | .giveBack => (dealReturn x.log).map fun s => { x with log := s, pc := .inner }
  | _ => none

end System

def sysStep (x : System) : SysAction → Option System
  | .call f time_info now_ms message junk =>
    if x.stopPc = .idle then x.call f time_info now_ms message junk else none
  | .stopLog time_info now_ms message junk =>
    if x.stopPc = .idle ∧ x.m_bRunning then
      (x.call .logWrite time_info now_ms message junk).map fun x => { x with stopPc := .recorded }
    else none
  | .stopFlag =>
    if x.stopPc = .recorded then some { x with m_bRunning := false, stopPc := .flagged } else none
  | .join =>
    match x.pc with
    | .exited => if x.stopPc = .flagged then some { x with stopPc := .joined } else none
    | _ => none
  | .head => x.head
  | .wake => x.wake
  | .look sees => x.look sees
  | .swap junk => x.swap junk
  | .take => x.take
  | .write => x.write
  | .giveBack => x.giveBack

/-- An asynchronous logger whose constructor has opened the stream and started the thread; the
record that it logs next is a call like any other. -/
def start (ulFileNum ullFileSize : ℕ) (path : String) (lastTime : Tm) (szLastTime : List UInt8)
    (junk : Fin 4 → ℕ → UInt8) (files : LogFiles.Files) : System where
  log := construct ulFileNum ullFileSize true path lastTime szLastTime junk files
  pc := .head
  m_bRunning := true
  stopPc := .idle
  accepted := []
  written := []

/-- The bytes in the deal buffer, the deal queue, the write queue and the write buffer. -/
def held (s : CLogger) : List UInt8 :=
  s.m_pBufDeal.toList.flatMap CBigBuff.bytes ++ s.m_queBufsDeal.flatMap CBigBuff.bytes ++ waiting s

/-! ### Calls and the buffers of the deal thread -/

/-- The logger with other buffers at the deal thread. -/
def CLogger.withDeal (s : CLogger) (d : Option CBigBuff) (q : List CBigBuff) : CLogger :=
  { s with m_pBufDeal := d, m_queBufsDeal := q }

section

variable (s : CLogger) (d : Option CBigBuff) (q : List CBigBuff)

lemma updateTime_withDeal (time_info : Tm) :
    updateTime (s.withDeal d q) time_info = (updateTime s time_info).withDeal d q := by
  unfold updateTime
  change (if time_info ≠ s.m_lastTime then _ else _) = _
  split_ifs <;> rfl

lemma updateBufWrite_withDeal (junk : ℕ → UInt8) :
    updateBufWrite (s.withDeal d q) junk = (updateBufWrite s junk).map (·.withDeal d q) := by
  simp only [updateBufWrite]
  generalize newBuf junk = n
  change s.m_pBufWrite.zeroEnd.map _ = _
  cases s.m_pBufWrite.zeroEnd with
  | none => rfl
  | some b =>
    simp only [Option.map_some]
    obtain ⟨_, _, _, _, _, _, _, _, _, _, _, queBufsEmpty, _⟩ := s
    cases queBufsEmpty <;> rfl

lemma reserve_withDeal (junk : ℕ → UInt8) :
    reserve (s.withDeal d q) junk = (reserve s junk).map (·.withDeal d q) := by
  unfold reserve
  change (if s.m_bAsynLog ∧ s.m_pBufWrite.getTryAvailid ≤ MIN_AVAILI_SIZE then _ else _) = _
  split_ifs
  · exact updateBufWrite_withDeal s d q junk
  · rfl

lemma stamped_withDeal (time_info : Tm) (now_ms : ℕ) (junk : ℕ → UInt8) :
    stamped (s.withDeal d q) time_info now_ms junk =
      (stamped s time_info now_ms junk).map (·.withDeal d q) := by
  unfold stamped
  rw [updateTime_withDeal, reserve_withDeal]
  cases reserve (updateTime s time_info) junk with
  | none => rfl
  | some r =>
    simp only [Option.map_some, Option.bind_eq_bind, Option.bind_some]
    change (writeStamp r.m_pBufWrite (stamp r now_ms)).bind _ = _
    cases writeStamp r.m_pBufWrite (stamp r now_ms) <;> rfl

lemma writeSync_withDeal (take : CBigBuff → Option (List UInt8)) :
    writeSync (s.withDeal d q) take = (writeSync s take).map (·.withDeal d q) := by
  unfold writeSync
  change (if s.m_bAsynLog = true then _ else (take s.m_pBufWrite).bind _) = _
  split_ifs
  · rfl
  · cases take s.m_pBufWrite with
    | none => rfl
    | some bs =>
      simp only [Option.bind_eq_bind, Option.bind_some]
      change (LogFiles.fileSizeCheck (LogFiles.write s.files s.m_strFilePath bs)
        s.m_strFilePath s.m_fileNum s.m_fileSize).bind _ = _
      cases LogFiles.fileSizeCheck (LogFiles.write s.files s.m_strFilePath bs)
        s.m_strFilePath s.m_fileNum s.m_fileSize <;> rfl

/-- A call neither reads nor changes what the deal thread has. -/
lemma run_withDeal (f : LogFn) (time_info : Tm) (now_ms : ℕ) (message : Formatted)
    (junk : ℕ → UInt8) :
    f.run (s.withDeal d q) time_info now_ms message junk =
      (f.run s time_info now_ms message junk).map (·.withDeal d q) := by
  have hrecord : ∀ take, record (s.withDeal d q) time_info now_ms message junk take =
      (record s time_info now_ms message junk take).map (·.withDeal d q) := by
    intro take
    unfold record
    rw [stamped_withDeal]
    cases stamped s time_info now_ms junk with
    | none => rfl
    | some p =>
      simp only [Option.map_some, Option.bind_eq_bind, Option.bind_some]
      change (writeMessage p.m_pBufWrite message).bind _ = _
      cases writeMessage p.m_pBufWrite message with
      | none => rfl
      | some b => exact writeSync_withDeal { p with m_pBufWrite := b } d q take
  by_cases hf : f.accepts s
  · cases f with
    | logWrite => exact hrecord _
    | _ =>
      simp only [LogFn.run, logForce, logFatal, logError, logWarn, logInfo, logDebug, logByLevel]
      rw [if_neg (not_lt.mpr hf), hrecord]
      exact if_neg (not_lt.mpr hf)
  · rw [run_not_accepts hf, run_not_accepts (s := s.withDeal d q) (by cases f <;> exact hf)]
    rfl

lemma recordOf_withDeal (time_info : Tm) (now_ms : ℕ) (message : Formatted)
    (junk : ℕ → UInt8) :
    recordOf (s.withDeal d q) time_info now_ms message junk =
      recordOf s time_info now_ms message junk := by
  unfold recordOf
  rw [stamped_withDeal]
  cases stamped s time_info now_ms junk <;> rfl

end

/-! ### The invariant -/

/-- The logger without what the deal thread has. -/
def CLogger.idle (s : CLogger) : CLogger := s.withDeal none []

lemma CLogger.withDeal_idle (s : CLogger) : s.idle.withDeal s.m_pBufDeal s.m_queBufsDeal = s := rfl

/-- What the deal thread has at each place. -/
def DealPc.Has (s : CLogger) : DealPc → Prop
  | .head | .waiting | .woken | .swap | .exited => s.m_pBufDeal = none ∧ s.m_queBufsDeal = []
  | .inner => s.m_pBufDeal = none
  | .write => ∃ b, s.m_pBufDeal = some b ∧ Ready b
  | .giveBack => ∃ b, s.m_pBufDeal = some b ∧ Ready b ∧ b.m_ulPos = 0

/-- The records of the calls are what is written and what is held; once the deal thread has
ended nothing is held and nothing can be added. -/
structure Ordered (x : System) : Prop where
  log : Inv x.log.idle
  queDeal : ∀ b ∈ x.log.m_queBufsDeal, Ready b
  has : x.pc.Has x.log
  conserved : x.accepted.flatten = x.written ++ held x.log
  flag : x.m_bRunning = false ↔ x.stopPc = .flagged ∨ x.stopPc = .joined
  exited : x.pc = .exited → x.m_bRunning = false ∧ waiting x.log = []
  joined : x.stopPc = .joined → x.pc = .exited

lemma ordered_start (ulFileNum ullFileSize : ℕ) (path : String) (lastTime : Tm)
    (szLastTime : List UInt8) (junk : Fin 4 → ℕ → UInt8) (files : LogFiles.Files) :
    Ordered (start ulFileNum ullFileSize path lastTime szLastTime junk files) where
  log := inv_construct ulFileNum ullFileSize path lastTime szLastTime junk files
  queDeal := nofun
  has := ⟨rfl, rfl⟩
  conserved := rfl
  flag := ⟨nofun, by rintro (h | h) <;> cases h⟩
  exited := nofun
  joined := nofun

/-- A message of a call that is accepted is added, and nothing else changes. -/
lemma run_spec {s : CLogger} (hi : Inv s.idle) {f : LogFn} (hf : f.accepts s) (time_info : Tm)
    (now_ms : ℕ) {message : Formatted} (hm : message.FitsReserve) (junk : ℕ → UInt8) :
    ∃ t, f.run s time_info now_ms message junk = some t ∧ Inv t.idle ∧
      t.m_pBufDeal = s.m_pBufDeal ∧ t.m_queBufsDeal = s.m_queBufsDeal ∧
      t.m_fileNum = s.m_fileNum ∧
      waiting t = waiting s ++ recordOf s time_info now_ms message junk := by
  have hf' : f.accepts s.idle := by cases f <;> exact hf
  obtain ⟨t, ht, hit, hnum, hw⟩ := record_waiting hi time_info now_ms hm junk f.take
  refine ⟨t.withDeal s.m_pBufDeal s.m_queBufsDeal, ?_, ?_, rfl, rfl, hnum, ?_⟩
  · rw [← run_take hf'] at ht
    have hframe := run_withDeal s.idle s.m_pBufDeal s.m_queBufsDeal f time_info now_ms message junk
    rw [CLogger.withDeal_idle, ht] at hframe
    exact hframe
  · exact ⟨⟨hit.asyn, by simp [CLogger.idle, CLogger.withDeal], hit.queWrite,
      by simp [CLogger.idle, CLogger.withDeal], hit.empty⟩, hit.write⟩
  · have hrec : recordOf s.idle time_info now_ms message junk =
        recordOf s time_info now_ms message junk := recordOf_withDeal s none [] ..
    rw [← hrec]
    exact hw

lemma held_eq {s t : CLogger} (hd : t.m_pBufDeal = s.m_pBufDeal)
    (hq : t.m_queBufsDeal = s.m_queBufsDeal) {bs : List UInt8} (hw : waiting t = waiting s ++ bs) :
    held t = held s ++ bs := by
  rw [held, held, hd, hq, hw, List.append_assoc, List.append_assoc, List.append_assoc]

/-- What the deal thread has is a matter of its two fields. -/
lemma DealPc.Has.congr {s t : CLogger} {pc : DealPc} (h : pc.Has s)
    (hd : t.m_pBufDeal = s.m_pBufDeal) (hq : t.m_queBufsDeal = s.m_queBufsDeal) : pc.Has t := by
  cases pc <;> simp only [DealPc.Has, hd, hq] at h ⊢ <;> exact h

/-- **Calls**: a call that fits always gets through, and keeps the order. -/
lemma Ordered.call {x : System} (ho : Ordered x) (hidle : x.stopPc = .idle) (f : LogFn)
    (time_info : Tm) (now_ms : ℕ) {message : Formatted} (hm : message.FitsReserve)
    (junk : ℕ → UInt8) : ∃ y, x.call f time_info now_ms message junk = some y ∧ Ordered y ∧
      y.log.m_fileNum = x.log.m_fileNum ∧ y.m_bRunning = x.m_bRunning ∧
      y.stopPc = x.stopPc := by
  by_cases hf : f.accepts x.log
  · obtain ⟨t, ht, hit, hd, hq, hnum, hw⟩ := run_spec ho.log hf time_info now_ms hm junk
    have hcall : x.call f time_info now_ms message junk = some
        { x with
          log := t
          accepted := x.accepted ++ [recordOf x.log time_info now_ms message junk] } := by
      rw [System.call, ht, Option.map_some, if_pos hf]
    refine ⟨_, hcall, ⟨hit, ?_, ho.has.congr hd hq, ?_, ho.flag, fun he => ?_, ho.joined⟩,
      hnum, rfl, rfl⟩
    · intro b hb
      exact ho.queDeal b (by rw [← hq]; exact hb)
    · rw [held_eq hd hq hw, ← List.append_assoc, ← ho.conserved]
      simp
    · have hrun := ho.flag.mp (ho.exited he).1
      rw [hidle] at hrun
      rcases hrun with h | h <;> cases h
  · refine ⟨x, ?_, ho, rfl, rfl, rfl⟩
    rw [System.call, run_not_accepts hf, Option.map_some, if_neg hf]

lemma pending_eq_false {s : CLogger} (h : pending s = false) : waiting s = [] := by
  simp only [pending, decide_eq_false_iff_not, not_or, not_lt, Nat.le_zero,
    List.length_eq_zero_iff] at h
  rw [waiting_eq, h.2, CBigBuff.bytes_of_pos h.1]
  rfl

/-! ### The deal thread -/

variable {x y : System}

/-- A step of the deal thread that only takes it to another place. -/
lemma Ordered.goto (ho : Ordered x) {pc : DealPc} (hhas : pc.Has x.log)
    (hexited : pc = .exited → x.m_bRunning = false ∧ waiting x.log = [])
    (hne : x.pc ≠ .exited) : Ordered { x with pc := pc } :=
  ⟨ho.log, ho.queDeal, hhas, ho.conserved, ho.flag, hexited,
    fun hj => absurd (ho.joined hj) hne⟩

lemma Ordered.head (ho : Ordered x) (h : x.head = some y) : Ordered y := by
  unfold System.head at h
  split at h
  · next hpc =>
    obtain rfl := Option.some.inj h
    have hhas := ho.has
    rw [hpc] at hhas
    cases hb : x.m_bRunning || pending x.log with
    | true => exact ho.goto hhas nofun (by rw [hpc]; nofun)
    | false =>
      rw [Bool.or_eq_false_iff] at hb
      exact ho.goto hhas (fun _ => ⟨hb.1, pending_eq_false hb.2⟩) (by rw [hpc]; nofun)
  · cases h

lemma Ordered.wake (ho : Ordered x) (h : x.wake = some y) : Ordered y := by
  unfold System.wake at h
  split at h
  · next hpc =>
    obtain rfl := Option.some.inj h
    have hhas := ho.has
    rw [hpc] at hhas
    exact ho.goto hhas nofun (by rw [hpc]; nofun)
  · cases h

lemma Ordered.look (ho : Ordered x) {sees : Bool} (h : x.look sees = some y) : Ordered y := by
  unfold System.look at h
  split at h
  · next hpc =>
    have hhas := ho.has
    rw [hpc] at hhas
    split at h
    · obtain rfl := Option.some.inj h
      cases sees with
      | true => exact ho.goto hhas nofun (by rw [hpc]; nofun)
      | false => exact ho.goto hhas nofun (by rw [hpc]; nofun)
    · cases h
  · cases h

/-- The deal thread comes to the swap with nothing in hand. -/
lemma Ordered.at_swap (ho : Ordered x) (hpc : x.pc = .swap) :
    Inv x.log ∧ x.log.m_pBufDeal = none ∧ x.log.m_queBufsDeal = [] := by
  have hhas := ho.has
  rw [hpc] at hhas
  obtain ⟨hd, hq⟩ := hhas
  have hidle : x.log.idle = x.log := by
    have hback := x.log.withDeal_idle
    rw [hd, hq] at hback
    exact hback
  exact ⟨hidle ▸ ho.log, hd, hq⟩

/-- All that waits is now in the deal queue. -/
lemma Ordered.swap (ho : Ordered x) {junk : ℕ → UInt8} (h : x.swap junk = some y) :
    Ordered y := by
  unfold System.swap at h
  split at h
  · next hpc =>
    obtain ⟨t, ht, rfl⟩ := Option.map_eq_some_iff.mp h
    obtain ⟨hinv, hd, hq⟩ := ho.at_swap hpc
    obtain ⟨t', ht', hit, -, htd, htq⟩ := updateBufWrite_spec hinv junk
    obtain rfl := Option.some.inj (ht.symm.trans ht')
    obtain ⟨hw, hempty⟩ := updateBufWrite_waiting hinv ht
    refine ⟨⟨⟨hit.asyn, nofun, nofun, nofun, hit.empty⟩, hit.write⟩, hit.queWrite,
      htd.trans hd, ?_, ho.flag, nofun, fun hj => ?_⟩
    · have hheld : held x.log = waiting x.log := by rw [held, hd, hq]; rfl
      rw [ho.conserved, hheld, ← hw, waiting_eq, held]
      simp [htd, hd, waiting, hempty]
    · rw [ho.joined hj] at hpc
      cases hpc
  · cases h

lemma Ordered.take (ho : Ordered x) (h : x.take = some y) : Ordered y := by
  unfold System.take at h
  split at h
  · next hpc =>
    have hhas := ho.has
    rw [hpc] at hhas
    change x.log.m_pBufDeal = none at hhas
    split at h
    · next hq =>
      obtain rfl := Option.some.inj h
      exact ho.goto ⟨hhas, hq⟩ nofun (by rw [hpc]; nofun)
    · next b rest hq =>
      obtain rfl := Option.some.inj h
      have hall : ∀ c ∈ b :: rest, Ready c := hq ▸ ho.queDeal
      refine ⟨ho.log, fun c hc => hall c (List.mem_cons_of_mem b hc),
        ⟨b, rfl, hall b (List.mem_cons_self ..)⟩, ?_, ho.flag, nofun, fun hj => ?_⟩
      · have hheld : held x.log = b.bytes ++ (rest.flatMap CBigBuff.bytes ++ waiting x.log) := by
          rw [held, hhas, hq]
          simp
        rw [ho.conserved, hheld]
        simp [held, waiting]
      · rw [ho.joined hj] at hpc
        cases hpc
  · cases h

/-- The bytes of the deal buffer go to the stream. -/
lemma Ordered.write (ho : Ordered x) (h : x.write = some y) : Ordered y := by
  unfold System.write at h
  split at h
  · next b hpc hb =>
    have hhas := ho.has
    rw [hpc] at hhas
    obtain ⟨c, hc, hready⟩ := hhas
    obtain rfl := Option.some.inj (hb.symm.trans hc)
    rw [CBigBuff.content_of_fits hready.pos, Option.bind_eq_bind, Option.bind_some] at h
    obtain ⟨files, -, h⟩ := Option.bind_eq_some_iff.mp h
    obtain rfl := Option.some.inj h
    refine ⟨⟨⟨ho.log.asyn, nofun, ho.log.queWrite, nofun, ho.log.empty⟩, ho.log.write⟩, ho.queDeal,
      ⟨b.clear, rfl, ⟨hready.len, rfl, Nat.zero_le _⟩, rfl⟩, ?_, ho.flag, nofun, fun hj => ?_⟩
    · have hclear : b.clear.bytes = [] := CBigBuff.bytes_of_pos rfl
      have hheld : held x.log =
          b.bytes ++ (x.log.m_queBufsDeal.flatMap CBigBuff.bytes ++ waiting x.log) := by
        rw [held, hb]
        simp
      rw [ho.conserved, hheld]
      simp [held, waiting, hclear]
    · rw [ho.joined hj] at hpc
      cases hpc
  · cases h

lemma Ordered.giveBack (ho : Ordered x) (h : x.giveBack = some y) : Ordered y := by
  unfold System.giveBack at h
  split at h
  · next hpc =>
    obtain ⟨t, ht, rfl⟩ := Option.map_eq_some_iff.mp h
    have hhas := ho.has
    rw [hpc] at hhas
    obtain ⟨b, hb, hready, hpos⟩ := hhas
    unfold dealReturn at ht
    rw [hb, Option.map_some] at ht
    obtain rfl := Option.some.inj ht
    refine ⟨⟨⟨ho.log.asyn, nofun, ho.log.queWrite, nofun, fun c hc => ?_⟩, ho.log.write⟩,
      ho.queDeal, rfl, ?_, ho.flag, nofun, fun hj => ?_⟩
    · rcases List.mem_append.mp hc with hc | hc
      · exact ho.log.empty c hc
      · rw [List.mem_singleton.mp hc]
        exact ⟨hready, hpos⟩
    · have hheld : held x.log =
          x.log.m_queBufsDeal.flatMap CBigBuff.bytes ++ waiting x.log := by
        rw [held, hb]
        simp [CBigBuff.bytes_of_pos hpos]
      rw [ho.conserved, hheld]
      simp [held, waiting]
    · rw [ho.joined hj] at hpc
      cases hpc
  · cases h

/-- Every step whose message fits keeps the order. -/
lemma Ordered.step (ho : Ordered x) {a : SysAction} (ha : a.Fits) (h : sysStep x a = some y) :
    Ordered y := by
  cases a with
  | call f time_info now_ms message junk =>
    simp only [sysStep] at h
    split_ifs at h with hidle
    obtain ⟨z, hz, hoz, -⟩ := ho.call hidle f time_info now_ms ha junk
    exact Option.some.inj (hz.symm.trans h) ▸ hoz
  | stopLog time_info now_ms message junk =>
    simp only [sysStep] at h
    split_ifs at h with hidle
    obtain ⟨z, hz, hoz, -, hrun, -⟩ := ho.call hidle.1 .logWrite time_info now_ms ha junk
    rw [hz, Option.map_some] at h
    obtain rfl := Option.some.inj h
    refine ⟨hoz.log, hoz.queDeal, hoz.has, hoz.conserved, ?_, hoz.exited, nofun⟩
    simp only [hrun, hidle.2, reduceCtorEq, or_self]
  | stopFlag =>
    simp only [sysStep] at h
    split_ifs at h
    obtain rfl := Option.some.inj h
    exact ⟨ho.log, ho.queDeal, ho.has, ho.conserved, by simp, fun he => ⟨rfl, (ho.exited he).2⟩,
      nofun⟩
  | join =>
    simp only [sysStep] at h
    split at h
    · next hpc =>
      split_ifs at h with hflag
      obtain rfl := Option.some.inj h
      refine ⟨ho.log, ho.queDeal, ho.has, ho.conserved, ?_, ho.exited, fun _ => hpc⟩
      simp [ho.flag.mpr (.inl hflag)]
    · cases h
  | head => exact ho.head h
  | wake => exact ho.wake h
  | look sees => exact ho.look h
  | swap junk => exact ho.swap h
  | take => exact ho.take h
  | write => exact ho.write h
  | giveBack => exact ho.giveBack h

/-- The steps of the deal thread lead from one state to another. -/
def Leads (x y : System) : Prop :=
  ∃ as : List SysAction, (∀ a ∈ as, a.Fits) ∧ exec sysStep x as = some y

lemma Leads.refl (x : System) : Leads x x := ⟨[], by simp, rfl⟩

lemma Leads.cons {z : System} {a : SysAction} (ha : a.Fits) (hs : sysStep x a = some y)
    (h : Leads y z) : Leads x z := by
  obtain ⟨as, has, he⟩ := h
  refine ⟨a :: as, ?_, by rw [exec_cons, hs]; exact he⟩
  intro b hb
  rcases List.mem_cons.mp hb with rfl | hb
  · exact ha
  · exact has b hb

lemma Leads.trans {z : System} (hxy : Leads x y) (hyz : Leads y z) : Leads x z := by
  obtain ⟨as, has, he⟩ := hxy
  obtain ⟨bs, hbs, hf⟩ := hyz
  refine ⟨as ++ bs, fun a ha => ?_, by rw [exec_append, he]; exact hf⟩
  rcases List.mem_append.mp ha with ha | ha
  · exact has a ha
  · exact hbs a ha

lemma fileSizeCheck_isSome (fs : LogFiles.Files) (path : String) {fileNum : ℕ} (fileSize : ℕ)
    (hnum : Word.toInt 32 fileNum ≠ -2 ^ 31) :
    ∃ fs', LogFiles.fileSizeCheck fs path fileNum fileSize = some fs' := by
  refine Option.isSome_iff_exists.mp ?_
  unfold LogFiles.fileSizeCheck
  split
  · rfl
  · rw [if_neg hnum]
    generalize LogFiles.shift _ _ _ _ = shifted
    obtain ⟨fs', strNewName⟩ := shifted
    exact Option.isSome_some

/-- What the inner loop leaves as it is. -/
structure SameOutside (x y : System) : Prop where
  num : y.log.m_fileNum = x.log.m_fileNum
  waiting : pending y.log = pending x.log
  running : y.m_bRunning = x.m_bRunning
  stop : y.stopPc = x.stopPc

/-- The inner loop comes to its end. -/
lemma leads_head (n : ℕ) : ∀ {x : System}, Ordered x → x.pc = .inner →
    Word.toInt 32 x.log.m_fileNum ≠ -2 ^ 31 → x.log.m_queBufsDeal.length = n →
    ∃ y, Leads x y ∧ Ordered y ∧ y.pc = .head ∧ SameOutside x y := by
  induction n with
  | zero =>
    intro x ho hpc _ hn
    have hstep : sysStep x .take = some { x with pc := .head } := by
      simp only [sysStep, System.take, hpc, List.length_eq_zero_iff.mp hn]
    exact ⟨_, .cons (a := .take) trivial hstep (.refl _), ho.step (a := .take) trivial hstep, rfl,
      rfl, rfl, rfl, rfl⟩
  | succ n ih =>
    intro x ho hpc hnum hn
    obtain ⟨b, rest, hq⟩ := List.exists_cons_of_length_eq_add_one hn
    -- a buffer is taken, written and given back
    have htake : sysStep x .take = some
        { x with
          log := { x.log with m_pBufDeal := some b, m_queBufsDeal := rest }
          pc := .write } := by
      simp only [sysStep, System.take, hpc, hq]
    have hready : Ready b := ho.queDeal b (by rw [hq]; exact List.mem_cons_self ..)
    obtain ⟨files, hfiles⟩ := fileSizeCheck_isSome
      (LogFiles.write x.log.files x.log.m_strFilePath b.bytes) x.log.m_strFilePath
      x.log.m_fileSize hnum
    have ho1 := ho.step (a := .take) trivial htake
    obtain ⟨y, hwrite, hy⟩ : ∃ y, sysStep
        { x with
          log := { x.log with m_pBufDeal := some b, m_queBufsDeal := rest }
          pc := .write } .write = some y ∧
        y = { x with
          log := { x.log with
            m_pBufDeal := some b.clear
            m_queBufsDeal := rest
            files := files }
          pc := .giveBack
          written := x.written ++ b.bytes } := by
      refine ⟨_, ?_, rfl⟩
      simp only [sysStep, System.write, CBigBuff.content_of_fits hready.pos, Option.bind_eq_bind,
        Option.bind_some, hfiles]
      rfl
    have ho2 := ho1.step (a := .write) trivial hwrite
    subst hy
    have hback : sysStep
        { x with
          log := { x.log with
            m_pBufDeal := some b.clear
            m_queBufsDeal := rest
            files := files }
          pc := .giveBack
          written := x.written ++ b.bytes } .giveBack = some
        { x with
          log := { x.log with
            m_pBufDeal := none
            m_queBufsDeal := rest
            m_queBufsEmpty := x.log.m_queBufsEmpty ++ [b.clear]
            files := files }
          pc := .inner
          written := x.written ++ b.bytes } := rfl
    have hlen : rest.length = n := by
      rw [hq, List.length_cons] at hn
      omega
    obtain ⟨z, hz, hoz, hpcz, hsame⟩ :=
      ih (ho2.step (a := .giveBack) trivial hback) rfl hnum hlen
    exact ⟨z, .cons (a := .take) trivial htake (.cons (a := .write) trivial hwrite
      (.cons (a := .giveBack) trivial hback hz)), hoz, hpcz, hsame.num, hsame.waiting,
      hsame.running, hsame.stop⟩

/-- `stop` can return. -/
def Returns (x : System) : Prop := ∃ y, Leads x y ∧ y.stopPc = .joined

lemma Returns.of_step {a : SysAction} (ha : a.Fits) (hs : sysStep x a = some y) (h : Returns y) :
    Returns x := by
  obtain ⟨z, hz, hj⟩ := h
  exact ⟨z, .cons ha hs hz, hj⟩

/-- With nothing left the thread ends and is joined. -/
lemma returns_of_done (ho : Ordered x) (hflag : x.stopPc = .flagged) (hpc : x.pc = .head)
    (hdone : pending x.log = false) : Returns x := by
  have hrun := ho.flag.mpr (.inl hflag)
  have hhead : sysStep x .head = some { x with pc := .exited } := by
    simp [sysStep, System.head, hpc, hrun, hdone]
  have hjoin : sysStep { x with pc := .exited } .join =
      some { x with pc := .exited, stopPc := .joined } := by
    simp [sysStep, hflag]
  exact .of_step (a := .head) trivial hhead
    (.of_step (a := .join) trivial hjoin ⟨_, .refl _, rfl⟩)

/-- A swap leaves nothing behind it. -/
lemma returns_of_swap (ho : Ordered x) (hflag : x.stopPc = .flagged) (hpc : x.pc = .swap)
    (hnum : Word.toInt 32 x.log.m_fileNum ≠ -2 ^ 31) : Returns x := by
  obtain ⟨hinv, hd, hq⟩ := ho.at_swap hpc
  obtain ⟨t, ht, -, hpos, -⟩ := updateBufWrite_spec hinv fun _ => 0
  have hswap : sysStep x (.swap fun _ => 0) = some
      { x with
        log := { t with m_queBufsDeal := t.m_queBufsWrite, m_queBufsWrite := [] }
        pc := .inner } := by
    simp only [sysStep, System.swap, hpc, ht, Option.map_some]
  have hnum' : Word.toInt 32 t.m_fileNum ≠ -2 ^ 31 := by
    obtain ⟨b, e, rest, -, rfl, -⟩ := updateBufWrite_eq_some ht
    exact hnum
  have ho' := ho.step (a := .swap _) trivial hswap
  obtain ⟨z, hz, hoz, hpcz, hsame⟩ := leads_head _ ho' rfl hnum' rfl
  have hdone : pending z.log = false := by
    rw [hsame.waiting]
    simp [pending, CBigBuff.getSize, hpos]
  obtain ⟨w, hw, hj⟩ := returns_of_done hoz (hsame.stop.trans hflag) hpcz hdone
  exact .of_step (a := .swap _) trivial hswap ⟨w, hz.trans hw, hj⟩

lemma returns_of_look (ho : Ordered x) (hflag : x.stopPc = .flagged) (hpc : x.pc = .woken)
    (hpending : pending x.log = true) (hnum : Word.toInt 32 x.log.m_fileNum ≠ -2 ^ 31) :
    Returns x := by
  have hlook : sysStep x (.look true) = some { x with pc := .swap } := by
    simp [sysStep, System.look, hpc, hpending]
  exact .of_step (a := .look true) trivial hlook
    (returns_of_swap (ho.step (a := .look true) trivial hlook) hflag rfl hnum)

lemma returns_of_head (ho : Ordered x) (hflag : x.stopPc = .flagged) (hpc : x.pc = .head)
    (hnum : Word.toInt 32 x.log.m_fileNum ≠ -2 ^ 31) : Returns x := by
  cases hpending : pending x.log with
  | false => exact returns_of_done ho hflag hpc hpending
  | true =>
    have hhead : sysStep x .head = some { x with pc := .waiting } := by
      simp [sysStep, System.head, hpc, hpending]
    have hwake : sysStep { x with pc := .waiting } .wake = some { x with pc := .woken } := rfl
    have ho' := (ho.step (a := .head) trivial hhead).step (a := .wake) trivial hwake
    exact .of_step (a := .head) trivial hhead
      (.of_step (a := .wake) trivial hwake (returns_of_look ho' hflag rfl hpending hnum))

lemma returns_of_inner (ho : Ordered x) (hflag : x.stopPc = .flagged) (hpc : x.pc = .inner)
    (hnum : Word.toInt 32 x.log.m_fileNum ≠ -2 ^ 31) : Returns x := by
  obtain ⟨z, hz, hoz, hpcz, hsame⟩ := leads_head _ ho hpc hnum rfl
  have hnumz : Word.toInt 32 z.log.m_fileNum ≠ -2 ^ 31 := by
    rw [hsame.num]
    exact hnum
  obtain ⟨w, hw, hj⟩ := returns_of_head hoz (hsame.stop.trans hflag) hpcz hnumz
  exact ⟨w, hz.trans hw, hj⟩

lemma returns_of_woken (ho : Ordered x) (hflag : x.stopPc = .flagged) (hpc : x.pc = .woken)
    (hnum : Word.toInt 32 x.log.m_fileNum ≠ -2 ^ 31) : Returns x := by
  cases hpending : pending x.log with
  | true => exact returns_of_look ho hflag hpc hpending hnum
  | false =>
    have hlook : sysStep x (.look false) = some { x with pc := .head } := by
      simp [sysStep, System.look, hpc, hpending]
    exact .of_step (a := .look false) trivial hlook
      (returns_of_head (ho.step (a := .look false) trivial hlook) hflag rfl hnum)

lemma returns_of_giveBack (ho : Ordered x) (hflag : x.stopPc = .flagged) (hpc : x.pc = .giveBack)
    (hnum : Word.toInt 32 x.log.m_fileNum ≠ -2 ^ 31) : Returns x := by
  have hhas := ho.has
  rw [hpc] at hhas
  obtain ⟨b, hb, -⟩ := hhas
  have hback : sysStep x .giveBack = some
      { x with
        log := { x.log with
          m_pBufDeal := none
          m_queBufsEmpty := x.log.m_queBufsEmpty ++ [b] }
        pc := .inner } := by
    simp only [sysStep, System.giveBack, hpc, dealReturn, hb, Option.map_some]
  exact .of_step (a := .giveBack) trivial hback
    (returns_of_inner (ho.step (a := .giveBack) trivial hback) hflag rfl hnum)

lemma returns_of_write (ho : Ordered x) (hflag : x.stopPc = .flagged) (hpc : x.pc = .write)
    (hnum : Word.toInt 32 x.log.m_fileNum ≠ -2 ^ 31) : Returns x := by
  have hhas := ho.has
  rw [hpc] at hhas
  obtain ⟨b, hb, hready⟩ := hhas
  obtain ⟨files, hfiles⟩ := fileSizeCheck_isSome
    (LogFiles.write x.log.files x.log.m_strFilePath b.bytes) x.log.m_strFilePath
    x.log.m_fileSize hnum
  obtain ⟨y, hwrite, hy⟩ : ∃ y, sysStep x .write = some y ∧
      y = { x with
        log := { x.log with m_pBufDeal := some b.clear, files := files }
        pc := .giveBack
        written := x.written ++ b.bytes } := by
    refine ⟨_, ?_, rfl⟩
    simp only [sysStep, System.write, hpc, hb, CBigBuff.content_of_fits hready.pos,
      Option.bind_eq_bind, Option.bind_some, hfiles]
    rfl
  have ho' := ho.step (a := .write) trivial hwrite
  subst hy
  exact .of_step (a := .write) trivial hwrite (returns_of_giveBack ho' hflag rfl hnum)

/-- **The join**: once the run flag is cleared the deal thread can always come to its end; a
number of files that the rotation cannot count down from is left out. -/
theorem returns_of_flagged (ho : Ordered x) (hflag : x.stopPc = .flagged)
    (hnum : Word.toInt 32 x.log.m_fileNum ≠ -2 ^ 31) : Returns x := by
  cases hpc : x.pc with
  | head => exact returns_of_head ho hflag hpc hnum
  | waiting =>
    have hwake : sysStep x .wake = some { x with pc := .woken } := by
      simp only [sysStep, System.wake, hpc]
    exact .of_step (a := .wake) trivial hwake
      (returns_of_woken (ho.step (a := .wake) trivial hwake) hflag rfl hnum)
  | woken => exact returns_of_woken ho hflag hpc hnum
  | swap => exact returns_of_swap ho hflag hpc hnum
  | inner => exact returns_of_inner ho hflag hpc hnum
  | write => exact returns_of_write ho hflag hpc hnum
  | giveBack => exact returns_of_giveBack ho hflag hpc hnum
  | exited =>
    have hjoin : sysStep x .join = some { x with stopPc := .joined } := by
      simp only [sysStep, hpc, if_pos hflag]
    exact .of_step (a := .join) trivial hjoin ⟨_, .refl _, rfl⟩

/-- A default logger logs a record and is stopped. -/
def freshSystem : System :=
  start 10 16 "log/app.log" ⟨0, 0, 0, 1, 0, 0⟩ [] (fun _ _ => 0) (fun _ => none)

def logAndStop : List SysAction :=
  [.call .logWrite ⟨0, 0, 0, 1, 0, 124⟩ 0 (.text [104, 105]) fun _ => 0,
    .stopLog ⟨0, 0, 0, 1, 0, 124⟩ 1 (.text [115, 116, 111, 112]) fun _ => 0, .stopFlag]

lemma logAndStop_fits : ∀ a ∈ logAndStop, a.Fits := by
  intro a ha
  simp only [logAndStop, List.mem_cons, List.not_mem_nil, or_false] at ha
  rcases ha with rfl | rfl | rfl
  · exact ⟨_, rfl, by decide⟩
  · exact ⟨_, rfl, by decide⟩
  · trivial

lemma logAndStop_flagged : ∃ x, exec sysStep freshSystem logAndStop = some x ∧ Ordered x ∧
    x.stopPc = .flagged ∧ Word.toInt 32 x.log.m_fileNum ≠ -2 ^ 31 := by
  have ho : Ordered freshSystem := ordered_start ..
  have hidle : freshSystem.stopPc = .idle := rfl
  have hrun : freshSystem.m_bRunning = true := rfl
  have hhi : (Formatted.text [104, 105]).FitsReserve := ⟨_, rfl, by decide⟩
  have hbye : (Formatted.text [115, 116, 111, 112]).FitsReserve := ⟨_, rfl, by decide⟩
  obtain ⟨y, hy, hoy, hnumy, hruny, hstopy⟩ :=
    ho.call hidle .logWrite ⟨0, 0, 0, 1, 0, 124⟩ 0 hhi fun _ => 0
  obtain ⟨z, hz, hoz, hnumz, -, -⟩ :=
    hoy.call hstopy .logWrite ⟨0, 0, 0, 1, 0, 124⟩ 1 hbye fun _ => 0
  have hcall : sysStep freshSystem (.call .logWrite ⟨0, 0, 0, 1, 0, 124⟩ 0 (.text [104, 105])
      fun _ => 0) = some y := by
    simp only [sysStep]
    rw [if_pos hidle, hy]
  have hstop : sysStep y (.stopLog ⟨0, 0, 0, 1, 0, 124⟩ 1 (.text [115, 116, 111, 112])
      fun _ => 0) = some { z with stopPc := .recorded } := by
    simp only [sysStep]
    rw [if_pos ⟨hstopy.trans hidle, hruny.trans hrun⟩, hz, Option.map_some]
  have hflag : sysStep { z with stopPc := .recorded } .stopFlag =
      some { z with m_bRunning := false, stopPc := .flagged } := rfl
  have hfit := logAndStop_fits
  have hostop := hoy.step (hfit _ (by simp [logAndStop])) hstop
  refine ⟨_, ?_, hostop.step (a := .stopFlag) trivial hflag, rfl, ?_⟩
  · simp only [logAndStop, exec_cons, hcall, hstop, hflag, Option.bind_some, exec_nil]
  · change Word.toInt 32 z.log.m_fileNum ≠ _
    rw [hnumz, hnumy]
    decide

end MmrService.Logger
