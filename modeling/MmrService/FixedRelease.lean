import MmrService.ChunkOwnership
import MmrService.FixedAllocator

/-!
What `releaseFreeMemory` erases.

The counter of a chunk is the number of its blocks less those that are out, with the threads
between an exchange and its `fetch_sub` not yet counted. The lock keeps `m_ptrAllocChunk` as
it is, and not the copies of it that threads have read before.
-/

namespace MmrService.LockFree

/-- What a thread is doing in a chunk. -/
inductive Phase
  | outside
  | allocating
  | freeing
  deriving DecidableEq

def Pc.phase : Pc → Phase
  | .idle => .outside
  | .loaded _ | .linked .. | .taken _ => .allocating
  | .storing .. | .pushing _ | .pushed => .freeing

def Action.actor {τ : Type} : Action τ → τ
  | .allocLoad t | .allocRead t | .allocCas t _ | .allocReturn t | .freeLoad t _ | .freeStore t
  | .freeCas t _ | .freeReturn t | .write t .. => t

/-- What the actor is doing after a step, by the program counter it is left with. -/
def Action.leads {τ : Type} : Action τ → Pc → Prop
  | .allocLoad _, p | .allocCas .., p => p.phase = .allocating
  | .allocRead _, p => p = .idle ∨ p.phase = .allocating
  | .allocReturn _, p | .freeReturn _, p | .write .., p => p = .idle
  | .freeLoad .., p | .freeStore _, p | .freeCas .., p => p.phase = .freeing

variable {τ : Type} [DecidableEq τ] {s s' : State τ} {a : Action τ}

lemma pc_step_of_ne (h : step s a = some s') {u : τ} (hu : u ≠ a.actor) : s'.pc u = s.pc u := by
  revert h
  fun_cases step s a <;> intro h <;> cases h <;>
    first
    | rfl
    | exact Function.update_of_ne hu _ _

lemma leads_step (h : step s a = some s') : a.leads (s'.pc a.actor) := by
  revert h
  fun_cases step s a <;> intro h <;> cases h <;>
    simp_all [Action.leads, Action.actor, State.goto, Pc.phase]

end MmrService.LockFree

namespace MmrService.FixedAllocator

open Transition Mutex LockFree

variable {τ : Type} [DecidableEq τ]

/-! ### The counter of a chunk -/

/-- The counter, in terms of the blocks that are out. -/
structure Counted (n : UInt8) (k : Chunk τ) : Prop where
  avail : k.availadeBlockNum + UInt8.ofNat (k.core.held.length + k.returning.length) =
    n + UInt8.ofNat k.taking.length
  taking : ∀ t, t ∈ k.taking ↔ ∃ ptr, k.core.pc t = .taken ptr
  once : k.taking.Nodup
  returning : ∀ t, (k.core.pc t).phase = .freeing → t ∈ k.returning

variable {n : UInt8} {k k' : Chunk τ}

omit [DecidableEq τ] in
lemma counted_make (m : ℕ → UInt8) (blockSize : ℕ) :
    Counted (numBlocks blockSize) (Chunk.make (τ := τ) m blockSize) := by
  refine ⟨rfl, fun t => ?_, List.nodup_nil, fun t ht => ?_⟩
  · simp [Chunk.make, LockFree.start]
  · cases ht

omit [DecidableEq τ] in
/-- No block is out of a chunk that is counted full while nobody is taking one. -/
lemma Counted.none_out (h : Counted n k) (htaking : k.taking = [])
    (hfull : k.availadeBlockNum = n) (hout : k.core.held.length + k.returning.length ≤ 255) :
    k.core.held = [] ∧ k.returning = [] := by
  have havail := h.avail
  rw [htaking, hfull] at havail
  have hzero : UInt8.ofNat (k.core.held.length + k.returning.length) = UInt8.ofNat 0 :=
    UInt8.add_right_inj n |>.mp havail
  have hnat := congrArg UInt8.toNat hzero
  simp only [UInt8.toNat_ofNat'] at hnat
  exact ⟨List.eq_nil_of_length_eq_zero (by omega), List.eq_nil_of_length_eq_zero (by omega)⟩

omit [DecidableEq τ] in
/-- The memory, the head and the holders of the blocks are not counted. -/
lemma Counted.memory (h : Counted n k) {core : LockFree.State τ}
    (hnum : core.chunk.m_availaBlockNum = k.core.chunk.m_availaBlockNum)
    (hheld : core.held.length = k.core.held.length) (hpc : core.pc = k.core.pc) :
    Counted n { k with core := core } := by
  refine ⟨?_, ?_, h.once, ?_⟩
  · have havail := h.avail
    rw [← hheld, Chunk.availadeBlockNum, ← hnum] at havail
    exact havail
  · rw [hpc]
    exact h.taking
  · rw [hpc]
    exact h.returning

/-- A thread moves in the chunk, and takes and returns nothing. -/
lemma Counted.goto (h : Counted n k) {t : τ} {p q : LockFree.Pc} (hc : k.core.pc t = q)
    (hp : ∀ ptr, p ≠ .taken ptr) (hq : ∀ ptr, q ≠ .taken ptr)
    (hpq : p.phase = .freeing → q.phase = .freeing) :
    Counted n { k with core := k.core.goto t p } := by
  refine ⟨h.avail, fun u => ?_, h.once, fun u hu => ?_⟩
  · rw [h.taking u]
    simp only [pc_goto]
    split_ifs with hut
    · simp [hut, hc, hp, hq]
    · rfl
  · simp only [pc_goto] at hu
    split_ifs at hu with hut
    · exact h.returning u (by rw [hut, hc]; exact hpq hu)
    · exact h.returning u hu

/-- An exchange takes a block; it is counted later. -/
lemma Counted.pop (h : Counted n k) {t : τ} {head cur next : UInt8} {ptr : ℕ}
    (hpc : k.core.pc t = .linked cur next) :
    Counted n { k with
      core := { (k.core.setHead head).goto t (.taken ptr) with
        held := (t, ptr) :: k.core.held }
      taking := t :: k.taking } := by
  have hnot : t ∉ k.taking := by
    intro ht
    obtain ⟨p, hp⟩ := (h.taking t).mp ht
    cases hpc.symm.trans hp
  refine ⟨?_, fun u => ?_, List.nodup_cons.mpr ⟨hnot, h.once⟩, fun u hu => ?_⟩
  · have havail := h.avail
    simp only [List.length_cons, UInt8.ofNat_add] at havail ⊢
    change k.availadeBlockNum + _ = _
    grind
  · simp only [List.mem_cons, pc_goto, h.taking u]
    split_ifs with hut
    · simp [hut]
    · simp [hut, State.setHead]
  · simp only [pc_goto] at hu
    split_ifs at hu
    · cases hu
    · exact h.returning u hu

/-- The block taken is counted. -/
lemma Counted.count (h : Counted n k) {t : τ} {ptr : ℕ} (hpc : k.core.pc t = .taken ptr) :
    Counted n { k with
      core := { k.core.goto t .idle with
        chunk := { k.core.chunk with
          m_availaBlockNum := k.core.chunk.m_availaBlockNum - 1 } }
      taking := k.taking.erase t } := by
  have hmem : t ∈ k.taking := (h.taking t).mpr ⟨ptr, hpc⟩
  refine ⟨?_, fun u => ?_, h.once.erase t, fun u hu => ?_⟩
  · have havail := h.avail
    rw [← List.length_erase_add_one hmem, UInt8.ofNat_add _ 1] at havail
    change k.availadeBlockNum - 1 + UInt8.ofNat (k.core.held.length + k.returning.length) =
      n + UInt8.ofNat (k.taking.erase t).length
    generalize UInt8.ofNat (k.core.held.length + k.returning.length) = x at havail ⊢
    generalize UInt8.ofNat (k.taking.erase t).length = y at havail ⊢
    grind
  · simp only [h.once.mem_erase_iff, pc_goto, h.taking u]
    split_ifs with hut
    · simp [hut]
    · simp [hut]
  · simp only [pc_goto] at hu
    split_ifs at hu
    · cases hu
    · exact h.returning u hu

/-- A deleter begins to return a block. -/
lemma Counted.giveUp (h : Counted n k) {t : τ} {ptr : ℕ} {head : UInt8}
    (hpc : k.core.pc t = .idle) (hheld : (t, ptr) ∈ k.core.held) :
    Counted n { k with
      core := { k.core.goto t (.storing ptr head) with held := k.core.held.erase (t, ptr) }
      returning := t :: k.returning } := by
  have hlen := List.length_erase_add_one hheld
  refine ⟨?_, fun u => ?_, h.once, fun u hu => ?_⟩
  · have havail := h.avail
    rw [← hlen] at havail
    simp only [List.length_cons]
    rw [Nat.add_right_comm] at havail
    exact havail
  · rw [h.taking u]
    simp only [pc_goto]
    split_ifs with hut
    · simp [hut, hpc]
    · rfl
  · simp only [pc_goto] at hu
    split_ifs at hu with hut
    · exact hut ▸ List.mem_cons_self
    · exact List.mem_cons_of_mem _ (h.returning u hu)

/-- A returned block is counted. -/
lemma Counted.back (h : Counted n k) {t : τ} (hpc : k.core.pc t = .pushed) :
    Counted n { k with
      core := { k.core.goto t .idle with
        chunk := { k.core.chunk with
          m_availaBlockNum := k.core.chunk.m_availaBlockNum + 1 } }
      returning := k.returning.erase t } := by
  have hmem : t ∈ k.returning := h.returning t (by rw [hpc]; rfl)
  refine ⟨?_, fun u => ?_, h.once, fun u hu => ?_⟩
  · have havail := h.avail
    rw [← List.length_erase_add_one hmem, ← Nat.add_assoc, UInt8.ofNat_add _ 1] at havail
    change k.availadeBlockNum + 1 +
      UInt8.ofNat (k.core.held.length + (k.returning.erase t).length) =
        n + UInt8.ofNat k.taking.length
    generalize UInt8.ofNat (k.core.held.length + (k.returning.erase t).length) = x at havail ⊢
    grind
  · rw [h.taking u]
    simp only [pc_goto]
    split_ifs with hut
    · simp [hut, hpc]
    · rfl
  · simp only [pc_goto] at hu
    split_ifs at hu with hut
    · cases hu
    · exact (List.mem_erase_of_ne hut).mpr (h.returning u hu)

lemma Counted.step (h : Counted n k) {a : LockFree.Action τ} (hs : k.step a = some k') :
    Counted n k' := by
  obtain ⟨core, hcore, rfl⟩ := Option.map_eq_some_iff.mp hs
  clear hs
  cases a with
  | allocLoad t =>
    simp only [LockFree.step] at hcore
    split at hcore <;> cases hcore
    next hc => exact h.goto hc (by simp) (by simp) (by simp [Pc.phase])
  | allocRead t =>
    simp only [LockFree.step] at hcore
    split at hcore <;> try cases hcore
    next hc =>
      split_ifs at hcore <;> cases hcore
      · exact h.goto hc (by simp) (by simp) (by simp [Pc.phase])
      · exact h.goto hc (by simp) (by simp) (by simp [Pc.phase])
  | allocCas t spurious =>
    simp only [LockFree.step] at hcore
    split at hcore <;> try cases hcore
    next hc =>
      split_ifs at hcore <;> cases hcore
      · simp only [LockFree.State.goto, Function.update_self]
        exact h.pop hc
      · simp only [LockFree.State.goto, Function.update_self]
        exact h.goto hc (by simp) (by simp) (by simp [Pc.phase])
  | allocReturn t =>
    simp only [LockFree.step] at hcore
    split at hcore <;> cases hcore
    next hc => exact h.count hc
  | freeLoad t ptr =>
    simp only [LockFree.step] at hcore
    split at hcore <;> try cases hcore
    next hc =>
      split_ifs at hcore with hheld
      cases hcore
      exact h.giveUp hc hheld
  | freeStore t =>
    simp only [LockFree.step] at hcore
    split at hcore <;> cases hcore
    next hc => exact (h.goto hc (by simp) (by simp) (by simp [Pc.phase])).memory rfl rfl rfl
  | freeCas t spurious =>
    simp only [LockFree.step] at hcore
    split at hcore <;> try cases hcore
    next hc =>
      split_ifs at hcore <;> cases hcore
      · exact (h.goto hc (by simp) (by simp) (by simp [Pc.phase])).memory rfl rfl rfl
      · exact h.goto hc (by simp) (by simp) (by simp [Pc.phase])
  | freeReturn t =>
    simp only [LockFree.step] at hcore
    split at hcore <;> cases hcore
    next hc => exact h.back hc
  | write t ptr j b =>
    simp only [LockFree.step] at hcore
    split at hcore <;> try cases hcore
    next hc =>
      split_ifs at hcore
      cases hcore
      exact h.memory rfl rfl rfl

/-! ### The threads and the list -/

/-- What a thread of the allocator is doing in a chunk. -/
def Pc.phaseIn : Pc → ℕ → Phase
  | .inside d, c => if c = d then .allocating else .outside
  | .freeing d, c => if c = d then .freeing else .outside
  | _, _ => .outside

lemma Pc.inside_of_phaseIn {p : Pc} {c : ℕ} (h : p.phaseIn c = .allocating) : p = .inside c := by
  revert h
  fun_cases Pc.phaseIn p c <;> intro h <;> cases h
  rfl

structure Inv (blockSize : ℕ) (s : State τ) : Prop where
  mutex : Owned s.m_mutexChunks Pc.locked s.pc
  ids : ∀ c ∈ s.m_listChunks, c < s.made
  unborn : ∀ t c, s.made ≤ c → (s.pc t).phaseIn c = .outside
  agrees : ∀ t c, ((s.chunks c).core.pc t).phase = (s.pc t).phaseIn c
  counted : ∀ c ∈ s.m_listChunks, Counted (numBlocks blockSize) (s.chunks c)
  doomed : ∀ t i c, s.pc t = .erase i → s.m_listChunks[i]? = some c →
    ¬ s.InUse c ∧ s.m_ptrAllocChunk ≠ some c

variable {blockSize : ℕ} {s s' : State τ} {t : τ} {p : Pc} {c : ℕ}

lemma State.pc_goto (s : State τ) (t u : τ) (p : Pc) :
    (s.goto t p).pc u = if u = t then p else s.pc u := by
  simp only [State.goto, Function.update_apply]

/-- A chunk that is not in use is not used by a move that does not select it. -/
lemma State.InUse.of_goto (h : (s.goto t p).InUse c) (hfree : p ≠ .freeing c)
    (hsel : p.selected ≠ some c) : s.InUse c := by
  rcases h with hheld | ⟨u, hu⟩
  · exact .inl hheld
  · rw [State.pc_goto] at hu
    split_ifs at hu
    · rcases hu with hu | hu
      · exact absurd hu hfree
      · exact absurd hu hsel
    · exact .inr ⟨u, hu⟩

omit [DecidableEq τ] in
/-- A chunk is in use whatever becomes of another one. -/
lemma State.InUse.of_setChunk {d : ℕ} {k : Chunk τ} (hdc : d ≠ c) (h : (s.setChunk c k).InUse d) :
    s.InUse d := by
  rcases h with hheld | hex
  · refine .inl ?_
    simpa only [State.setChunk, Function.update_of_ne hdc] using hheld
  · exact .inr hex

/-- A thread moves outside the chunks; it selects what `m_ptrAllocChunk` points to. -/
lemma Inv.goto (h : Inv blockSize s) (hlock : p.locked = (s.pc t).locked)
    (hphase : ∀ c, p.phaseIn c = (s.pc t).phaseIn c) (hfree : ∀ c, p ≠ .freeing c)
    (hsel : ∀ c, p.selected = some c → s.m_ptrAllocChunk = some c)
    (hdoom : ∀ i c, p = .erase i → s.m_listChunks[i]? = some c →
      ¬ s.InUse c ∧ s.m_ptrAllocChunk ≠ some c) : Inv blockSize (s.goto t p) := by
  have hkeep : ∀ c, ¬ s.InUse c ∧ s.m_ptrAllocChunk ≠ some c →
      ¬ (s.goto t p).InUse c ∧ s.m_ptrAllocChunk ≠ some c :=
    fun c hc => ⟨fun hu => hc.1 (hu.of_goto (hfree c) fun he => hc.2 (hsel c he)), hc.2⟩
  refine ⟨h.mutex.stay hlock, h.ids, fun u c hc => ?_, fun u c => ?_, h.counted,
    fun u i c hu hi => hkeep c ?_⟩
  · rw [State.pc_goto]
    split_ifs with hut
    · rw [hphase c]
      exact h.unborn t c hc
    · exact h.unborn u c hc
  · rw [State.pc_goto]
    split_ifs with hut
    · rw [hphase c, hut]
      exact h.agrees t c
    · exact h.agrees u c
  · rw [State.pc_goto] at hu
    split_ifs at hu
    · exact hdoom i c hu hi
    · exact h.doomed u i c hu hi

/-- A thread moves outside the chunks, and selects and erases nothing. -/
lemma Inv.goes (h : Inv blockSize s) {q : Pc} (hc : s.pc t = q) (hlock : p.locked = q.locked)
    (hphase : ∀ c, p.phaseIn c = q.phaseIn c) (hfree : ∀ c, p ≠ .freeing c)
    (hsel : p.selected = none) (hdoom : ∀ i, p ≠ .erase i) : Inv blockSize (s.goto t p) := by
  subst hc
  refine h.goto hlock hphase hfree (fun c hc => ?_) fun i c hp => absurd hp (hdoom i)
  rw [hsel] at hc
  cases hc

/-- A thread does a step in a chunk that it uses, and goes on outside the lock. -/
lemma Inv.inChunk (h : Inv blockSize s) {a : LockFree.Action τ} {q : Chunk τ → Pc}
    (hs : s.inChunk t c a q = some s') (ha : a.actor = t) (huse : s.InUse c)
    (hpc : (s.pc t).locked = false) (hother : ∀ d, d ≠ c → (s.pc t).phaseIn d = .outside)
    (hq : ∀ k', (s.chunks c).step a = some k' → (q k').locked = false ∧
      (k'.core.pc t).phase = (q k').phaseIn c ∧
      ∀ d, d ≠ c → (q k').phaseIn d = .outside ∧ (q k').selected ≠ some d) :
    Inv blockSize s' := by
  unfold State.inChunk at hs
  split_ifs at hs with hmem
  obtain ⟨k, hk, rfl⟩ := Option.map_eq_some_iff.mp hs
  obtain ⟨hlock, hphase, hrest⟩ := hq k hk
  obtain ⟨core, hcore, hkc⟩ := Option.map_eq_some_iff.mp hk
  have hkpc : ∀ u, u ≠ t → k.core.pc u = (s.chunks c).core.pc u := by
    intro u hu
    rw [← hkc]
    exact pc_step_of_ne hcore (ha ▸ hu)
  have hpq : ∀ d, d ≠ c → (q k).phaseIn d = (s.pc t).phaseIn d := fun d hd =>
    (hrest d hd).1.trans (hother d hd).symm
  refine ⟨h.mutex.stay (hlock.trans hpc.symm), h.ids, fun u d hd => ?_, fun u d => ?_,
    fun d hd => ?_, fun u i d hu hi => ?_⟩
  · rw [State.pc_goto]
    have hdc : d ≠ c := by
      rintro rfl
      exact Nat.lt_irrefl _ (Nat.lt_of_lt_of_le (h.ids d hmem) hd)
    split_ifs with hut
    · exact (hrest d hdc).1
    · exact h.unborn u d hd
  · simp only [State.goto, State.setChunk, Function.update_apply]
    by_cases hdc : d = c
    · subst hdc
      rw [if_pos rfl]
      split_ifs with hut
      · rw [hut]
        exact hphase
      · rw [hkpc u hut]
        exact h.agrees u d
    · rw [if_neg hdc]
      split_ifs with hut
      · rw [hpq d hdc, hut]
        exact h.agrees t d
      · exact h.agrees u d
  · simp only [State.goto, State.setChunk, Function.update_apply]
    split_ifs with hdc
    · exact (h.counted c hmem).step hk
    · exact h.counted d hd
  · rw [State.pc_goto] at hu
    split_ifs at hu with hut
    · rw [hu] at hlock
      cases hlock
    · obtain ⟨hnot, hptr⟩ := h.doomed u i d hu hi
      have hdc : d ≠ c := by
        rintro rfl
        exact hnot huse
      have hfree : q k ≠ .freeing d := by
        intro he
        have hout := (hrest d hdc).1
        rw [he] at hout
        simp [Pc.phaseIn] at hout
      refine ⟨fun hinuse => hnot ?_, hptr⟩
      have hback := State.InUse.of_goto hinuse hfree (hrest d hdc).2
      exact hback.of_setChunk hdc

/-! ### Under the lock -/

omit [DecidableEq τ] in
/-- Nobody else is about to erase a chunk. -/
lemma Inv.alone (h : Inv blockSize s) (ht : (s.pc t).locked = true) {u : τ}
    (hu : u ≠ t) (i : ℕ) : s.pc u ≠ .erase i :=
  fun he => hu (h.mutex.unique (by rw [he]; rfl) ht)

/-- With nobody but `t` under the lock, a move of `t` that leaves the chunks as they are, and
does not lead to an erasure, keeps the invariant. -/
lemma Inv.moved (h : Inv blockSize s) (hphase : ∀ c, p.phaseIn c = (s.pc t).phaseIn c)
    (hp : ∀ i, p ≠ .erase i) (halone : ∀ u, u ≠ t → ∀ i, s.pc u ≠ .erase i)
    {m : Option τ} (hm : Owned m Pc.locked (Function.update s.pc t p)) {ptr : Option ℕ}
    {l : List ℕ} (hl : ∀ c ∈ l, c ∈ s.m_listChunks) :
    Inv blockSize { s.goto t p with
      m_listChunks := l, m_ptrAllocChunk := ptr, m_mutexChunks := m } := by
  refine ⟨hm, fun c hc => h.ids c (hl c hc), fun u c hc => ?_, fun u c => ?_,
    fun c hc => h.counted c (hl c hc), fun u i c hu _ => ?_⟩
  · simp only [State.pc_goto]
    split_ifs
    · rw [hphase c]
      exact h.unborn t c hc
    · exact h.unborn u c hc
  · simp only [State.pc_goto]
    split_ifs with hut
    · rw [hphase c, hut]
      exact h.agrees t c
    · exact h.agrees u c
  · simp only [State.pc_goto] at hu
    split_ifs at hu with hut
    · exact absurd hu (hp i)
    · exact absurd hu (halone u hut i)

/-- A thread takes the free lock. -/
lemma Inv.lock (h : Inv blockSize s) (hm : s.m_mutexChunks = none) (hlock : p.locked = true)
    (hp : ∀ i, p ≠ .erase i) (hphase : ∀ c, p.phaseIn c = (s.pc t).phaseIn c) :
    Inv blockSize { s.goto t p with m_mutexChunks := some t } := by
  have hfree := h.mutex
  rw [hm] at hfree
  refine h.moved hphase hp (fun u _ i he => ?_) (hfree.lock hlock) fun c hc => hc
  have hholder := h.mutex.holder (t := u) (by rw [he]; rfl)
  rw [hm] at hholder
  cases hholder

/-- A thread frees the lock. -/
lemma Inv.unlock (h : Inv blockSize s) (ht : (s.pc t).locked = true) (hlock : p.locked = false)
    (hp : ∀ i, p ≠ .erase i) (hphase : ∀ c, p.phaseIn c = (s.pc t).phaseIn c) (ptr : Option ℕ) :
    Inv blockSize { s.goto t p with m_ptrAllocChunk := ptr, m_mutexChunks := none } :=
  h.moved hphase hp (fun _ hu i => h.alone ht hu i) (h.mutex.unlock ht hlock) fun _ hc => hc

/-- A new chunk, which nobody has seen yet. -/
lemma Inv.create (h : Inv blockSize s) {i : ℕ} (hpc : s.pc t = .search i) (m : ℕ → UInt8) :
    Inv blockSize { (s.setChunk s.made (.make m blockSize)).found t s.made with
      m_listChunks := s.m_listChunks ++ [s.made]
      made := s.made + 1 } := by
  have hu : Inv blockSize (s.found t s.made) :=
    h.unlock (by rw [hpc]; rfl) rfl (by simp) (by rw [hpc]; exact fun _ => rfl) _
  refine ⟨hu.mutex, fun c hc => ?_, fun u c hc => hu.unborn u c (Nat.le_of_succ_le hc),
    fun u c => ?_, fun c hc => ?_, fun u j c hj _ => ?_⟩
  · rcases List.mem_append.mp hc with hc | hc
    · exact Nat.lt_succ_of_lt (h.ids c hc)
    · rw [List.mem_singleton.mp hc]
      exact Nat.lt_succ_self _
  · change (Function.update s.chunks s.made (.make m blockSize) c |>.core.pc u).phase =
      ((s.goto t .second).pc u).phaseIn c
    rw [Function.update_apply]
    split_ifs with hcm
    · rw [hcm]
      exact (hu.unborn u s.made (Nat.le_refl _)).symm
    · exact hu.agrees u c
  · change Counted _ (Function.update s.chunks s.made (.make m blockSize) c)
    rw [Function.update_apply]
    split_ifs with hcm
    · exact counted_make m blockSize
    · rcases List.mem_append.mp hc with hc | hc
      · exact h.counted c hc
      · exact absurd (List.mem_singleton.mp hc) hcm
  · change (s.goto t .second).pc u = .erase j at hj
    rw [State.pc_goto] at hj
    split_ifs at hj with hut
    exact absurd hj (h.alone (by rw [hpc]; rfl) hut j)

omit [DecidableEq τ] in
/-- A chunk found free under the condition is not in use. -/
lemma Inv.unused (h : Inv blockSize s) {i : ℕ} (hset : s.Settled blockSize (.sweep t))
    (hpc : s.pc t = .scan i) (hi : s.m_listChunks[i]? = some c)
    (hfull : (s.chunks c).availadeBlockNum = numBlocks blockSize)
    (hptr : some c ≠ s.m_ptrAllocChunk) : ¬ s.InUse c := by
  obtain ⟨hfresh, hout⟩ := hset t i c rfl hpc hi hfull hptr
  have hcount := h.counted c (List.mem_of_getElem? hi)
  -- the copies of `m_ptrAllocChunk` are not of this chunk
  have hsel : ∀ u, (s.pc u).selected ≠ some c := fun u hu => hptr (hfresh u c hu).symm
  have htaking : (s.chunks c).taking = [] := by
    refine List.eq_nil_iff_forall_not_mem.mpr fun u hu => hsel u ?_
    obtain ⟨ptr, hp⟩ := (hcount.taking u).mp hu
    have hphase := h.agrees u c
    rw [hp] at hphase
    rw [Pc.inside_of_phaseIn hphase.symm]
    rfl
  obtain ⟨hheld, hret⟩ := hcount.none_out htaking hfull hout
  rintro (hne | ⟨u, hu | hu⟩)
  · exact hne hheld
  · have hmem := hcount.returning u (by rw [h.agrees u c, hu]; simp [Pc.phaseIn])
    rw [hret] at hmem
    cases hmem
  · exact hsel u hu

/-! ### Every step keeps it -/

lemma Inv.select (h : Inv blockSize s) {m : ℕ → UInt8} (hs : s.select blockSize t m = some s') :
    Inv blockSize s' := by
  revert hs
  fun_cases State.select blockSize s t m <;> intro hs
  · next hc =>
    cases hs
    split_ifs <;> exact h.goes hc rfl (fun _ => rfl) (by simp) rfl (by simp)
  · next hc =>
    obtain ⟨c, hptr, rfl⟩ := Option.map_eq_some_iff.mp hs
    exact h.goto (by rw [hc]; rfl) (by rw [hc]; exact fun _ => rfl) (by simp)
      (fun d hd => hd ▸ hptr) (by simp)
  · next hc _ =>
    cases hs
    split_ifs <;> exact h.goes hc rfl (fun _ => rfl) (by simp) rfl (by simp)
  · cases hs
  · next hc hm =>
    cases hs
    exact h.lock hm rfl (by simp) (by rw [hc]; exact fun _ => rfl)
  · cases hs
  · next i hc _ =>
    cases hs
    exact h.create hc m
  · next i hc c _ _ =>
    cases hs
    exact h.unlock (by rw [hc]; rfl) rfl (by simp) (by rw [hc]; exact fun _ => rfl) (some c)
  · next i hc c _ _ =>
    cases hs
    exact h.goes hc rfl (fun _ => rfl) (by simp) rfl (by simp)
  · next hc =>
    obtain ⟨c, hptr, rfl⟩ := Option.map_eq_some_iff.mp hs
    exact h.goto (by rw [hc]; rfl) (by rw [hc]; exact fun _ => rfl) (by simp)
      (fun d hd => hd ▸ hptr) (by simp)
  · cases hs

omit [DecidableEq τ] in
/-- A thread that has selected a chunk uses it. -/
lemma State.inUse_of_selected (h : (s.pc t).selected = some c) : s.InUse c := .inr ⟨t, .inr h⟩

/-- What a thread in the `allocate` of a chunk is left with. -/
lemma Chunk.leads_step {k k' : Chunk τ} {a : LockFree.Action τ} (h : k.step a = some k') :
    a.leads (k'.core.pc a.actor) := by
  obtain ⟨core, hcore, rfl⟩ := Option.map_eq_some_iff.mp h
  exact LockFree.leads_step hcore

/-- A thread in the `allocate` of a chunk stays in it, or leaves it. -/
lemma Inv.takeInside (h : Inv blockSize s) (hc : s.pc t = .inside c) {a : LockFree.Action τ}
    (ha : a.actor = t) {q : Chunk τ → Pc} (hs : s.inChunk t c a q = some s')
    (hq : ∀ k', (s.chunks c).step a = some k' →
      q k' = .inside c ∧ (k'.core.pc t).phase = .allocating ∨
      (q k' = .testNull ∨ q k' = .idle) ∧ k'.core.pc t = .idle) : Inv blockSize s' := by
  refine h.inChunk hs ha (State.inUse_of_selected (by rw [hc]; rfl)) (by rw [hc]; rfl)
    (by rw [hc]; exact fun _ hd => if_neg hd) fun k' hk => ?_
  rcases hq k' hk with ⟨hin, hphase⟩ | ⟨hout | hout, hidle⟩
  · rw [hin, hphase]
    exact ⟨rfl, (if_pos rfl).symm, fun d hd => ⟨if_neg hd, by simp [Pc.selected, hd.symm]⟩⟩
  · rw [hout, hidle]
    exact ⟨rfl, rfl, fun d _ => ⟨rfl, nofun⟩⟩
  · rw [hout, hidle]
    exact ⟨rfl, rfl, fun d _ => ⟨rfl, nofun⟩⟩

lemma Inv.take (h : Inv blockSize s) {b : Bool} (hs : s.take t b = some s') :
    Inv blockSize s' := by
  revert hs
  fun_cases State.take s t b <;> intro hs <;> try cases hs
  · next c hc =>
    refine h.inChunk hs rfl (State.inUse_of_selected (by rw [hc]; rfl)) (by rw [hc]; rfl)
      (by rw [hc]; exact fun _ _ => rfl) fun k' hk => ⟨rfl, ?_, fun d hd => ?_⟩
    · exact (Chunk.leads_step hk).trans (by simp [Pc.phaseIn])
    · exact ⟨if_neg hd, by simp [Pc.selected, hd.symm]⟩
  · next c hc _ _ =>
    refine h.takeInside hc rfl hs fun k' hk => ?_
    have hleads := Chunk.leads_step hk
    by_cases hidle : k'.core.pc t = .idle
    · exact .inr ⟨.inl (if_pos hidle), hidle⟩
    · exact .inl ⟨if_neg hidle, hleads.resolve_left hidle⟩
  · next c hc _ _ _ =>
    exact h.takeInside hc rfl hs fun k' hk => .inl ⟨rfl, Chunk.leads_step hk⟩
  · next c hc _ _ =>
    exact h.takeInside hc rfl hs fun k' hk => .inr ⟨.inr rfl, Chunk.leads_step hk⟩

/-- A thread in the `deallocate` of a chunk stays in it, or leaves it. -/
lemma Inv.putFreeing (h : Inv blockSize s) (hc : s.pc t = .freeing c) {a : LockFree.Action τ}
    (ha : a.actor = t) {p : Pc} (hs : s.inChunk t c a (fun _ => p) = some s')
    (hp : ∀ k', (s.chunks c).step a = some k' →
      p = .freeing c ∧ (k'.core.pc t).phase = .freeing ∨ p = .idle ∧ k'.core.pc t = .idle) :
    Inv blockSize s' := by
  refine h.inChunk hs ha (.inr ⟨t, .inl hc⟩) (by rw [hc]; rfl)
    (by rw [hc]; exact fun _ hd => if_neg hd) fun k' hk => ?_
  rcases hp k' hk with ⟨rfl, hphase⟩ | ⟨rfl, hidle⟩
  · rw [hphase]
    exact ⟨rfl, (if_pos rfl).symm, fun d hd => ⟨if_neg hd, nofun⟩⟩
  · rw [hidle]
    exact ⟨rfl, rfl, fun d _ => ⟨rfl, nofun⟩⟩

lemma Inv.put (h : Inv blockSize s) {b : Bool} (hs : s.put t b = some s') : Inv blockSize s' := by
  revert hs
  fun_cases State.put s t b <;> intro hs <;> try cases hs
  · next c hc _ _ _ =>
    exact h.putFreeing hc rfl hs fun k' hk => .inl ⟨rfl, Chunk.leads_step hk⟩
  · next c hc _ _ =>
    exact h.putFreeing hc rfl hs fun k' hk => .inl ⟨rfl, Chunk.leads_step hk⟩
  · next c hc _ =>
    exact h.putFreeing hc rfl hs fun k' hk => .inr ⟨rfl, Chunk.leads_step hk⟩

/-- A block can only be returned or written to where it is held. -/
lemma held_of_step {k k' : Chunk τ} {a : LockFree.Action τ} (h : k.step a = some k') {ptr : ℕ}
    (ha : a = .freeLoad t ptr ∨ ∃ j b, a = .write t ptr j b) : (t, ptr) ∈ k.core.held := by
  obtain ⟨core, hcore, -⟩ := Option.map_eq_some_iff.mp h
  rcases ha with rfl | ⟨j, b, rfl⟩
  · simp only [LockFree.step] at hcore
    split at hcore
    · split_ifs at hcore with hheld
      exact hheld
    · cases hcore
  · simp only [LockFree.step] at hcore
    split at hcore
    · split_ifs at hcore with hheld
      exact hheld.1
    · cases hcore

/-- An idle thread does something with a block it holds. -/
lemma Inv.useHeld (h : Inv blockSize s) (hc : s.pc t = .idle) {a : LockFree.Action τ} {ptr : ℕ}
    (hs : s.inChunk t c a (fun _ => p) = some s') (hact : a.actor = t)
    (ha : a = .freeLoad t ptr ∧ p = .freeing c ∨ (∃ j b, a = .write t ptr j b) ∧ p = .idle) :
    Inv blockSize s' := by
  have huse : s.InUse c := by
    unfold State.inChunk at hs
    split_ifs at hs
    obtain ⟨k, hk, -⟩ := Option.map_eq_some_iff.mp hs
    have hmem : (t, ptr) ∈ (s.chunks c).core.held := held_of_step hk (ha.imp And.left And.left)
    exact .inl (List.ne_nil_of_mem hmem)
  refine h.inChunk hs hact huse (by rw [hc]; rfl) (by rw [hc]; exact fun _ _ => rfl)
    fun k' hk => ?_
  have hleads := Chunk.leads_step hk
  rw [hact] at hleads
  rcases ha with ⟨rfl, rfl⟩ | ⟨⟨j, b, rfl⟩, rfl⟩
  · exact ⟨rfl, hleads.trans (by simp [Pc.phaseIn]), fun d hd => ⟨if_neg hd, nofun⟩⟩
  · have hidle : k'.core.pc t = .idle := hleads
    rw [hidle]
    exact ⟨rfl, rfl, fun d _ => ⟨rfl, nofun⟩⟩

lemma Inv.give (h : Inv blockSize s) {u : τ} {ptr : ℕ} (hs : s.give t u c ptr = some s') :
    Inv blockSize s' := by
  unfold State.give at hs
  dsimp only at hs
  split_ifs at hs with hcontains
  cases hs
  have hmem : (t, ptr) ∈ (s.chunks c).core.held := List.contains_iff_mem.mp hcontains
  have hlen := List.length_erase_add_one hmem
  refine ⟨h.mutex, h.ids, h.unborn, fun v d => ?_, fun d hd => ?_, fun v i d hv hi => ?_⟩
  · simp only [State.setChunk, Function.update_apply]
    split_ifs with hdc
    · rw [hdc]
      exact h.agrees v c
    · exact h.agrees v d
  · simp only [State.setChunk, Function.update_apply]
    split_ifs with hdc
    · subst hdc
      exact (h.counted d hd).memory rfl hlen rfl
    · exact h.counted d hd
  · obtain ⟨hnot, hptr⟩ := h.doomed v i d hv hi
    have hdc : d ≠ c := by
      rintro rfl
      exact hnot (.inl (List.ne_nil_of_mem hmem))
    exact ⟨fun hinuse => hnot (State.InUse.of_setChunk hdc hinuse), hptr⟩

lemma Inv.sweep (h : Inv blockSize s) (hset : s.Settled blockSize (.sweep t))
    (hs : s.sweep blockSize t = some s') : Inv blockSize s' := by
  revert hs
  fun_cases State.sweep blockSize s t <;> intro hs <;> cases hs
  · next hc hm => exact h.lock hm rfl (by simp) (by rw [hc]; exact fun _ => rfl)
  · next i hc _ =>
    exact h.unlock (by rw [hc]; rfl) rfl (by simp) (by rw [hc]; exact fun _ => rfl) _
  · next i hc c hi hfull =>
    refine h.goto (by rw [hc]; rfl) (by rw [hc]; exact fun _ => rfl) (by simp) nofun ?_
    intro j d hj hd
    obtain rfl : i = j := Pc.erase.inj hj
    obtain rfl : c = d := Option.some.inj (hi.symm.trans hd)
    exact ⟨h.unused hset hc hi hfull.1 hfull.2, hfull.2.symm⟩
  · next i hc _ _ _ =>
    exact h.goes hc rfl (fun _ => rfl) (by simp) rfl (by simp)
  · next i hc =>
    have ht : (s.pc t).locked = true := by rw [hc]; rfl
    have hm : Owned s.m_mutexChunks Pc.locked (Function.update s.pc t (.scan i)) :=
      h.mutex.stay (by rw [hc]; rfl)
    exact h.moved (by rw [hc]; exact fun _ => rfl) (by simp) (fun _ hu j => h.alone ht hu j) hm
      fun _ hd => List.mem_of_mem_eraseIdx hd

lemma Inv.step (h : Inv blockSize s) {a : Action τ} (hset : s.Settled blockSize a)
    (hs : s.step blockSize a = some s') : Inv blockSize s' := by
  cases a with
  | allocate t =>
    simp only [State.step] at hs
    split_ifs at hs with hc
    cases hs
    exact h.goes hc rfl (fun _ => rfl) (by simp) rfl (by simp)
  | select t m => exact h.select hs
  | take t b => exact h.take hs
  | deallocate t c ptr =>
    simp only [State.step] at hs
    split_ifs at hs with hc
    exact h.useHeld hc hs rfl (.inl ⟨rfl, rfl⟩)
  | put t b => exact h.put hs
  | give t u c ptr =>
    simp only [State.step] at hs
    split_ifs at hs
    exact h.give hs
  | write t c ptr j b =>
    simp only [State.step] at hs
    split_ifs at hs with hc
    exact h.useHeld hc hs rfl (.inr ⟨⟨j, b, rfl⟩, rfl⟩)
  | releaseFreeMemory t =>
    simp only [State.step] at hs
    split_ifs at hs with hc
    cases hs
    exact h.goes hc rfl (fun _ => rfl) (by simp) rfl (by simp)
  | sweep t => exact h.sweep hset hs

omit [DecidableEq τ] in
lemma inv_start (blockSize : ℕ) : Inv blockSize (State.start τ blockSize) := by
  refine ⟨fun t => ?_, ?_, fun _ _ _ => rfl, fun _ _ => rfl, ?_, ?_⟩
  all_goals simp [State.start, Pc.locked]

/-- **What `releaseFreeMemory` erases.** In a run in which it never finds a chunk free while a
thread in `allocate` goes by an old value of `m_ptrAllocChunk`, it never erases a chunk of
which a block is out, or which a thread has selected. -/
theorem erases_unused {as : List (Action τ)}
    (h : Always (State.step blockSize) (fun _ => State.Settled blockSize)
      (State.start τ blockSize) as) :
    Always (State.step blockSize) (fun _ => State.EraseSafe) (State.start τ blockSize) as := by
  have hstep : ∀ (g : List (Action τ)) (s : State τ) (a : Action τ) (u : State τ),
      Inv blockSize s → s.Settled blockSize a → s.step blockSize a = some u → Inv blockSize u :=
    fun _ _ _ _ hi hset hs => hi.step hset hs
  refine always_of_inv (I := fun _ => Inv blockSize) (inv_start blockSize) hstep ?_ h
  intro _ s a hi _ t i c _ hpc hget
  exact (hi.doomed t i c hpc hget).1

/-- A thread allocates, with `n` steps before it gets to a chunk that has a block for it. -/
def allocateBy (t : Bool) (n : ℕ) : List (Action Bool) :=
  .allocate t :: List.replicate n (.select t fun _ => 0) ++ List.replicate 4 (.take t false)

def giveBack (t : Bool) (c ptr : ℕ) : List (Action Bool) :=
  .deallocate t c ptr :: List.replicate 3 (.put t false)

/-- One thread fills two chunks of one block and returns the first block; another releases. -/
def releaseFirst : List (Action Bool) :=
  allocateBy true 4 ++ allocateBy true 7 ++ giveBack true 0 0 ++
    .releaseFreeMemory false :: List.replicate 5 (.sweep false)

/-- A thread has selected the first chunk when another one fills it, goes on to a second one,
returns the block of the first and releases. -/
def staleCopy : List (Action Bool) :=
  allocateBy true 4 ++ giveBack true 0 0 ++
    .allocate false :: List.replicate 4 (.select false fun _ => 0) ++
    allocateBy true 4 ++ allocateBy true 7 ++ giveBack true 0 0 ++
    [.releaseFreeMemory true, .sweep true, .sweep true]

/-- `Settled`, evaluated for two threads. -/
def isSettled (blockSize : ℕ) (s : State Bool) : Action Bool → Bool
  | .sweep t =>
    match s.pc t with
    | .scan i =>
      match s.m_listChunks[i]? with
      | some c =>
        (s.chunks c).availadeBlockNum != numBlocks blockSize || some c == s.m_ptrAllocChunk ||
          ([true, false].all (fun u => (s.pc u).selected.all (s.m_ptrAllocChunk == some ·)) &&
            s.out c ≤ 255)
      | none => true
    | _ => true
  | _ => true

lemma settled_of_isSettled {s : State Bool} {a : Action Bool} (h : isSettled blockSize s a = true) :
    s.Settled blockSize a := by
  rintro t i c rfl hpc hget hfull hptr
  simp only [isSettled, hpc, hget, hfull] at h
  have hu : ∀ u, (s.pc u).selected.all (s.m_ptrAllocChunk == some ·) = true := by
    intro u
    cases u <;> simp_all
  refine ⟨fun u d hd => ?_, by simp_all⟩
  have hud := hu u
  rw [hd] at hud
  exact eq_of_beq hud

theorem erases_unused_first :
    Always (State.step 8192) (fun _ => State.EraseSafe) (State.start Bool 8192) releaseFirst :=
  erases_unused (always_of_check (fun _ _ => settled_of_isSettled) (by decide +kernel))

lemma staleCopy_ends :
    (exec (State.step 8192) (State.start Bool 8192) staleCopy).map
      (fun s => (s.pc true, s.pc false, s.m_listChunks)) =
        some (.erase 0, .call 0, [0, 1]) := by
  decide +kernel

theorem erases_selected :
    ¬ Always (State.step 8192) (fun _ => State.EraseSafe) (State.start Bool 8192)
      (staleCopy ++ [.sweep true]) := by
  intro h
  obtain ⟨s, hs, he⟩ := Option.map_eq_some_iff.mp staleCopy_ends
  simp only [Prod.mk.injEq] at he
  obtain ⟨herase, hcall, hlist⟩ := he
  refine h.last hs true 0 0 rfl herase (by rw [hlist]; rfl) (.inr ⟨false, .inr ?_⟩)
  rw [hcall]
  rfl

end MmrService.FixedAllocator
