import MmrService.Matrix

/-!
A matrix, its block and the calls of the allocator.

The capacity is the size that `allocate` has returned, which is the number of bytes of the
block: a multiple of 1024 below `2 ^ 32`, and at least the size that was asked for unless the
rounding has cut that. A call of `allocate` is undefined where it asks for a drained size.
-/

namespace MmrService.Matrices

open Transition

variable {sizeofTy ulExpiredTime ulMaxCache n p : ℕ} {memory memory' : Memory} {m m' : Matrix}
  {b : ℕ × ℕ} {o : Outside}

/-- The number of bytes a matrix may use. -/
def Matrix.storage (memory : Memory) (m : Matrix) : ℕ :=
  ((m.m_ptrBegin.bind memory.bytes).getD []).length

/-! ### The calls -/

variable (ulExpiredTime ulMaxCache) in
/-- The allocator is where its steps have led, and a block has the bytes of the size it is
known under. -/
structure Memory.Good (memory : Memory) : Prop where
  steps : ChunkAlloc.Inv 10 (ChunkAlloc.init ulExpiredTime ulMaxCache) memory.calls
    memory.allocator
  sized : ∀ k r, memory.allocator.Holds k r → (memory.bytes r).map List.length = some k

variable (ulExpiredTime ulMaxCache) in
/-- The cached blocks of the size that is asked for have all been taken, and none has come back
and no sweep has passed since. -/
def Memory.Drained (memory : Memory) (ulElemSize : ℕ) : Prop :=
  ChunkAlloc.Drained 10 (ChunkAlloc.init ulExpiredTime ulMaxCache)
    (ChunkAlloc.allocSize 10 ulElemSize 1) memory.calls

/-- Stores that leave the allocator alone and every block its size. -/
structure Memory.SameSizes (memory memory' : Memory) : Prop where
  allocator : memory'.allocator = memory.allocator
  calls : memory'.calls = memory.calls
  sizes : ∀ p, (memory'.bytes p).map List.length = (memory.bytes p).map List.length

namespace Memory

lemma act_of_step (memory : Memory) {a : ChunkAlloc.Action} {t : ChunkAlloc.State}
    (h : ChunkAlloc.step 10 memory.allocator a = some t) :
    memory.act a = some { memory with
      allocator := t
      calls := memory.calls ++ [a] } := by
  rw [Memory.act, h, Option.map_some]

lemma good_init (ulExpiredTime ulMaxCache : ℕ) :
    (init ulExpiredTime ulMaxCache).memory.Good ulExpiredTime ulMaxCache := by
  refine ⟨ChunkAlloc.inv_init 10 ulExpiredTime ulMaxCache, ?_⟩
  rintro k r (⟨q, now, hq, -⟩ | h | h)
  · cases hq
  · cases h
  · cases h

lemma Good.sameSizes (h : memory.Good ulExpiredTime ulMaxCache) (hsame : SameSizes memory memory') :
    memory'.Good ulExpiredTime ulMaxCache := by
  refine ⟨?_, fun k r hr => ?_⟩
  · rw [hsame.calls, hsame.allocator]
    exact h.steps
  · rw [hsame.allocator] at hr
    rw [hsame.sizes, h.sized k r hr]

/-- A step that takes no new block. -/
lemma Good.act (h : memory.Good ulExpiredTime ulMaxCache) {a : ChunkAlloc.Action}
    (ha : ∀ size p, a ≠ .newBlock size p) (hs : memory.act a = some memory') :
    memory'.Good ulExpiredTime ulMaxCache := by
  obtain ⟨t, ht, rfl⟩ := Option.map_eq_some_iff.mp hs
  exact ⟨ChunkAlloc.inv_step 10 h.steps ht,
    fun k r hr => h.sized k r ((hr.of_step ht).resolve_right (ha k r))⟩

/-- What a call of `allocate` has returned. -/
structure Allocated (memory memory' : Memory) (ulElemSize : ℕ) (b : ℕ × ℕ) : Prop where
  size : b.1 = ChunkAlloc.allocSize 10 ulElemSize 1
  fresh : b.2 ∉ memory.allocator.held.map Prod.snd
  held : memory'.allocator.held = b :: memory.allocator.held

lemma Good.allocate (h : memory.Good ulExpiredTime ulMaxCache)
    (hs : memory.allocate n o = some (memory', b)) :
    memory'.Good ulExpiredTime ulMaxCache ∧ Allocated memory memory' n b := by
  obtain ⟨looked, hlooked, hs⟩ := Option.bind_eq_some_iff.mp hs
  have hgood := h.act (by simp) hlooked
  obtain ⟨t, ht, rfl⟩ := Option.map_eq_some_iff.mp hlooked
  split at hs
  · next p hp =>
    -- a block from the cache
    obtain ⟨rfl, rfl⟩ := Prod.mk.inj (Option.some.inj hs)
    refine ⟨hgood, rfl, (ChunkAlloc.returned_fresh 10 h.steps.nodup ht hp).1, ?_⟩
    obtain ⟨⟨q, a⟩, hrow, hq⟩ := Option.bind_eq_some_iff.mp hp
    obtain rfl : q = some p := hq
    simp only [ChunkAlloc.step, hrow] at ht
    rw [← Option.some.inj ht]
  · next hp =>
    obtain ⟨taken, htaken, heq⟩ := Option.map_eq_some_iff.mp hs
    obtain ⟨rfl, rfl⟩ := Prod.mk.inj heq
    obtain ⟨w, hw, rfl⟩ := Option.map_eq_some_iff.mp htaken
    have hheld : t.held = memory.allocator.held := by
      cases ChunkAlloc.step_cases 10 ht with
      | miss => rfl
      | hit hrow => simp [ChunkAlloc.returned, hrow] at hp
    have hout : o.p ∉ ChunkAlloc.owned t := by
      cases ChunkAlloc.step_cases 10 hw with
      | newBlock _ hout => exact hout
    refine ⟨⟨ChunkAlloc.inv_step 10 hgood.steps hw, fun k r hr => ?_⟩, rfl, ?_, ?_⟩
    · rcases hr.of_step hw with hold | hnew
      · have hne : r ≠ o.p := fun heq => hout (heq ▸ hold.owned)
        rw [bytes_set_of_ne hne]
        exact hgood.sized k r hold
      · obtain ⟨rfl, rfl⟩ := ChunkAlloc.Action.newBlock.inj hnew
        rw [bytes_set_self, Option.map_some, List.length_map, List.length_range]
    · rw [← hheld]
      exact (ChunkAlloc.returned_fresh 10 hgood.steps.nodup hw rfl).1
    · rw [← hheld]
      cases ChunkAlloc.step_cases 10 hw with
      | newBlock => rfl

lemma Good.not_drained (h : memory.Good ulExpiredTime ulMaxCache)
    (hs : (memory.allocate n o).isSome) : ¬ memory.Drained ulExpiredTime ulMaxCache n := by
  rw [Drained, ← h.steps.drained, ← ChunkAlloc.alloRowMemory_eq_none]
  intro hrow
  simp [Memory.allocate, Memory.act, ChunkAlloc.step, hrow] at hs

/-- **`allocate` is defined** for a size that is not drained. -/
lemma Good.allocate_isSome (h : memory.Good ulExpiredTime ulMaxCache)
    (hp : o.p ∉ ChunkAlloc.owned memory.allocator)
    (hd : ¬ memory.Drained ulExpiredTime ulMaxCache n) : (memory.allocate n o).isSome := by
  rw [Drained, ← h.steps.drained, ← ChunkAlloc.alloRowMemory_eq_none] at hd
  rcases hrow : ChunkAlloc.alloRowMemory memory.allocator.alloc
    (ChunkAlloc.allocSize 10 n 1) with _ | ⟨_ | p, a⟩
  · exact absurd hrow hd
  · -- the new block is at an address nobody has
    obtain ⟨rfl, -⟩ := ChunkAlloc.alloRowMemory_miss hrow
    have hout : o.p ∉ ChunkAlloc.owned { memory.allocator with
      pendingNew := ChunkAlloc.allocSize 10 n 1 :: memory.allocator.pendingNew } := hp
    simp [Memory.allocate, Memory.act, ChunkAlloc.step, ChunkAlloc.returned, hrow, hout]
  · simp [Memory.allocate, Memory.act, ChunkAlloc.step, ChunkAlloc.returned, hrow]

/-- The block of a `shared_ptr` goes back, and the others stay in use. -/
lemma Good.release (h : memory.Good ulExpiredTime ulMaxCache) {data : Option (ℕ × ℕ)}
    (hdata : ∀ b, data = some b → b ∈ memory.allocator.held) (o : Outside) :
    ∃ memory', memory.release data o = some memory' ∧ memory'.Good ulExpiredTime ulMaxCache ∧
      ∀ b ∈ memory.allocator.held, data ≠ some b → b ∈ memory'.allocator.held := by
  cases data with
  | none => exact ⟨memory, rfl, h, fun _ hb _ => hb⟩
  | some b =>
    have hb := hdata b rfl
    obtain ⟨back, hback⟩ : ∃ t, ChunkAlloc.step 10 memory.allocator (.release b.1 b.2) = some t :=
      ⟨_, if_pos hb⟩
    have hheld : back.held = memory.allocator.held.erase b ∧ b ∈ back.releasing := by
      cases ChunkAlloc.step_cases 10 hback with
      | release => exact ⟨rfl, List.mem_cons_self⟩
    obtain ⟨last, hlast⟩ : ∃ t,
        ChunkAlloc.step 10 back (.deallocate b.1 b.2 o.now o.timeNow) = some t :=
      ⟨_, if_pos hheld.2⟩
    have hsame : last.held = back.held := by
      cases ChunkAlloc.step_cases 10 hlast with
      | deallocate => rfl
    have hfirst := memory.act_of_step hback
    have hsecond := act_of_step { memory with
      allocator := back
      calls := memory.calls ++ [.release b.1 b.2] } hlast
    refine ⟨_, ?_, (h.act (by simp) hfirst).act (by simp) hsecond, fun c hc hne => ?_⟩
    · simp only [Memory.release, hfirst, Option.bind_some]
      exact hsecond
    · change c ∈ last.held
      rw [hsame, hheld.1]
      exact (List.mem_erase_of_ne fun heq => hne (congrArg some heq.symm)).mpr hc

end Memory

/-! ### Stores -/

lemma sameSizes_set {bs block : List UInt8} (hblock : memory.bytes p = some block)
    (hlen : bs.length = block.length) : memory.SameSizes (memory.set p bs) := by
  refine ⟨rfl, rfl, fun q => ?_⟩
  by_cases hq : q = p
  · rw [hq, Memory.bytes_set_self, hblock, Option.map_some, Option.map_some, hlen]
  · rw [Memory.bytes_set_of_ne hq]

/-- Bytes stored in a block leave every block its size. -/
lemma overwrite_sameSizes {dst : Option ℕ} {bs : List UInt8}
    (h : overwrite memory dst bs = some memory') : memory.SameSizes memory' := by
  unfold overwrite at h
  split_ifs at h with hnil
  · obtain rfl := Option.some.inj h
    exact ⟨rfl, rfl, fun _ => rfl⟩
  · simp only [Option.bind_eq_bind, Option.bind_eq_some_iff] at h
    obtain ⟨q, -, block, hblock, h⟩ := h
    split_ifs at h with hle
    obtain rfl := Option.some.inj h
    exact sameSizes_set hblock (Bytes.length_patch (by omega))

lemma memcpy_sameSizes {dst src : Option ℕ} (h : memcpy memory dst src n = some memory') :
    memory.SameSizes memory' := by
  unfold memcpy at h
  split_ifs at h with hn
  · obtain rfl := Option.some.inj h
    exact ⟨rfl, rfl, fun _ => rfl⟩
  · simp only [Option.bind_eq_bind, Option.bind_eq_some_iff] at h
    obtain ⟨q, -, block, -, h⟩ := h
    split_ifs at h with hle
    exact overwrite_sameSizes h

lemma store_sameSizes {r c : UInt32} {value : List UInt8} (hv : value.length = sizeofTy)
    (h : m.store sizeofTy memory r c value = some memory') : memory.SameSizes memory' := by
  unfold Matrix.store at h
  simp only [Option.bind_eq_bind, Option.bind_eq_some_iff] at h
  obtain ⟨q, -, block, hblock, h⟩ := h
  split_ifs at h with hle
  obtain rfl := Option.some.inj h
  rw [Nat.add_mul, Nat.one_mul] at hle
  exact sameSizes_set hblock (Bytes.length_patch (by omega))

/-- The block behind a storage that is not empty. -/
lemma exists_block {k : ℕ} (hpos : 0 < k) (h : k ≤ m.storage memory) :
    ∃ p block, m.m_ptrBegin = some p ∧ memory.bytes p = some block ∧ k ≤ block.length := by
  rw [Matrix.storage] at h
  cases hblock : m.m_ptrBegin.bind memory.bytes with
  | none =>
    rw [hblock, Option.getD_none, List.length_nil] at h
    omega
  | some block =>
    rw [hblock] at h
    obtain ⟨p, hp, hmem⟩ := Option.bind_eq_some_iff.mp hblock
    exact ⟨p, block, hp, hmem, h⟩

/-- What is in the storage of one matrix fits into that of another. -/
lemma memcpy_isSome {rhs : Matrix} (hdst : n ≤ m.storage memory) (hsrc : n ≤ rhs.storage memory) :
    (memcpy memory m.m_ptrBegin rhs.m_ptrBegin n).isSome := by
  unfold memcpy
  split_ifs with hn
  · rfl
  · obtain ⟨p, block, hp, hblock, hle⟩ := exists_block (Nat.pos_of_ne_zero hn) hdst
    obtain ⟨q, src, hq, hsrc, hle'⟩ := exists_block (Nat.pos_of_ne_zero hn) hsrc
    have hlen : (src.take n).length = n := by rw [List.length_take, Nat.min_eq_left hle']
    have hne : src.take n ≠ [] := fun hnil => hn (by rw [← hlen, hnil, List.length_nil])
    simp only [hq, hsrc, Option.bind_eq_bind, Option.bind_some, if_pos hle', overwrite, if_neg hne,
      hp, hblock, hlen, if_pos hle, Option.isSome_some]

/-! ### A matrix and its block -/

/-- The capacity is the size of the block, which is in use. -/
structure Backed (memory : Memory) (m : Matrix) : Prop where
  same : m.m_ptrBegin = m.m_ptrData.map Prod.snd
  held : ∀ b, m.m_ptrData = some b → b ∈ memory.allocator.held ∧ b.1 = m.m_ulCapacity.toNat
  none : m.m_ptrData = none → m.m_ulCapacity = 0
  rounded : 1024 ∣ m.m_ulCapacity.toNat

variable (sizeofTy) in
/-- The capacity is at least what was asked for, unless the rounding has cut it. -/
def Asked (m : Matrix) : Prop :=
  m.byteSize sizeofTy ≤ m.m_ulCapacity ∨ 2 ^ 32 ≤ (m.byteSize sizeofTy).toNat + 1023

lemma Backed.empty (memory : Memory) : Backed memory .empty :=
  ⟨rfl, by simp [Matrix.empty], fun _ => rfl, ⟨0, rfl⟩⟩

lemma Asked.empty : Asked sizeofTy .empty := .inl (by simp [Matrix.byteSize, Matrix.empty])

/-- A matrix stays backed while its block is in use. -/
lemma Backed.congr (h : Backed memory m)
    (hheld : ∀ b, m.m_ptrData = some b → b ∈ memory'.allocator.held) : Backed memory' m :=
  ⟨h.same, fun b hb => ⟨hheld b hb, (h.held b hb).2⟩, h.none, h.rounded⟩

lemma Backed.reshaped (h : Backed memory m) (nRow nCol : UInt32) :
    Backed memory (m.reshaped nRow nCol) :=
  ⟨h.same, h.held, h.none, h.rounded⟩

/-- The storage is the block. -/
lemma Backed.storage (h : Backed memory m) (hg : memory.Good ulExpiredTime ulMaxCache) :
    m.storage memory = m.m_ulCapacity.toNat := by
  rw [Matrix.storage, h.same]
  cases hdata : m.m_ptrData with
  | none =>
    rw [h.none hdata]
    rfl
  | some b =>
    obtain ⟨hheld, hsize⟩ := h.held b hdata
    obtain ⟨block, hblock, hlen⟩ := Option.map_eq_some_iff.mp
      (hg.sized b.1 b.2 (.inr (.inl hheld)))
    rw [Option.map_some, Option.bind_some, hblock, Option.getD_some, hlen, hsize]

/-- The rounded size is enough, unless the rounding has cut it. -/
lemma asked_allocSize (ulSize : ℕ) :
    ulSize ≤ ChunkAlloc.allocSize 10 ulSize 1 ∨ 2 ^ 32 ≤ ulSize + 1023 := by
  have hle : ulSize * 1 ≤ ChunkAlloc.allocSize 10 ulSize 1 ↔
      ulSize * 1 + ChunkAlloc.minBlockSize 10 < 2 ^ 32 :=
    ChunkAlloc.le_allocSize_iff (by decide) ulSize 1
  rw [Nat.mul_one] at hle
  rcases Nat.lt_or_ge (ulSize + ChunkAlloc.minBlockSize 10) (2 ^ 32) with hlt | hge
  · exact .inl (hle.mpr hlt)
  · exact .inr hge

/-- What `allocateMemory` leaves: a matrix with a block for its shape, and the blocks of others
in use. -/
structure Given (sizeofTy ulExpiredTime ulMaxCache : ℕ) (memory memory' : Memory)
    (m m' : Matrix) : Prop where
  good : memory'.Good ulExpiredTime ulMaxCache
  backed : Backed memory' m'
  asked : Asked sizeofTy m'
  rows : m'.m_ulRowCount = m.m_ulRowCount
  cols : m'.m_ulColCount = m.m_ulColCount
  others : ∀ b ∈ memory.allocator.held, m.m_ptrBegin ≠ some b.2 →
    m'.m_ptrBegin ≠ some b.2 ∧ b ∈ memory'.allocator.held

lemma allocateMemory_given (hg : memory.Good ulExpiredTime ulMaxCache) (hb : Backed memory m)
    (h : allocateMemory sizeofTy memory m o = some (memory', m')) :
    Given sizeofTy ulExpiredTime ulMaxCache memory memory' m m' := by
  unfold allocateMemory at h
  simp only at h
  split_ifs at h with hlt
  · obtain ⟨r, hr, h⟩ := Option.bind_eq_some_iff.mp h
    obtain ⟨back, hback, h⟩ := Option.map_eq_some_iff.mp h
    obtain ⟨taken, b⟩ := r
    obtain ⟨rfl, rfl⟩ := Prod.mk.inj h
    obtain ⟨hgood, halloc⟩ := hg.allocate hr
    have hdata : ∀ c, m.m_ptrData = some c → c ∈ taken.allocator.held := fun c hc => by
      rw [halloc.held]
      exact List.mem_cons_of_mem _ (hb.held c hc).1
    obtain ⟨last, hlast, hgood', hkept⟩ := hgood.release hdata o
    obtain rfl := Option.some.inj (hback.symm.trans hlast)
    have hcap : (UInt32.ofNat b.1).toNat = b.1 := by
      rw [UInt32.toNat_ofNat', halloc.size, Nat.mod_eq_of_lt (ChunkAlloc.allocSize_lt ..)]
    have hnew : m.m_ptrData ≠ some b := fun heq =>
      halloc.fresh (List.mem_map_of_mem (hb.held b heq).1)
    refine ⟨hgood', ⟨rfl, ?_, by simp, ?_⟩, ?_, rfl, rfl, fun c hc hne => ⟨?_, ?_⟩⟩
    · rintro c hc
      obtain rfl := Option.some.inj hc
      exact ⟨hkept b (by rw [halloc.held]; exact List.mem_cons_self) hnew, hcap.symm⟩
    · have hdvd : 2 ^ 10 ∣ ChunkAlloc.allocSize 10 (m.byteSize sizeofTy).toNat 1 :=
        ChunkAlloc.dvd_allocSize (by decide) _ _
      rw [hcap, halloc.size]
      exact hdvd
    · refine (asked_allocSize (m.byteSize sizeofTy).toNat).imp (fun hle => ?_) id
      rw [UInt32.le_iff_toNat_le, hcap, halloc.size]
      exact hle
    · intro heq
      exact halloc.fresh (Option.some.inj heq ▸ List.mem_map_of_mem hc)
    · refine hkept c (by rw [halloc.held]; exact List.mem_cons_of_mem _ hc) fun heq => hne ?_
      rw [hb.same, heq]
      rfl
  · obtain ⟨rfl, rfl⟩ := Prod.mk.inj (Option.some.inj h)
    exact ⟨hg, hb, .inl (UInt32.not_lt.mp hlt), rfl, rfl, fun c hc hne => ⟨hne, hc⟩⟩

variable (sizeofTy ulExpiredTime ulMaxCache) in
/-- The block a matrix needs for its shape, if it needs one, is not of a drained size. -/
def Undrained (memory : Memory) (m : Matrix) : Prop :=
  m.m_ulCapacity < m.byteSize sizeofTy →
    ¬ memory.Drained ulExpiredTime ulMaxCache (m.byteSize sizeofTy).toNat

lemma undrained_of_allocateMemory (hg : memory.Good ulExpiredTime ulMaxCache)
    (h : (allocateMemory sizeofTy memory m o).isSome) :
    Undrained sizeofTy ulExpiredTime ulMaxCache memory m := by
  intro hlt
  refine hg.not_drained (o := o) ?_
  unfold allocateMemory at h
  rw [if_pos hlt] at h
  exact Option.isSome_of_isSome_bind h

/-- **`allocateMemory` is defined** unless it asks for a drained size. -/
lemma allocateMemory_isSome (hg : memory.Good ulExpiredTime ulMaxCache) (hb : Backed memory m)
    (hp : o.p ∉ ChunkAlloc.owned memory.allocator)
    (hd : Undrained sizeofTy ulExpiredTime ulMaxCache memory m) :
    (allocateMemory sizeofTy memory m o).isSome := by
  unfold allocateMemory
  simp only
  split_ifs with hlt
  · obtain ⟨⟨taken, b⟩, hr⟩ := Option.isSome_iff_exists.mp (hg.allocate_isSome hp (hd hlt))
    obtain ⟨hgood, halloc⟩ := hg.allocate hr
    have hdata : ∀ c, m.m_ptrData = some c → c ∈ taken.allocator.held := fun c hc => by
      rw [halloc.held]
      exact List.mem_cons_of_mem _ (hb.held c hc).1
    obtain ⟨last, hlast, -⟩ := hgood.release hdata o
    simp only [hr, Option.bind_some, hlast, Option.map_some, Option.isSome_some]
  · rfl

end MmrService.Matrices
