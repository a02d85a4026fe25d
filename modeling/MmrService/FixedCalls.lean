import Mathlib.Tactic.Ring
import MmrService.ChunkCalls
import MmrService.FixedAllocator

/-!
Whole calls of a `FixedAllocator`, one after the other.

The chunks of the list hold the blocks that are live and the free ones, and nothing else: what a
call of `allocate` returns is a free block of a chunk of the list, and what
`getAvailableMemorySize` adds up are the free blocks.
-/

namespace MmrService.FixedAllocator

open Transition LockFree Chain

/-- The members between two calls. Chunks are told by the number of chunks made before them. -/
structure Store where
  m_listChunks : List ℕ
  m_ptrAllocChunk : Option ℕ
  chunks : ℕ → ChunkLockFree
  made : ℕ

/-- The allocator, and the blocks that have been handed out and not returned. -/
structure Calls where
  store : Store
  live : List (ℕ × ℕ)

inductive Call
  /-- `allocate`, watched for a number of rounds of its loop. -/
  | allocate (rounds : ℕ)
  /-- A live block comes back. -/
  | deallocate (c ptr : ℕ)
  /-- The owner of a block writes its byte number `j`. -/
  | write (c ptr j : ℕ) (b : UInt8)
  | releaseFreeMemory
  | getAvailableMemorySize

namespace Store

def availadeBlockNum (s : Store) (c : ℕ) : UInt8 := (s.chunks c).m_availaBlockNum

def setChunk (s : Store) (c : ℕ) (k : ChunkLockFree) : Store :=
  { s with chunks := Function.update s.chunks c k }

/-- `m_ptrAllocChunk` is not left on a chunk that has been erased. -/
def valid (s : Store) : Bool := s.m_ptrAllocChunk.all (· ∈ s.m_listChunks)

-- `memory` is what each chunk finds in its memory
variable (memory : ℕ → ℕ → UInt8) (blockSize : ℕ)

/-- A new chunk at the end of the list. -/
def addChunk (s : Store) : Store :=
  { s.setChunk s.made (LockFree.init (memory s.made) blockSize (numBlocks blockSize)) with
    m_listChunks := s.m_listChunks ++ [s.made]
    m_ptrAllocChunk := some s.made
    made := s.made + 1 }

/-- The search through the list, from an iterator on. -/
def search (s : Store) : List ℕ → Store
  | [] => s.addChunk memory blockSize
  | c :: cs =>
    if 0 < s.availadeBlockNum c then { s with m_ptrAllocChunk := some c } else s.search cs

/-- The test of `m_ptrAllocChunk`, and what is done under the lock. -/
def select (s : Store) : Store :=
  match s.m_ptrAllocChunk with
  | none => s.search memory blockSize s.m_listChunks
  | some c => if s.availadeBlockNum c = 0 then s.search memory blockSize s.m_listChunks else s

/-- `allocate`, in at most `n` rounds. A pointer to an erased chunk must not be followed. -/
def allocate (s : Store) : ℕ → Option ((ℕ × ℕ) × Store)
  | 0 => none
  | n + 1 =>
    if s.valid then
      let t := s.select memory blockSize
      match t.m_ptrAllocChunk with
      | none => none
      | some c =>
        match (t.chunks c).allocate with
        | (some ptr, k) => some ((c, ptr), t.setChunk c k)
        | (none, k) => (t.setChunk c k).allocate n
    else none

/-- `deallocate` of a chunk, which must be there. -/
def deallocate (s : Store) (c ptr : ℕ) : Option Store :=
  if c ∈ s.m_listChunks then some (s.setChunk c ((s.chunks c).deallocate ptr)) else none

/-- The loop of `releaseFreeMemory`: what it leaves of the list. -/
def sweep (s : Store) : List ℕ → List ℕ
  | [] => []
  | c :: cs =>
    if s.availadeBlockNum c = numBlocks blockSize ∧ some c ≠ s.m_ptrAllocChunk then s.sweep cs
    else c :: s.sweep cs

def releaseFreeMemory (s : Store) : Store :=
  { s with m_listChunks := s.sweep blockSize s.m_listChunks }

/-- The sizes are of memory that exists, so that `size_t` holds them. -/
def getAvailableMemorySize (s : Store) : ℕ :=
  s.m_listChunks.foldl (fun memCount c => memCount + blockSize * (s.availadeBlockNum c).toNat) 0

def getTotleMemorySize (s : Store) : ℕ :=
  s.m_listChunks.length * blockSize * (numBlocks blockSize).toNat

end Store

namespace Calls

/-- The block has been handed out and not returned. -/
def Live (s : Calls) (c ptr : ℕ) : Prop := (c, ptr) ∈ s.live

instance (s : Calls) (c ptr : ℕ) : Decidable (s.Live c ptr) := inferInstanceAs (Decidable (_ ∈ _))

variable (memory : ℕ → ℕ → UInt8) (blockSize : ℕ)

def step (s : Calls) : Call → Option Calls
  | .allocate rounds =>
    (s.store.allocate memory blockSize rounds).map fun r => ⟨r.2, r.1 :: s.live⟩
  | .deallocate c ptr =>
    if s.Live c ptr then
      (s.store.deallocate c ptr).map fun t => ⟨t, s.live.erase (c, ptr)⟩
    else none
  | .write c ptr j b =>
    if s.Live c ptr ∧ j < blockSize ∧ c ∈ s.store.m_listChunks then
      some { s with store := s.store.setChunk c (poke (s.store.chunks c) (ptr + j) b) }
    else none
  | .releaseFreeMemory => some { s with store := s.store.releaseFreeMemory blockSize }
  | .getAvailableMemorySize => some s

def start : Calls := ⟨⟨[], none, fun k => LockFree.init (memory k) blockSize 0, 0⟩, []⟩

end Calls

/-! ### The number of blocks of a chunk -/

lemma numBlocks_pos {blockSize : ℕ} (hpos : 0 < blockSize) (hle : blockSize ≤ ALLOC_CHUNK_SIZE) :
    0 < (numBlocks blockSize).toNat := by
  have hn : 0 < ALLOC_CHUNK_SIZE / blockSize := Nat.div_pos hle hpos
  unfold numBlocks
  simp only [UInt8.toNat_ofNat']
  split_ifs <;> omega

/-! ### The invariant -/

variable {memory : ℕ → ℕ → UInt8} {bs : ℕ} {s t : Store} {live : List (ℕ × ℕ)} {c : ℕ}

/-- The live blocks of a chunk are those of `out`. -/
def LiveBlocks (bs : ℕ) (live : List (ℕ × ℕ)) (c : ℕ) (out : List UInt8) : Prop :=
  ((live.filter (·.1 = c)).map Prod.snd).Perm (out.map fun i => i.toNat * bs)

/-- The blocks of each chunk of the list are free or live, and live blocks are in such chunks. -/
structure Stored (bs : ℕ) (s : Store) (live : List (ℕ × ℕ)) : Prop where
  once : s.m_listChunks.Nodup
  below : ∀ c ∈ s.m_listChunks, c < s.made
  pointer : ∀ c, s.m_ptrAllocChunk = some c → c ∈ s.m_listChunks
  listed : ∀ p ∈ live, p.1 ∈ s.m_listChunks
  whole : ∀ c ∈ s.m_listChunks, ∃ free out,
    Whole bs (numBlocks bs) (s.chunks c) free out ∧ LiveBlocks bs live c out

lemma stored_start (memory : ℕ → ℕ → UInt8) (bs : ℕ) :
    Stored bs (Calls.start memory bs).store (Calls.start memory bs).live := by
  constructor <;> simp [Calls.start]

lemma Stored.valid (h : Stored bs s live) : s.valid = true := by
  unfold Store.valid
  cases hc : s.m_ptrAllocChunk with
  | none => rfl
  | some c => simpa using h.pointer c hc

/-- Another pointer into the list. -/
lemma Stored.point (h : Stored bs s live) (hc : c ∈ s.m_listChunks) :
    Stored bs { s with m_ptrAllocChunk := some c } live :=
  ⟨h.once, h.below, fun _ hd => Option.some.inj hd ▸ hc, h.listed, h.whole⟩

/-- A chunk of the list is another, with other blocks live. -/
lemma Stored.setChunk (h : Stored bs s live) {k : ChunkLockFree} {live' : List (ℕ × ℕ)}
    {free out : List UInt8} (hk : Whole bs (numBlocks bs) k free out)
    (hc : LiveBlocks bs live' c out)
    (hlive : ∀ p ∈ live', p.1 ∈ s.m_listChunks)
    (hother : ∀ d, d ≠ c → live'.filter (·.1 = d) = live.filter (·.1 = d)) :
    Stored bs (s.setChunk c k) live' := by
  refine ⟨h.once, h.below, h.pointer, hlive, fun d hd => ?_⟩
  simp only [Store.setChunk, Function.update_apply]
  split_ifs with hdc
  · exact ⟨free, out, hk, hdc ▸ hc⟩
  · obtain ⟨free', out', hw, ho⟩ := h.whole d hd
    refine ⟨free', out', hw, ?_⟩
    unfold LiveBlocks
    rw [hother d hdc]
    exact ho

lemma Stored.addChunk (hbs : 0 < bs) (h : Stored bs s live) :
    Stored bs (s.addChunk memory bs) live := by
  have hnew : s.made ∉ s.m_listChunks := fun hm => Nat.lt_irrefl _ (h.below _ hm)
  refine ⟨?_, fun c hc => ?_, fun c hc => ?_, fun p hp => ?_, fun c hc => ?_⟩
  · exact List.nodup_append.mpr ⟨h.once, List.nodup_singleton _, fun a ha b hb => by
      rw [List.mem_singleton.mp hb]
      rintro rfl
      exact hnew ha⟩
  · rcases List.mem_append.mp hc with hc | hc
    · exact Nat.lt_succ_of_lt (h.below c hc)
    · rw [List.mem_singleton.mp hc]
      exact Nat.lt_succ_self _
  · rw [← Option.some.inj hc]
    exact List.mem_append_right _ List.mem_cons_self
  · exact List.mem_append_left _ (h.listed p hp)
  · simp only [Store.addChunk, Store.setChunk, Function.update_apply]
    split_ifs with hcm
    · obtain ⟨free, hfree⟩ := whole_init hbs (numBlocks bs) (memory s.made)
      refine ⟨free, [], hfree, ?_⟩
      have hnone : live.filter (·.1 = c) = [] := by
        refine List.filter_eq_nil_iff.mpr fun p hp hpc => hnew ?_
        rw [← hcm, ← of_decide_eq_true hpc]
        exact h.listed p hp
      unfold LiveBlocks
      rw [hnone]
      exact List.Perm.refl _
    · rcases List.mem_append.mp hc with hc | hc
      · exact h.whole c hc
      · exact absurd (List.mem_singleton.mp hc) hcm

/-- The search ends at a chunk with a free block, or behind the list, all of whose chunks have
none. -/
lemma search_cases (memory : ℕ → ℕ → UInt8) (bs : ℕ) (s : Store) (cs : List ℕ) :
    (∃ c ∈ cs, 0 < s.availadeBlockNum c ∧
      s.search memory bs cs = { s with m_ptrAllocChunk := some c }) ∨
    (∀ c ∈ cs, s.availadeBlockNum c = 0) ∧ s.search memory bs cs = s.addChunk memory bs := by
  induction cs with
  | nil => exact .inr ⟨by simp, rfl⟩
  | cons c cs ih =>
    rw [Store.search]
    split_ifs with hc
    · exact .inl ⟨c, List.mem_cons_self, hc, rfl⟩
    · have hzero : s.availadeBlockNum c = 0 := by
        rw [UInt8.lt_iff_toNat_lt, UInt8.toNat_zero] at hc
        exact UInt8.toNat_inj.mp (by rw [UInt8.toNat_zero]; omega)
      rcases ih with ⟨d, hd, hpos, he⟩ | ⟨hnone, he⟩
      · exact .inl ⟨d, List.mem_cons_of_mem _ hd, hpos, he⟩
      · refine .inr ⟨fun d hd => ?_, he⟩
        rcases List.mem_cons.mp hd with rfl | hd
        · exact hzero
        · exact hnone d hd

lemma avail_of_whole {free out : List UInt8}
    (h : Whole bs (numBlocks bs) (s.chunks c) free out) :
    (s.availadeBlockNum c).toNat = free.length := h.avail

/-- `allocate` goes to a chunk with a free block. -/
lemma Stored.select (memory : ℕ → ℕ → UInt8) (hpos : 0 < bs) (hle : bs ≤ ALLOC_CHUNK_SIZE)
    (h : Stored bs s live) :
    Stored bs (s.select memory bs) live ∧
      ∃ c, (s.select memory bs).m_ptrAllocChunk = some c ∧
        0 < ((s.select memory bs).availadeBlockNum c).toNat := by
  have hsearch : Stored bs (s.search memory bs s.m_listChunks) live ∧
      ∃ c, (s.search memory bs s.m_listChunks).m_ptrAllocChunk = some c ∧
        0 < ((s.search memory bs s.m_listChunks).availadeBlockNum c).toNat := by
    rcases search_cases memory bs s s.m_listChunks with ⟨c, hc, hfree, he⟩ | ⟨-, he⟩ <;> rw [he]
    · exact ⟨h.point hc, c, rfl, UInt8.lt_iff_toNat_lt.mp hfree⟩
    · refine ⟨h.addChunk hpos, s.made, rfl, ?_⟩
      simp only [Store.availadeBlockNum, Store.addChunk, Store.setChunk, Function.update_self]
      exact numBlocks_pos hpos hle
  unfold Store.select
  split
  · exact hsearch
  · next c hc =>
    split_ifs with hzero
    · exact hsearch
    · refine ⟨h, c, hc, Nat.pos_of_ne_zero fun h0 => hzero ?_⟩
      exact UInt8.toNat_inj.mp (by rw [h0, UInt8.toNat_zero])

/-- A live block is one of `out`. -/
lemma LiveBlocks.mem {out : List UInt8} (ho : LiveBlocks bs live c out) {ptr : ℕ}
    (hm : (c, ptr) ∈ live) : ∃ i ∈ out, ptr = i.toNat * bs := by
  have hmem : ptr ∈ (live.filter (·.1 = c)).map Prod.snd :=
    List.mem_map.mpr ⟨(c, ptr), List.mem_filter.mpr ⟨hm, by simp⟩, rfl⟩
  obtain ⟨i, hi, he⟩ := List.mem_map.mp (List.Perm.mem_iff ho |>.mp hmem)
  exact ⟨i, hi, he.symm⟩

/-- The block lies in its chunk and meets none of the live ones. -/
def Fresh (bs : ℕ) (live : List (ℕ × ℕ)) (c ptr : ℕ) : Prop :=
  ptr + bs ≤ bs * (numBlocks bs).toNat ∧
    ∀ p ∈ live, p.1 = c → p.2 + bs ≤ ptr ∨ ptr + bs ≤ p.2

/-- A block that is none of the live ones does not overlap them. -/
lemma fresh_of_not_mem {out : List UInt8} (ho : LiveBlocks bs live c out) {i : UInt8}
    (hi : i < numBlocks bs) (hnot : i ∉ out) : Fresh bs live c (i.toNat * bs) := by
  constructor
  · have hlt := UInt8.lt_iff_toNat_lt.mp hi
    rw [← Nat.succ_mul, Nat.mul_comm bs]
    exact Nat.mul_le_mul_right bs hlt
  · rintro ⟨d, ptr⟩ hp rfl
    obtain ⟨k, hk, rfl⟩ := ho.mem hp
    rcases Nat.lt_trichotomy k.toNat i.toNat with hki | hki | hki
    · left
      change k.toNat * bs + bs ≤ _
      rw [← Nat.succ_mul]
      exact Nat.mul_le_mul_right bs hki
    · exact absurd (UInt8.toNat_inj.mp hki ▸ hk) hnot
    · right
      change _ ≤ k.toNat * bs
      rw [← Nat.succ_mul]
      exact Nat.mul_le_mul_right bs hki

/-- **`allocate` returns** in its first round, with a free block of a chunk of the list. -/
lemma Stored.allocate (memory : ℕ → ℕ → UInt8) (hpos : 0 < bs) (hle : bs ≤ ALLOC_CHUNK_SIZE)
    (h : Stored bs s live) (n : ℕ) :
    ∃ c ptr t, s.allocate memory bs (n + 1) = some ((c, ptr), t) ∧
      Stored bs t ((c, ptr) :: live) ∧ c ∈ t.m_listChunks ∧ Fresh bs live c ptr ∧
      ∃ k, t = (s.select memory bs).setChunk c k := by
  obtain ⟨hsel, c, hc, hfree⟩ := h.select memory hpos hle
  have hmem := hsel.pointer c hc
  obtain ⟨free, out, hw, ho⟩ := hsel.whole c hmem
  rw [avail_of_whole hw] at hfree
  cases free with
  | nil => cases hfree
  | cons i r =>
    obtain ⟨k, hk, hw'⟩ := hw.allocate_some
    have hnot : i ∉ out := fun hi =>
      List.disjoint_of_nodup_append hw.nodup List.mem_cons_self hi
    refine ⟨c, i.toNat * bs, (s.select memory bs).setChunk c k, ?_, ?_, hmem,
      fresh_of_not_mem ho (hw.range i List.mem_cons_self) hnot, k, rfl⟩
    · simp [Store.allocate, h.valid, hc, hk]
    · refine hsel.setChunk hw' ?_ (fun p hp => ?_) fun d hd => ?_
      · unfold LiveBlocks
        rw [List.filter_cons_of_pos (by simp)]
        exact ho.cons _
      · rcases List.mem_cons.mp hp with rfl | hp
        · exact hmem
        · exact hsel.listed p hp
      · exact List.filter_cons_of_neg (by simpa using Ne.symm hd)

/-- A live block comes back. -/
lemma Stored.deallocate (hpos : 0 < bs) (h : Stored bs s live) {ptr : ℕ}
    (hm : (c, ptr) ∈ live) :
    ∃ t, s.deallocate c ptr = some t ∧ Stored bs t (live.erase (c, ptr)) := by
  have hmem : c ∈ s.m_listChunks := h.listed _ hm
  obtain ⟨free, out, hw, ho⟩ := h.whole c hmem
  obtain ⟨i, hi, rfl⟩ := ho.mem hm
  refine ⟨_, if_pos hmem, h.setChunk (hw.deallocate hpos hi) ?_ (fun p hp => ?_) fun d hd => ?_⟩
  · have hlive := ((List.perm_cons_erase hm).filter (·.1 = c)).map Prod.snd
    rw [List.filter_cons_of_pos (by simp), List.map_cons] at hlive
    have hout := (List.perm_cons_erase hi).map fun i => i.toNat * bs
    exact (hlive.symm.trans (ho.trans hout)).cons_inv
  · exact h.listed p (List.mem_of_mem_erase hp)
  · rw [← List.erase_filter]
    refine List.erase_of_not_mem fun hmem => hd ?_
    exact (of_decide_eq_true (List.mem_filter.mp hmem).2).symm

/-- The owner of a block writes into it. -/
lemma Stored.write (h : Stored bs s live) {ptr j : ℕ} (hm : (c, ptr) ∈ live) (hj : j < bs)
    (b : UInt8) : Stored bs (s.setChunk c (poke (s.chunks c) (ptr + j) b)) live := by
  obtain ⟨free, out, hw, ho⟩ := h.whole c (h.listed _ hm)
  obtain ⟨i, hi, rfl⟩ := ho.mem hm
  exact h.setChunk (hw.poke hi hj b) ho h.listed fun _ _ => rfl

/-! ### `releaseFreeMemory` -/

lemma sweep_eq_filter (bs : ℕ) (s : Store) (cs : List ℕ) : s.sweep bs cs =
    cs.filter fun c => ¬ (s.availadeBlockNum c = numBlocks bs ∧ some c ≠ s.m_ptrAllocChunk) := by
  induction cs with
  | nil => rfl
  | cons c cs ih =>
    rw [Store.sweep, ih]
    split_ifs with hc
    · rw [List.filter_cons_of_neg (by rwa [decide_eq_true_eq, not_not])]
    · rw [List.filter_cons_of_pos (by rwa [decide_eq_true_eq])]

/-- A chunk stays while it is the current one or one of its blocks is not free. -/
lemma mem_sweep {cs : List ℕ} : c ∈ s.sweep bs cs ↔
    c ∈ cs ∧ (s.availadeBlockNum c ≠ numBlocks bs ∨ s.m_ptrAllocChunk = some c) := by
  rw [sweep_eq_filter, List.mem_filter, decide_eq_true_eq, not_and_or, not_ne_iff,
    eq_comm (a := some c)]

/-- A chunk with a live block is not counted full. -/
lemma Stored.counted (h : Stored bs s live) {p : ℕ × ℕ} (hp : p ∈ live) :
    s.availadeBlockNum p.1 ≠ numBlocks bs := by
  obtain ⟨free, out, hw, ho⟩ := h.whole p.1 (h.listed p hp)
  obtain ⟨i, hi, -⟩ : ∃ i ∈ out, p.2 = i.toNat * bs := ho.mem hp
  intro hfull
  have htotal := hw.total
  have havail := avail_of_whole hw
  have hout := List.length_pos_of_mem hi
  rw [hfull] at havail
  omega

lemma Stored.releaseFreeMemory (h : Stored bs s live) :
    Stored bs (s.releaseFreeMemory bs) live := by
  have hsub : (s.sweep bs s.m_listChunks).Sublist s.m_listChunks :=
    sweep_eq_filter bs s s.m_listChunks ▸ List.filter_sublist
  refine ⟨hsub.nodup h.once, fun c hc => h.below c (hsub.subset hc), fun c hc => ?_,
    fun p hp => ?_, fun c hc => h.whole c (hsub.subset hc)⟩
  · exact mem_sweep.mpr ⟨h.pointer c hc, .inr hc⟩
  · exact mem_sweep.mpr ⟨h.listed p hp, .inl (h.counted hp)⟩

/-! ### The sizes -/

lemma foldl_add (f : ℕ → ℕ) (cs : List ℕ) (a : ℕ) :
    cs.foldl (fun memCount c => memCount + f c) a = a + (cs.map f).sum := by
  induction cs generalizing a with
  | nil => rfl
  | cons c cs ih =>
    rw [List.foldl_cons, ih, List.map_cons, List.sum_cons, Nat.add_assoc]

/-- Every live block is counted in one chunk of the list. -/
lemma sum_live {cs : List ℕ} (hcs : cs.Nodup) (hlive : ∀ p ∈ live, p.1 ∈ cs) :
    (cs.map fun c => (live.filter (·.1 = c)).length).sum = live.length := by
  induction cs generalizing live with
  | nil => simp [List.eq_nil_iff_forall_not_mem.mpr fun p hp => List.not_mem_nil (hlive p hp)]
  | cons c cs ih =>
    obtain ⟨hc, hcs⟩ := List.nodup_cons.mp hcs
    have hrest : ∀ d ∈ cs, ((live.filter fun p => !decide (p.1 = c)).filter (·.1 = d)).length =
        (live.filter (·.1 = d)).length := by
      intro d hd
      have hdc : d ≠ c := fun he => hc (he ▸ hd)
      rw [List.filter_filter]
      congr 1
      refine List.filter_congr fun p _ => ?_
      by_cases hp : p.1 = d <;> simp [hp, hdc]
    have hin : ∀ p ∈ live.filter fun p => !decide (p.1 = c), p.1 ∈ cs := by
      intro p hp
      obtain ⟨hp, hpc⟩ := List.mem_filter.mp hp
      exact (List.mem_cons.mp (hlive p hp)).resolve_left (by simpa using hpc)
    have hih := ih hcs hin
    rw [List.map_congr_left hrest] at hih
    rw [List.map_cons, List.sum_cons, hih]
    exact (List.length_eq_length_filter_add _).symm

/-- In each chunk of the list, the free blocks and the live ones are all. -/
lemma Stored.blocks (h : Stored bs s live) (hc : c ∈ s.m_listChunks) :
    (s.availadeBlockNum c).toNat + (live.filter (·.1 = c)).length = (numBlocks bs).toNat := by
  obtain ⟨free, out, hw, ho⟩ := h.whole c hc
  have hlen := List.Perm.length_eq ho
  rw [List.length_map, List.length_map] at hlen
  rw [avail_of_whole hw, hlen]
  exact hw.total

lemma sum_avail {cs : List ℕ} {n : ℕ} {f g : ℕ → ℕ} (h : ∀ c ∈ cs, f c + g c = n) :
    (cs.map fun c => bs * f c).sum + bs * (cs.map g).sum = bs * (n * cs.length) := by
  induction cs with
  | nil => rfl
  | cons c cs ih =>
    have hc := h c List.mem_cons_self
    have hi := ih fun d hd => h d (List.mem_cons_of_mem _ hd)
    simp only [List.map_cons, List.sum_cons, List.length_cons]
    rw [← hc] at hi ⊢
    calc bs * f c + (cs.map fun c => bs * f c).sum + bs * (g c + (cs.map g).sum)
        = bs * (f c + g c) + ((cs.map fun c => bs * f c).sum + bs * (cs.map g).sum) := by ring
      _ = bs * (f c + g c) + bs * ((f c + g c) * cs.length) := by rw [hi]
      _ = bs * ((f c + g c) * (cs.length + 1)) := by ring

/-- The blocks of the chunks of the list are the free ones and the live ones. -/
lemma Stored.sizes (h : Stored bs s live) :
    s.getAvailableMemorySize bs + bs * live.length =
      bs * ((numBlocks bs).toNat * s.m_listChunks.length) := by
  rw [Store.getAvailableMemorySize, foldl_add, Nat.zero_add, ← sum_live h.once h.listed]
  exact sum_avail fun c hc => h.blocks hc

/-! ### Runs -/

/-- What holds of an allocator between two calls. -/
structure Consistent (memory : ℕ → ℕ → UInt8) (bs : ℕ) (s : Calls) : Prop where
  /-- `allocate` needs one round, and returns a block inside a chunk of the list that meets no
  live one. -/
  allocate : ∀ n, ∃ c ptr t, s.store.allocate memory bs (n + 1) = some ((c, ptr), t) ∧
    c ∈ t.m_listChunks ∧ Fresh bs s.live c ptr
  listed : ∀ p ∈ s.live, p.1 ∈ s.store.m_listChunks
  pointer : ∀ c, s.store.m_ptrAllocChunk = some c → c ∈ s.store.m_listChunks
  live_le : s.live.length ≤ (numBlocks bs).toNat * s.store.m_listChunks.length
  available : s.store.getAvailableMemorySize bs =
    bs * ((numBlocks bs).toNat * s.store.m_listChunks.length - s.live.length)
  total : s.store.getTotleMemorySize bs =
    bs * (numBlocks bs).toNat * s.store.m_listChunks.length

lemma Stored.consistent {s : Calls} (hpos : 0 < bs) (hle : bs ≤ ALLOC_CHUNK_SIZE)
    (h : Stored bs s.store s.live) : Consistent memory bs s := by
  have hsizes := h.sizes
  have hlive : s.live.length ≤ (numBlocks bs).toNat * s.store.m_listChunks.length :=
    Nat.le_of_mul_le_mul_left (hsizes ▸ Nat.le_add_left _ _) hpos
  refine ⟨fun n => ?_, h.listed, h.pointer, hlive, ?_, ?_⟩
  · obtain ⟨c, ptr, t, ht, -, hc, hfresh, -⟩ := h.allocate memory hpos hle n
    exact ⟨c, ptr, t, ht, hc, hfresh⟩
  · rw [Nat.mul_sub, ← hsizes, Nat.add_sub_cancel]
  · rw [Store.getTotleMemorySize]
    ring

lemma Stored.step {s t : Calls} (hpos : 0 < bs) (hle : bs ≤ ALLOC_CHUNK_SIZE)
    (h : Stored bs s.store s.live) {a : Call} (hs : s.step memory bs a = some t) :
    Stored bs t.store t.live := by
  cases a with
  | allocate rounds =>
    cases rounds with
    | zero => cases hs
    | succ n =>
      obtain ⟨c, ptr, u, hu, hstored, -⟩ := h.allocate memory hpos hle n
      simp only [Calls.step, hu, Option.map_some, Option.some.injEq] at hs
      subst hs
      exact hstored
  | deallocate c ptr =>
    unfold Calls.step at hs
    simp only at hs
    split_ifs at hs with hm
    obtain ⟨u, hu, hstored⟩ := h.deallocate hpos hm
    simp only [hu, Option.map_some, Option.some.injEq] at hs
    subst hs
    exact hstored
  | write c ptr j b =>
    unfold Calls.step at hs
    simp only at hs
    split_ifs at hs with hm
    cases hs
    exact h.write hm.1 hm.2.1 b
  | releaseFreeMemory =>
    cases hs
    exact h.releaseFreeMemory
  | getAvailableMemorySize =>
    cases hs
    exact h

lemma stored_run (hpos : 0 < bs) (hle : bs ≤ ALLOC_CHUNK_SIZE) {as : List Call} {s t : Calls}
    (h : Stored bs s.store s.live) (ht : exec (Calls.step memory bs) s as = some t) :
    Stored bs t.store t.live :=
  inv_of_always (P := fun _ _ _ => True) (I := fun _ s => Stored bs s.store s.live) h
    (fun _ _ _ _ h _ hs => h.step hpos hle hs) (fun _ _ _ _ _ _ => trivial) ht

/-- **Every sequential run** of the calls leaves the list of chunks, the free lists inside them
and their counters consistent. -/
theorem consistent_run {memory : ℕ → ℕ → UInt8} {blockSize : ℕ} (hpos : 0 < blockSize)
    (hle : blockSize ≤ ALLOC_CHUNK_SIZE) {as : List Call} {s : Calls}
    (hs : exec (Calls.step memory blockSize) (Calls.start memory blockSize) as = some s) :
    Consistent memory blockSize s :=
  (stored_run hpos hle (stored_start memory blockSize) hs).consistent hpos hle

/-- Blocks of 4096 bytes, two in a chunk: three are taken, two come back, and the second chunk,
which is the current one, stays. -/
def threeBlocks : List Call :=
  [.allocate 1, .allocate 1, .allocate 1, .write 0 4096 5 7, .deallocate 0 0, .deallocate 1 0,
    .releaseFreeMemory]

lemma threeBlocks_ends :
    (exec (Calls.step (fun _ _ => 0) 4096) (Calls.start (fun _ _ => 0) 4096) threeBlocks).map
      (fun s => (s.store.m_listChunks, s.live)) = some ([0, 1], [(0, 4096)]) := by
  decide +kernel

theorem consistent_run_threeBlocks :
    ∃ s, exec (Calls.step (fun _ _ => 0) 4096) (Calls.start (fun _ _ => 0) 4096) threeBlocks =
      some s ∧ s.live.length = 1 ∧ s.store.getAvailableMemorySize 4096 = 4096 * 3 := by
  obtain ⟨s, hs, he⟩ := Option.map_eq_some_iff.mp threeBlocks_ends
  simp only [Prod.mk.injEq] at he
  have h := consistent_run (by decide) (by decide) hs
  refine ⟨s, hs, by rw [he.2]; rfl, ?_⟩
  rw [h.available, he.1, he.2]
  decide

end MmrService.FixedAllocator
