import MmrService.ChunkOwnership

/-!
Whole calls on a `ChunkLockFree`, with no other thread in between.

`allocate` and `deallocate` are functions of the chunk then; they are what the atomic steps of
one thread come to. The blocks of the chunk are those on the free list and those that are out,
and the counter counts the former.
-/

namespace MmrService.LockFree

open Transition Chain

/-- `allocate`: the head is taken off the free list, unless it is the end mark. -/
def ChunkLockFree.allocate (c : ChunkLockFree) : Option ℕ × ChunkLockFree :=
  if c.m_availaBlockCurr = c.m_blockNum then (none, c)
  else
    (some (blockPtr c c.m_availaBlockCurr),
      { c with
        m_availaBlockCurr := link c c.m_availaBlockCurr
        m_availaBlockNum := c.m_availaBlockNum - 1 })

/-- `deallocate`: the block is linked to the head and becomes the head. -/
def ChunkLockFree.deallocate (c : ChunkLockFree) (ptr : ℕ) : ChunkLockFree :=
  { poke c ptr c.m_availaBlockCurr with
    m_availaBlockCurr := blockIndex c ptr
    m_availaBlockNum := c.m_availaBlockNum + 1 }

section Runs

variable {τ : Type} [DecidableEq τ] {s : State τ} {t : τ}

/-- The steps of one thread in a chunk with no block left. -/
theorem allocate_run_none (hc : s.pc t = .idle)
    (he : s.chunk.m_availaBlockCurr = s.chunk.m_blockNum) :
    exec step s [.allocLoad t, .allocRead t] = some s := by
  have hback : Function.update s.pc t .idle = s.pc := by rw [← hc, Function.update_eq_self]
  simp [exec_cons, step, hc, State.goto, State.head, he, hback]

/-- The steps of one thread that gets a block, with an exchange that succeeds. -/
theorem allocate_run_some (hc : s.pc t = .idle) {ptr : ℕ} {c : ChunkLockFree}
    (he : s.chunk.allocate = (some ptr, c)) :
    exec step s [.allocLoad t, .allocRead t, .allocCas t false, .allocReturn t] =
      some { s with chunk := c, held := (t, ptr) :: s.held } := by
  have hback : Function.update s.pc t .idle = s.pc := by rw [← hc, Function.update_eq_self]
  unfold ChunkLockFree.allocate at he
  split_ifs at he with hend
  · cases he
  · obtain ⟨hptr, rfl⟩ := Prod.mk.inj he
    obtain rfl := Option.some.inj hptr
    simp [exec_cons, step, hc, State.goto, State.head, State.setHead, hend, hback]

/-- The steps of one thread that returns a block. -/
theorem deallocate_run (hc : s.pc t = .idle) {ptr : ℕ} (hm : (t, ptr) ∈ s.held) :
    exec step s [.freeLoad t ptr, .freeStore t, .freeCas t false, .freeReturn t] =
      some { s with chunk := s.chunk.deallocate ptr, held := s.held.erase (t, ptr) } := by
  have hback : Function.update s.pc t .idle = s.pc := by rw [← hc, Function.update_eq_self]
  simp [exec_cons, step, hc, State.goto, State.head, State.setHead, hm, poke, hback,
    ChunkLockFree.deallocate, blockIndex]

end Runs

variable {bs : ℕ} {bn : UInt8} {c : ChunkLockFree} {free out : List UInt8} {i : UInt8}

/-- The free list is `free`, and the blocks of `out` have been handed out. -/
structure Whole (bs : ℕ) (bn : UInt8) (c : ChunkLockFree) (free out : List UInt8) : Prop where
  size : c.m_blockSize = bs
  num : c.m_blockNum = bn
  linked : Linked (link c) bn c.m_availaBlockCurr free
  nodup : (free ++ out).Nodup
  range : ∀ i ∈ free ++ out, i < bn
  total : free.length + out.length = bn.toNat
  avail : c.m_availaBlockNum.toNat = free.length

lemma whole_init (hbs : 0 < bs) (bn : UInt8) (m : ℕ → UInt8) :
    ∃ free, Whole bs bn (init m bs bn) free [] := by
  obtain ⟨l, hl, hnd, hlen, hr⟩ := linked_init hbs bn m
  exact ⟨l, rfl, rfl, hl, by simpa using hnd, fun i hi => (hr i (by simpa using hi)).2,
    by simpa using hlen, hlen.symm⟩

/-- No block is available exactly when the head is the end mark. -/
lemma Whole.allocate_none (h : Whole bs bn c [] out) : c.allocate = (none, c) := by
  have hend : c.m_availaBlockCurr = c.m_blockNum := h.linked.trans h.num.symm
  rw [ChunkLockFree.allocate, if_pos hend]

lemma Whole.allocate_some {r : List UInt8} (h : Whole bs bn c (i :: r) out) :
    ∃ c', c.allocate = (some (i.toNat * bs), c') ∧ Whole bs bn c' r (i :: out) := by
  obtain ⟨hi, hne, hr⟩ := h.linked
  have hhead : ¬ c.m_availaBlockCurr = c.m_blockNum := by
    rw [hi, h.num]
    exact hne
  have hptr : blockPtr c c.m_availaBlockCurr = i.toNat * bs := by rw [blockPtr, hi, h.size]
  refine ⟨_, by rw [ChunkLockFree.allocate, if_neg hhead, hptr], ?_⟩
  have hperm : (r ++ i :: out).Perm (i :: r ++ out) := List.perm_middle
  have havail := h.avail
  have htotal := h.total
  rw [List.length_cons] at havail htotal
  refine ⟨h.size, h.num, ?_, hperm.nodup_iff.mpr h.nodup,
    fun k hk => h.range k (hperm.mem_iff.mp hk), ?_, ?_⟩
  · change Linked (link c) bn (link c c.m_availaBlockCurr) r
    rw [hi]
    exact hr
  · rw [List.length_cons]
    omega
  · change (c.m_availaBlockNum - 1).toNat = _
    have hone : (1 : UInt8) ≤ c.m_availaBlockNum := by
      rw [UInt8.le_iff_toNat_le, UInt8.toNat_one]
      omega
    rw [UInt8.toNat_sub_of_le _ _ hone, UInt8.toNat_one, havail]
    rfl

/-- The owner of a block writes into it. -/
lemma Whole.poke (h : Whole bs bn c free out) (hi : i ∈ out) {j : ℕ} (hj : j < bs) (b : UInt8) :
    Whole bs bn (poke c (i.toNat * bs + j) b) free out := by
  have hptr : i.toNat * bs = blockPtr c i := by rw [blockPtr, h.size]
  have hnot : i ∉ free := fun hf => List.disjoint_of_nodup_append h.nodup hf hi
  refine ⟨h.size, h.num, ?_, h.nodup, h.range, h.total, h.avail⟩
  rw [hptr]
  refine h.linked.congr fun k hk => link_poke (by rw [h.size]; exact hj) ?_ b
  rintro rfl
  exact hnot hk

/-- A block comes back. -/
lemma Whole.deallocate (hbs : 0 < bs) (h : Whole bs bn c free out) (hi : i ∈ out) :
    Whole bs bn (c.deallocate (i.toNat * bs)) (i :: free) (out.erase i) := by
  have hptr : i.toNat * bs = blockPtr c i := by rw [blockPtr, h.size]
  have hlt : i < bn := h.range i (List.mem_append_right _ hi)
  have hpoke := h.poke hi hbs c.m_availaBlockCurr
  rw [Nat.add_zero] at hpoke
  have hcbs : 0 < c.m_blockSize := by rw [h.size]; exact hbs
  have hindex : blockIndex c (i.toNat * bs) = i := by rw [hptr, blockIndex_blockPtr hcbs]
  have hperm : (i :: free ++ out.erase i).Perm (free ++ out) :=
    List.perm_middle.symm.trans ((List.perm_cons_erase hi).symm.append_left free)
  have hlen := List.length_erase_of_mem hi
  have hpos := List.length_pos_of_mem hi
  have havail := h.avail
  have htotal := h.total
  have hbn := bn.toNat_lt
  refine ⟨h.size, h.num, ?_, hperm.nodup_iff.mpr h.nodup,
    fun k hk => h.range k (hperm.mem_iff.mp hk), ?_, ?_⟩
  · change Linked (link (LockFree.poke c (i.toNat * bs) c.m_availaBlockCurr)) bn
      (blockIndex c (i.toNat * bs)) (i :: free)
    rw [hindex]
    refine hpoke.linked.push ?_ (UInt8.ne_of_lt hlt)
    rw [hptr]
    exact Function.update_self ..
  · rw [List.length_cons]
    omega
  · change (c.m_availaBlockNum + 1).toNat = _
    rw [UInt8.toNat_add, UInt8.toNat_one, List.length_cons]
    omega

end MmrService.LockFree
