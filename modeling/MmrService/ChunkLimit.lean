import MmrService.ChunkBytes

/-!
The limit on what `ChunkAllocator` keeps in its cache.

A release may insert a block of any size, and then drops one block at most. That is enough: the
block it drops is of the largest size in the cache, so that it is not smaller than the block
inserted. Between two sections the cache is within the limit, also while releases are on their
way whose blocks are counted in `m_sizeFree` already.
-/

namespace MmrService.ChunkAlloc

open Transition

variable {a : ChunkAllocator} {size : ℕ}

/-! ### One release -/

lemma cachedBytes_dropLargest_le (a : ChunkAllocator) :
    cachedBytes (dropLargest a) ≤ cachedBytes a := by
  rcases hlast : a.memBuffer.last? with _ | ⟨size, _ | ⟨b, q⟩⟩
  · rw [dropLargest, hlast]
  · rw [dropLargest, hlast]
  · rw [cachedBytes_dropLargest hlast]
    exact Nat.le_add_left _ _

/-- The block that is dropped is at least as large as any that is cached. -/
lemma cachedBytes_dropLargest_find {q : List (TimeType × ℕ)}
    (hfind : a.memBuffer.find size = some q) (hne : ∀ k, a.memBuffer.find k ≠ some []) :
    size + cachedBytes (dropLargest a) ≤ cachedBytes a := by
  obtain ⟨⟨k, _ | ⟨b, r⟩⟩, hlast, hle⟩ := SortedMap.le_last hfind
  · exact absurd (SortedMap.find_last hlast) (hne k)
  · rw [cachedBytes_dropLargest hlast]
    exact Nat.add_le_add_right hle _

/-- A sweep after which no block of a size is left has taken all of them. -/
lemma cachedBytes_sweep_none {q : List (TimeType × ℕ)} {timeNow : TimeType}
    (hfind : a.memBuffer.find size = some q)
    (hnone : (sweep a timeNow).memBuffer.find size = none) :
    cachedBytes (sweep a timeNow) + size * q.length ≤ cachedBytes a := by
  have hkept : keptLength a timeNow q = 0 := by
    simp only [sweep, SortedMap.find_filterMap, hfind, Option.bind_some, sweepQueue] at hnone
    split_ifs at hnone with hq
    rw [keptLength, hq, List.length_nil]
  have hrest : ((a.memBuffer.erase size).entries.map
      fun e => e.1 * keptLength a timeNow e.2).sum ≤ queuedBytes (a.memBuffer.erase size) :=
    List.sum_le_sum fun e _ => Nat.mul_le_mul_left _ (keptLength_le a timeNow e.2)
  have hsum := sum_find hfind fun e => e.1 * keptLength a timeNow e.2
  simp only [hkept, Nat.mul_zero, Nat.zero_add] at hsum
  rw [cachedBytes_sweep, hsum, cachedBytes, queuedBytes_find hfind]
  omega

/-- After its sweep, a release is one dropped block away from what the cache was before. -/
lemma cachedBytes_startRelease (a : ChunkAllocator) (size p : ℕ) (now timeNow : TimeType) :
    cachedBytes (dropLargest (sweep (pushBack a size p now) timeNow)) ≤ cachedBytes a := by
  have hpush := cachedBytes_pushBack a size p now
  have hfind : (pushBack a size p now).memBuffer.find size =
      some ((a.memBuffer.find size).getD [] ++ [(now, p)]) := by
    rw [find_pushBack, if_pos rfl]
  cases hq : (sweep (pushBack a size p now) timeNow).memBuffer.find size with
  | none =>
    -- the block was dropped by the sweep
    have hsweep := cachedBytes_sweep_none hfind hq
    have hdrop := cachedBytes_dropLargest_le (sweep (pushBack a size p now) timeNow)
    rw [List.length_append, List.length_singleton, Nat.mul_succ] at hsweep
    omega
  | some q =>
    have hdrop := cachedBytes_dropLargest_find hq fun k => find_sweep_ne _ timeNow k
    have hsweep := cachedBytes_sweep_le (pushBack a size p now) timeNow
    omega

lemma cachedBytes_dropLargest_congr {a b : ChunkAllocator} (h : a.memBuffer = b.memBuffer) :
    cachedBytes (dropLargest a) = cachedBytes (dropLargest b) := by
  unfold dropLargest
  rw [h]
  split
  · simp only [cachedBytes]
  · rw [cachedBytes, h, cachedBytes]

/-! ### The other steps -/

lemma limit_dropLargest (a : ChunkAllocator) :
    (dropLargest a).m_usMaxFreeCacheSize = a.m_usMaxFreeCacheSize := by
  unfold dropLargest
  split <;> rfl

variable {align : ℕ} {s t : State}

/-- A step that is no release leaves at most as much in the cache. -/
lemma cachedBytes_step {b : Action}
    (hb : ∀ size p now timeNow, b ≠ .deallocate size p now timeNow)
    (hs : step align s b = some t) :
    cachedBytes t.alloc ≤ cachedBytes s.alloc ∧
      t.alloc.m_usMaxFreeCacheSize = s.alloc.m_usMaxFreeCacheSize := by
  cases step_cases align hs with
  | miss | newBlock | release | early => exact ⟨le_rfl, rfl⟩
  | hit hrow =>
    have hbytes := cachedBytes_alloRowMemory hrow
    obtain ⟨q, now, -, rfl⟩ := alloRowMemory_hit hrow
    refine ⟨?_, rfl⟩
    rw [hbytes]
    exact Nat.le_add_left _ _
  | deallocate => exact absurd rfl (hb _ _ _ _)
  | sweep timeNow => exact ⟨cachedBytes_sweep_le _ timeNow, rfl⟩
  | fires timeNow => exact ⟨cachedBytes_sweep_le _ timeNow, rfl⟩

/-- What does not take the mutex leaves the cache alone. -/
lemma memBuffer_step {b : Action} (hlocks : Callers.locks s b = false)
    (hs : step align s b = some t) : t.alloc.memBuffer = s.alloc.memBuffer := by
  cases step_cases align hs with
  | miss | hit | deallocate | sweep => simp [Callers.locks] at hlocks
  | newBlock | release | early => rfl
  | fires _ hfires => exact absurd hfires (by simpa [Callers.locks] using hlocks)

/-! ### Runs -/

/-- The cache is within the limit, or will be when the release that has the mutex has dropped a
block. -/
structure Limited (s : Callers) : Prop where
  outside : s.clearing = false → cachedBytes s.state.alloc ≤ s.state.alloc.m_usMaxFreeCacheSize
  inside : s.clearing = true →
    cachedBytes (dropLargest s.state.alloc) ≤ s.state.alloc.m_usMaxFreeCacheSize

/-- With less than `2 ^ 32` bytes in all, `m_sizeFree` counts the cached blocks. -/
lemma cachedBytes_le_sizeFree (h : s.Counted)
    (hlt : cachedBytes s.alloc + bytes s.releasing < 2 ^ 32) :
    cachedBytes s.alloc + bytes s.releasing = s.alloc.m_sizeFree := by
  rw [h.free, Nat.mod_eq_of_lt hlt]

lemma Limited.step {s t : Callers} (h : Limited s) (hcounted : s.state.Counted)
    (hlt : s.totalBytes < 2 ^ 32) {m : Move} (hs : Callers.step align s m = some t) :
    Limited t := by
  have hlt' : cachedBytes s.state.alloc + bytes s.state.releasing < 2 ^ 32 :=
    Nat.lt_of_le_of_lt (Nat.le_add_right _ _) hlt
  have hfree := cachedBytes_le_sizeFree hcounted hlt'
  obtain ⟨size, p, now, timeNow, -, hclear, hm, rfl⟩ | ⟨b, u, -, hb, hlocks, hu, rfl⟩ |
    ⟨-, hclear, rfl⟩ := Callers.step_cases hs
  · have hlimit := h.outside hclear
    have hback := bytes_erase hm
    unfold startRelease
    simp only
    by_cases hover : overLimit (pushBack s.state.alloc size p now)
    · -- one block of the largest size is to go
      rw [if_pos hover]
      exact ⟨by simp, fun _ => (cachedBytes_startRelease ..).trans hlimit⟩
    · -- the block was counted before it came
      rw [if_neg hover]
      refine ⟨fun _ => ?_, by simp⟩
      have hwithin : s.state.alloc.m_sizeFree ≤ s.state.alloc.m_usMaxFreeCacheSize :=
        Nat.le_of_not_lt hover
      simp only [cachedBytes_pushBack]
      change _ ≤ s.state.alloc.m_usMaxFreeCacheSize
      simp only at hback
      omega
  · obtain ⟨hbytes, hmax⟩ := cachedBytes_step hb hu
    refine ⟨fun hclear => ?_, fun hclear => ?_⟩
    · rw [hmax]
      exact hbytes.trans (h.outside hclear)
    · rw [hmax, cachedBytes_dropLargest_congr (memBuffer_step (hlocks hclear) hu)]
      exact h.inside hclear
  · refine ⟨fun _ => ?_, by simp⟩
    unfold finishRelease
    simp only
    split_ifs with hover
    · rw [limit_dropLargest]
      exact h.inside hclear
    · have hwithin : s.state.alloc.m_sizeFree ≤ s.state.alloc.m_usMaxFreeCacheSize :=
        Nat.le_of_not_lt hover
      omega

/-- **The cache limit.** While less than `2 ^ 32` bytes are taken from the heap, a release leaves
no more in the cache than the limit allows, and with no release on its way `m_sizeFree` is
within the limit. -/
theorem cached_le_limit {ulExpiredTime ulMaxCache : ℕ} {ms : List Move} {s : Callers}
    (hbytes : Always (Callers.step align) (fun _ s _ => s.totalBytes < 2 ^ 32)
      (Callers.start ulExpiredTime ulMaxCache) ms)
    (hs : exec (Callers.step align) (Callers.start ulExpiredTime ulMaxCache) ms = some s)
    (hfree : s.clearing = false) :
    cachedBytes s.state.alloc ≤ s.state.alloc.m_usMaxFreeCacheSize ∧
      (s.state.releasing = [] → ¬ overLimit s.state.alloc) := by
  have hinv : s.state.Counted ∧ Limited s := by
    refine inv_of_always (I := fun _ s => s.state.Counted ∧ Limited s)
      ⟨⟨rfl, rfl⟩, fun _ => Nat.zero_le _, by simp [Callers.start]⟩ ?_ hbytes hs
    exact fun _ _ _ _ hi hlt hs =>
      ⟨Callers.counted_step hi.1 hs, hi.2.step hi.1 hlt hs⟩
  have hlimit := hinv.2.outside hfree
  refine ⟨hlimit, fun hnone => ?_⟩
  have hcount := hinv.1.free
  rw [hnone, show bytes [] = 0 from rfl, Nat.add_zero] at hcount
  unfold overLimit
  rw [hcount, Nat.not_lt]
  exact (Nat.mod_le _ _).trans hlimit

/-- Two blocks of a megabyte come back at the same time to a cache for one. -/
def overflowing : List Move :=
  takeNew (2 ^ 20) 1 ++ takeNew (2 ^ 20) 2 ++
    [.act (.release (2 ^ 20) 1), .act (.release (2 ^ 20) 2), .act (.deallocate (2 ^ 20) 2 0 0),
      .finish, .act (.deallocate (2 ^ 20) 1 0 0)]

lemma overflowing_ends :
    (exec (Callers.step 10) (Callers.start 60 1) overflowing).map (fun s =>
      (s.clearing, s.state.releasing, s.state.alloc.m_usMaxFreeCacheSize,
        cachedBytes s.state.alloc)) = some (false, [], 2 ^ 20, 2 ^ 20) := by
  decide +kernel

theorem cached_le_limit_overflowing :
    ∃ s, exec (Callers.step 10) (Callers.start 60 1) overflowing = some s ∧
      s.state.releasing = [] ∧ ¬ overLimit s.state.alloc := by
  obtain ⟨s, hs, he⟩ := Option.map_eq_some_iff.mp overflowing_ends
  simp only [Prod.mk.injEq] at he
  have hbytes : Always (Callers.step 10) (fun _ s _ => s.totalBytes < 2 ^ 32)
      (Callers.start 60 1) overflowing :=
    always_of_check (q := fun s _ => decide (s.totalBytes < 2 ^ 32))
      (fun _ _ h => of_decide_eq_true h) (by decide +kernel)
  exact ⟨s, hs, he.2.1, (cached_le_limit hbytes hs he.1).2 he.2.1⟩

end MmrService.ChunkAlloc
