import MmrService.ChunkBytes

/-!
The sizes of the blocks `ChunkAllocator::allocate` returns.

A block is cached under the size it was allocated with, so the size a call returns is the
number of bytes of its block, whether it is new or comes from the cache. Whether that is
enough depends on the rounding: the sum is a `size_t`, the result a `uint32_t`.
-/

namespace MmrService.ChunkAlloc

open Transition

/-! ### The rounded size -/

/-- The low 32 bits of the sum, rounded down to a multiple of `2 ^ align`. -/
lemma allocSize_eq {align : ℕ} (halign : align ≤ 32) (ulElemSize sizeofT : ℕ) :
    allocSize align ulElemSize sizeofT =
      (ulElemSize * sizeofT + minBlockSize align) % 2 ^ 32 / 2 ^ align * 2 ^ align := by
  unfold allocSize
  generalize ulElemSize * sizeofT + minBlockSize align = x
  refine Nat.eq_of_testBit_eq fun i => ?_
  have hmask : ((2 ^ 32 - 1) ^^^ minBlockSize align).testBit i =
      (decide (i < 32) ^^ decide (i < align)) := by
    rw [Nat.testBit_xor, Nat.testBit_two_pow_sub_one, minBlockSize, Nat.testBit_two_pow_sub_one]
  rw [Nat.testBit_mod_two_pow, Nat.testBit_and, Nat.testBit_mod_two_pow, hmask,
    Nat.testBit_mul_two_pow, Nat.testBit_div_two_pow, Nat.testBit_mod_two_pow]
  by_cases hi : i < align
  · -- the mask and the rounding clear the same bits
    have hi32 : i < 32 := by omega
    have hnot : ¬ align ≤ i := by omega
    simp [hi, hi32, hnot]
  · have hle : align ≤ i := by omega
    have hsub : i - align + align = i := Nat.sub_add_cancel hle
    by_cases hi32 : i < 32
    · have hi64 : i < 64 := by omega
      simp [hi, hi32, hi64, hle, hsub]
    · simp [hi, hi32, hle, hsub]

lemma dvd_allocSize {align : ℕ} (halign : align ≤ 32) (ulElemSize sizeofT : ℕ) :
    2 ^ align ∣ allocSize align ulElemSize sizeofT := by
  rw [allocSize_eq halign]
  exact Nat.dvd_mul_left _ _

lemma allocSize_lt (align ulElemSize sizeofT : ℕ) : allocSize align ulElemSize sizeofT < 2 ^ 32 :=
  Nat.mod_lt _ (Nat.two_pow_pos 32)

/-- The rounded size is enough exactly if the sum is not cut. -/
lemma le_allocSize_iff {align : ℕ} (halign : align ≤ 16) (ulElemSize sizeofT : ℕ) :
    ulElemSize * sizeofT ≤ allocSize align ulElemSize sizeofT ↔
      ulElemSize * sizeofT + minBlockSize align < 2 ^ 32 := by
  rw [allocSize_eq (by omega)]
  generalize ulElemSize * sizeofT = n
  have hpos : 0 < 2 ^ align := Nat.two_pow_pos align
  have hsmall : 2 ^ align ≤ 2 ^ 16 := Nat.pow_le_pow_right (by omega) halign
  have hmin : minBlockSize align + 1 = 2 ^ align := Nat.sub_add_cancel hpos
  constructor
  · intro hle
    by_contra hge
    have hround := Nat.div_mul_le_self ((n + minBlockSize align) % 2 ^ 32) (2 ^ align)
    have hmod : (n + minBlockSize align) % 2 ^ 32 < 2 ^ 32 := Nat.mod_lt _ (Nat.two_pow_pos 32)
    -- with `n` below `2 ^ 32` the sum is cut to less than one block
    have hcut : (n + minBlockSize align) % 2 ^ 32 = n + minBlockSize align - 2 ^ 32 := by
      rw [Nat.mod_eq_sub_mod (by omega), Nat.mod_eq_of_lt (by omega)]
    have hzero : (n + minBlockSize align) % 2 ^ 32 / 2 ^ align = 0 :=
      Nat.div_eq_of_lt (by omega)
    rw [hzero, Nat.zero_mul] at hle
    omega
  · intro hlt
    rw [Nat.mod_eq_of_lt hlt]
    have hdiv := Nat.lt_div_mul_add hpos (a := n + minBlockSize align)
    omega

/-! ### Blocks and their sizes -/

/-- What a call of `allocate<T>(ulElemSize)` has returned, and the number of bytes the block was
allocated with. -/
structure Result where
  ulElemSize : ℕ
  sizeofT : ℕ
  first : ℕ
  second : ℕ
  bytes : ℕ
deriving DecidableEq

/-- The callers, the number of bytes at each address, the calls that wait for a new block,
and what has been returned. -/
structure Heap where
  callers : Callers
  bytesAt : ℕ → ℕ
  waiting : List (ℕ × ℕ)
  results : List Result

inductive Event
  | move (m : Move)
  /-- `new char[]` of a call that has found no block returns `p`. -/
  | newBlock (ulElemSize sizeofT p : ℕ)

namespace Heap

variable (align : ℕ)

/-- A call has looked for a block in the cache: it returns that, or waits for a new one. -/
def looked (s : Heap) (ulElemSize sizeofT : ℕ) (c : Callers) : Heap :=
  match returned align s.callers.state (.alloRowMemory ulElemSize sizeofT) with
  | some p => { s with
      callers := c
      results := ⟨ulElemSize, sizeofT, allocSize align ulElemSize sizeofT, p, s.bytesAt p⟩ ::
        s.results }
  | none => { s with
      callers := c
      waiting := (ulElemSize, sizeofT) :: s.waiting }

def step (s : Heap) : Event → Option Heap
  | .newBlock ulElemSize sizeofT p =>
    let size := allocSize align ulElemSize sizeofT
    if s.waiting.contains (ulElemSize, sizeofT) then
      (Callers.step align s.callers (.act (.newBlock size p))).map fun c =>
        { callers := c
          bytesAt := Function.update s.bytesAt p size
          waiting := s.waiting.erase (ulElemSize, sizeofT)
          results := ⟨ulElemSize, sizeofT, size, p, size⟩ :: s.results }
    else none
  | .move (.act (.newBlock _ _)) => none
  | .move (.act (.alloRowMemory ulElemSize sizeofT)) =>
    (Callers.step align s.callers (.act (.alloRowMemory ulElemSize sizeofT))).map
      (s.looked align ulElemSize sizeofT)
  | .move m => (Callers.step align s.callers m).map fun c => { s with callers := c }

/-- A fresh allocator, and memory about which nothing is known. -/
def start (ulExpiredTime ulMaxCache : ℕ) (bytesAt : ℕ → ℕ) : Heap :=
  ⟨Callers.start ulExpiredTime ulMaxCache, bytesAt, [], []⟩

end Heap

/-! ### Who has which block -/

/-- A block waits in the queue of a size. -/
def Caches (a : ChunkAllocator) (size p : ℕ) : Prop :=
  ∃ q now, a.memBuffer.find size = some q ∧ (now, p) ∈ q

/-- A block is in the cache, in use, or on its way back, under a size. -/
def State.Holds (s : State) (size p : ℕ) : Prop :=
  Caches s.alloc size p ∨ (size, p) ∈ s.held ∨ (size, p) ∈ s.releasing

variable {a a' : ChunkAllocator} {size k p r : ℕ}

lemma caches_pushBack {now : TimeType} (h : Caches (pushBack a size p now) k r) :
    Caches a k r ∨ (k = size ∧ r = p) := by
  obtain ⟨q, now', hq, hmem⟩ := h
  rw [find_pushBack] at hq
  split_ifs at hq with hk
  · obtain rfl := Option.some.inj hq
    rcases List.mem_append.mp hmem with hold | hnew
    · cases hfind : a.memBuffer.find size with
      | none =>
        rw [hfind] at hold
        cases hold
      | some q =>
        rw [hfind] at hold
        exact .inl ⟨q, now', by rw [hk, hfind], hold⟩
    · exact .inr ⟨hk, (Prod.mk.inj (List.mem_singleton.mp hnew)).2⟩
  · exact .inl ⟨q, now', hq, hmem⟩

lemma caches_sweep {timeNow : TimeType} (h : Caches (sweep a timeNow) k r) : Caches a k r := by
  obtain ⟨q, now, hq, hmem⟩ := h
  rw [sweep, SortedMap.find_filterMap] at hq
  obtain ⟨q', hq', hkept⟩ := Option.bind_eq_some_iff.mp hq
  unfold sweepQueue at hkept
  simp only at hkept
  split_ifs at hkept
  obtain rfl := Option.some.inj hkept
  exact ⟨q', now, hq', List.mem_of_mem_filter hmem⟩

lemma caches_dropLargest (h : Caches (dropLargest a) k r) : Caches a k r := by
  unfold dropLargest at h
  split at h
  · next size b q hlast =>
    have hfind := SortedMap.find_last hlast
    obtain ⟨q', now, hq', hmem⟩ := h
    simp only at hq'
    split_ifs at hq' with hnil
    · rw [SortedMap.find_erase] at hq'
      split_ifs at hq'
      exact ⟨q', now, hq', hmem⟩
    · rw [SortedMap.find_insert] at hq'
      split_ifs at hq' with hk
      · obtain rfl := Option.some.inj hq'
        exact ⟨_, now, by rw [hk]; exact hfind, List.mem_cons_of_mem _ hmem⟩
      · exact ⟨q', now, hq', hmem⟩
  · exact h

lemma caches_startRelease {now timeNow : TimeType}
    (h : Caches (startRelease a size p now timeNow).1 k r) :
    Caches a k r ∨ (k = size ∧ r = p) := by
  unfold startRelease at h
  simp only at h
  split_ifs at h
  · exact caches_pushBack (caches_sweep h)
  · exact caches_pushBack h

lemma caches_finishRelease (h : Caches (finishRelease a) k r) : Caches a k r := by
  unfold finishRelease at h
  split_ifs at h
  · exact caches_dropLargest h
  · exact h

/-- What is taken from the cache was there under the size asked for. -/
lemma caches_alloRowMemory (h : alloRowMemory a size = some (some p, a')) :
    Caches a size p ∧ ∀ {k r : ℕ}, Caches a' k r → Caches a k r := by
  obtain ⟨q, now, hq, rfl⟩ := alloRowMemory_hit h
  refine ⟨⟨_, now, hq, List.mem_append_right _ List.mem_cons_self⟩, ?_⟩
  rintro k r ⟨q', now', hq', hmem⟩
  simp only [SortedMap.find_insert] at hq'
  split_ifs at hq' with hk
  · obtain rfl := Option.some.inj hq'
    exact ⟨_, now', by rw [hk]; exact hq, List.mem_append_left _ hmem⟩
  · exact ⟨q', now', hq', hmem⟩

lemma State.Holds.owned {s : State} (h : s.Holds k r) : r ∈ owned s := by
  rcases h with ⟨q, now, hq, hmem⟩ | hheld | hback
  · refine List.mem_append.mpr (.inl ?_)
    exact List.mem_flatMap.mpr ⟨(k, q), SortedMap.mem_entries.mpr hq, List.mem_map_of_mem hmem⟩
  · exact List.mem_append.mpr (.inr (List.mem_append.mpr (.inl (List.mem_map_of_mem hheld))))
  · exact List.mem_append.mpr (.inr (List.mem_append.mpr (.inr (List.mem_map_of_mem hback))))

variable {align : ℕ}

/-- A step that is no release is one of all callers together. -/
lemma act_step_cases {s c : Callers} {b : Action}
    (hb : ∀ size p now timeNow, b ≠ .deallocate size p now timeNow)
    (h : Callers.step align s (.act b) = some c) :
    ∃ u, ChunkAlloc.step align s.state b = some u ∧ c = ⟨u, s.clearing⟩ := by
  obtain ⟨size, p, now, timeNow, heq, -⟩ | ⟨a, u, heq, -, -, hu, hc⟩ | ⟨heq, -⟩ :=
    Callers.step_cases h
  · exact absurd (Move.act.inj heq) (hb size p now timeNow)
  · obtain rfl := Move.act.inj heq
    exact ⟨u, hu, hc⟩
  · cases heq

lemma caches_deallocate {now timeNow : TimeType}
    (h : Caches (deallocate a size p now timeNow) k r) :
    Caches a k r ∨ (k = size ∧ r = p) := by
  rw [deallocate_eq] at h
  split_ifs at h
  · exact caches_startRelease (caches_finishRelease h)
  · exact caches_startRelease h

/-- A step gives nobody a block under another size than it had, but for a new one. -/
lemma State.Holds.of_step {s t : State} {b : Action} (hs : ChunkAlloc.step align s b = some t)
    (h : t.Holds k r) : s.Holds k r ∨ b = .newBlock k r := by
  cases ChunkAlloc.step_cases align hs with
  | miss => exact .inl h
  | hit hrow =>
    left
    obtain ⟨htaken, hkept⟩ := caches_alloRowMemory hrow
    rcases h with h | h | h
    · exact .inl (hkept h)
    · rcases List.mem_cons.mp h with heq | h
      · obtain ⟨rfl, rfl⟩ := Prod.mk.inj heq
        exact .inl htaken
      · exact .inr (.inl h)
    · exact .inr (.inr h)
  | newBlock =>
    rcases h with h | h | h
    · exact .inl (.inl h)
    · rcases List.mem_cons.mp h with heq | h
      · obtain ⟨rfl, rfl⟩ := Prod.mk.inj heq
        exact .inr rfl
      · exact .inl (.inr (.inl h))
    · exact .inl (.inr (.inr h))
  | release hm =>
    left
    rcases h with h | h | h
    · exact .inl h
    · exact .inr (.inl (List.mem_of_mem_erase h))
    · rcases List.mem_cons.mp h with heq | h
      · obtain ⟨rfl, rfl⟩ := Prod.mk.inj heq
        exact .inr (.inl hm)
      · exact .inr (.inr h)
  | deallocate hm =>
    left
    rcases h with h | h | h
    · rcases caches_deallocate h with h | ⟨rfl, rfl⟩
      · exact .inl h
      · exact .inr (.inr hm)
    · exact .inr (.inl h)
    · exact .inr (.inr (List.mem_of_mem_erase h))
  | sweep => exact .inl (h.imp_left caches_sweep)
  | fires => exact .inl (h.imp_left caches_sweep)
  | early => exact .inl h

/-- The same, of a step that may stop inside a release. -/
lemma holds_step {s t : Callers} {m : Move} (hs : Callers.step align s m = some t)
    (h : t.state.Holds k r) : s.state.Holds k r ∨ m = .act (.newBlock k r) := by
  obtain ⟨size, p, now, timeNow, -, -, hm, rfl⟩ | ⟨a, u, rfl, -, -, hu, rfl⟩ | ⟨-, -, rfl⟩ :=
    Callers.step_cases hs
  · left
    rcases h with h | h | h
    · rcases caches_startRelease h with h | ⟨rfl, rfl⟩
      · exact .inl h
      · exact .inr (.inr hm)
    · exact .inr (.inl h)
    · exact .inr (.inr (List.mem_of_mem_erase h))
  · exact (h.of_step hu).imp_right (congrArg Move.act)
  · left
    exact h.imp_left caches_finishRelease

/-! ### Runs -/

namespace Heap

/-- What a step of the heap can do. -/
lemma step_cases {s t : Heap} {e : Event} (h : step align s e = some t) :
    (∃ ulElemSize sizeofT p c, (ulElemSize, sizeofT) ∈ s.waiting ∧
      Callers.step align s.callers (.act (.newBlock (allocSize align ulElemSize sizeofT) p)) =
        some c ∧
      t = {
        callers := c
        bytesAt := Function.update s.bytesAt p (allocSize align ulElemSize sizeofT)
        waiting := s.waiting.erase (ulElemSize, sizeofT)
        results := ⟨ulElemSize, sizeofT, allocSize align ulElemSize sizeofT, p,
          allocSize align ulElemSize sizeofT⟩ :: s.results }) ∨
    (∃ ulElemSize sizeofT c,
      Callers.step align s.callers (.act (.alloRowMemory ulElemSize sizeofT)) = some c ∧
      t = s.looked align ulElemSize sizeofT c) ∨
    (∃ m c, (∀ size p, m ≠ .act (.newBlock size p)) ∧
      (∀ ulElemSize sizeofT, m ≠ .act (.alloRowMemory ulElemSize sizeofT)) ∧
      Callers.step align s.callers m = some c ∧ t = { s with callers := c }) := by
  cases e with
  | newBlock ulElemSize sizeofT p =>
    left
    simp only [step] at h
    split_ifs at h with hw
    obtain ⟨c, hc, rfl⟩ := Option.map_eq_some_iff.mp h
    exact ⟨ulElemSize, sizeofT, p, c, List.contains_iff_mem.mp hw, hc, rfl⟩
  | move m =>
    right
    cases m with
    | finish =>
      obtain ⟨c, hc, rfl⟩ := Option.map_eq_some_iff.mp h
      exact .inr ⟨_, c, by simp, by simp, hc, rfl⟩
    | act a =>
      cases a with
      | newBlock size p => cases h
      | alloRowMemory ulElemSize sizeofT =>
        obtain ⟨c, hc, rfl⟩ := Option.map_eq_some_iff.mp h
        exact .inl ⟨ulElemSize, sizeofT, c, hc, rfl⟩
      | release _ _ | deallocate _ _ _ _ | freeExpiredMemory _ | onTimer _ _ =>
        obtain ⟨c, hc, rfl⟩ := Option.map_eq_some_iff.mp h
        exact .inr ⟨_, c, by simp, by simp, hc, rfl⟩

variable (align) in
/-- A block has the bytes of the size it is known under, and so has what was returned. -/
structure Sized (s : Heap) : Prop where
  blocks : ∀ k r, s.callers.state.Holds k r → s.bytesAt r = k
  results : ∀ x ∈ s.results, x.first = allocSize align x.ulElemSize x.sizeofT ∧ x.bytes = x.first

/-- A new block is at an address nobody has. -/
lemma newBlock_fresh {s c : Callers} {size p : ℕ}
    (h : Callers.step align s (.act (.newBlock size p)) = some c) : p ∉ owned s.state := by
  obtain ⟨u, hu, rfl⟩ := act_step_cases (by simp) h
  cases ChunkAlloc.step_cases align hu with
  | newBlock _ hp => exact hp

lemma Sized.step {s t : Heap} (h : s.Sized align) {e : Event} (hs : Heap.step align s e = some t) :
    t.Sized align := by
  obtain ⟨ulElemSize, sizeofT, p, c, -, hc, rfl⟩ | ⟨ulElemSize, sizeofT, c, hc, rfl⟩ |
    ⟨m, c, hnew, -, hc, rfl⟩ := step_cases hs
  · refine ⟨fun k r hholds => ?_, fun x hx => ?_⟩
    · rcases holds_step hc hholds with hold | heq
      · have hne : r ≠ p := fun heq => newBlock_fresh hc (heq ▸ hold.owned)
        exact (Function.update_of_ne hne _ _).trans (h.blocks k r hold)
      · simp only [Move.act.injEq, Action.newBlock.injEq] at heq
        obtain ⟨rfl, rfl⟩ := heq
        exact Function.update_self _ _ _
    · rcases List.mem_cons.mp hx with rfl | hx
      · exact ⟨rfl, rfl⟩
      · exact h.results x hx
  · have hblocks : ∀ k r, c.state.Holds k r → s.bytesAt r = k := by
      intro k r hholds
      rcases holds_step hc hholds with hold | heq
      · exact h.blocks k r hold
      · simp at heq
    unfold looked
    split
    · next p hp =>
      refine ⟨hblocks, fun x hx => ?_⟩
      rcases List.mem_cons.mp hx with rfl | hx
      · -- the block was in the cache under the size asked for
        obtain ⟨⟨q, a'⟩, hrow, hq⟩ := Option.bind_eq_some_iff.mp hp
        obtain rfl : q = some p := hq
        exact ⟨rfl, h.blocks _ _ (.inl (caches_alloRowMemory hrow).1)⟩
      · exact h.results x hx
    · exact ⟨hblocks, h.results⟩
  · refine ⟨fun k r hholds => ?_, h.results⟩
    rcases holds_step hc hholds with hold | heq
    · exact h.blocks k r hold
    · exact absurd heq (hnew k r)

/-! ### Every run of the callers -/

variable (align) in
/-- The sizes wanted from `new` are those of the calls that wait. -/
def Waits (s : Heap) : Prop :=
  (s.waiting.map fun w => allocSize align w.1 w.2).Perm s.callers.state.pendingNew

lemma pendingNew_step {s c : Callers} {m : Move} (hnew : ∀ size p, m ≠ .act (.newBlock size p))
    (hrow : ∀ ulElemSize sizeofT, m ≠ .act (.alloRowMemory ulElemSize sizeofT))
    (h : Callers.step align s m = some c) : c.state.pendingNew = s.state.pendingNew := by
  obtain ⟨size, p, now, timeNow, -, -, hm, rfl⟩ | ⟨a, u, rfl, ha, -, hu, rfl⟩ | ⟨-, -, rfl⟩ :=
    Callers.step_cases h
  · rfl
  · cases ChunkAlloc.step_cases align hu with
    | miss => exact absurd rfl (hrow _ _)
    | hit => exact absurd rfl (hrow _ _)
    | newBlock => exact absurd rfl (hnew _ _)
    | deallocate => exact absurd rfl (ha _ _ _ _)
    | release | sweep | fires | early => rfl
  · rfl

/-- A step of the callers is one of the heap. -/
lemma lift_step {s : Heap} (hw : s.Waits align) {m : Move} {c : Callers}
    (h : Callers.step align s.callers m = some c) :
    ∃ e t, step align s e = some t ∧ t.callers = c ∧ t.Waits align := by
  by_cases hnew : ∃ size p, m = .act (.newBlock size p)
  · obtain ⟨size, p, rfl⟩ := hnew
    obtain ⟨u, hu, rfl⟩ := act_step_cases (by simp) h
    simp only [ChunkAlloc.step] at hu
    split_ifs at hu with hp
    obtain rfl := Option.some.inj hu
    -- a call that waits for this size gets the block
    obtain ⟨⟨ulElemSize, sizeofT⟩, hmem, rfl⟩ := List.mem_map.mp (hw.mem_iff.mpr hp.1)
    have hs : step align s (.newBlock ulElemSize sizeofT p) = _ :=
      (if_pos (List.contains_iff_mem.mpr hmem)).trans (congrArg _ h)
    have hperm := (List.perm_cons_erase hmem).map fun w => allocSize align w.1 w.2
    have hall := (hperm.symm.trans hw).trans (List.perm_cons_erase hp.1)
    exact ⟨_, _, hs, rfl, hall.cons_inv⟩
  · by_cases hrow : ∃ ulElemSize sizeofT, m = .act (.alloRowMemory ulElemSize sizeofT)
    · obtain ⟨ulElemSize, sizeofT, rfl⟩ := hrow
      refine ⟨.move (.act (.alloRowMemory ulElemSize sizeofT)),
        s.looked align ulElemSize sizeofT c, by simp only [step, h, Option.map_some], ?_⟩
      obtain ⟨u, hu, rfl⟩ := act_step_cases (by simp) h
      simp only [ChunkAlloc.step] at hu
      split at hu
      · cases hu
      · next a' hfound =>
        have hret : returned align s.callers.state (.alloRowMemory ulElemSize sizeofT) = none := by
          simp only [returned, hfound, Option.bind_some]
        obtain rfl := Option.some.inj hu
        simp only [looked, hret]
        exact ⟨trivial, hw.cons _⟩
      · next p a' hfound =>
        have hret : returned align s.callers.state (.alloRowMemory ulElemSize sizeofT) =
            some p := by
          simp only [returned, hfound, Option.bind_some]
        obtain rfl := Option.some.inj hu
        simp only [looked, hret]
        exact ⟨trivial, hw⟩
    · push Not at hnew hrow
      have hpending := pendingNew_step hnew hrow h
      refine ⟨.move m, { s with callers := c }, ?_, rfl, ?_⟩
      · cases m with
        | finish => simp only [step, h, Option.map_some]
        | act a =>
          cases a with
          | newBlock size p => exact absurd rfl (hnew size p)
          | alloRowMemory ulElemSize sizeofT => exact absurd rfl (hrow ulElemSize sizeofT)
          | release _ _ | deallocate _ _ _ _ | freeExpiredMemory _ | onTimer _ _ =>
            simp only [step, h, Option.map_some]
      · change List.Perm _ c.state.pendingNew
        rw [hpending]
        exact hw

/-- The callers run in the heap as they run without it. -/
theorem lift_run {ulExpiredTime ulMaxCache : ℕ} (bytesAt : ℕ → ℕ) {ms : List Move} {c : Callers}
    (h : exec (Callers.step align) (Callers.start ulExpiredTime ulMaxCache) ms = some c) :
    ∃ es s, exec (step align) (start ulExpiredTime ulMaxCache bytesAt) es = some s ∧
      s.callers = c ∧ s.Waits align := by
  induction ms using List.reverseRecOn generalizing c with
  | nil =>
    obtain rfl := Option.some.inj h
    exact ⟨[], _, rfl, rfl, .refl _⟩
  | append_singleton ms m ih =>
    obtain ⟨c', hc', hm⟩ := exec_snoc_some h
    obtain ⟨es, s, hs, rfl, hw⟩ := ih hc'
    obtain ⟨e, t, ht, hcallers, hw'⟩ := lift_step hw hm
    exact ⟨es ++ [e], t, by rw [exec_snoc, hs]; exact ht, hcallers, hw'⟩

end Heap

/-- **The size a call of `allocate` returns** is a multiple of the smallest block and the number
of bytes of the block, and it is enough exactly if the size in bytes, filled up to the next
block, is below `2 ^ 32`. -/
theorem allocated_iff (halign : align ≤ 16) {ulExpiredTime ulMaxCache : ℕ} {bytesAt : ℕ → ℕ}
    {es : List Event} {s : Heap}
    (hs : exec (Heap.step align) (Heap.start ulExpiredTime ulMaxCache bytesAt) es = some s)
    {x : Result} (hx : x ∈ s.results) :
    2 ^ align ∣ x.first ∧ x.first = x.bytes ∧
      (x.ulElemSize * x.sizeofT ≤ x.bytes ↔
        x.ulElemSize * x.sizeofT + minBlockSize align < 2 ^ 32) := by
  have hsized : s.Sized align := by
    refine inv_of_always (P := fun _ _ _ => True) (I := fun _ s => s.Sized align) ⟨?_, ?_⟩
      (fun _ _ _ _ h _ hs => h.step hs) (fun _ _ _ _ _ _ => trivial) hs
    · rintro k r (⟨q, now, hq, -⟩ | h | h)
      · cases hq
      · cases h
      · cases h
    · intro x hx
      cases hx
  obtain ⟨hfirst, hbytes⟩ := hsized.results x hx
  refine ⟨?_, hbytes.symm, ?_⟩
  · rw [hfirst]
    exact dvd_allocSize (by omega) _ _
  · rw [hbytes, hfirst]
    exact le_allocSize_iff halign _ _

/-- Three doubles in a new block, which comes back and is used for five bytes. -/
def twoCalls : List Event :=
  [.move (.act (.alloRowMemory 3 8)), .newBlock 3 8 1, .move (.act (.release 1024 1)),
    .move (.act (.deallocate 1024 1 0 0)), .move (.act (.alloRowMemory 5 1))]

lemma twoCalls_ends :
    (exec (Heap.step 10) (Heap.start 60 64 fun _ => 0) twoCalls).map (fun s =>
      s.results.map fun x => (x.ulElemSize, x.sizeofT, x.first, x.second, x.bytes)) =
      some [(5, 1, 1024, 1, 1024), (3, 8, 1024, 1, 1024)] := by
  decide +kernel

theorem allocated_twoCalls :
    ∃ s, exec (Heap.step 10) (Heap.start 60 64 fun _ => 0) twoCalls = some s ∧
      s.results.length = 2 ∧ ∀ x ∈ s.results, x.ulElemSize * x.sizeofT ≤ x.bytes := by
  obtain ⟨s, hs, he⟩ := Option.map_eq_some_iff.mp twoCalls_ends
  refine ⟨s, hs, by simpa using congrArg List.length he, fun x hx => ?_⟩
  have hmem := List.mem_map_of_mem (f := fun x : Result =>
    (x.ulElemSize, x.sizeofT, x.first, x.second, x.bytes)) hx
  rw [he] at hmem
  refine (allocated_iff (by decide) hs hx).2.2.mpr ?_
  simp only [List.mem_cons, List.not_mem_nil, or_false, Prod.mk.injEq] at hmem
  rcases hmem with ⟨h1, h2, -⟩ | ⟨h1, h2, -⟩
  · rw [h1, h2]
    decide
  · rw [h1, h2]
    decide

/-- `2 ^ 30` floats: the size in bytes is `2 ^ 32`, and the block has none. -/
def hugeCall : List Event := [.move (.act (.alloRowMemory (2 ^ 30) 4)), .newBlock (2 ^ 30) 4 1]

theorem hugeCall_empty_block :
    ∃ s, exec (Heap.step 10) (Heap.start 60 64 fun _ => 0) hugeCall = some s ∧
      ∃ x ∈ s.results, x.ulElemSize = 2 ^ 30 ∧ x.sizeofT = 4 ∧ x.bytes = 0 ∧
        ¬ x.ulElemSize * x.sizeofT ≤ x.bytes := by
  have hends : (exec (Heap.step 10) (Heap.start 60 64 fun _ => 0) hugeCall).map Heap.results =
      some [⟨2 ^ 30, 4, 0, 1, 0⟩] := by decide +kernel
  obtain ⟨s, hs, hresults⟩ := Option.map_eq_some_iff.mp hends
  refine ⟨s, hs, ⟨2 ^ 30, 4, 0, 1, 0⟩, by rw [hresults]; exact List.mem_cons_self, ?_⟩
  decide

end MmrService.ChunkAlloc
