import Mathlib.Algebra.BigOperators.Group.List.Basic
import Mathlib.Algebra.Order.BigOperators.Group.List
import MmrService.ChunkCache

/-!
The two counters of `ChunkAllocator` and the bytes they count.

A release adds to `m_sizeFree` without the mutex, and so may do it between the two times that
another release, inside its locked section, compares `m_sizeFree` with the limit. The section is
taken in two parts here. Whatever the order of the steps, the counters are the sums they stand
for modulo `2 ^ 32`.
-/

namespace MmrService.ChunkAlloc

open Transition

/-- The sizes of the blocks in a map of queues, added up. -/
def queuedBytes (m : SortedMap ℕ (List (TimeType × ℕ))) : ℕ :=
  (m.entries.map fun e => e.1 * e.2.length).sum

def cachedBytes (a : ChunkAllocator) : ℕ := queuedBytes a.memBuffer

def getAvailableMemoryInfo (a : ChunkAllocator) : ℕ × ℕ := (a.m_sizeFree, a.m_sizeTotal)

/-- The sizes of some blocks, added up. -/
def bytes (l : List (ℕ × ℕ)) : ℕ := (l.map Prod.fst).sum

/-- The locked section of `deallocate` up to the second comparison, and whether it gets there. -/
def startRelease (a : ChunkAllocator) (ulBufSize pBuf : ℕ) (now timeNow : TimeType) :
    ChunkAllocator × Bool :=
  let a := pushBack a ulBufSize pBuf now
  if overLimit a then (sweep a timeNow, true) else (a, false)

/-- The rest of the section. -/
def finishRelease (a : ChunkAllocator) : ChunkAllocator :=
  if overLimit a then dropLargest a else a

lemma deallocate_eq (a : ChunkAllocator) (ulBufSize pBuf : ℕ) (now timeNow : TimeType) :
    deallocate a ulBufSize pBuf now timeNow =
      if (startRelease a ulBufSize pBuf now timeNow).2 then
        finishRelease (startRelease a ulBufSize pBuf now timeNow).1
      else (startRelease a ulBufSize pBuf now timeNow).1 := by
  unfold deallocate startRelease finishRelease
  simp only
  by_cases ho : overLimit (pushBack a ulBufSize pBuf now) <;> simp [ho]

/-- All callers, and whether a release is between the two parts of its section. -/
structure Callers where
  state : State
  clearing : Bool

inductive Move
  | act (a : Action)
  /-- The second part of the section of a release. -/
  | finish

namespace Callers

variable (align : ℕ)

/-- The steps that take the mutex. -/
def locks (s : State) : Action → Bool
  | .alloRowMemory _ _ => true
  | .newBlock _ _ => false
  | .release _ _ => false
  | .deallocate _ _ _ _ => true
  | .freeExpiredMemory _ => true
  | .onTimer framTime _ => decide (timerFires s framTime)

/-- The first part of the section of a release. -/
def enter (s : State) (size p : ℕ) (now timeNow : TimeType) : Option Callers :=
  if s.releasing.contains (size, p) then
    let r := startRelease s.alloc size p now timeNow
    some ⟨{ s with alloc := r.1, releasing := s.releasing.erase (size, p) }, r.2⟩
  else none

/-- One step; what takes the mutex waits for a section to end. -/
def step (s : Callers) : Move → Option Callers
  | .act a =>
    if s.clearing && locks s.state a then none
    else
      match a with
      | .deallocate size p now timeNow => enter s.state size p now timeNow
      | a => (ChunkAlloc.step align s.state a).map fun t => ⟨t, s.clearing⟩
  | .finish =>
    if s.clearing then
      some ⟨{ s.state with alloc := finishRelease s.state.alloc }, false⟩
    else none

def start (ulExpiredTime ulMaxCache : ℕ) : Callers := ⟨init ulExpiredTime ulMaxCache, false⟩

/-- The memory that has been taken from the heap and not given back. -/
def totalBytes (s : Callers) : ℕ :=
  cachedBytes s.state.alloc + bytes s.state.releasing + bytes s.state.held

end Callers

/-! ### Sums over the cache -/

section Sums

variable {m : SortedMap ℕ (List (TimeType × ℕ))} {size : ℕ} {q : List (TimeType × ℕ)}

/-- An entry of the map in a sum over all of them. -/
lemma sum_find (h : m.find size = some q) (g : ℕ × List (TimeType × ℕ) → ℕ) :
    (m.entries.map g).sum = g (size, q) + ((m.erase size).entries.map g).sum := by
  rw [((SortedMap.perm_cons_erase h).map g).sum_eq, List.map_cons, List.sum_cons]

lemma queuedBytes_find (h : m.find size = some q) :
    queuedBytes m = size * q.length + queuedBytes (m.erase size) := sum_find h _

lemma queuedBytes_erase_of_none (h : m.find size = none) :
    queuedBytes (m.erase size) = queuedBytes m := by
  rw [queuedBytes, SortedMap.erase_of_find_none h, queuedBytes]

lemma queuedBytes_alter (m : SortedMap ℕ (List (TimeType × ℕ))) (size : ℕ)
    (f : Option (List (TimeType × ℕ)) → List (TimeType × ℕ)) :
    queuedBytes (m.alter size f) =
      size * (f (m.find size)).length + queuedBytes (m.erase size) := by
  rw [queuedBytes, ((SortedMap.alter_perm m size f).map _).sum_eq, List.map_cons, List.sum_cons]
  rfl

lemma queuedBytes_insert (m : SortedMap ℕ (List (TimeType × ℕ))) (size : ℕ)
    (q : List (TimeType × ℕ)) :
    queuedBytes (m.insert size q) = size * q.length + queuedBytes (m.erase size) :=
  queuedBytes_alter m size fun _ => q

end Sums

lemma cachedBytes_pushBack (a : ChunkAllocator) (size p : ℕ) (now : TimeType) :
    cachedBytes (pushBack a size p now) = size + cachedBytes a := by
  simp only [cachedBytes, pushBack]
  rw [queuedBytes_alter, List.length_append, List.length_singleton, Nat.mul_succ]
  cases hq : a.memBuffer.find size with
  | none =>
    rw [queuedBytes_erase_of_none hq]
    simp
  | some q =>
    rw [queuedBytes_find hq, Option.getD_some]
    omega

/-- What a sweep leaves of a queue. -/
def keptLength (a : ChunkAllocator) (timeNow : TimeType) (q : List (TimeType × ℕ)) : ℕ :=
  (q.filter fun b => !expired a timeNow b.1).length

lemma keptLength_le (a : ChunkAllocator) (timeNow : TimeType) (q : List (TimeType × ℕ)) :
    keptLength a timeNow q ≤ q.length := List.length_filter_le _ _

lemma sum_sweepQueue (a : ChunkAllocator) (timeNow : TimeType)
    (l : List (ℕ × List (TimeType × ℕ))) :
    ((l.filterMap fun e => (sweepQueue a timeNow e.2).map fun q => (e.1, q)).map
      fun e => e.1 * e.2.length).sum = (l.map fun e => e.1 * keptLength a timeNow e.2).sum := by
  induction l with
  | nil => rfl
  | cons e l ih =>
    rw [List.filterMap_cons, List.map_cons, List.sum_cons, ← ih]
    unfold sweepQueue keptLength
    simp only
    by_cases hq : (e.2.filter fun b => !expired a timeNow b.1) = []
    · simp [hq]
    · simp [hq]

lemma cachedBytes_sweep (a : ChunkAllocator) (timeNow : TimeType) :
    cachedBytes (sweep a timeNow) =
      (a.memBuffer.entries.map fun e => e.1 * keptLength a timeNow e.2).sum :=
  sum_sweepQueue a timeNow a.memBuffer.entries

lemma cachedBytes_sweep_le (a : ChunkAllocator) (timeNow : TimeType) :
    cachedBytes (sweep a timeNow) ≤ cachedBytes a := by
  rw [cachedBytes_sweep]
  exact List.sum_le_sum fun e _ => Nat.mul_le_mul_left _ (keptLength_le a timeNow e.2)

lemma cachedBytes_dropLargest {a : ChunkAllocator} {size : ℕ} {b : TimeType × ℕ}
    {q : List (TimeType × ℕ)} (h : a.memBuffer.last? = some (size, b :: q)) :
    cachedBytes a = size + cachedBytes (dropLargest a) := by
  rw [cachedBytes, queuedBytes_find (SortedMap.find_last h), List.length_cons, Nat.mul_succ,
    dropLargest, h]
  simp only [cachedBytes]
  split_ifs with hq
  · rw [hq, List.length_nil, Nat.mul_zero, Nat.zero_add]
  · rw [queuedBytes_insert]
    omega

lemma cachedBytes_alloRowMemory {a a' : ChunkAllocator} {size p : ℕ}
    (h : alloRowMemory a size = some (some p, a')) : cachedBytes a = size + cachedBytes a' := by
  obtain ⟨q, now, hq, rfl⟩ := alloRowMemory_hit h
  simp only [cachedBytes]
  rw [queuedBytes_find hq, queuedBytes_insert, List.length_append, List.length_singleton,
    Nat.mul_succ]
  omega

/-! ### The counters -/

/-- The counters stand for what is cached, and for `x` and `y` bytes more. -/
structure Counts (a : ChunkAllocator) (x y : ℕ) : Prop where
  free : a.m_sizeFree = (cachedBytes a + x) % 2 ^ 32
  total : a.m_sizeTotal = (cachedBytes a + y) % 2 ^ 32

section Counters

variable {a : ChunkAllocator} {x y : ℕ}

lemma sweepQueueCount (timeNow : TimeType) (size : ℕ) (q : List (TimeType × ℕ)) (x : ℕ) :
    q.foldl (fun c b => if expired a timeNow b.1 then Word.sub 32 c size else c)
        ((size * q.length + x) % 2 ^ 32) =
      (size * keptLength a timeNow q + x) % 2 ^ 32 := by
  induction q generalizing x with
  | nil => rfl
  | cons b q ih =>
    rw [List.foldl_cons, List.length_cons, Nat.mul_succ, Nat.add_comm _ size, Nat.add_assoc]
    by_cases hb : expired a timeNow b.1
    · rw [if_pos hb, Word.sub_mod, ih, keptLength, keptLength,
        List.filter_cons_of_neg (by simp [hb])]
    · have hkept : keptLength a timeNow (b :: q) = keptLength a timeNow q + 1 := by
        simp [keptLength, hb]
      rw [if_neg hb, Nat.add_left_comm, ih, hkept, Nat.mul_succ, Nat.add_assoc]

/-- The sweep takes from a counter what it takes from the cache. -/
lemma sweepCount_eq (a : ChunkAllocator) (timeNow : TimeType) (x : ℕ) :
    sweepCount a timeNow ((cachedBytes a + x) % 2 ^ 32) =
      (cachedBytes (sweep a timeNow) + x) % 2 ^ 32 := by
  rw [cachedBytes_sweep, sweepCount, cachedBytes, queuedBytes]
  induction a.memBuffer.entries generalizing x with
  | nil => rfl
  | cons e l ih =>
    rw [List.foldl_cons, List.map_cons, List.sum_cons, List.map_cons, List.sum_cons,
      Nat.add_assoc, sweepQueueCount, Nat.add_left_comm, ih, Nat.add_left_comm, Nat.add_assoc]

lemma Counts.sweep (h : Counts a x y) (timeNow : TimeType) :
    Counts (sweep a timeNow) x y := by
  refine ⟨?_, ?_⟩
  · change sweepCount a timeNow a.m_sizeFree = _
    rw [h.free, sweepCount_eq]
  · change sweepCount a timeNow a.m_sizeTotal = _
    rw [h.total, sweepCount_eq]

lemma Counts.dropLargest (h : Counts a x y) : Counts (dropLargest a) x y := by
  rcases hlast : a.memBuffer.last? with _ | ⟨size, _ | ⟨b, q⟩⟩
  · have hsame : ChunkAlloc.dropLargest a = a := by rw [ChunkAlloc.dropLargest, hlast]
    rwa [hsame]
  · have hsame : ChunkAlloc.dropLargest a = a := by rw [ChunkAlloc.dropLargest, hlast]
    rwa [hsame]
  · have hbytes := cachedBytes_dropLargest hlast
    have hfree : (ChunkAlloc.dropLargest a).m_sizeFree = Word.sub 32 a.m_sizeFree size := by
      rw [ChunkAlloc.dropLargest, hlast]
    have htotal : (ChunkAlloc.dropLargest a).m_sizeTotal = Word.sub 32 a.m_sizeTotal size := by
      rw [ChunkAlloc.dropLargest, hlast]
    refine ⟨?_, ?_⟩
    · rw [hfree, h.free, hbytes, Nat.add_assoc, Word.sub_mod]
    · rw [htotal, h.total, hbytes, Nat.add_assoc, Word.sub_mod]

lemma Counts.pushBack {size : ℕ} (h : Counts a (size + x) (size + y)) (p : ℕ) (now : TimeType) :
    Counts (pushBack a size p now) x y := by
  refine ⟨?_, ?_⟩
  · rw [cachedBytes_pushBack, Nat.add_comm size, Nat.add_assoc]
    exact h.free
  · rw [cachedBytes_pushBack, Nat.add_comm size, Nat.add_assoc]
    exact h.total

lemma Counts.startRelease {size : ℕ} (h : Counts a (size + x) (size + y)) (p : ℕ)
    (now timeNow : TimeType) : Counts (startRelease a size p now timeNow).1 x y := by
  have hpush := h.pushBack p now
  unfold ChunkAlloc.startRelease
  simp only
  split_ifs
  · exact hpush.sweep timeNow
  · exact hpush

lemma Counts.finishRelease (h : Counts a x y) : Counts (finishRelease a) x y := by
  unfold ChunkAlloc.finishRelease
  split_ifs
  · exact h.dropLargest
  · exact h

lemma Counts.alloRowMemory (h : Counts a x y) {a' : ChunkAllocator} {size p : ℕ}
    (ha : alloRowMemory a size = some (some p, a')) : Counts a' x (y + size) := by
  have hbytes := cachedBytes_alloRowMemory ha
  have hcounters : a'.m_sizeFree = Word.sub 32 a.m_sizeFree size ∧
      a'.m_sizeTotal = a.m_sizeTotal := by
    obtain ⟨q, now, -, rfl⟩ := alloRowMemory_hit ha
    exact ⟨rfl, rfl⟩
  refine ⟨?_, ?_⟩
  · rw [hcounters.1, h.free, hbytes, Nat.add_assoc, Word.sub_mod]
  · rw [hcounters.2, h.total, hbytes]
    congr 1
    omega

end Counters

/-! ### Runs -/

lemma bytes_cons (b : ℕ × ℕ) (l : List (ℕ × ℕ)) : bytes (b :: l) = b.1 + bytes l := by
  rw [bytes, List.map_cons, List.sum_cons, bytes]

lemma bytes_erase {b : ℕ × ℕ} {l : List (ℕ × ℕ)} (hb : b ∈ l) :
    bytes l = b.1 + bytes (l.erase b) := by
  rw [← bytes_cons, bytes, bytes, ((List.perm_cons_erase hb).map Prod.fst).sum_eq]

/-- The counters of the allocator, whatever its callers are doing. -/
def State.Counted (s : State) : Prop :=
  Counts s.alloc (bytes s.releasing) (bytes s.releasing + bytes s.held)

variable {align : ℕ}

lemma State.Counted.step {s t : State} (h : s.Counted) {a : Action}
    (ha : ∀ size p now timeNow, a ≠ .deallocate size p now timeNow)
    (hs : ChunkAlloc.step align s a = some t) : t.Counted := by
  cases step_cases align hs with
  | miss => exact h
  | @hit ulElemSize sizeofT p a' hrow =>
    have hrow' := Counts.alloRowMemory h hrow
    change Counts a' (bytes s.releasing) (bytes s.releasing + bytes (_ :: s.held))
    rw [bytes_cons, Nat.add_comm (allocSize _ _ _), ← Nat.add_assoc]
    exact hrow'
  | @newBlock size p =>
    refine ⟨h.free, ?_⟩
    change Word.add 32 s.alloc.m_sizeTotal size =
      (cachedBytes s.alloc + (bytes s.releasing + bytes ((size, p) :: s.held))) % 2 ^ 32
    rw [h.total, Word.add_mod, bytes_cons]
    congr 1
    omega
  | @release size p hm =>
    have hheld := bytes_erase hm
    refine ⟨?_, ?_⟩
    · change Word.add 32 s.alloc.m_sizeFree size =
        (cachedBytes s.alloc + bytes ((size, p) :: s.releasing)) % 2 ^ 32
      rw [h.free, Word.add_mod, bytes_cons]
      congr 1
      omega
    · change s.alloc.m_sizeTotal = (cachedBytes s.alloc +
        (bytes ((size, p) :: s.releasing) + bytes (s.held.erase (size, p)))) % 2 ^ 32
      rw [h.total, bytes_cons, hheld]
      congr 1
      omega
  | deallocate => exact absurd rfl (ha _ _ _ _)
  | sweep timeNow => exact Counts.sweep h timeNow
  | fires timeNow => exact Counts.sweep h timeNow
  | early => exact h

/-- What a step can do. -/
lemma Callers.step_cases {s t : Callers} {m : Move} (hs : Callers.step align s m = some t) :
    (∃ size p now timeNow, m = .act (.deallocate size p now timeNow) ∧ s.clearing = false ∧
      (size, p) ∈ s.state.releasing ∧
      t = ⟨{ s.state with
          alloc := (startRelease s.state.alloc size p now timeNow).1
          releasing := s.state.releasing.erase (size, p) },
        (startRelease s.state.alloc size p now timeNow).2⟩) ∨
    (∃ a u, m = .act a ∧ (∀ size p now timeNow, a ≠ .deallocate size p now timeNow) ∧
      (s.clearing = true → Callers.locks s.state a = false) ∧
      ChunkAlloc.step align s.state a = some u ∧ t = ⟨u, s.clearing⟩) ∨
    (m = .finish ∧ s.clearing = true ∧
      t = ⟨{ s.state with alloc := finishRelease s.state.alloc }, false⟩) := by
  cases m with
  | finish =>
    right; right
    simp only [Callers.step] at hs
    split_ifs at hs with hc
    exact ⟨rfl, hc, (Option.some.inj hs).symm⟩
  | act a =>
    simp only [Callers.step] at hs
    split_ifs at hs with hfree
    rw [Bool.and_eq_true, not_and, Bool.not_eq_true] at hfree
    cases a with
    | deallocate size p now timeNow =>
      left
      simp only [Callers.enter] at hs
      split_ifs at hs with hm
      have hc : s.clearing = false := Bool.eq_false_iff.mpr fun hc => by cases hfree hc
      exact ⟨size, p, now, timeNow, rfl, hc, List.contains_iff_mem.mp hm,
        (Option.some.inj hs).symm⟩
    | alloRowMemory _ _ | newBlock _ _ | release _ _ | freeExpiredMemory _ | onTimer _ _ =>
      right; left
      obtain ⟨u, hu, rfl⟩ := Option.map_eq_some_iff.mp hs
      exact ⟨_, u, rfl, by simp, hfree, hu, rfl⟩

/-- The counters stay right in every step. -/
lemma Callers.counted_step {s t : Callers} (h : s.state.Counted) {m : Move}
    (hs : Callers.step align s m = some t) : t.state.Counted := by
  obtain ⟨size, p, now, timeNow, -, -, hm, rfl⟩ | ⟨a, u, -, ha, -, hu, rfl⟩ | ⟨-, -, rfl⟩ :=
    Callers.step_cases hs
  · have hback := bytes_erase hm
    unfold State.Counted at h
    rw [hback, Nat.add_assoc] at h
    exact h.startRelease p now timeNow
  · exact h.step ha hu
  · exact Counts.finishRelease h

lemma Callers.counted_run {ulExpiredTime ulMaxCache : ℕ} {ms : List Move} {s : Callers}
    (hs : exec (Callers.step align) (Callers.start ulExpiredTime ulMaxCache) ms = some s) :
    s.state.Counted :=
  inv_of_always (P := fun _ _ _ => True) (I := fun _ s => s.state.Counted) ⟨rfl, rfl⟩
    (fun _ _ _ _ h _ hs => Callers.counted_step h hs) (fun _ _ _ _ _ _ => trivial) hs

/-- A release whose section nobody interrupts. -/
lemma Callers.deallocate_run {s t : State} {size p : ℕ} {now timeNow : TimeType}
    (hs : ChunkAlloc.step align s (.deallocate size p now timeNow) = some t) :
    ∃ ms, exec (Callers.step align) ⟨s, false⟩ ms = some ⟨t, false⟩ := by
  simp only [ChunkAlloc.step] at hs
  split_ifs at hs with hm
  obtain rfl := Option.some.inj hs
  have henter : Callers.step align ⟨s, false⟩ (.act (.deallocate size p now timeNow)) =
      some ⟨{ s with
          alloc := (startRelease s.alloc size p now timeNow).1
          releasing := s.releasing.erase (size, p) },
        (startRelease s.alloc size p now timeNow).2⟩ := by
    simp [Callers.step, Callers.enter, hm]
  rw [deallocate_eq]
  cases hr : (startRelease s.alloc size p now timeNow).2 with
  | false =>
    refine ⟨[.act (.deallocate size p now timeNow)], ?_⟩
    rw [exec_cons, henter, hr]
    rfl
  | true =>
    refine ⟨[.act (.deallocate size p now timeNow), .finish], ?_⟩
    rw [exec_cons, henter, hr]
    rfl

lemma Callers.act_step {s t : State} {a : Action}
    (ha : ∀ size p now timeNow, a ≠ .deallocate size p now timeNow)
    (hs : ChunkAlloc.step align s a = some t) :
    Callers.step align ⟨s, false⟩ (.act a) = some ⟨t, false⟩ := by
  cases a with
  | deallocate size p now timeNow => exact absurd rfl (ha size p now timeNow)
  | alloRowMemory _ _ | newBlock _ _ | release _ _ | freeExpiredMemory _ | onTimer _ _ =>
    simp only [Callers.step, Bool.false_and, Bool.false_eq_true, if_false, hs, Option.map_some]

/-- The runs in which no section is interrupted are among the runs. -/
theorem Callers.refines {as : List Action} {s t : State}
    (hs : exec (ChunkAlloc.step align) s as = some t) :
    ∃ ms, exec (Callers.step align) ⟨s, false⟩ ms = some ⟨t, false⟩ := by
  induction as generalizing s with
  | nil =>
    obtain rfl := Option.some.inj hs
    exact ⟨[], rfl⟩
  | cons a as ih =>
    rw [exec_cons] at hs
    obtain ⟨u, hu, hs⟩ := Option.bind_eq_some_iff.mp hs
    have hfirst : ∃ ms, exec (Callers.step align) ⟨s, false⟩ ms = some ⟨u, false⟩ := by
      cases a with
      | deallocate size p now timeNow => exact Callers.deallocate_run hu
      | alloRowMemory _ _ | newBlock _ _ | release _ _ | freeExpiredMemory _ | onTimer _ _ =>
        exact ⟨[.act _], by rw [exec_cons, Callers.act_step (by simp) hu]; rfl⟩
    obtain ⟨ms, hms⟩ := hfirst
    obtain ⟨ns, hns⟩ := ih hs
    exact ⟨ms ++ ns, by rw [exec_append, hms]; exact hns⟩

/-! ### What the counters say -/

/-- **The memory information** is exact, with no release on its way, exactly when less than
`2 ^ 32` bytes are cached and live. -/
theorem info_exact_iff {ulExpiredTime ulMaxCache : ℕ} {ms : List Move} {s : Callers}
    (hs : exec (Callers.step align) (Callers.start ulExpiredTime ulMaxCache) ms = some s)
    (hnone : s.state.releasing = []) :
    getAvailableMemoryInfo s.state.alloc =
        (cachedBytes s.state.alloc, cachedBytes s.state.alloc + bytes s.state.held) ↔
      cachedBytes s.state.alloc + bytes s.state.held < 2 ^ 32 := by
  have hcounted := Callers.counted_run hs
  unfold State.Counted at hcounted
  rw [hnone, show bytes [] = 0 from rfl, Nat.zero_add] at hcounted
  rw [getAvailableMemoryInfo, hcounted.free, hcounted.total, Prod.mk.injEq, Nat.add_zero]
  constructor
  · rintro ⟨-, htotal⟩
    rw [← htotal]
    exact Nat.mod_lt _ (by decide)
  · intro hlt
    exact ⟨Nat.mod_eq_of_lt (Nat.lt_of_le_of_lt (Nat.le_add_right _ _) hlt),
      Nat.mod_eq_of_lt hlt⟩

/-- An allocation of `n` bytes that nothing cached serves, as block `p`. -/
def takeNew (n p : ℕ) : List Move := [.act (.alloRowMemory n 1), .act (.newBlock n p)]

/-- Two blocks of a megabyte, one of which is cached again. -/
def cachedAndLive : List Move :=
  takeNew (2 ^ 20) 1 ++ takeNew (2 ^ 20) 2 ++
    [.act (.release (2 ^ 20) 1), .act (.deallocate (2 ^ 20) 1 0 0)]

lemma cachedAndLive_ends :
    (exec (Callers.step 10) (Callers.start 60 64) cachedAndLive).map (fun s =>
      (s.state.releasing, cachedBytes s.state.alloc, bytes s.state.held)) =
      some ([], 2 ^ 20, 2 ^ 20) := by
  decide +kernel

theorem info_exact_iff_cachedAndLive :
    ∃ s, exec (Callers.step 10) (Callers.start 60 64) cachedAndLive = some s ∧
      getAvailableMemoryInfo s.state.alloc = (2 ^ 20, 2 ^ 21) := by
  obtain ⟨s, hs, he⟩ := Option.map_eq_some_iff.mp cachedAndLive_ends
  simp only [Prod.mk.injEq] at he
  refine ⟨s, hs, ?_⟩
  have h := (info_exact_iff hs he.1).mpr (by rw [he.2.1, he.2.2]; decide)
  rw [h, he.2.1, he.2.2]
  rfl

/-- Four live blocks of a gibibyte. -/
def fourLive : List Move :=
  takeNew (2 ^ 30) 1 ++ takeNew (2 ^ 30) 2 ++ takeNew (2 ^ 30) 3 ++ takeNew (2 ^ 30) 4

lemma fourLive_ends :
    (exec (Callers.step 10) (Callers.start 60 64) fourLive).map (fun s =>
      (s.state.pendingNew, s.state.releasing, getAvailableMemoryInfo s.state.alloc,
        cachedBytes s.state.alloc, bytes s.state.held)) = some ([], [], (0, 0), 0, 2 ^ 32) := by
  decide +kernel

/-- Four gibibytes are live, and the information is that there is no memory. -/
theorem fourLive_wraps :
    ∃ s, exec (Callers.step 10) (Callers.start 60 64) fourLive = some s ∧
      s.state.pendingNew = [] ∧ s.state.releasing = [] ∧
      getAvailableMemoryInfo s.state.alloc ≠
        (cachedBytes s.state.alloc, cachedBytes s.state.alloc + bytes s.state.held) := by
  obtain ⟨s, hs, he⟩ := Option.map_eq_some_iff.mp fourLive_ends
  simp only [Prod.mk.injEq] at he
  obtain ⟨hnew, hreleasing, hinfo, hcached, hheld⟩ := he
  refine ⟨s, hs, hnew, hreleasing, ?_⟩
  rw [hcached, hheld, hinfo]
  decide

end MmrService.ChunkAlloc
