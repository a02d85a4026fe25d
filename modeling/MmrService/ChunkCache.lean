import MmrService.ChunkAllocator
import Mathlib.Data.List.Nodup
import Mathlib.Data.List.Flatten

/-!
Taking blocks from the cache of `ChunkAllocator`.

No block is at the same time cached, held and on its way back, whatever the order of the
steps. An empty queue is left in the map by one step only, the one that takes the last
cached block of a size, and stays there until a release of that size or a sweep; an
allocation of that size before then calls `back()` on it.
-/

namespace MmrService.ChunkAlloc

open Transition

variable (align : ℕ)

/-! ### The queues of the map -/

lemma find_pushBack (a : ChunkAllocator) (size p k : ℕ) (now : TimeType) :
    (pushBack a size p now).memBuffer.find k =
      if k = size then some ((a.memBuffer.find size).getD [] ++ [(now, p)])
      else a.memBuffer.find k := SortedMap.find_alter _ _ _ _

lemma sweepQueue_ne (a : ChunkAllocator) (timeNow : TimeType) (q : List (TimeType × ℕ)) :
    sweepQueue a timeNow q ≠ some [] := by
  unfold sweepQueue
  simp only
  split_ifs with h
  · simp
  · simpa using h

/-- A sweep leaves no empty queue. -/
lemma find_sweep_ne (a : ChunkAllocator) (timeNow : TimeType) (k : ℕ) :
    (sweep a timeNow).memBuffer.find k ≠ some [] := by
  simp only [sweep, SortedMap.find_filterMap]
  intro h
  obtain ⟨q, -, hq⟩ := Option.bind_eq_some_iff.mp h
  exact sweepQueue_ne a timeNow q hq

lemma find_dropLargest_ne {a : ChunkAllocator} {k : ℕ} (h : a.memBuffer.find k ≠ some []) :
    (dropLargest a).memBuffer.find k ≠ some [] := by
  unfold dropLargest
  split
  · rename_i size b q _
    split_ifs with hq
    · rw [SortedMap.find_erase]; split_ifs <;> simp [h]
    · rw [SortedMap.find_insert]; split_ifs <;> simp [h, hq]
  · exact h

/-- A release leaves an empty queue only where there was one, of another size, and only
when it stays within the limit. -/
lemma find_deallocate (a : ChunkAllocator) (size p k : ℕ) (now timeNow : TimeType) :
    (deallocate a size p now timeNow).memBuffer.find k = some [] ↔
      a.memBuffer.find k = some [] ∧ k ≠ size ∧ ¬ overLimit a := by
  have hpush : overLimit (pushBack a size p now) = overLimit a := rfl
  unfold deallocate
  simp only [hpush]
  by_cases ho : overLimit a
  · rw [if_pos ho]
    have hne : (if overLimit (sweep (pushBack a size p now) timeNow) then
        dropLargest (sweep (pushBack a size p now) timeNow)
        else sweep (pushBack a size p now) timeNow).memBuffer.find k ≠ some [] := by
      split_ifs
      · exact find_dropLargest_ne (find_sweep_ne _ _ _)
      · exact find_sweep_ne _ _ _
    simp [hne, ho]
  · rw [if_neg ho, find_pushBack]
    split_ifs with hk
    · simp [hk]
    · simp [hk, ho]

/-! ### Which blocks the allocator owns -/

lemma cachedPtrs_alter (a : ChunkAllocator) (size : ℕ)
    (f : Option (List (TimeType × ℕ)) → List (TimeType × ℕ)) :
    (cachedPtrs { a with memBuffer := a.memBuffer.alter size f }).Perm
      ((f (a.memBuffer.find size)).map Prod.snd ++
        cachedPtrs { a with memBuffer := a.memBuffer.erase size }) := by
  have h := (SortedMap.alter_perm a.memBuffer size f).flatMap_right fun e => e.2.map Prod.snd
  simpa [cachedPtrs] using h

lemma cachedPtrs_find {a : ChunkAllocator} {size : ℕ} {q : List (TimeType × ℕ)}
    (h : a.memBuffer.find size = some q) :
    (cachedPtrs a).Perm
      (q.map Prod.snd ++ cachedPtrs { a with memBuffer := a.memBuffer.erase size }) := by
  have h := (SortedMap.perm_cons_erase h).flatMap_right fun e => e.2.map Prod.snd
  simpa [cachedPtrs] using h

lemma cachedPtrs_erase_sub (a : ChunkAllocator) (size : ℕ) :
    (cachedPtrs { a with memBuffer := a.memBuffer.erase size }).Sublist (cachedPtrs a) := by
  simp only [cachedPtrs, SortedMap.erase_entries]
  exact List.Sublist.flatMap List.filter_sublist _

lemma cachedPtrs_pushBack (a : ChunkAllocator) (size p : ℕ) (now : TimeType) :
    (cachedPtrs (pushBack a size p now)).Perm (p :: cachedPtrs a) := by
  refine (cachedPtrs_alter a size _).trans ?_
  rcases hq : a.memBuffer.find size with _ | q
  · have he := SortedMap.erase_of_find_none hq
    simp [cachedPtrs, he]
  · have h := cachedPtrs_find hq
    simp only [Option.getD_some, List.map_append, List.map_cons, List.map_nil,
      List.append_assoc, List.singleton_append]
    exact List.perm_middle.trans (h.symm.cons p)

lemma cachedPtrs_sweep (a : ChunkAllocator) (timeNow : TimeType) :
    (cachedPtrs (sweep a timeNow)).Sublist (cachedPtrs a) := by
  simp only [cachedPtrs, sweep, SortedMap.filterMap]
  induction a.memBuffer.entries with
  | nil => simp
  | cons e r ih =>
    rw [List.flatMap_cons, List.filterMap_cons]
    have hq : ∀ q', sweepQueue a timeNow e.2 = some q' → q'.Sublist e.2 := by
      intro q' h
      unfold sweepQueue at h
      simp only at h
      split_ifs at h
      rw [← Option.some.inj h]; exact List.filter_sublist
    rcases h : sweepQueue a timeNow e.2 with _ | q'
    · simpa using ih.trans (List.sublist_append_right _ _)
    · simpa using ((hq q' h).map Prod.snd).append ih

lemma cachedPtrs_dropLargest (a : ChunkAllocator) :
    (cachedPtrs (dropLargest a)).Subperm (cachedPtrs a) := by
  unfold dropLargest
  split
  · rename_i size b q hl
    have hfind := SortedMap.find_last hl
    split_ifs with hq
    · exact (cachedPtrs_erase_sub a size).subperm
    · refine (cachedPtrs_alter a size _).subperm.trans ?_
      refine List.Subperm.trans ?_ (cachedPtrs_find hfind).symm.subperm
      exact (List.sublist_cons_self _ _).subperm
  · exact List.Subperm.refl _

lemma cachedPtrs_deallocate (a : ChunkAllocator) (size p : ℕ) (now timeNow : TimeType) :
    (cachedPtrs (deallocate a size p now timeNow)).Subperm (p :: cachedPtrs a) := by
  have hpush := (cachedPtrs_pushBack a size p now).subperm
  unfold deallocate
  simp only
  split_ifs
  · exact (cachedPtrs_dropLargest _).trans ((cachedPtrs_sweep _ _).subperm.trans hpush)
  · exact (cachedPtrs_sweep _ _).subperm.trans hpush
  · exact hpush

/-- `alloRowMemory` takes the last block of a queue. -/
lemma alloRowMemory_hit {a a' : ChunkAllocator} {size p : ℕ}
    (h : alloRowMemory a size = some (some p, a')) :
    ∃ q now, a.memBuffer.find size = some (q ++ [(now, p)]) ∧
      a' = { a with
        m_sizeFree := Word.sub 32 a.m_sizeFree size
        memBuffer := a.memBuffer.insert size q } := by
  unfold alloRowMemory at h
  split at h
  · simp at h
  · rename_i q hq
    split at h
    · simp at h
    · rename_i b hb
      simp only [Option.some.injEq, Prod.mk.injEq] at h
      obtain ⟨rfl, rfl⟩ := h
      exact ⟨q.dropLast, b.1, by rw [hq, List.dropLast_append_getLast? b hb], rfl⟩

/-- What `alloRowMemory` takes leaves the cache. -/
lemma cachedPtrs_alloRowMemory {a a' : ChunkAllocator} {size p : ℕ}
    (h : alloRowMemory a size = some (some p, a')) :
    (cachedPtrs a).Perm (p :: cachedPtrs a') := by
  obtain ⟨q, now, hq, rfl⟩ := alloRowMemory_hit h
  refine (cachedPtrs_find hq).trans ?_
  refine List.Perm.trans ?_ ((cachedPtrs_alter a size fun _ => q).symm.cons p)
  simp only [List.map_append, List.map_cons, List.map_nil, List.append_assoc,
    List.singleton_append]
  exact List.perm_middle

lemma alloRowMemory_miss {a a' : ChunkAllocator} {size : ℕ}
    (h : alloRowMemory a size = some (none, a')) : a' = a ∧ a.memBuffer.find size = none := by
  unfold alloRowMemory at h
  split at h
  · rename_i hf; simp only [Option.some.injEq, Prod.mk.injEq, true_and] at h; exact ⟨h.symm, hf⟩
  · split at h <;> simp at h

/-- `back()` of an empty queue. -/
lemma alloRowMemory_eq_none {a : ChunkAllocator} {size : ℕ} :
    alloRowMemory a size = none ↔ a.memBuffer.find size = some [] := by
  unfold alloRowMemory
  rcases a.memBuffer.find size with _ | q
  · simp
  · rcases List.eq_nil_or_concat q with rfl | ⟨r, b, rfl⟩ <;> simp

lemma nodup_of_subperm {l l' : List ℕ} (h : l.Subperm l') (hl : l'.Nodup) : l.Nodup := by
  obtain ⟨m, hm, hs⟩ := h
  exact hm.nodup_iff.mp (hs.nodup hl)

/-- What a step can do. -/
inductive Stepped (s : State) : Action → State → Prop
  /-- No queue has the size, and the block is to come from the heap. -/
  | miss {ulElemSize sizeofT : ℕ}
      (h : s.alloc.memBuffer.find (allocSize align ulElemSize sizeofT) = none) :
      Stepped s (.alloRowMemory ulElemSize sizeofT)
        { s with pendingNew := allocSize align ulElemSize sizeofT :: s.pendingNew }
  | hit {ulElemSize sizeofT p : ℕ} {a : ChunkAllocator}
      (h : alloRowMemory s.alloc (allocSize align ulElemSize sizeofT) = some (some p, a)) :
      Stepped s (.alloRowMemory ulElemSize sizeofT)
        { s with alloc := a, held := (allocSize align ulElemSize sizeofT, p) :: s.held }
  | newBlock {size p : ℕ} (h : size ∈ s.pendingNew) (hp : p ∉ owned s) :
      Stepped s (.newBlock size p)
        { s with
          alloc := { s.alloc with m_sizeTotal := Word.add 32 s.alloc.m_sizeTotal size }
          pendingNew := s.pendingNew.erase size
          held := (size, p) :: s.held }
  | release {size p : ℕ} (h : (size, p) ∈ s.held) :
      Stepped s (.release size p)
        { s with
          alloc := { s.alloc with m_sizeFree := Word.add 32 s.alloc.m_sizeFree size }
          held := s.held.erase (size, p)
          releasing := (size, p) :: s.releasing }
  | deallocate {size p : ℕ} {now timeNow : TimeType} (h : (size, p) ∈ s.releasing) :
      Stepped s (.deallocate size p now timeNow)
        { s with
          alloc := deallocate s.alloc size p now timeNow
          releasing := s.releasing.erase (size, p) }
  | sweep (timeNow : TimeType) :
      Stepped s (.freeExpiredMemory timeNow)
        { s with alloc := freeExpiredMemory s.alloc timeNow }
  | fires {framTime : ℤ} (timeNow : TimeType) (h : timerFires s framTime) :
      Stepped s (.onTimer framTime timeNow)
        { s with alloc := freeExpiredMemory s.alloc timeNow, timeLast := some framTime }
  | early {framTime : ℤ} (timeNow : TimeType) (h : ¬ timerFires s framTime) :
      Stepped s (.onTimer framTime timeNow)
        { s with timeLast := some (s.timeLast.getD framTime) }

lemma step_cases {s t : State} {a : Action} (h : step align s a = some t) :
    Stepped align s a t := by
  cases a with
  | alloRowMemory ulElemSize sizeofT =>
    simp only [step] at h
    split at h
    · cases h
    · next a' ha =>
      obtain ⟨rfl, hf⟩ := alloRowMemory_miss ha
      exact Option.some.inj h ▸ .miss hf
    · next p a' ha => exact Option.some.inj h ▸ .hit ha
  | newBlock size p =>
    simp only [step] at h
    split_ifs at h with hc
    exact Option.some.inj h ▸ .newBlock hc.1 hc.2
  | release size p =>
    simp only [step] at h
    split_ifs at h with hc
    exact Option.some.inj h ▸ .release hc
  | deallocate size p now timeNow =>
    simp only [step] at h
    split_ifs at h with hc
    exact Option.some.inj h ▸ .deallocate hc
  | freeExpiredMemory timeNow => exact Option.some.inj h ▸ .sweep timeNow
  | onTimer framTime timeNow =>
    simp only [step] at h
    split_ifs at h with hf
    · exact Option.some.inj h ▸ .fires timeNow hf
    · exact Option.some.inj h ▸ .early timeNow hf

/-- A step hands the blocks around, gives some back to the heap, and takes new ones only
from outside. -/
lemma owned_step {s t : State} {a : Action} (h : step align s a = some t) :
    (owned t).Subperm (owned s) ∨ ∃ p, p ∉ owned s ∧ (owned t).Subperm (p :: owned s) := by
  cases step_cases align h with
  | miss => exact .inl (List.Subperm.refl _)
  | hit ha =>
    left
    have hc := cachedPtrs_alloRowMemory ha
    refine List.Perm.subperm ?_
    simp only [owned, List.map_cons, List.cons_append]
    exact List.perm_middle.trans (hc.symm.append_right _)
  | @newBlock size p _ hp =>
    right
    refine ⟨p, hp, List.Perm.subperm ?_⟩
    simp only [owned, List.map_cons, List.cons_append]
    exact List.perm_middle
  | release hc =>
    left
    have hp := (List.perm_cons_erase hc).map Prod.snd
    refine List.Perm.subperm (List.Perm.append_left _ ?_)
    simp only [List.map_cons] at hp ⊢
    exact List.perm_middle.trans (hp.symm.append_right _)
  | @deallocate size p now timeNow hc =>
    left
    have hp := (List.perm_cons_erase hc).map Prod.snd
    have hd := cachedPtrs_deallocate s.alloc size p now timeNow
    simp only [List.map_cons] at hp
    refine ((List.subperm_append_right _).mpr hd).trans (List.Perm.subperm ?_)
    simp only [owned, List.cons_append]
    refine List.perm_middle.symm.trans (List.Perm.append_left _ ?_)
    exact List.perm_middle.symm.trans (hp.symm.append_left _)
  | sweep timeNow => exact .inl ((cachedPtrs_sweep _ _).append_right _).subperm
  | fires timeNow => exact .inl ((cachedPtrs_sweep _ _).append_right _).subperm
  | early => exact .inl (List.Subperm.refl _)

/-! ### When a queue is empty -/

/-- A step after which the queue of `size` is not an empty one left over: a release of that
size, or a sweep of the cache. -/
def refills (s : State) (size : ℕ) : Action → Prop
  | .deallocate size' _ _ _ => size' = size ∨ overLimit s.alloc
  | .freeExpiredMemory _ => True
  | .onTimer framTime _ => timerFires s framTime
  | _ => False

/-- After the actions `h`, the last cached block of `size` was taken by an allocation, and
neither a release of that size nor a sweep came since. -/
inductive Drained (s₀ : State) (size : ℕ) : List Action → Prop
  | take {h n sz t b} : exec (step align) s₀ h = some t → allocSize align n sz = size →
      t.alloc.memBuffer.find size = some [b] → Drained s₀ size (h ++ [.alloRowMemory n sz])
  | keep {h a t} : Drained s₀ size h → exec (step align) s₀ h = some t →
      ¬ refills t size a → Drained s₀ size (h ++ [a])

/-- What a step does to an empty queue, and how one comes about. -/
lemma find_step {s t : State} {a : Action} {size : ℕ} (h : step align s a = some t) :
    t.alloc.memBuffer.find size = some [] ↔
      (∃ n sz b, a = .alloRowMemory n sz ∧ allocSize align n sz = size ∧
        s.alloc.memBuffer.find size = some [b]) ∨
      (s.alloc.memBuffer.find size = some [] ∧ ¬ refills s size a) := by
  cases step_cases align h with
  | @miss n sz hf =>
    have hr : ¬ refills s size (.alloRowMemory n sz) := id
    constructor
    · exact fun h' => Or.inr ⟨h', hr⟩
    · rintro (⟨n', sz', b, he, rfl, hb⟩ | ⟨h', -⟩)
      · obtain ⟨rfl, rfl⟩ := Action.alloRowMemory.inj he
        rw [hf] at hb
        cases hb
      · exact h'
  | @hit n sz p a' ha =>
    have hr : ¬ refills s size (.alloRowMemory n sz) := id
    obtain ⟨q, now, hq, rfl⟩ := alloRowMemory_hit ha
    simp only [SortedMap.find_insert]
    split_ifs with hs
    · subst hs
      rw [hq]
      constructor
      · intro h'
        obtain rfl : q = [] := Option.some.inj h'
        exact Or.inl ⟨n, sz, (now, p), rfl, rfl, rfl⟩
      · rintro (⟨n', sz', b', he, hs', hb'⟩ | ⟨h', -⟩)
        · have hlen := congrArg List.length (Option.some.inj hb')
          rw [List.length_append, List.length_singleton, List.length_singleton] at hlen
          rw [List.length_eq_zero_iff.mp (Nat.succ.inj hlen)]
        · exact absurd (Option.some.inj h') (by simp)
    · constructor
      · exact fun h' => Or.inr ⟨h', hr⟩
      · rintro (⟨n', sz', b', he, hs', -⟩ | ⟨h', -⟩)
        · obtain ⟨rfl, rfl⟩ := Action.alloRowMemory.inj he
          exact absurd hs'.symm hs
        · exact h'
  | newBlock | release => simp [refills]
  | deallocate =>
    simp only [find_deallocate, refills, reduceCtorEq, false_and, exists_false, false_or, not_or]
    exact and_congr_right fun _ => and_congr_left fun _ => not_congr eq_comm
  | sweep => simp [refills, freeExpiredMemory, find_sweep_ne]
  | fires _ hf => simp [refills, hf, freeExpiredMemory, find_sweep_ne]
  | early _ hf => simp [refills, hf]

/-- What holds after the actions `h` of any run. -/
structure Inv (s₀ : State) (h : List Action) (s : State) : Prop where
  reach : exec (step align) s₀ h = some s
  nodup : (owned s).Nodup
  drained : ∀ size, s.alloc.memBuffer.find size = some [] ↔ Drained align s₀ size h

lemma inv_init (ulExpiredTime ulMaxCache : ℕ) :
    Inv align (init ulExpiredTime ulMaxCache) [] (init ulExpiredTime ulMaxCache) where
  reach := rfl
  nodup := by simp [owned, init, construct, cachedPtrs, SortedMap.empty]
  drained size := by
    constructor
    · simp [init, construct]
    · intro h
      generalize he : ([] : List Action) = l at h
      cases h <;> simp at he

lemma inv_step {s₀ s t : State} {h : List Action} {a : Action} (hi : Inv align s₀ h s)
    (hs : step align s a = some t) : Inv align s₀ (h ++ [a]) t where
  reach := by rw [exec_snoc, hi.reach]; exact hs
  nodup := by
    rcases owned_step align hs with ho | ⟨p, hp, ho⟩
    · exact nodup_of_subperm ho hi.nodup
    · exact nodup_of_subperm ho (List.nodup_cons.mpr ⟨hp, hi.nodup⟩)
  drained size := by
    rw [find_step align hs]
    constructor
    · rintro (⟨n, sz, b, rfl, hn, hb⟩ | ⟨he, hr⟩)
      · exact .take hi.reach hn hb
      · exact .keep ((hi.drained size).mp he) hi.reach hr
    · intro hd
      generalize hl : h ++ [a] = l at hd
      cases hd with
      | take he hn hb =>
        obtain ⟨rfl, ha⟩ := List.append_inj' hl rfl
        rw [hi.reach] at he
        obtain rfl := Option.some.inj he
        exact Or.inl ⟨_, _, _, (List.cons.inj ha).1, hn, hb⟩
      | keep hd he hr =>
        obtain ⟨rfl, ha⟩ := List.append_inj' hl rfl
        rw [hi.reach] at he
        obtain rfl := Option.some.inj he
        rw [(List.cons.inj ha).1]
        exact Or.inr ⟨(hi.drained size).mpr hd, hr⟩

/-! ### Allocating from the cache -/

/-- An allocation does not take from an empty queue, and the pointer a step returns is
neither held by a live `shared_ptr` nor still cached. -/
def AllocSound (s : State) (a : Action) : Prop :=
  (∀ n sz, a = .alloRowMemory n sz →
    s.alloc.memBuffer.find (allocSize align n sz) ≠ some []) ∧
  ∀ t p, step align s a = some t → returned align s a = some p →
    p ∉ s.held.map Prod.snd ∧ p ∉ cachedPtrs t.alloc

/-- No allocation asks for a size whose queue was emptied and not refilled since. -/
def AsksRefilled (s₀ : State) (h : List Action) (a : Action) : Prop :=
  ∀ n sz, a = .alloRowMemory n sz → ¬ Drained align s₀ (allocSize align n sz) h

lemma returned_fresh {s t : State} {a : Action} {p : ℕ} (hn : (owned s).Nodup)
    (hs : step align s a = some t) (hp : returned align s a = some p) :
    p ∉ s.held.map Prod.snd ∧ p ∉ cachedPtrs t.alloc := by
  cases a with
  | alloRowMemory n sz =>
    simp only [returned] at hp
    obtain ⟨⟨o, a'⟩, ha, rfl⟩ := Option.bind_eq_some_iff.mp hp
    simp only [step, ha] at hs
    have hc := cachedPtrs_alloRowMemory ha
    have hn' := ((hc.append_right _).nodup_iff).mp hn
    rw [List.cons_append, List.nodup_cons, List.mem_append] at hn'
    rw [← Option.some.inj hs]
    exact ⟨fun hm => hn'.1 (Or.inr (List.mem_append_left _ hm)), fun hm => hn'.1 (Or.inl hm)⟩
  | newBlock size p' =>
    obtain rfl := Option.some.inj hp
    simp only [step] at hs
    split_ifs at hs with hc
    rw [← Option.some.inj hs]
    have ho := hc.2
    simp only [owned, List.mem_append, not_or] at ho
    exact ⟨ho.2.1, ho.1⟩
  | _ => simp [returned] at hp

lemma allocSound_iff {s₀ s : State} {h : List Action} {a : Action} (hi : Inv align s₀ h s) :
    AllocSound align s a ↔ AsksRefilled align s₀ h a := by
  constructor
  · intro hs n sz ha hd
    exact hs.1 n sz ha ((hi.drained _).mpr hd)
  · intro hc
    refine ⟨fun n sz ha he => hc n sz ha ((hi.drained _).mp he), fun t p ht hp => ?_⟩
    exact returned_fresh align hi.nodup ht hp

/-- **Reuse of cached blocks**: along a run every allocation takes from a non-empty queue and
returns a block nobody else has, exactly when none asks for a size whose last cached block
was taken before and which was neither released nor swept since. -/
theorem allocSound_run_iff (ulExpiredTime ulMaxCache : ℕ) (as : List Action) :
    Always (step align) (fun _ => AllocSound align) (init ulExpiredTime ulMaxCache) as ↔
      Always (step align) (fun h _ => AsksRefilled align (init ulExpiredTime ulMaxCache) h)
        (init ulExpiredTime ulMaxCache) as :=
  always_congr (I := Inv align (init ulExpiredTime ulMaxCache)) (inv_init align _ _)
    (fun _ _ _ _ hi _ hs => inv_step align hi hs) (fun _ _ _ hi => allocSound_iff align hi) as

/-- The cached block of a size is reused, and the size is asked for again. -/
def reuseTwice : List Action :=
  [.alloRowMemory 20 4, .newBlock 1024 1, .release 1024 1, .deallocate 1024 1 0 0,
    .alloRowMemory 20 4, .alloRowMemory 20 4]

/-- The third allocation of one size calls `back()` on the queue the second one emptied. -/
theorem reuseTwice_takes_from_empty :
    ¬ Always (step 10) (fun _ => AllocSound 10) (init 60 64) reuseTwice := by
  intro h
  have he : (exec (step 10) (init 60 64) (reuseTwice.take 5)).map
      (fun s => s.alloc.memBuffer.find 1024) = some (some []) := by decide
  obtain ⟨s, hs, hf⟩ := Option.map_eq_some_iff.mp he
  exact (h (reuseTwice.take 5) (.alloRowMemory 20 4) [] s rfl hs).1 20 4 rfl hf

end MmrService.ChunkAlloc
