import MmrService.Timers

/-!
A timer is freed once, and not used afterwards.

The timers in memory that are not marked as destroyed are those of the heap; one that is marked
is pending, and what is pending is in the part of the list that is still to be processed.
-/

namespace MmrService.Timers

open Heap

variable {l l' : hloop} {t : ℕ} {v v' : htimeout} {busy : List ℕ} {s : Finset ℕ}

/-! ### What is in memory -/

/-- The timers of `s` run, the others in memory wait to be freed, and the rest of those given out
were freed. -/
structure Mem (busy : List ℕ) (s : Finset ℕ) (timer : ℕ → Option htimeout) (fresh : ℕ)
    (freed : List ℕ) : Prop where
  mem : ∀ t, t ∈ s ↔ ∃ v, timer t = some v ∧ v.destroy = false
  active : ∀ t v, timer t = some v → v.destroy = false → v.active = true
  doomed : ∀ t v, timer t = some v → v.destroy = true → v.pending = true
  queued : ∀ t v, timer t = some v → v.pending = true → t ∈ busy
  alive : ∀ t ∈ busy, timer t ≠ none
  period : ∀ t v, timer t = some v → 0 < v.timeout
  below : ∀ t, timer t ≠ none → t < fresh
  once : freed.Nodup
  freed : ∀ t, t ∈ freed ↔ t < fresh ∧ timer t = none

namespace Mem

variable {timer : ℕ → Option htimeout} {fresh : ℕ} {freed : List ℕ}

/-- A timer that may be in memory as it is. -/
structure Sound (busy : List ℕ) (t : ℕ) (v : htimeout) : Prop where
  active : v.destroy = false → v.active = true
  doomed : v.destroy = true → v.pending = true
  queued : v.pending = true → t ∈ busy
  period : 0 < v.timeout

lemma sound (m : Mem busy s timer fresh freed) (ht : timer t = some v) : Sound busy t v where
  active := m.active t v ht
  doomed := m.doomed t v ht
  queued := m.queued t v ht
  period := m.period t v ht

/-- What `s` is when `t` is `v`. -/
def running (s : Finset ℕ) (t : ℕ) (v : htimeout) : Finset ℕ :=
  if v.destroy then s.erase t else insert t s

lemma mem_running {x : ℕ} : x ∈ running s t v ↔ (x = t ∧ v.destroy = false) ∨ (x ≠ t ∧ x ∈ s) := by
  rw [running]
  split_ifs with hd
  · simp [hd]
  · simp only [Finset.mem_insert, hd]
    tauto

/-- A timer in memory changes, or a new one is put there. -/
lemma set (m : Mem busy s timer fresh freed) (ht : t ∉ freed) (hv : Sound busy t v)
    {fresh' : ℕ} (hlt : t < fresh') (hle : fresh ≤ fresh')
    (hnew : ∀ x, fresh ≤ x → x < fresh' → x = t) :
    Mem busy (running s t v) (Function.update timer t (some v)) fresh' freed := by
  have key : ∀ x w, Function.update timer t (some v) x = some w →
      x = t ∧ w = v ∨ x ≠ t ∧ timer x = some w := by
    intro x w hx
    by_cases hxt : x = t
    · subst hxt
      rw [Function.update_self] at hx
      exact .inl ⟨rfl, (Option.some.inj hx).symm⟩
    · rw [Function.update_of_ne hxt] at hx
      exact .inr ⟨hxt, hx⟩
  constructor
  case mem =>
    intro x
    rw [mem_running, m.mem]
    by_cases hxt : x = t
    · subst hxt
      simp
    · simp [hxt]
  case active =>
    intro x w hx hd
    obtain ⟨-, rfl⟩ | ⟨-, hx⟩ := key x w hx
    · exact hv.active hd
    · exact m.active x w hx hd
  case doomed =>
    intro x w hx hd
    obtain ⟨-, rfl⟩ | ⟨-, hx⟩ := key x w hx
    · exact hv.doomed hd
    · exact m.doomed x w hx hd
  case queued =>
    intro x w hx hp
    obtain ⟨rfl, rfl⟩ | ⟨-, hx⟩ := key x w hx
    · exact hv.queued hp
    · exact m.queued x w hx hp
  case alive =>
    intro x hx
    by_cases hxt : x = t
    · subst hxt
      simp
    · rw [Function.update_of_ne hxt]
      exact m.alive x hx
  case period =>
    intro x w hx
    obtain ⟨-, rfl⟩ | ⟨-, hx⟩ := key x w hx
    · exact hv.period
    · exact m.period x w hx
  case below =>
    intro x hx
    by_cases hxt : x = t
    · rwa [hxt]
    · rw [Function.update_of_ne hxt] at hx
      exact (m.below x hx).trans_le hle
  case once => exact m.once
  case freed =>
    intro x
    by_cases hxt : x = t
    · subst hxt
      simp [ht]
    · rw [Function.update_of_ne hxt, m.freed]
      have := hnew x
      constructor
      · exact fun hx => ⟨hx.1.trans_le hle, hx.2⟩
      · exact fun hx => ⟨by by_contra hge; exact hxt (this (by omega) hx.1), hx.2⟩

/-- A timer is freed, and is not in the list any more. -/
lemma free {busy' : List ℕ} (m : Mem busy s timer fresh freed) (ht : timer t ≠ none)
    (hb : t ∉ busy') (hsub : ∀ x ∈ busy', x ∈ busy) (hrest : ∀ x ∈ busy, x ≠ t → x ∈ busy') :
    Mem busy' (s.erase t) (Function.update timer t none) fresh (freed ++ [t]) := by
  have key : ∀ x w, Function.update timer t none x = some w → x ≠ t ∧ timer x = some w := by
    intro x w hx
    by_cases hxt : x = t
    · subst hxt
      rw [Function.update_self] at hx
      cases hx
    · rw [Function.update_of_ne hxt] at hx
      exact ⟨hxt, hx⟩
  constructor
  case mem =>
    intro x
    rw [Finset.mem_erase, m.mem]
    constructor
    · rintro ⟨hxt, w, hx, hd⟩
      exact ⟨w, by rwa [Function.update_of_ne hxt], hd⟩
    · rintro ⟨w, hx, hd⟩
      exact ⟨(key x w hx).1, w, (key x w hx).2, hd⟩
  case active => exact fun x w hx => m.active x w (key x w hx).2
  case doomed => exact fun x w hx => m.doomed x w (key x w hx).2
  case queued => exact fun x w hx hp => hrest x (m.queued x w (key x w hx).2 hp) (key x w hx).1
  case alive =>
    intro x hx
    have hxt : x ≠ t := by
      rintro rfl
      exact hb hx
    rw [Function.update_of_ne hxt]
    exact m.alive x (hsub x hx)
  case period => exact fun x w hx => m.period x w (key x w hx).2
  case below =>
    intro x hx
    by_cases hxt : x = t
    · rw [hxt]
      exact m.below t ht
    · rw [Function.update_of_ne hxt] at hx
      exact m.below x hx
  case once =>
    refine List.nodup_append.mpr ⟨m.once, List.nodup_singleton t, ?_⟩
    intro x hx y hy
    rw [List.mem_singleton.mp hy]
    rintro rfl
    exact ht ((m.freed x).mp hx).2
  case freed =>
    intro x
    rw [List.mem_append, List.mem_singleton, m.freed]
    by_cases hxt : x = t
    · subst hxt
      simp [m.below x ht]
    · simp [hxt]

/-- The list to be processed is another one, with the same pending timers. -/
lemma process {busy' : List ℕ} (m : Mem busy s timer fresh freed)
    (hq : ∀ t v, timer t = some v → v.pending = true → t ∈ busy')
    (ha : ∀ t ∈ busy', timer t ≠ none) : Mem busy' s timer fresh freed :=
  { m with queued := hq, alive := ha }

end Mem

/-! ### The heap -/

@[simp] lemma put_timer : (l.put t v).timer = Function.update l.timer t (some v) := rfl

@[simp] lemma put_timers : (l.put t v).timers = l.timers := rfl

lemma get_eq (ht : l.timer t = some v) : l.get t = .ok v := by rw [hloop.get, ht]; rfl

lemma key_put : (l.put t v).key = Function.update l.key t v.next_timeout := by
  funext x
  by_cases hx : x = t
  · subst hx
    simp [hloop.key]
  · simp [hloop.key, hx]

/-- A timer that is not in the heap changes. -/
lemma valid_put (hv : Valid l.key l.timers s) (ht : t ∉ s) : Valid (l.put t v).key l.timers s := by
  refine hv.congr fun x hx => ?_
  have hxt : x ≠ t := by
    rintro rfl
    exact ht hx
  rw [key_put, Function.update_of_ne hxt]

/-- A timer changes, and not the time that it is in the heap with. -/
lemma valid_put_of_eq (hv : Valid l.key l.timers s) (hk : v.next_timeout = l.key t) :
    Valid (l.put t v).key l.timers s := by
  refine hv.congr fun x _ => ?_
  rw [key_put, hk, Function.update_eq_self]

lemma withHeap_insert (hv : Valid l.key l.timers s) (ht : t ∉ s) (hroom : s.card ≠ INT_MAX) :
    ∃ h, (l.withHeap fun key h => heap_insert key h t) = .ok { l with timers := h } ∧
      Valid l.key h (insert t s) := by
  obtain ⟨h, hh, hv'⟩ := hv.inserted ht hroom
  refine ⟨h, ?_, hv'⟩
  rw [hloop.withHeap, hh]
  rfl

lemma withHeap_remove (hv : Valid l.key l.timers s) (ht : t ∈ s) :
    ∃ h, (l.withHeap fun key h => heap_remove key h t) = .ok { l with timers := h } ∧
      Valid l.key h (s.erase t) := by
  obtain ⟨h, hh, hv'⟩ := hv.removed ht
  refine ⟨h, ?_, hv'⟩
  rw [hloop.withHeap, hh]
  rfl

lemma withHeap_dequeue (hv : Valid l.key l.timers s) (ht : l.timers.root = some t) :
    ∃ h, l.withHeap heap_dequeue = .ok { l with timers := h } ∧ Valid l.key h (s.erase t) := by
  obtain ⟨h, hh, hv'⟩ := hv.removed (hv.root.2 t ht).1
  refine ⟨h, ?_, hv'⟩
  rw [hloop.withHeap, heap_dequeue, ht]
  simp only [hh]
  rfl

/-! ### The calls -/

/-- The heap has the timers that run, and the list `busy` is what is still to be processed. -/
structure Inv (busy : List ℕ) (s : Finset ℕ) (l : hloop) : Prop where
  valid : Valid l.key l.timers s
  room : s.card ≤ INT_MAX
  count : l.ntimers = s.card
  mem : Mem busy s l.timer l.fresh l.freed

lemma inv_init (now : ℕ) : Inv [] ∅ (hloop_init now) where
  valid := valid_init _
  room := Nat.zero_le _
  count := rfl
  mem :=
    { mem := fun t => by simp [hloop_init]
      active := fun t v ht => by cases ht
      doomed := fun t v ht => by cases ht
      queued := fun t v ht => by cases ht
      alive := fun t ht => by cases ht
      period := fun t v ht => by cases ht
      below := fun t ht => absurd rfl ht
      once := List.nodup_nil
      freed := fun t => by simp [hloop_init] }

/-- A timer is written, and nothing else that is told of here. -/
structure Sets (t : ℕ) (v : htimeout) (l l' : hloop) : Prop where
  timer : l'.timer = Function.update l.timer t (some v)
  timers : l'.timers = l.timers
  fresh : l'.fresh = l.fresh
  freed : l'.freed = l.freed
  ntimers : l'.ntimers = l.ntimers
  cur_hrtime : l'.cur_hrtime = l.cur_hrtime
  pendings : l'.pendings = l.pendings

lemma sets_put (l : hloop) (t : ℕ) (v : htimeout) : Sets t v l (l.put t v) :=
  ⟨rfl, rfl, rfl, rfl, rfl, rfl, rfl⟩

lemma Sets.refl (ht : l.timer t = some v) : Sets t v l l :=
  ⟨by rw [← ht, Function.update_eq_self], rfl, rfl, rfl, rfl, rfl, rfl⟩

lemma Sets.trans {l'' : hloop} (h : Sets t v l l') (h' : Sets t v' l' l'') : Sets t v' l l'' :=
  ⟨by rw [h'.timer, h.timer, Function.update_idem], h'.timers.trans h.timers,
    h'.fresh.trans h.fresh, h'.freed.trans h.freed, h'.ntimers.trans h.ntimers,
    h'.cur_hrtime.trans h.cur_hrtime, h'.pendings.trans h.pendings⟩

lemma Sets.get (h : Sets t v l l') : l'.timer t = some v := by rw [h.timer, Function.update_self]

lemma Sets.key (h : Sets t v l l') : l'.key = (l.put t v).key := by
  funext x
  rw [hloop.key, hloop.key, h.timer, put_timer]

/-- A timer is written, and not the time that it is in the heap with. -/
lemma Sets.valid (h : Sets t v l l') (hv : Valid l.key l.timers s) (hk : v.next_timeout = l.key t) :
    Valid l'.key l'.timers s := by
  rw [h.key, h.timers]
  exact valid_put_of_eq hv hk

lemma key_eq (ht : l.timer t = some v) : l.key t = v.next_timeout := by rw [hloop.key, ht]; rfl

lemma ok_bind {α β : Type} (a : α) (f : α → Except Stop β) : (Except.ok a >>= f) = f a := rfl

lemma sets_active (ht : l.timer t = some v) :
    ∃ l', l.EVENT_ACTIVE t = .ok l' ∧ Sets t { v with active := true } l l' := by
  rw [hloop.EVENT_ACTIVE, get_eq ht, ok_bind]
  split_ifs with ha
  · exact ⟨l, rfl, .refl (by rw [ht, ← ha])⟩
  · exact ⟨_, rfl, ⟨rfl, rfl, rfl, rfl, rfl, rfl, rfl⟩⟩

lemma sets_inactive (ht : l.timer t = some v) :
    ∃ l', l.EVENT_INACTIVE t = .ok l' ∧ Sets t { v with active := false } l l' := by
  rw [hloop.EVENT_INACTIVE, get_eq ht, ok_bind]
  split_ifs with ha
  · exact ⟨_, rfl, ⟨rfl, rfl, rfl, rfl, rfl, rfl, rfl⟩⟩
  · exact ⟨l, rfl, .refl (by rw [ht, ← Bool.eq_false_of_not_eq_true ha])⟩

lemma sets_reset (ht : l.timer t = some v) :
    ∃ l', l.EVENT_RESET t = .ok l' ∧
      Sets t { v with destroy := false, active := true, pending := false } l l' := by
  obtain ⟨l₁, hact, h₁⟩ := sets_active (l := l.put t { v with destroy := false }) (t := t)
    (v := { v with destroy := false }) (Function.update_self ..)
  refine ⟨_, ?_, ((sets_put l t _).trans h₁).trans (sets_put l₁ t _)⟩
  rw [hloop.EVENT_RESET, get_eq ht, ok_bind, hact, ok_bind, get_eq h₁.get, ok_bind]

/-- What `EVENT_DEL` does to a timer: it waits to be freed if it is pending, or is freed. -/
lemma EVENT_DEL_cases (ht : l.timer t = some v) :
    ∃ l', l.EVENT_DEL t = .ok l' ∧ l'.timers = l.timers ∧ l'.fresh = l.fresh ∧
      l'.ntimers = l.ntimers ∧ l'.pendings = l.pendings ∧
      (v.pending = true ∧ l'.freed = l.freed ∧
          l'.timer = Function.update l.timer t (some { v with active := false }) ∨
        v.pending = false ∧ l'.freed = l.freed ++ [t] ∧
          l'.timer = Function.update l.timer t none) := by
  obtain ⟨l₁, hact, h₁⟩ := sets_inactive ht
  rw [hloop.EVENT_DEL, hact, ok_bind, get_eq h₁.get, ok_bind]
  split_ifs with hp
  · exact ⟨l₁, rfl, h₁.timers, h₁.fresh, h₁.ntimers, h₁.pendings, .inl ⟨hp, h₁.freed, h₁.timer⟩⟩
  · refine ⟨{ l₁ with timer := Function.update l₁.timer t none, freed := l₁.freed ++ [t] }, ?_,
      h₁.timers, h₁.fresh, h₁.ntimers, h₁.pendings, .inr ⟨Bool.eq_false_of_not_eq_true hp, ?_, ?_⟩⟩
    · rw [hloop.free, get_eq h₁.get]
      rfl
    · exact congrArg (· ++ [t]) h₁.freed
    · exact (congrArg (Function.update · t none) h₁.timer).trans (Function.update_idem ..)

namespace Inv

lemma notMem_of_none (i : Inv busy s l) (ht : l.timer t = none) : t ∉ s := by
  intro hts
  obtain ⟨v, hv, -⟩ := (i.mem.mem t).mp hts
  rw [ht] at hv
  cases hv

lemma fresh_none (i : Inv busy s l) : l.timer l.fresh = none := by
  by_contra hne
  exact absurd (i.mem.below _ hne) (lt_irrefl _)

lemma notMem_freed (i : Inv busy s l) (ht : l.timer t = some v) : t ∉ l.freed := by
  rw [i.mem.freed, ht]
  simp

lemma card_lt (i : Inv busy s l) (h : l.timers.nelts < INT_MAX) : s.card < INT_MAX := by
  rwa [i.valid.1] at h

/-- The heap has room for a timer that was taken out of it. -/
lemma card_erase_ne (i : Inv busy s l) (ht : t ∈ s) : (s.erase t).card ≠ INT_MAX := by
  have := i.room
  have := Finset.card_erase_lt_of_mem ht
  omega

/-- A new timer runs. -/
lemma add (i : Inv busy s l) (hroom : l.timers.nelts < INT_MAX) (now timeout_ms repeats : ℕ) :
    ∃ l' s', htimer_add l now timeout_ms repeats = .ok l' ∧ Inv busy s' l' ∧
      l'.pendings = l.pendings := by
  rw [htimer_add]
  split_ifs with h0
  · exact ⟨l, s, rfl, i, rfl⟩
  have hnone := i.fresh_none
  have hs := i.notMem_of_none hnone
  set v : htimeout := ⟨false, false, false, repeats, timeout_ms,
    granular timeout_ms (now + timeout_ms * 1000)⟩
  set l₁ : hloop := { l with fresh := l.fresh + 1, cur_hrtime := now }.put l.fresh v
  have ht₁ : l₁.timer l.fresh = some v := Function.update_self ..
  have hv₁ : Valid l₁.key l₁.timers s :=
    valid_put (l := { l with fresh := _, cur_hrtime := _ }) i.valid hs
  have hcard := i.card_lt hroom
  obtain ⟨h, hheap, hv₂⟩ := withHeap_insert hv₁ hs hcard.ne
  obtain ⟨l', hact, hl'⟩ := sets_active (l := { l₁ with timers := h }) ht₁
  refine ⟨{ l' with ntimers := l'.ntimers + 1 }, insert l.fresh s, ?_, ⟨?_, ?_, ?_, ?_⟩,
    hl'.pendings⟩
  · change (l₁.withHeap (fun key h => heap_insert key h l.fresh) >>= _) = _
    rw [hheap, ok_bind, hact, ok_bind]
  · exact hl'.valid (l := { l₁ with timers := h }) hv₂ (key_eq ht₁).symm
  · rwa [Finset.card_insert_of_notMem hs]
  · change l'.ntimers + 1 = _
    rw [hl'.ntimers, Finset.card_insert_of_notMem hs]
    exact congrArg (· + 1) i.count
  · have hsound : Mem.Sound busy l.fresh { v with active := true } :=
      ⟨fun _ => rfl, fun hd => hd, fun hp => absurd hp Bool.false_ne_true, Nat.pos_of_ne_zero h0⟩
    have hm := i.mem.set (by rw [i.mem.freed]; simp) hsound (Nat.lt_succ_self _)
      (Nat.le_succ _) (by omega)
    rw [Mem.running, if_neg Bool.false_ne_true] at hm
    change Mem busy _ l'.timer l'.fresh l'.freed
    rw [hl'.timer, hl'.fresh, hl'.freed]
    change Mem busy _ (Function.update (Function.update l.timer l.fresh (some v)) _ _) _ _
    rw [Function.update_idem]
    exact hm

/-- A timer in memory runs again. -/
lemma reset (i : Inv busy s l) (hroom : l.timers.nelts < INT_MAX) (ht : l.timer t = some v)
    (timeout_ms : ℕ) :
    ∃ l' s', htimer_reset l t timeout_ms = .ok l' ∧ Inv busy s' l' ∧ l'.pendings = l.pendings := by
  have hts : t ∈ s ↔ v.destroy = false := by
    rw [i.mem.mem, ht]
    simp
  -- the timer is not in the heap any more
  have htaken : ∃ h n, takeOut l t v = .ok { l with timers := h, ntimers := n } ∧
      Valid l.key h (s.erase t) ∧ n = (s.erase t).card + 1 := by
    rw [takeOut]
    split_ifs with hd
    · have hnot : t ∉ s := fun hmem => by simp [hts.mp hmem] at hd
      rw [Finset.erase_eq_of_notMem hnot]
      exact ⟨l.timers, _, rfl, i.valid, congrArg (· + 1) i.count⟩
    · have hmem : t ∈ s := hts.mpr (Bool.eq_false_of_not_eq_true hd)
      obtain ⟨h, hheap, hv⟩ := withHeap_remove i.valid hmem
      refine ⟨h, l.ntimers, hheap, hv, ?_⟩
      rw [i.count, Finset.card_erase_add_one hmem]
  obtain ⟨h, n, htaken, hv, hn⟩ := htaken
  set timeout := if 0 < timeout_ms then timeout_ms else v.timeout
  set w : htimeout := { v with
    repeats := if v.repeats = 0 then 1 else v.repeats
    timeout := timeout
    next_timeout := granular timeout (l.cur_hrtime + timeout * 1000) }
  set l₁ : hloop := { l with timers := h, ntimers := n }.put t w
  have ht₁ : l₁.timer t = some w := Function.update_self ..
  have hv₁ : Valid l₁.key l₁.timers (s.erase t) :=
    valid_put (l := { l with timers := h, ntimers := n }) hv (Finset.notMem_erase t s)
  have hcard : (s.erase t).card < INT_MAX := (Finset.card_erase_le).trans_lt (i.card_lt hroom)
  obtain ⟨h', hheap, hv₂⟩ := withHeap_insert hv₁ (Finset.notMem_erase t s) hcard.ne
  obtain ⟨l', hreset, hl'⟩ := sets_reset (l := { l₁ with timers := h' }) ht₁
  refine ⟨l', insert t (s.erase t), ?_, ⟨?_, ?_, ?_, ?_⟩, hl'.pendings⟩
  · rw [htimer_reset, get_eq ht, ok_bind, htaken, ok_bind]
    change (l₁.withHeap (fun key h => heap_insert key h t) >>= _) = _
    rw [hheap, ok_bind, hreset]
  · exact hl'.valid (l := { l₁ with timers := h' }) hv₂ (key_eq ht₁).symm
  · rwa [Finset.card_insert_of_notMem (Finset.notMem_erase t s)]
  · rw [hl'.ntimers, Finset.card_insert_of_notMem (Finset.notMem_erase t s)]
    exact hn
  · have hperiod := i.mem.period t v ht
    have hsound : Mem.Sound busy t { w with destroy := false, active := true, pending := false } :=
      ⟨fun _ => rfl, fun hd => absurd hd Bool.false_ne_true,
        fun hp => absurd hp Bool.false_ne_true, by
          change 0 < timeout
          simp only [timeout]
          split_ifs with h0
          · exact h0
          · exact hperiod⟩
    have hm := i.mem.set (i.notMem_freed ht) hsound
      (i.mem.below t (by rw [ht]; exact Option.some_ne_none v)) le_rfl (by omega)
    rw [Mem.running, if_neg Bool.false_ne_true] at hm
    have herase : insert t (s.erase t) = insert t s := by
      ext x
      simp only [Finset.mem_insert, Finset.mem_erase]
      tauto
    rw [herase, hl'.timer, hl'.fresh, hl'.freed]
    change Mem busy _ (Function.update (Function.update l.timer t (some w)) _ _) _ _
    rw [Function.update_idem]
    exact hm

/-- A timer in memory is marked as destroyed, and in the heap no more. -/
lemma unlink (i : Inv busy s l) (ht : l.timer t = some v) :
    ∃ h n, unlinkTimer l t =
        .ok ({ l with timers := h, ntimers := n }.put t { v with destroy := true }) ∧
      Valid l.key h (s.erase t) ∧ n = (s.erase t).card := by
  have hts : t ∈ s ↔ v.destroy = false := by
    rw [i.mem.mem, ht]
    simp
  rw [unlinkTimer, get_eq ht, ok_bind]
  split_ifs with hd
  · have hnot : t ∉ s := fun hmem => by simp [hts.mp hmem] at hd
    have hsame : Function.update l.timer t (some { v with destroy := true }) = l.timer := by
      rw [← hd, ← ht, Function.update_eq_self]
    refine ⟨l.timers, l.ntimers, ?_, ?_⟩
    · rw [hloop.put, hsame]
    · rw [Finset.erase_eq_of_notMem hnot]
      exact ⟨i.valid, i.count⟩
  · have hmem : t ∈ s := hts.mpr (Bool.eq_false_of_not_eq_true hd)
    obtain ⟨h, hheap, hv⟩ := withHeap_remove i.valid hmem
    refine ⟨h, l.ntimers - 1, ?_, hv, ?_⟩
    · rw [hheap, ok_bind]
      rfl
    · rw [i.count, Finset.card_erase_of_mem hmem]

/-- A timer in memory is deleted. -/
lemma del (i : Inv busy s l) (ht : l.timer t = some v)
    (hb : v.active = false ∨ v.pending = true ∨ t ∉ busy) :
    ∃ l' s', htimer_del l t = .ok l' ∧ Inv busy s' l' ∧ l'.pendings = l.pendings := by
  rw [htimer_del, get_eq ht, ok_bind]
  split_ifs with ha
  swap
  · exact ⟨l, s, rfl, i, rfl⟩
  obtain ⟨h, n, hunlink, hv, hn⟩ := i.unlink ht
  set w : htimeout := { v with destroy := true }
  set l₁ : hloop := { l with timers := h, ntimers := n }.put t w
  have ht₁ : l₁.timer t = some w := Function.update_self ..
  have hv₁ : Valid l₁.key l₁.timers (s.erase t) :=
    valid_put (l := { l with timers := h, ntimers := n }) hv (Finset.notMem_erase t s)
  obtain ⟨l', hdel, htimers, hfresh, hntimers, hpendings, hcases⟩ := EVENT_DEL_cases ht₁
  have hvalid : Valid l'.key l'.timers (s.erase t) := by
    rw [htimers]
    refine hv₁.congr fun x hx => ?_
    have hxt : x ≠ t := Finset.ne_of_mem_erase hx
    rw [hloop.key, hloop.key]
    obtain ⟨-, -, htimer⟩ | ⟨-, -, htimer⟩ := hcases <;> rw [htimer, Function.update_of_ne hxt]
  refine ⟨l', s.erase t, ?_, ⟨hvalid, (Finset.card_erase_le).trans i.room, hntimers.trans hn, ?_⟩,
    hpendings⟩
  · rw [hunlink, ok_bind, hdel]
  · rw [hfresh]
    change Mem busy _ _ l.fresh _
    obtain ⟨hp, hfreed, htimer⟩ | ⟨hp, hfreed, htimer⟩ := hcases
    · have hm := i.mem.set (v := { w with active := false }) (i.notMem_freed ht)
        ⟨fun hd => absurd hd.symm Bool.false_ne_true, fun _ => hp, i.mem.queued t v ht,
          i.mem.period t v ht⟩
        (i.mem.below t (by rw [ht]; exact Option.some_ne_none v)) le_rfl (by omega)
      rw [Mem.running, if_pos rfl] at hm
      rw [hfreed, htimer]
      change Mem busy _ (Function.update (Function.update l.timer t (some w)) _ _) _ _
      rw [Function.update_idem]
      exact hm
    · have hbusy : t ∉ busy := (hb.resolve_left fun hina => by
        rw [ha] at hina
        exact Bool.false_ne_true hina.symm).resolve_left fun hpt => by
          rw [show v.pending = false from hp] at hpt
          exact Bool.false_ne_true hpt
      have hm := i.mem.free (by rw [ht]; exact Option.some_ne_none v) hbusy (fun _ => id)
        fun x hx _ => hx
      rw [hfreed, htimer]
      change Mem busy _ (Function.update (Function.update l.timer t (some w)) _ _) _ _
      rw [Function.update_idem]
      exact hm

/-- A call of the program is misuse, or does what it is for. -/
lemma call (i : Inv busy s l) (c : Call) (hfair : fair busy l c = true) :
    call l c = .error .misuse ∨
      ∃ l' s', call l c = .ok l' ∧ Inv busy s' l' ∧ l'.pendings = l.pendings := by
  cases c with
  | add now timeout_ms repeats =>
    exact .inr (i.add (of_decide_eq_true hfair) now timeout_ms repeats)
  | reset t timeout_ms =>
    rw [Timers.call]
    split_ifs with hnone
    · exact .inl rfl
    · obtain ⟨v, ht⟩ := Option.ne_none_iff_exists'.mp hnone
      exact .inr (i.reset (of_decide_eq_true hfair) ht timeout_ms)
  | del t =>
    rw [Timers.call]
    split_ifs with hnone
    · exact .inl rfl
    · obtain ⟨v, ht⟩ := Option.ne_none_iff_exists'.mp hnone
      rw [fair, ht, Option.all_some, Bool.or_eq_true, Bool.or_eq_true, Bool.not_eq_true',
        decide_eq_true_iff] at hfair
      exact .inr (i.del ht (or_assoc.mp hfair))

lemma calls (i : Inv busy s l) (cs : List Call) (hfair : fairCalls busy l cs = true) :
    calls l cs = .error .misuse ∨
      ∃ l' s', calls l cs = .ok l' ∧ Inv busy s' l' ∧ l'.pendings = l.pendings := by
  induction cs generalizing l s with
  | nil => exact .inr ⟨l, s, rfl, i, rfl⟩
  | cons c cs ih =>
    obtain ⟨hc, hrest⟩ := Transition.check_cons.mp hfair
    rw [Timers.calls, List.foldlM_cons]
    obtain hmis | ⟨l₁, s₁, hok, i₁, hp₁⟩ := i.call c hc
    · rw [hmis]
      exact .inl rfl
    · rw [hok, ok_bind]
      obtain hmis | ⟨l₂, s₂, hok₂, i₂, hp₂⟩ := ih i₁ (hrest l₁ (congrArg Except.toOption hok))
      · exact .inl hmis
      · exact .inr ⟨l₂, s₂, hok₂, i₂, hp₂.trans hp₁⟩

end Inv

end MmrService.Timers
