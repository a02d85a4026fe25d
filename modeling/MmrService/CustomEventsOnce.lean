import MmrService.CustomEvents

/-!
Every event that is posted is handled once, in order, and none is left behind.

The counter is what makes it so: the events in the queue, with one that is about to be put
there, are as many as the counter has and the loop that takes them has rounds left.
-/

namespace MmrService.CustomEvents

open Queue

variable {τ : Type*} [DecidableEq τ] {loop : τ}

/-- A place where the mutex is held. -/
def Post.inside : Post → Bool
  | .locked _ | .written _ | .unlock => true
  | .outside | .lock _ => false

/-- A place where the mutex is held. -/
def Read.inside : Read → Bool
  | .locked _ | .popped _ _ | .unlock => true
  | .outside | .round _ | .callback _ _ => false

def inside (p : Post × Read) : Bool := p.1.inside || p.2.inside

/-- The counter was written and the event is not in the queue. -/
def Post.midway : Post → ℕ
  | .written _ => 1
  | _ => 0

/-- The rounds that will take an event. -/
def Read.left : Read → ℕ
  | .round n | .popped n _ | .callback n _ => n
  | .locked n => n + 1
  | .outside | .unlock => 0

/-- What was taken out of the queue. -/
def Read.taken : Read → List hevent
  | .popped _ ev => [ev]
  | _ => []

/-- In this place of `eventfd_read_cb` the thread of the loop can be in `hloop_post_event`. -/
def Read.calls : Read → Bool
  | .outside | .callback _ _ => true
  | _ => false

/-- The events that are counted and are about to be put into the queue. -/
def midway (m : Option τ) (pc : τ → Post × Read) : ℕ := m.elim 0 fun t => (pc t).1.midway

lemma midway_update (m : Option τ) (pc : τ → Post × Read) (t : τ) (p : Post × Read) :
    midway m (Function.update pc t p) = if m = some t then p.1.midway else midway m pc := by
  cases m with
  | none => rfl
  | some u =>
    by_cases hu : u = t
    · rw [hu, if_pos rfl, midway, Option.elim_some, Function.update_self]
    · rw [if_neg fun he => hu (Option.some.inj he), midway, Option.elim_some,
        Function.update_of_ne hu, midway, Option.elim_some]

/-- The state between two steps, where `xs` is in the queue. -/
structure Inv (loop : τ) (s : State τ) (xs : List hevent) : Prop where
  owned : Mutex.Owned s.custom_events_mutex inside s.pc
  queue : s.custom_events.Good xs
  other : ∀ t, t ≠ loop → (s.pc t).2 = .outside
  apart : (s.pc loop).1 = .outside ∨ (s.pc loop).2.calls = true
  full : (s.pc loop).2 ≠ .unlock
  count : xs.length + midway s.custom_events_mutex s.pc = s.count + (s.pc loop).2.left
  order : s.handled ++ (s.pc loop).2.taken ++ xs = s.posted

omit [DecidableEq τ] in
lemma inv_init (loop : τ) : Inv loop (init τ) [] where
  owned _ := ⟨fun h => Bool.noConfusion h, fun h => by cases h⟩
  queue := queue.good_zeroed
  other _ _ := rfl
  apart := .inl rfl
  full h := by cases h
  count := rfl
  order := rfl

lemma good_initQueue {q : queue hevent} {xs : List hevent} (h : q.Good xs) :
    (initQueue q).Good xs := by
  rw [initQueue]
  split_ifs with h0
  · have hin := h.inside
    have hsize := h.size
    rw [List.eq_nil_of_length_eq_zero (show xs.length = 0 by omega)]
    exact queue.Good.init q _
  · exact h

namespace Inv

variable {s s' : State τ} {xs xs' : List hevent} {t : τ} {p : Post} {r : Read}

/-- A thread goes on in `hloop_post_event`. -/
lemma post_step (i : Inv loop s xs) (hpc : s'.pc = Function.update s.pc t (p, (s.pc t).2))
    (howned : Mutex.Owned s'.custom_events_mutex inside s'.pc)
    (hqueue : s'.custom_events.Good xs') (hapart : (s.pc t).1 ≠ .outside ∨ (s.pc t).2.calls = true)
    (hcount : xs'.length + midway s'.custom_events_mutex s'.pc = s'.count + (s.pc loop).2.left)
    (horder : s'.handled ++ (s.pc loop).2.taken ++ xs' = s'.posted) : Inv loop s' xs' := by
  have hread : ∀ u, (s'.pc u).2 = (s.pc u).2 := by
    intro u
    rw [hpc, Function.update_apply]
    split_ifs with hu
    · rw [hu]
    · rfl
  refine ⟨howned, hqueue, fun u hu => (hread u).trans (i.other u hu), ?_, ?_, ?_, ?_⟩
  · rw [hread]
    by_cases ht : loop = t
    · subst ht
      right
      obtain hne | hcalls := hapart
      · exact i.apart.resolve_left hne
      · exact hcalls
    · rw [hpc, Function.update_of_ne ht]
      exact i.apart
  · rw [hread]
    exact i.full
  · rw [hread]
    exact hcount
  · rw [hread]
    exact horder

/-- The thread of the loop goes on in `eventfd_read_cb`. -/
lemma read_step (i : Inv loop s xs) (hpc : s'.pc = Function.update s.pc loop ((s.pc loop).1, r))
    (howned : Mutex.Owned s'.custom_events_mutex inside s'.pc)
    (hqueue : s'.custom_events.Good xs') (hapart : (s.pc loop).1 = .outside) (hfull : r ≠ .unlock)
    (hcount : xs'.length + midway s'.custom_events_mutex s'.pc = s'.count + r.left)
    (horder : s'.handled ++ r.taken ++ xs' = s'.posted) : Inv loop s' xs' := by
  have hloop : s'.pc loop = ((s.pc loop).1, r) := by rw [hpc, Function.update_self]
  refine ⟨howned, hqueue, fun u hu => ?_, ?_, ?_, ?_, ?_⟩
  · rw [hpc, Function.update_of_ne hu]
    exact i.other u hu
  · rw [hloop]
    exact .inl hapart
  · rwa [hloop]
  · rwa [hloop]
  · rwa [hloop]

/-- A thread in `hloop_post_event` does not hold the mutex for `eventfd_read_cb`. -/
lemma quiet (i : Inv loop s xs) (h : (s.pc t).1 ≠ .outside) : (s.pc t).2.inside = false := by
  by_cases ht : t = loop
  · subst ht
    have hcalls := i.apart.resolve_left h
    cases hr : (s.pc t).2 <;> rw [hr] at hcalls <;> first | rfl | exact Bool.noConfusion hcalls
  · rw [i.other t ht]
    rfl

omit [DecidableEq τ] in
/-- The thread of the loop in `eventfd_read_cb` is not in `hloop_post_event`. -/
lemma reads (i : Inv loop s xs) (h : (s.pc loop).2.calls = false) : (s.pc loop).1 = .outside := by
  obtain hout | hcalls := i.apart
  · exact hout
  · exact Bool.noConfusion (h.symm.trans hcalls)

omit [DecidableEq τ] in
/-- A thread that holds the mutex in `hloop_post_event` is told by it. -/
lemma holder (i : Inv loop s xs) (h : (s.pc t).1.inside = true) :
    s.custom_events_mutex = some t := i.owned.holder (by rw [inside, h, Bool.true_or])

omit [DecidableEq τ] in
lemma midway_of_post (i : Inv loop s xs) (h : (s.pc t).1.inside = true) :
    midway s.custom_events_mutex s.pc = (s.pc t).1.midway := by
  rw [i.holder h]
  rfl

/-- In the middle of the critical section. -/
lemma stay (i : Inv loop s xs) (h : (s.pc t).1.inside = true) (hp : p.inside = true) :
    Mutex.Owned s.custom_events_mutex inside (Function.update s.pc t (p, (s.pc t).2)) := by
  apply i.owned.stay
  rw [inside, inside, h, hp]

/-! ### The steps of `hloop_post_event` -/

lemma post (i : Inv loop s xs) {ev : hevent} (h : step loop s (.post t ev) = some s') :
    Inv loop s' xs := by
  obtain ⟨hcan, h⟩ := Option.ite_none_right_eq_some.mp h
  obtain rfl := Option.some.inj h
  obtain ⟨hout, hcalls⟩ : (s.pc t).1 = .outside ∧ (s.pc t).2.calls = true := by
    rw [canPost] at hcan
    split at hcan
    · rename_i heq
      rw [heq]
      exact ⟨rfl, rfl⟩
    · rename_i heq
      rw [heq]
      exact ⟨rfl, rfl⟩
    · exact Bool.noConfusion hcan
  refine i.post_step rfl (i.owned.stay ?_) i.queue (.inr hcalls) ?_ i.order
  · rw [inside, inside, hout]
    rfl
  · change xs.length + midway s.custom_events_mutex (Function.update s.pc t _) = s.count + _
    rw [← i.count, midway_update]
    split_ifs with hm
    · rw [hm, midway, Option.elim_some, hout]
      rfl
    · rfl

lemma lock (i : Inv loop s xs) (h : step loop s (.lock t) = some s') : Inv loop s' xs := by
  rw [step.eq_def] at h
  dsimp only at h
  split at h
  · rename_i ev r hpc hm
    obtain rfl := Option.some.inj h
    have hne : (s.pc t).1 ≠ .outside := by rw [hpc]; exact fun h => by cases h
    have hown := i.owned
    rw [hm] at hown
    refine i.post_step rfl (hown.lock ?_) i.queue (.inl hne) ?_ i.order
    · rfl
    · change xs.length + midway (some t) (Function.update s.pc t _) = s.count + _
      rw [midway_update, if_pos rfl, ← i.count, hm]
      rfl
  · cases h

lemma write (i : Inv loop s xs) {created ok : Bool}
    (h : step loop s (.write t created ok) = some s') : Inv loop s' xs := by
  rw [step.eq_def] at h
  dsimp only at h
  split at h
  · rename_i ev r hpc
    have hin : (s.pc t).1.inside = true := by rw [hpc]; rfl
    have hne : (s.pc t).1 ≠ .outside := by rw [hpc]; exact fun h => by cases h
    have hcount := i.count
    rw [i.midway_of_post hin, hpc] at hcount
    by_cases hcreated : (s.created || created) = true
    · rw [if_pos hcreated] at h
      obtain rfl := Option.some.inj h
      refine i.post_step rfl (i.stay hin ?_) i.queue (.inl hne) ?_ i.order
      · cases ok <;> rfl
      · change xs.length + midway s.custom_events_mutex (Function.update s.pc t _) = _ + _
        rw [midway_update, if_pos (i.holder hin)]
        cases ok with
        | true =>
          change xs.length + 1 = s.count + 1 + _
          rw [Nat.add_right_comm, ← hcount]
          rfl
        | false => exact hcount
    · rw [if_neg hcreated] at h
      obtain rfl := Option.some.inj h
      refine i.post_step rfl (i.stay hin rfl) i.queue (.inl hne) ?_ i.order
      change xs.length + midway s.custom_events_mutex (Function.update s.pc t _) = s.count + _
      rw [midway_update, if_pos (i.holder hin)]
      exact hcount
  · cases h

lemma push (i : Inv loop s xs) (h : step loop s (.push t) = some s') :
    ∃ ev, Inv loop s' (xs ++ [ev]) := by
  rw [step.eq_def] at h
  dsimp only at h
  split at h
  · rename_i ev r hpc
    obtain ⟨q, hpush, rfl⟩ := Option.map_eq_some_iff.mp h
    have hin : (s.pc t).1.inside = true := by rw [hpc]; rfl
    have hne : (s.pc t).1 ≠ .outside := by rw [hpc]; exact fun h => by cases h
    have hcount := i.count
    rw [i.midway_of_post hin, hpc] at hcount
    refine ⟨ev, i.post_step rfl (i.stay hin rfl) ((good_initQueue i.queue).push_back hpush)
      (.inl hne) ?_ ?_⟩
    · change (xs ++ [ev]).length + midway s.custom_events_mutex (Function.update s.pc t _) =
        s.count + _
      rw [midway_update, if_pos (i.holder hin), List.length_append]
      exact hcount
    · change s.handled ++ _ ++ (xs ++ [ev]) = s.posted ++ [ev]
      rw [← List.append_assoc, i.order]
  · cases h

lemma unlock (i : Inv loop s xs) (h : step loop s (.unlock t) = some s') : Inv loop s' xs := by
  rw [step.eq_def] at h
  dsimp only at h
  split at h
  · rename_i r hpc
    obtain rfl := Option.some.inj h
    have hin : (s.pc t).1.inside = true := by rw [hpc]; rfl
    have hne : (s.pc t).1 ≠ .outside := by rw [hpc]; exact fun h => by cases h
    have hcount := i.count
    rw [i.midway_of_post hin, hpc] at hcount
    refine i.post_step rfl (i.owned.unlock (t := t) ?_ ?_) i.queue (.inl hne) hcount i.order
    · rw [inside, hin, Bool.true_or]
    · rw [inside]
      change (Post.outside.inside || (s.pc t).2.inside) = false
      rw [i.quiet hne]
      rfl
  · cases h

/-! ### The steps of `eventfd_read_cb` -/

/-- In the middle of the critical section. -/
lemma readStay (i : Inv loop s xs) (h : (s.pc loop).2.inside = true) (hr : r.inside = true) :
    Mutex.Owned s.custom_events_mutex inside
      (Function.update s.pc loop ((s.pc loop).1, r)) := by
  apply i.owned.stay
  rw [inside, inside, h, hr, Bool.or_true]

/-- What is about to be put into the queue does not change. -/
lemma midway_read (m : Option τ) :
    midway m (Function.update s.pc loop ((s.pc loop).1, r)) = midway m s.pc := by
  rw [midway_update]
  split_ifs with hm
  · rw [hm]
    rfl
  · rfl

omit [DecidableEq τ] in
lemma midway_reader (i : Inv loop s xs) (hout : (s.pc loop).1 = .outside)
    (h : (s.pc loop).2.inside = true) : midway s.custom_events_mutex s.pc = 0 := by
  rw [i.owned.holder (t := loop) (by rw [inside, h, Bool.or_true]), midway, Option.elim_some, hout]
  rfl

lemma read (i : Inv loop s xs) {k : ℕ} (h : step loop s (.read k) = some s') : Inv loop s' xs := by
  rw [step.eq_def] at h
  dsimp only at h
  split at h
  · rename_i hpc
    obtain ⟨⟨h1, hk⟩, h⟩ := Option.ite_none_right_eq_some.mp h
    obtain rfl := Option.some.inj h
    have hout : (s.pc loop).1 = .outside := by rw [hpc]
    have hcount := i.count
    have horder := i.order
    rw [hpc] at hcount horder
    refine i.read_step rfl (i.owned.stay ?_) i.queue hout (fun h => by cases h) ?_ horder
    · rw [inside, inside, hpc]
      rfl
    · change xs.length + midway s.custom_events_mutex (Function.update s.pc loop _) =
        s.count - k + k
      rw [midway_read, hcount, Nat.sub_add_cancel hk]
      rfl
  · cases h

lemma readLock (i : Inv loop s xs) (h : step loop s .readLock = some s') : Inv loop s' xs := by
  rw [step.eq_def] at h
  dsimp only at h
  split at h
  · rename_i p left hpc hm
    obtain rfl := Option.some.inj h
    have hout : (s.pc loop).1 = .outside := i.reads (by rw [hpc]; rfl)
    have hown := i.owned
    have hcount := i.count
    have horder := i.order
    rw [hm] at hown hcount
    rw [hpc] at hcount horder
    refine i.read_step rfl (hown.lock ?_) i.queue hout (fun h => by cases h) ?_ horder
    · rw [inside]
      exact Bool.or_true _
    · change xs.length + midway (some loop) (Function.update s.pc loop _) = s.count + (left + 1)
      rw [midway_update, if_pos rfl]
      change xs.length + (s.pc loop).1.midway = _
      rw [hout]
      exact hcount
  · cases h

omit [DecidableEq τ] in
/-- There is an event in the queue whenever one is taken. -/
lemma nonempty (i : Inv loop s xs) {left : ℕ} (h : (s.pc loop).2 = .locked left) : xs ≠ [] := by
  have hout : (s.pc loop).1 = .outside := i.reads (by rw [h]; rfl)
  have hcount := i.count
  rw [i.midway_reader hout (by rw [h]; rfl), h] at hcount
  rintro rfl
  change 0 = s.count + (left + 1) at hcount
  omega

lemma pop (i : Inv loop s xs) (h : step loop s .pop = some s') :
    ∃ ev ys, xs = ev :: ys ∧ Inv loop s' ys := by
  rw [step.eq_def] at h
  dsimp only at h
  split at h
  · rename_i p left hpc
    have hout : (s.pc loop).1 = .outside := i.reads (by rw [hpc]; rfl)
    have hin : (s.pc loop).2.inside = true := by rw [hpc]; rfl
    have hcount := i.count
    have horder := i.order
    rw [i.midway_reader hout hin, hpc] at hcount
    rw [hpc] at horder
    obtain ⟨ev, ys, rfl⟩ := List.exists_cons_of_ne_nil (i.nonempty (by rw [hpc]))
    obtain ⟨q, hpop, hgood⟩ := i.queue.pop_front
    rw [popFront, i.queue.isEmpty, i.queue.front, hpop] at h
    obtain rfl := Option.some.inj h
    refine ⟨ev, ys, rfl, i.read_step rfl (i.readStay hin rfl) hgood hout (fun h => by cases h)
      ?_ ?_⟩
    · change ys.length + midway s.custom_events_mutex (Function.update s.pc loop _) = s.count + left
      rw [midway_read, i.midway_reader hout hin]
      exact Nat.succ.inj hcount
    · change s.handled ++ [ev] ++ ys = s.posted
      rw [← horder, List.append_assoc]
      exact (congrArg (· ++ (ev :: ys)) (List.append_nil s.handled)).symm
  · cases h

lemma readUnlock (i : Inv loop s xs) (h : step loop s .readUnlock = some s') :
    Inv loop s' xs := by
  rw [step.eq_def] at h
  dsimp only at h
  split at h
  · rename_i p left ev hpc
    obtain rfl := Option.some.inj h
    have hout : (s.pc loop).1 = .outside := i.reads (by rw [hpc]; rfl)
    have hin : (s.pc loop).2.inside = true := by rw [hpc]; rfl
    have hcount := i.count
    have horder := i.order
    rw [i.midway_reader hout hin, hpc] at hcount
    rw [hpc] at horder
    have hnext : ∀ r : Read, r = (if ev.cb = none then .round left else .callback left ev) →
        r.inside = false ∧ r ≠ .unlock ∧ r.left = left ∧ r.taken = [] := by
      rintro r rfl
      split_ifs
      · exact ⟨rfl, (fun h => by cases h), rfl, rfl⟩
      · exact ⟨rfl, (fun h => by cases h), rfl, rfl⟩
    obtain ⟨hquiet, hfull, hleft, htaken⟩ := hnext _ rfl
    refine i.read_step rfl (i.owned.unlock (t := loop) ?_ ?_) i.queue hout hfull ?_ ?_
    · rw [inside, hin, Bool.or_true]
    · change ((s.pc loop).1.inside || Read.inside _) = false
      rw [hquiet, hout]
      rfl
    · rw [hleft]
      exact hcount
    · rw [htaken, List.append_nil]
      exact horder
  · rename_i hpc
    exact absurd (by rw [hpc]) i.full
  · cases h

lemma called (i : Inv loop s xs) (h : step loop s .called = some s') : Inv loop s' xs := by
  rw [step.eq_def] at h
  dsimp only at h
  split at h
  · rename_i left ev hpc
    obtain rfl := Option.some.inj h
    have hout : (s.pc loop).1 = .outside := by rw [hpc]
    have hcount := i.count
    have horder := i.order
    rw [hpc] at hcount horder
    refine i.read_step rfl (i.owned.stay ?_) i.queue hout (fun h => by cases h) ?_ horder
    · rw [inside, inside, hpc]
      rfl
    · exact (congrArg (xs.length + ·) (midway_read _)).trans hcount
  · cases h

lemma leave (i : Inv loop s xs) (h : step loop s .leave = some s') : Inv loop s' xs := by
  rw [step.eq_def] at h
  dsimp only at h
  split at h
  · rename_i p hpc
    obtain rfl := Option.some.inj h
    have hout : (s.pc loop).1 = .outside := i.reads (by rw [hpc]; rfl)
    have hcount := i.count
    have horder := i.order
    rw [hpc] at hcount horder
    refine i.read_step rfl (i.owned.stay ?_) i.queue hout (fun h => by cases h) ?_ horder
    · rw [inside, inside, hpc]
      rfl
    · exact (congrArg (xs.length + ·) (midway_read _)).trans hcount
  · cases h

end Inv

end MmrService.CustomEvents
