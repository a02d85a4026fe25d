import MmrService.CustomEventsOnce

/-!
Runs of the threads that post events, and how the loop comes to have handled them all.
-/

namespace MmrService.CustomEvents

open Queue

variable {τ : Type*} [DecidableEq τ] {loop : τ} {s s' : State τ} {xs : List hevent}

lemma Inv.step (i : Inv loop s xs) {a : Action τ} (h : step loop s a = some s') :
    ∃ xs', Inv loop s' xs' := by
  cases a with
  | post t ev => exact ⟨xs, i.post h⟩
  | lock t => exact ⟨xs, i.lock h⟩
  | write t created ok => exact ⟨xs, i.write h⟩
  | push t =>
    obtain ⟨ev, i'⟩ := i.push h
    exact ⟨_, i'⟩
  | unlock t => exact ⟨xs, i.unlock h⟩
  | read k => exact ⟨xs, i.read h⟩
  | readLock => exact ⟨xs, i.readLock h⟩
  | pop =>
    obtain ⟨-, ys, -, i'⟩ := i.pop h
    exact ⟨ys, i'⟩
  | readUnlock => exact ⟨xs, i.readUnlock h⟩
  | called => exact ⟨xs, i.called h⟩
  | leave => exact ⟨xs, i.leave h⟩

lemma exists_inv {as : List (Action τ)}
    (h : Transition.exec (step loop) (init τ) as = some s) : ∃ xs, Inv loop s xs :=
  Transition.inv_of_always (P := fun _ _ _ => True) (I := fun _ s => ∃ xs, Inv loop s xs)
    ⟨[], inv_init loop⟩ (fun _ _ _ _ ⟨_, i⟩ _ hs => i.step hs) (fun _ _ _ _ _ _ => trivial) h

/-- **Handled once.** However the threads that post events and the loop come in between each
other, an event that was put into the queue is handled once and in the order of the queue, the
loop finds an event there whenever it takes one, and when the counter is down to nothing, the
loop waits and no thread is about to put an event into the queue, all of them were handled. -/
theorem events_handled_once (loop : τ) (as : List (Action τ)) (s : State τ)
    (h : Transition.exec (step loop) (init τ) as = some s) :
    s.handled ++ (s.pc loop).2.taken ++ s.custom_events.elems = s.posted ∧
      (∀ left, (s.pc loop).2 = .locked left → s.custom_events.elems ≠ []) ∧
      (s.count = 0 → (s.pc loop).2 = .outside → (∀ t ev, (s.pc t).1 ≠ .written ev) →
        s.handled = s.posted) := by
  obtain ⟨xs, i⟩ := exists_inv h
  have horder := i.order
  rw [i.queue.elems]
  refine ⟨horder, fun left hleft => i.nonempty hleft, fun hcount hread hpost => ?_⟩
  have hxs := i.count
  rw [hcount, hread] at hxs
  obtain rfl : xs = [] := List.eq_nil_of_length_eq_zero (Nat.eq_zero_of_add_eq_zero hxs).1
  rw [hread] at horder
  rw [← horder]
  exact ((List.append_nil _).trans (List.append_nil _)).symm

/-- Thread 1 posts an event, which the loop takes. -/
theorem events_handled_once_one :
    ∃ s, Transition.exec (step 0) (init ℕ)
        [.post 1 ⟨0, 0, none, 7⟩, .lock 1, .write 1 true true, .push 1, .unlock 1, .read 1,
          .readLock, .pop] = some s ∧
      s.posted = [⟨1024, 1, none, 7⟩] ∧
      s.handled ++ (s.pc 0).2.taken ++ s.custom_events.elems = s.posted := by
  obtain ⟨hall, -⟩ := events_handled_once 0
    [.post 1 ⟨0, 0, none, 7⟩, .lock 1, .write 1 true true, .push 1, .unlock 1, .read 1,
      .readLock, .pop] _ rfl
  exact ⟨_, rfl, rfl, hall⟩

/-! ### The loop comes to have handled all events -/

/-- The thread that makes a step. -/
def Action.thread (loop : τ) : Action τ → τ
  | .post t _ | .lock t | .write t _ _ | .push t | .unlock t => t
  | .read _ | .readLock | .pop | .readUnlock | .called | .leave => loop

/-- A step of the thread of the loop or of the one that holds the mutex, which does not post a
new event. -/
def quietStep (loop : τ) (s : State τ) : Action τ → Option (State τ)
  | .post _ _ => none
  | a =>
    if a.thread loop = loop ∨ s.custom_events_mutex = some (a.thread loop) then step loop s a
    else none

/-- How far a thread is from leaving `hloop_post_event`, with the event it puts in the queue. -/
def Post.rank : Post → ℕ
  | .outside => 0
  | .lock _ => 24
  | .locked _ => 23
  | .written _ => 2
  | .unlock => 1

/-- How far the thread of the loop is from leaving `eventfd_read_cb`. -/
def Read.rank : Read → ℕ
  | .outside => 0
  | .round n => 10 * n + 1
  | .locked n => 10 * n + 10
  | .popped n _ => 10 * n + 5
  | .callback n _ => 10 * n + 3
  | .unlock => 1

/-- The events a thread will put into the queue. -/
def Post.todo : Post → ℕ
  | .outside | .unlock => 0
  | .lock _ | .locked _ | .written _ => 1

/-- The place of a thread other than the loop's that holds the mutex. -/
def holding (loop : τ) (s : State τ) : Post :=
  s.custom_events_mutex.elim .outside fun t => if t = loop then .outside else (s.pc t).1

/-- A measure of the thread of the loop and the one that holds the mutex. -/
def total (f : Post → ℕ) (loop : τ) (s : State τ) : ℕ := f (s.pc loop).1 + f (holding loop s)

def rank (loop : τ) (s : State τ) : ℕ :=
  20 * s.count + (s.pc loop).2.rank + total Post.rank loop s

/-- What is left to do is within the bound of the queue. -/
structure Going (loop : τ) (s : State τ) (xs : List hevent) : Prop extends Inv loop s xs where
  room : xs.length + total Post.todo loop s ≤ 2 ^ 30

/-- Nothing is left to do. -/
def Done (loop : τ) (s : State τ) : Prop := s.handled = s.posted ∧ s.pc loop = (.outside, .outside)

variable {t : τ} {p : Post} {r : Read}

lemma total_of_holder (f : Post → ℕ) (hf : f .outside = 0) (hm : s.custom_events_mutex = some t) :
    total f loop s = f (s.pc t).1 + if t = loop then 0 else f (s.pc loop).1 := by
  rw [total, holding, hm, Option.elim_some]
  split_ifs with ht
  · rw [ht, hf]
  · exact Nat.add_comm ..

lemma total_free {f : Post → ℕ} (hm : s.custom_events_mutex = none) :
    total f loop s = f (s.pc loop).1 + f .outside := by
  rw [total, holding, hm]
  rfl

/-- The thread that holds the mutex goes on, or leaves. -/
lemma total_setPost (f : Post → ℕ) (hf : f .outside = 0)
    (hpc : s'.pc = Function.update s.pc t (p, (s.pc t).2))
    (hm : s'.custom_events_mutex = some t ∨ s'.custom_events_mutex = none ∧ p = .outside) :
    total f loop s' = f p + if t = loop then 0 else f (s.pc loop).1 := by
  obtain hm | ⟨hm, rfl⟩ := hm
  · rw [total_of_holder f hf hm, hpc, Function.update_self]
    split_ifs with ht
    · rfl
    · rw [Function.update_of_ne fun h => ht h.symm]
  · rw [total, holding, hm, Option.elim_none, hf, Nat.add_zero, Nat.zero_add, hpc]
    split_ifs with ht
    · rw [ht, Function.update_self, hf]
    · rw [Function.update_of_ne fun h => ht h.symm]

/-- The thread of the loop goes on in `eventfd_read_cb`. -/
lemma total_setRead (f : Post → ℕ) (hf : f .outside = 0) (hout : (s.pc loop).1 = .outside)
    (hpc : s'.pc = Function.update s.pc loop ((s.pc loop).1, r))
    (hm : s'.custom_events_mutex = none ∨ s'.custom_events_mutex = some loop) :
    total f loop s' = 0 := by
  have hself : (s'.pc loop).1 = .outside := by rw [hpc, Function.update_self, hout]
  obtain hm | hm := hm
  · rw [total, holding, hm, hself, Option.elim_none, hf]
  · rw [total, holding, hm, hself, Option.elim_some, if_pos rfl, hf]

namespace Going

/-- The thread that holds the mutex makes a step of `hloop_post_event`. -/
lemma post_step {xs' : List hevent} (g : Going loop s xs) (i : Inv loop s' xs')
    (hin : (s.pc t).1.inside = true) (hpc : s'.pc = Function.update s.pc t (p, (s.pc t).2))
    (hm : s'.custom_events_mutex = some t ∨ s'.custom_events_mutex = none ∧ p = .outside)
    (htodo : xs'.length + p.todo ≤ xs.length + (s.pc t).1.todo)
    (hrank : 20 * s'.count + p.rank < 20 * s.count + (s.pc t).1.rank) :
    Going loop s' xs' ∧ rank loop s' < rank loop s := by
  have hm₀ := g.holder hin
  have hread : (s'.pc loop).2 = (s.pc loop).2 := by
    rw [hpc, Function.update_apply]
    split_ifs with ht
    · rw [ht]
    · rfl
  have hroom := g.room
  rw [total_of_holder Post.todo rfl hm₀] at hroom
  refine ⟨⟨i, ?_⟩, ?_⟩
  · rw [total_setPost Post.todo rfl hpc hm]
    omega
  · rw [rank, rank, hread, total_setPost Post.rank rfl hpc hm, total_of_holder Post.rank rfl hm₀]
    omega

/-- The thread of the loop makes a step of `eventfd_read_cb`. -/
lemma read_step {xs' : List hevent} (g : Going loop s xs) (i : Inv loop s' xs')
    (hout : (s.pc loop).1 = .outside)
    (hpc : s'.pc = Function.update s.pc loop ((s.pc loop).1, r))
    (hm : s'.custom_events_mutex = none ∨ s'.custom_events_mutex = some loop)
    (hlen : xs'.length ≤ xs.length)
    (hrank : 20 * s'.count + r.rank < 20 * s.count + (s.pc loop).2.rank) :
    Going loop s' xs' ∧ rank loop s' < rank loop s := by
  have hroom := g.room
  have hread : (s'.pc loop).2 = r := by rw [hpc, Function.update_self]
  refine ⟨⟨i, ?_⟩, ?_⟩
  · rw [total_setRead Post.todo rfl hout hpc hm]
    omega
  · rw [rank, rank, hread, total_setRead Post.rank rfl hout hpc hm]
    omega

/-- The thread that holds the mutex in `hloop_post_event` makes its next step. -/
lemma holder_post (g : Going loop s xs) (hin : (s.pc t).1.inside = true) :
    ∃ a s' xs', quietStep loop s a = some s' ∧ Going loop s' xs' ∧ rank loop s' < rank loop s := by
  have hm := g.holder hin
  obtain ⟨⟨p, r⟩, hpc⟩ : ∃ x, s.pc t = x := ⟨_, rfl⟩
  have hp : (s.pc t).1 = p := by rw [hpc]
  cases p with
  | outside =>
    rw [hp] at hin
    cases hin
  | lock ev =>
    rw [hp] at hin
    cases hin
  | locked ev =>
    have hs : step loop s (.write t true true) =
        some ((s.writeCount true).setPost t (.written ev)) := by
      rw [step.eq_def]
      simp [hpc]
    obtain ⟨g', hlt⟩ := g.post_step (g.toInv.write hs) hin rfl (.inl hm)
      (by rw [hp]; exact Nat.le_refl _) (by
        rw [hp]
        change 20 * (s.count + 1) + 2 < 20 * s.count + 23
        omega)
    exact ⟨.write t true true, _, xs, (if_pos (.inr hm)).trans hs, g', hlt⟩
  | written ev =>
    have hroom := g.room
    rw [total_of_holder Post.todo rfl hm, hp] at hroom
    change xs.length + (1 + _) ≤ 2 ^ 30 at hroom
    obtain ⟨q, hpush, -⟩ := (good_initQueue g.queue).exists_push_back (by omega) ev
    have hs : step loop s (.push t) = some ((s.put q ev).setPost t .unlock) := by
      rw [step.eq_def]
      simp [hpc, hpush]
    obtain ⟨ev', i'⟩ := g.toInv.push hs
    obtain ⟨g', hlt⟩ := g.post_step i' hin rfl (.inl hm)
      (by rw [hp, List.length_append]; exact Nat.le_refl _) (by rw [hp]; exact Nat.lt_succ_self _)
    exact ⟨.push t, _, _, (if_pos (.inr hm)).trans hs, g', hlt⟩
  | unlock =>
    have hs : step loop s (.unlock t) = some ((s.setMutex none).setPost t .outside) := by
      rw [step.eq_def]
      simp [hpc]
    obtain ⟨g', hlt⟩ := g.post_step (g.toInv.unlock hs) hin rfl (.inr ⟨rfl, rfl⟩)
      (by rw [hp]; exact Nat.le_refl _) (by rw [hp]; exact Nat.lt_succ_self _)
    exact ⟨.unlock t, _, xs, (if_pos (.inr hm)).trans hs, g', hlt⟩

/-- The thread of the loop makes its next step where it holds the mutex in `eventfd_read_cb`. -/
lemma holder_read (g : Going loop s xs) (hin : (s.pc loop).2.inside = true) :
    ∃ a s' xs', quietStep loop s a = some s' ∧ Going loop s' xs' ∧ rank loop s' < rank loop s := by
  have hm := g.owned.holder (t := loop) (by rw [inside, hin, Bool.or_true])
  obtain ⟨⟨p, r⟩, hpc⟩ : ∃ x, s.pc loop = x := ⟨_, rfl⟩
  have hr : (s.pc loop).2 = r := by rw [hpc]
  have hout : (s.pc loop).1 = .outside := g.reads (by
    rw [hr] at hin ⊢
    cases r <;> first | rfl | cases hin)
  cases r with
  | outside =>
    rw [hr] at hin
    cases hin
  | round n =>
    rw [hr] at hin
    cases hin
  | callback n ev =>
    rw [hr] at hin
    cases hin
  | locked n =>
    obtain ⟨ev, ys, rfl⟩ := List.exists_cons_of_ne_nil (g.nonempty hr)
    obtain ⟨q, hpop, -⟩ := g.queue.pop_front
    have hs : step loop s .pop =
        some (State.setRead { s with custom_events := q } loop (.popped n ev)) := by
      rw [step.eq_def]
      simp [hpc, popFront, g.queue.isEmpty, g.queue.front, hpop]
    obtain ⟨ev', ys', heq, i'⟩ := g.toInv.pop hs
    obtain ⟨rfl, rfl⟩ := List.cons.inj heq
    obtain ⟨g', hlt⟩ := g.read_step i' hout rfl (.inr hm) (Nat.le_succ _) (by
      rw [hr]
      change 20 * s.count + (10 * n + 5) < 20 * s.count + (10 * n + 10)
      omega)
    exact ⟨.pop, _, _, (if_pos (.inl rfl)).trans hs, g', hlt⟩
  | popped n ev =>
    have hs : step loop s .readUnlock = some (handle loop (s.setMutex none) n ev) := by
      rw [step.eq_def]
      simp [hpc]
    obtain ⟨g', hlt⟩ := g.read_step (g.toInv.readUnlock hs) hout rfl (.inl rfl) (Nat.le_refl _) (by
      rw [hr]
      change 20 * s.count + Read.rank _ < 20 * s.count + (10 * n + 5)
      split_ifs
      · change 20 * s.count + (10 * n + 1) < _
        omega
      · change 20 * s.count + (10 * n + 3) < _
        omega)
    exact ⟨.readUnlock, _, _, (if_pos (.inl rfl)).trans hs, g', hlt⟩
  | unlock => exact absurd hr g.full

/-- With the mutex free, the thread of the loop makes its next step, or nothing is left to do. -/
lemma free_step (g : Going loop s xs) (hm : s.custom_events_mutex = none) (hnot : ¬ Done loop s) :
    ∃ a s' xs', quietStep loop s a = some s' ∧ Going loop s' xs' ∧ rank loop s' < rank loop s := by
  have hfree : inside (s.pc loop) = false := by
    by_contra hin
    have := g.owned.holder (eq_true_of_ne_false hin)
    rw [hm] at this
    cases this
  obtain ⟨⟨p, r⟩, hpc⟩ : ∃ x, s.pc loop = x := ⟨_, rfl⟩
  have hp : (s.pc loop).1 = p := by rw [hpc]
  have hr : (s.pc loop).2 = r := by rw [hpc]
  have hreads : (∃ ev, p = .lock ev) ∨ p = .outside := by
    rw [hpc] at hfree
    cases p <;> first | exact .inl ⟨_, rfl⟩ | exact .inr rfl | cases hfree
  obtain ⟨ev, rfl⟩ | rfl := hreads
  · have hs : step loop s (.lock loop) =
        some ((s.setMutex (some loop)).setPost loop (.locked ev)) := by
      rw [step.eq_def]
      simp [hpc, hm]
    have hroom := g.room
    rw [total_free hm, hp] at hroom
    refine ⟨.lock loop, _, xs, (if_pos (.inl rfl)).trans hs, ⟨g.toInv.lock hs, ?_⟩, ?_⟩
    · rw [total_setPost Post.todo rfl rfl (.inl rfl), if_pos rfl]
      exact hroom
    · rw [rank, rank, total_setPost Post.rank rfl rfl (.inl rfl), if_pos rfl, total_free hm, hp]
      change 20 * s.count + Read.rank (Function.update s.pc loop _ loop).2 + 23 < _ + (24 + 0)
      rw [Function.update_self]
      exact Nat.lt_succ_self _
  · cases r with
    | outside =>
      have hcount := g.count
      have horder := g.order
      rw [hm, hr] at hcount
      rw [hr] at horder
      by_cases h0 : s.count = 0
      · rw [h0] at hcount
        obtain rfl : xs = [] := List.eq_nil_of_length_eq_zero hcount
        refine absurd ⟨?_, hpc⟩ hnot
        rw [← horder]
        exact ((List.append_nil _).trans (List.append_nil _)).symm
      · have hs : step loop s (.read s.count) =
            some (State.setRead { s with count := s.count - s.count } loop (.round s.count)) := by
          rw [step.eq_def]
          simp only [hpc]
          exact if_pos ⟨Nat.pos_of_ne_zero h0, Nat.le_refl _⟩
        obtain ⟨g', hlt⟩ := g.read_step (g.toInv.read hs) hp rfl (.inl hm) (Nat.le_refl _) (by
          rw [hr]
          change 20 * (s.count - s.count) + (10 * s.count + 1) < 20 * s.count + 0
          omega)
        exact ⟨.read s.count, _, _, (if_pos (.inl rfl)).trans hs, g', hlt⟩
    | round n =>
      cases n with
      | zero =>
        have hs : step loop s .leave = some (s.setRead loop .outside) := by
          rw [step.eq_def]
          simp [hpc]
        obtain ⟨g', hlt⟩ := g.read_step (g.toInv.leave hs) hp rfl (.inl hm) (Nat.le_refl _) (by
          rw [hr]
          exact Nat.lt_succ_self _)
        exact ⟨.leave, _, _, (if_pos (.inl rfl)).trans hs, g', hlt⟩
      | succ n =>
        have hs : step loop s .readLock =
            some ((s.setMutex (some loop)).setRead loop (.locked n)) := by
          rw [step.eq_def]
          simp [hpc, hm]
        obtain ⟨g', hlt⟩ := g.read_step (g.toInv.readLock hs) hp rfl (.inr rfl) (Nat.le_refl _) (by
          rw [hr]
          change 20 * s.count + (10 * n + 10) < 20 * s.count + (10 * (n + 1) + 1)
          omega)
        exact ⟨.readLock, _, _, (if_pos (.inl rfl)).trans hs, g', hlt⟩
    | callback n ev =>
      have hs : step loop s .called = some (s.setRead loop (.round n)) := by
        rw [step.eq_def]
        simp [hpc]
      obtain ⟨g', hlt⟩ := g.read_step (g.toInv.called hs) hp rfl (.inl hm) (Nat.le_refl _) (by
        rw [hr]
        change 20 * s.count + (10 * n + 1) < 20 * s.count + (10 * n + 3)
        omega)
      exact ⟨.called, _, _, (if_pos (.inl rfl)).trans hs, g', hlt⟩
    | locked n =>
      rw [hpc] at hfree
      cases hfree
    | popped n ev =>
      rw [hpc] at hfree
      cases hfree
    | unlock => exact absurd hr g.full

/-- Unless nothing is left to do, there is a step towards it. -/
lemma exists_step (g : Going loop s xs) (hnot : ¬ Done loop s) :
    ∃ a s' xs', quietStep loop s a = some s' ∧ Going loop s' xs' ∧ rank loop s' < rank loop s := by
  cases hm : s.custom_events_mutex with
  | none => exact g.free_step hm hnot
  | some t =>
    have hin : inside (s.pc t) = true := (g.owned t).mpr hm
    rw [inside, Bool.or_eq_true] at hin
    obtain hpost | hread := hin
    · exact g.holder_post hpost
    · by_cases ht : t = loop
      · subst ht
        exact g.holder_read hread
      · rw [g.other t ht] at hread
        cases hread

end Going

/-- **No event is left behind.** From every state that is reached, while no new event is posted,
the steps of the thread of the loop and of the one that holds the mutex lead to a state in which
all events that were put into the queue are handled, as long as the queue can take two more. In
particular the threads do not wait for each other. -/
theorem events_drain (loop : τ) (as : List (Action τ)) (s : State τ)
    (h : Transition.exec (step loop) (init τ) as = some s)
    (hroom : s.custom_events.elems.length + 2 ≤ 2 ^ 30) :
    ∃ bs s', Transition.exec (quietStep loop) s bs = some s' ∧ s'.handled = s'.posted ∧
      s'.pc loop = (.outside, .outside) := by
  obtain ⟨xs, i⟩ := exists_inv h
  rw [i.queue.elems] at hroom
  have htodo : ∀ p : Post, p.todo ≤ 1 := by
    intro p
    cases p <;> first | exact Nat.le_refl 1 | exact Nat.zero_le 1
  have hg : Going loop s xs := by
    refine ⟨i, ?_⟩
    have h₁ := htodo (s.pc loop).1
    have h₂ := htodo (holding loop s)
    rw [total]
    omega
  have hstep : ∀ s, (∃ xs, Going loop s xs) → ¬ Done loop s → ∃ a s', quietStep loop s a = some s' ∧
      (∃ xs, Going loop s' xs) ∧ rank loop s' < rank loop s := by
    rintro s ⟨xs, g⟩ hnot
    obtain ⟨a, s', xs', hs, g', hlt⟩ := g.exists_step hnot
    exact ⟨a, s', hs, ⟨xs', g'⟩, hlt⟩
  obtain ⟨bs, s', hrun, -, hdone⟩ := Transition.exists_run (rank loop) hstep ⟨xs, hg⟩
  exact ⟨bs, s', hrun, hdone.1, hdone.2⟩

/-- Thread 1 posts an event, and the loop is told. -/
theorem events_drain_one :
    ∃ s bs s', Transition.exec (step 0) (init ℕ)
        [.post 1 ⟨0, 0, some 5, 7⟩, .lock 1, .write 1 true true, .push 1, .unlock 1] = some s ∧
      s.posted = [⟨1024, 1, some 5, 7⟩] ∧ Transition.exec (quietStep 0) s bs = some s' ∧
      s'.handled = s'.posted := by
  obtain ⟨bs, s', hrun, hall, -⟩ := events_drain 0
    [.post 1 ⟨0, 0, some 5, 7⟩, .lock 1, .write 1 true true, .push 1, .unlock 1] _ rfl
    (by decide)
  exact ⟨_, bs, s', rfl, rfl, hrun, hall⟩

end MmrService.CustomEvents
