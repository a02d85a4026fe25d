import Mathlib.Data.Finset.Card
import MmrService.CustomEventsRun

/-!
The functors of an `EventLoop`: `postEvent` puts one into a queue of its own and then posts an event
with `hloop_post_event`, and `onCustomEvent` takes one out when the event is handled.

Threads come in between the two, and other events are posted to the same loop. An event that is not
posted leaves its functor in the queue.
-/

namespace MmrService.EventLoops

open CustomEvents

/-- The address of `onCustomEvent`. -/
def onCustomEvent : ℕ := 0

/-- The event of `postEvent`, which is zeroed but for its callback and its `EventLoop`. -/
def event : hevent := ⟨0, 0, some onCustomEvent, 0⟩

def isCustom (ev : hevent) : Bool := ev.cb = some onCustomEvent

variable {τ F : Type*}

/-- `entered` tells that the callback that is being called took its functor. The threads of
`between` put a functor into the queue and not its event yet. `queued` and `ran` are the functors
that were put into the queue and taken, and `lost` is the number of the events that were not
posted. -/
structure EventLoop (τ F : Type*) where
  loop_ : State τ
  customEvents : List F
  entered : Bool
  between : Finset τ
  queued : List F
  ran : List F
  lost : ℕ

def start (τ F : Type*) : EventLoop τ F := ⟨init τ, [], false, ∅, [], [], 0⟩

inductive Action (τ F : Type*) where
  /-- `customEvents.push(ev)` of `postEvent`. -/
  | push (t : τ) (fn : F)
  /-- `hloop_post_event` is called for it. -/
  | post (t : τ)
  /-- It is called for another event. -/
  | other (t : τ) (ev : hevent)
  /-- A step in `hloop_post_event` or `eventfd_read_cb`. -/
  | loop (a : CustomEvents.Action τ)
  /-- `customEvents.front()` and `pop()` of `onCustomEvent`. -/
  | run

variable [DecidableEq τ] (loop : τ) (s : EventLoop τ F)

namespace EventLoop

/-- The counter was written, or the event is not posted. -/
def written (l : State τ) (t : τ) (ok : Bool) : EventLoop τ F :=
  if ok then { s with loop_ := l }
  else { s with
    loop_ := l, between := s.between.erase t, lost := s.lost + if t ∈ s.between then 1 else 0 }

/-- The thread of the loop calls `onCustomEvent`, which did not take its functor yet. -/
def called : Bool :=
  match (s.loop_.pc loop).2 with
  | .callback _ ev => isCustom ev && !s.entered
  | _ => false

/-- A step of the loop below. A thread between the two calls of `postEvent` does nothing else. -/
def below (a : CustomEvents.Action τ) : Option (EventLoop τ F) :=
  match a with
  | .post _ _ => none
  | .write t created ok =>
    (step loop s.loop_ a).map fun l => s.written l t ((s.loop_.created || created) && ok)
  | .push t =>
    (step loop s.loop_ a).map fun l => { s with loop_ := l, between := s.between.erase t }
  | .called =>
    if s.called loop ∨ loop ∈ s.between then none
    else (step loop s.loop_ a).map fun l => { s with loop_ := l, entered := false }
  | .read _ =>
    if loop ∈ s.between then none
    else (step loop s.loop_ a).map fun l => { s with loop_ := l }
  | a => (step loop s.loop_ a).map fun l => { s with loop_ := l }

/-- The front of an empty queue is undefined. -/
def takeFront : Option (EventLoop τ F) :=
  match s.customEvents with
  | [] => none
  | fn :: rest => some { s with customEvents := rest, entered := true, ran := s.ran ++ [fn] }

def step : Action τ F → Option (EventLoop τ F)
  | .push t fn =>
    if canPost s.loop_ t ∧ t ∉ s.between then
      some { s with
        customEvents := s.customEvents ++ [fn], between := insert t s.between
        queued := s.queued ++ [fn] }
    else none
  | .post t =>
    if t ∈ s.between then
      (CustomEvents.step loop s.loop_ (.post t event)).map fun l => { s with loop_ := l }
    else none
  | .other t ev =>
    if t ∉ s.between ∧ isCustom ev = false then
      (CustomEvents.step loop s.loop_ (.post t ev)).map fun l => { s with loop_ := l }
    else none
  | .loop a => s.below loop a
  | .run => if s.called loop then s.takeFront else none

end EventLoop

/-! ### What the loop below does -/

section Below

variable {l l' : State τ} {t u : τ} {loop}

/-- The event that a thread is about to post. -/
def posting : Post → Option hevent
  | .lock ev | .locked ev | .written ev => some ev
  | .outside | .unlock => none

@[simp] lemma setPost_fst (p : Post) :
    ((l.setPost t p).pc u).1 = if u = t then p else (l.pc u).1 := by
  unfold State.setPost
  dsimp only
  rw [Function.update_apply]
  split <;> rfl

@[simp] lemma setPost_snd (p : Post) : ((l.setPost t p).pc u).2 = (l.pc u).2 := by
  unfold State.setPost
  dsimp only
  rw [Function.update_apply]
  split
  next h => rw [h]
  next => rfl

@[simp] lemma setRead_fst (r : Read) : ((l.setRead t r).pc u).1 = (l.pc u).1 := by
  unfold State.setRead
  dsimp only
  rw [Function.update_apply]
  split
  next h => rw [h]
  next => rfl

@[simp] lemma setRead_snd (r : Read) : ((l.setRead t r).pc t).2 = r := by
  unfold State.setRead
  dsimp only
  rw [Function.update_self]

/-- A step in `hloop_post_event` that puts nothing into the queue. -/
structure Keeps (l l' : State τ) : Prop where
  posted : l'.posted = l.posted
  handled : l'.handled = l.handled
  reads : ∀ u, (l'.pc u).2 = (l.pc u).2

lemma post_keeps {ev : hevent} (h : step loop l (.post t ev) = some l') :
    Keeps l l' ∧ ∀ u e, posting (l'.pc u).1 = some e →
      u = t ∧ e.cb = ev.cb ∨ posting (l.pc u).1 = some e := by
  obtain ⟨-, h⟩ := Option.ite_none_right_eq_some.mp h
  obtain rfl := Option.some.inj h
  refine ⟨⟨rfl, rfl, fun u => setPost_snd _⟩, fun u e he => ?_⟩
  rw [setPost_fst] at he
  split at he
  next hu =>
    have hcb : (fill l.s_id ev).1.cb = ev.cb := by
      unfold fill
      by_cases h0 : ev.event_type = 0
      · rw [if_pos h0]
        dsimp only
        split <;> rfl
      · rw [if_neg h0]
        dsimp only
        split <;> rfl
    obtain rfl := Option.some.inj he
    exact .inl ⟨hu, hcb⟩
  next => exact .inr he

/-- A thread goes on to `p`, from a place where it posts the same event, or none. -/
lemma keeps_setPost (m : Option τ) {p : Post}
    (hp : ∀ e, posting p = some e → posting (l.pc t).1 = some e) :
    Keeps l ((l.setMutex m).setPost t p) ∧ ∀ u e,
      posting (((l.setMutex m).setPost t p).pc u).1 = some e → posting (l.pc u).1 = some e := by
  refine ⟨⟨rfl, rfl, fun u => setPost_snd _⟩, fun u e he => ?_⟩
  rw [setPost_fst] at he
  split at he
  next hu =>
    rw [hu]
    exact hp e he
  next => exact he

lemma lock_keeps (h : step loop l (.lock t) = some l') :
    Keeps l l' ∧ ∀ u e, posting (l'.pc u).1 = some e → posting (l.pc u).1 = some e := by
  rw [step.eq_def] at h
  dsimp only at h
  split at h
  next ev r hpc hm =>
    obtain rfl := Option.some.inj h
    refine keeps_setPost (some t) fun e he => ?_
    rw [hpc]
    exact he
  next => cases h

lemma unlock_keeps (h : step loop l (.unlock t) = some l') :
    Keeps l l' ∧ ∀ u e, posting (l'.pc u).1 = some e → posting (l.pc u).1 = some e := by
  rw [step.eq_def] at h
  dsimp only at h
  split at h
  next r hpc =>
    obtain rfl := Option.some.inj h
    exact keeps_setPost none fun e he => by cases he
  next => cases h

lemma write_keeps {created ok : Bool} (h : step loop l (.write t created ok) = some l') :
    Keeps l l' ∧ ∀ u e, posting (l'.pc u).1 = some e → posting (l.pc u).1 = some e ∧
      (((l.created || created) && ok) = false → u ≠ t) := by
  rw [step.eq_def] at h
  dsimp only at h
  split at h
  next ev r hpc =>
    split at h
    next hcreated =>
      obtain rfl := Option.some.inj h
      refine ⟨⟨rfl, rfl, fun u => setPost_snd _⟩, fun u e he => ?_⟩
      rw [setPost_fst] at he
      split at he
      next hu =>
        cases ok with
        | true =>
          rw [hu, hpc, hcreated]
          exact ⟨he, fun h => Bool.noConfusion h⟩
        | false => cases he
      next hu => exact ⟨he, fun _ => hu⟩
    next hcreated =>
      obtain rfl := Option.some.inj h
      refine ⟨⟨rfl, rfl, fun u => setPost_snd _⟩, fun u e he => ?_⟩
      rw [setPost_fst] at he
      split at he
      next => cases he
      next hu => exact ⟨he, fun _ => hu⟩
  next => cases h

lemma push_posts (h : step loop l (.push t) = some l') :
    ∃ ev, posting (l.pc t).1 = some ev ∧ l'.posted = l.posted ++ [ev] ∧ l'.handled = l.handled ∧
      (∀ u, (l'.pc u).2 = (l.pc u).2) ∧ ∀ u e, posting (l'.pc u).1 = some e →
        posting (l.pc u).1 = some e ∧ u ≠ t := by
  rw [step.eq_def] at h
  dsimp only at h
  split at h
  next ev r hpc =>
    obtain ⟨q, -, rfl⟩ := Option.map_eq_some_iff.mp h
    refine ⟨ev, by rw [hpc]; rfl, rfl, rfl, fun u => setPost_snd _, fun u e he => ?_⟩
    rw [setPost_fst] at he
    split at he
    next => cases he
    next hu => exact ⟨he, hu⟩
  next => cases h

/-- The thread of the loop goes on in `eventfd_read_cb`, and no event is put into the queue. -/
structure Reads (loop : τ) (l l' : State τ) : Prop where
  posted : l'.posted = l.posted
  posts : ∀ u, (l'.pc u).1 = (l.pc u).1
  before : ∀ n ev, (l.pc loop).2 ≠ .callback n ev

/-- An event was handled and its callback is called, if it has one, or neither of it. -/
def Took (loop : τ) (l l' : State τ) : Prop :=
  (∃ n ev, l'.handled = l.handled ++ [ev] ∧
    (l'.pc loop).2 = if ev.cb = none then .round n else .callback n ev) ∨
  l'.handled = l.handled ∧ ∀ n ev, (l'.pc loop).2 ≠ .callback n ev

/-- Neither comes from a callback nor goes to one. -/
lemma reads_of {p : Post} {r r' : Read} (hat : l.pc loop = (p, r))
    (hr : ∀ n ev, r ≠ .callback n ev) (hr' : ∀ n ev, r' ≠ .callback n ev)
    (hpc : l'.pc = (l.setRead loop r').pc) (hposted : l'.posted = l.posted)
    (hhandled : l'.handled = l.handled) : Reads loop l l' ∧ Took loop l l' := by
  refine ⟨⟨hposted, fun u => ?_, fun n ev hc => ?_⟩, .inr ⟨hhandled, fun n ev hc => ?_⟩⟩
  · rw [hpc]
    exact setRead_fst r'
  · rw [hat] at hc
    exact hr n ev hc
  · rw [hpc, setRead_snd] at hc
    exact hr' n ev hc

lemma read_reads {k : ℕ} (h : step loop l (.read k) = some l') :
    Reads loop l l' ∧ Took loop l l' := by
  rw [step.eq_def] at h
  dsimp only at h
  split at h
  next hpc =>
    obtain ⟨-, h⟩ := Option.ite_none_right_eq_some.mp h
    obtain rfl := Option.some.inj h
    exact reads_of hpc (fun n ev h => by cases h) (fun n ev h => by cases h) rfl rfl rfl
  next => cases h

lemma readLock_reads (h : step loop l .readLock = some l') :
    Reads loop l l' ∧ Took loop l l' := by
  rw [step.eq_def] at h
  dsimp only at h
  split at h
  next p left hpc hm =>
    obtain rfl := Option.some.inj h
    exact reads_of hpc (fun n ev h => by cases h) (fun n ev h => by cases h) rfl rfl rfl
  next => cases h

lemma pop_reads (h : step loop l .pop = some l') : Reads loop l l' ∧ Took loop l l' := by
  rw [step.eq_def] at h
  dsimp only at h
  split at h
  next p left hpc =>
    unfold popFront at h
    split at h
    next =>
      obtain rfl := Option.some.inj h
      exact reads_of hpc (fun n ev h => by cases h) (fun n ev h => by cases h) rfl rfl rfl
    next =>
      obtain ⟨ev, -, h⟩ := Option.bind_eq_some_iff.mp h
      obtain ⟨q, -, rfl⟩ := Option.map_eq_some_iff.mp h
      exact reads_of hpc (fun n ev h => by cases h) (fun n ev h => by cases h) rfl rfl rfl
  next => cases h

lemma readUnlock_reads (h : step loop l .readUnlock = some l') :
    Reads loop l l' ∧ Took loop l l' := by
  rw [step.eq_def] at h
  dsimp only at h
  split at h
  next p left ev hpc =>
    obtain rfl := Option.some.inj h
    refine ⟨⟨rfl, fun u => setRead_fst _, fun n ev hc => ?_⟩, .inl ⟨left, ev, rfl, setRead_snd _⟩⟩
    rw [hpc] at hc
    cases hc
  next p hpc =>
    obtain rfl := Option.some.inj h
    exact reads_of hpc (fun n ev h => by cases h) (fun n ev h => by cases h) rfl rfl rfl
  next => cases h

lemma leave_reads (h : step loop l .leave = some l') : Reads loop l l' ∧ Took loop l l' := by
  rw [step.eq_def] at h
  dsimp only at h
  split at h
  next p hpc =>
    obtain rfl := Option.some.inj h
    exact reads_of hpc (fun n ev h => by cases h) (fun n ev h => by cases h) rfl rfl rfl
  next => cases h

lemma called_reads (h : step loop l .called = some l') :
    l'.posted = l.posted ∧ l'.handled = l.handled ∧ (∀ u, (l'.pc u).1 = (l.pc u).1) ∧
      ∃ n, (l'.pc loop).2 = .round n := by
  rw [step.eq_def] at h
  dsimp only at h
  split at h
  next left ev hpc =>
    obtain rfl := Option.some.inj h
    exact ⟨rfl, rfl, fun u => setRead_fst _, left, setRead_snd _⟩
  next => cases h

end Below

/-! ### The functors -/

/-- The events that call `onCustomEvent`. -/
def customs (evs : List hevent) : ℕ := evs.countP isCustom

lemma customs_snoc (evs : List hevent) (ev : hevent) :
    customs (evs ++ [ev]) = customs evs + (isCustom ev).toNat := by
  unfold customs
  rw [List.countP_append, List.countP_singleton]
  cases isCustom ev <;> rfl

/-- The functors that were put into the queue have an event there, or a thread that is about to put
one there, or they lost it; those that ran had an event that was handled. -/
structure Inv (loop : τ) (s : EventLoop τ F) : Prop where
  below : ∃ xs, CustomEvents.Inv loop s.loop_ xs
  kind : ∀ t ev, posting (s.loop_.pc t).1 = some ev → (isCustom ev = true ↔ t ∈ s.between)
  entered : s.entered = true → ∃ n ev, (s.loop_.pc loop).2 = .callback n ev
  queued : s.queued.length = customs s.loop_.posted + s.between.card + s.lost
  ran : s.ran.length + (s.called loop).toNat = customs s.loop_.handled
  order : s.ran ++ s.customEvents = s.queued

omit [DecidableEq τ] in
lemma inv_start (loop : τ) : Inv loop (start τ F) where
  below := ⟨[], inv_init loop⟩
  kind _ _ h := by cases h
  entered h := by cases h
  queued := rfl
  ran := rfl
  order := rfl

namespace Inv

variable {loop s} {s' : EventLoop τ F} {l : State τ} {t : τ}

omit [DecidableEq τ] in
lemma not_called {n : EventLoop τ F} (h : ∀ k ev, (n.loop_.pc loop).2 ≠ .callback k ev) :
    n.called loop = false := by
  unfold EventLoop.called
  split
  next k ev hc => exact absurd hc (h k ev)
  next => rfl

omit [DecidableEq τ] in
/-- A thread goes on in `hloop_post_event` and puts nothing into the queue. -/
lemma keeps (i : Inv loop s) (hk : Keeps s.loop_ l) (hb : ∃ xs, CustomEvents.Inv loop l xs)
    (hkind : ∀ u e, posting (l.pc u).1 = some e → (isCustom e = true ↔ u ∈ s.between)) :
    Inv loop { s with loop_ := l } := by
  refine ⟨hb, hkind, fun he => ?_, ?_, ?_, i.order⟩
  · obtain ⟨n, ev, hc⟩ := i.entered he
    exact ⟨n, ev, (hk.reads loop).trans hc⟩
  · rw [hk.posted]
    exact i.queued
  · rw [hk.handled, ← i.ran]
    unfold EventLoop.called
    rw [hk.reads]

omit [DecidableEq τ] in
/-- The thread of the loop goes on in `eventfd_read_cb`. -/
lemma reads (i : Inv loop s) (hr : Reads loop s.loop_ l) (ht : Took loop s.loop_ l)
    (hb : ∃ xs, CustomEvents.Inv loop l xs) : Inv loop { s with loop_ := l } := by
  have hentered : s.entered = false := by
    by_contra he
    obtain ⟨n, ev, hc⟩ := i.entered (Bool.eq_true_of_not_eq_false he)
    exact hr.before n ev hc
  have hran := i.ran
  rw [not_called hr.before] at hran
  refine ⟨hb, fun u e he => ?_, fun he => ?_, ?_, ?_, i.order⟩
  · rw [hr.posts] at he
    exact i.kind u e he
  · exact Bool.noConfusion (hentered.symm.trans he)
  · rw [hr.posted]
    exact i.queued
  · obtain ⟨n, ev, hhandled, hpc⟩ | ⟨hhandled, hno⟩ := ht
    · have hcalled : EventLoop.called loop { s with loop_ := l } = isCustom ev := by
        unfold EventLoop.called
        rw [hpc]
        by_cases hcb : ev.cb = none
        · rw [if_pos hcb, isCustom, hcb]
          rfl
        · rw [if_neg hcb, hentered]
          exact Bool.and_true _
      rw [hcalled, hhandled, customs_snoc, ← hran]
      rfl
    · rw [not_called hno, hhandled]
      exact hran

lemma push (i : Inv loop s) {fn : F} (h : s.step loop (.push t fn) = some s') : Inv loop s' := by
  obtain ⟨⟨hcan, hnot⟩, h⟩ := Option.ite_none_right_eq_some.mp h
  obtain rfl := Option.some.inj h
  refine ⟨i.below, fun u e he => ?_, i.entered, ?_, i.ran, ?_⟩
  · have hne : u ≠ t := by
      rintro rfl
      rw [canPost] at hcan
      split at hcan
      next hpc =>
        rw [hpc] at he
        cases he
      next hpc =>
        rw [hpc] at he
        cases he
      next => cases hcan
    exact (i.kind u e he).trans (Finset.mem_insert.trans (or_iff_right hne)).symm
  · have hqueued := i.queued
    change (s.queued ++ [fn]).length = customs s.loop_.posted + (insert t s.between).card + s.lost
    rw [List.length_append, List.length_singleton, Finset.card_insert_of_notMem hnot]
    omega
  · change s.ran ++ (s.customEvents ++ [fn]) = s.queued ++ [fn]
    rw [← List.append_assoc, i.order]

lemma post (i : Inv loop s) (h : s.step loop (.post t) = some s') : Inv loop s' := by
  obtain ⟨hmem, h⟩ := Option.ite_none_right_eq_some.mp h
  obtain ⟨l, hl, rfl⟩ := Option.map_eq_some_iff.mp h
  obtain ⟨xs, ib⟩ := i.below
  obtain ⟨hk, hposting⟩ := post_keeps hl
  refine i.keeps hk (ib.step hl) fun u e he => ?_
  obtain ⟨rfl, hcb⟩ | he := hposting u e he
  · exact ⟨fun _ => hmem, fun _ => decide_eq_true hcb⟩
  · exact i.kind u e he

lemma other (i : Inv loop s) {ev : hevent} (h : s.step loop (.other t ev) = some s') :
    Inv loop s' := by
  obtain ⟨⟨hnot, hother⟩, h⟩ := Option.ite_none_right_eq_some.mp h
  obtain ⟨l, hl, rfl⟩ := Option.map_eq_some_iff.mp h
  obtain ⟨xs, ib⟩ := i.below
  obtain ⟨hk, hposting⟩ := post_keeps hl
  refine i.keeps hk (ib.step hl) fun u e he => ?_
  obtain ⟨rfl, hcb⟩ | he := hposting u e he
  · have hkind : isCustom e = false := by
      rw [isCustom, hcb]
      exact hother
    exact ⟨fun hc => Bool.noConfusion (hkind.symm.trans hc), fun hm => absurd hm hnot⟩
  · exact i.kind u e he

lemma write (i : Inv loop s) {created ok : Bool}
    (h : s.step loop (.loop (.write t created ok)) = some s') : Inv loop s' := by
  obtain ⟨l, hl, rfl⟩ := Option.map_eq_some_iff.mp h
  obtain ⟨xs, ib⟩ := i.below
  obtain ⟨hk, hposting⟩ := write_keeps hl
  unfold EventLoop.written
  split
  next => exact i.keeps hk (ib.step hl) fun u e he => i.kind u e (hposting u e he).1
  next hfail =>
    have i' := i.keeps hk (ib.step hl) fun u e he => i.kind u e (hposting u e he).1
    refine ⟨i'.below, fun u e he => ?_, i'.entered, ?_, i'.ran, i'.order⟩
    · have hne := (hposting u e he).2 (Bool.eq_false_of_not_eq_true hfail)
      exact (i'.kind u e he).trans (Finset.mem_erase.trans (and_iff_right hne)).symm
    · have hqueued := i'.queued
      change s.queued.length = customs l.posted + s.between.card + s.lost at hqueued
      change s.queued.length = customs l.posted + (s.between.erase t).card +
        (s.lost + if t ∈ s.between then 1 else 0)
      by_cases hmem : t ∈ s.between
      · have hpos := Finset.card_pos.mpr ⟨t, hmem⟩
        rw [if_pos hmem, Finset.card_erase_of_mem hmem]
        omega
      · rw [if_neg hmem, Finset.erase_eq_of_notMem hmem]
        exact hqueued

lemma pushed (i : Inv loop s) (h : s.step loop (.loop (.push t)) = some s') : Inv loop s' := by
  obtain ⟨l, hl, rfl⟩ := Option.map_eq_some_iff.mp h
  obtain ⟨xs, ib⟩ := i.below
  obtain ⟨ev, hev, hposted, hhandled, hreads, hposting⟩ := push_posts hl
  refine ⟨ib.step hl, fun u e he => ?_, fun he => ?_, ?_, ?_, i.order⟩
  · obtain ⟨he, hne⟩ := hposting u e he
    exact (i.kind u e he).trans (Finset.mem_erase.trans (and_iff_right hne)).symm
  · obtain ⟨n, ev, hc⟩ := i.entered he
    exact ⟨n, ev, (hreads loop).trans hc⟩
  · have hqueued := i.queued
    have hkind := i.kind t ev hev
    change s.queued.length = customs l.posted + (s.between.erase t).card + s.lost
    rw [hposted, customs_snoc]
    cases hc : isCustom ev with
    | true =>
      have hmem := hkind.mp hc
      have hpos := Finset.card_pos.mpr ⟨t, hmem⟩
      rw [Finset.card_erase_of_mem hmem, Bool.toNat_true]
      omega
    | false =>
      have hnot : t ∉ s.between := fun hm => Bool.noConfusion (hc.symm.trans (hkind.mpr hm))
      rw [Finset.erase_eq_of_notMem hnot]
      exact hqueued
  · change s.ran.length + (EventLoop.called loop _).toNat = customs l.handled
    rw [hhandled, ← i.ran]
    unfold EventLoop.called
    dsimp only
    rw [hreads]

lemma called (i : Inv loop s) (h : s.step loop (.loop .called) = some s') : Inv loop s' := by
  obtain ⟨hnot, h⟩ := Option.ite_none_left_eq_some.mp h
  obtain ⟨l, hl, rfl⟩ := Option.map_eq_some_iff.mp h
  obtain ⟨xs, ib⟩ := i.below
  obtain ⟨hposted, hhandled, hposts, n, hround⟩ := called_reads hl
  have hran := i.ran
  rw [Bool.eq_false_of_not_eq_true fun hc => hnot (.inl hc)] at hran
  refine ⟨ib.step hl, fun u e he => ?_, (fun he => by cases he), ?_, ?_, i.order⟩
  · dsimp only at he
    rw [hposts] at he
    exact i.kind u e he
  · dsimp only
    rw [hposted]
    exact i.queued
  · rw [not_called fun k ev hc => Read.noConfusion (hround.symm.trans hc)]
    dsimp only
    rw [hhandled]
    exact hran

lemma run (i : Inv loop s) (h : s.step loop .run = some s') : Inv loop s' := by
  obtain ⟨hcalled, h⟩ := Option.ite_none_right_eq_some.mp h
  have hran := i.ran
  have horder := i.order
  unfold EventLoop.takeFront at h
  split at h
  next => cases h
  next fn rest hfront =>
    obtain rfl := Option.some.inj h
    rw [hcalled, Bool.toNat_true] at hran
    rw [hfront] at horder
    refine ⟨i.below, i.kind, fun _ => ?_, i.queued, ?_, ?_⟩
    · unfold EventLoop.called at hcalled
      split at hcalled
      next n ev hc => exact ⟨n, ev, hc⟩
      next => cases hcalled
    · have hdone : EventLoop.called loop
          { s with customEvents := rest, entered := true, ran := s.ran ++ [fn] } = false := by
        unfold EventLoop.called
        split
        next => exact Bool.and_false _
        next => rfl
      rw [hdone]
      exact (List.length_append ..).trans hran
    · change s.ran ++ [fn] ++ rest = s.queued
      rw [List.append_assoc]
      exact horder

lemma step {a : Action τ F} (i : Inv loop s) (h : s.step loop a = some s') : Inv loop s' := by
  cases a with
  | push t fn => exact i.push h
  | post t => exact i.post h
  | other t ev => exact i.other h
  | run => exact i.run h
  | loop a =>
    obtain ⟨xs, ib⟩ := i.below
    cases a with
    | post t ev => cases h
    | lock t =>
      obtain ⟨l, hl, rfl⟩ := Option.map_eq_some_iff.mp h
      obtain ⟨hk, hposting⟩ := lock_keeps hl
      exact i.keeps hk (ib.step hl) fun u e he => i.kind u e (hposting u e he)
    | write t created ok => exact i.write h
    | push t => exact i.pushed h
    | unlock t =>
      obtain ⟨l, hl, rfl⟩ := Option.map_eq_some_iff.mp h
      obtain ⟨hk, hposting⟩ := unlock_keeps hl
      exact i.keeps hk (ib.step hl) fun u e he => i.kind u e (hposting u e he)
    | read k =>
      obtain ⟨-, h⟩ := Option.ite_none_left_eq_some.mp h
      obtain ⟨l, hl, rfl⟩ := Option.map_eq_some_iff.mp h
      exact i.reads (read_reads hl).1 (read_reads hl).2 (ib.step hl)
    | readLock =>
      obtain ⟨l, hl, rfl⟩ := Option.map_eq_some_iff.mp h
      exact i.reads (readLock_reads hl).1 (readLock_reads hl).2 (ib.step hl)
    | pop =>
      obtain ⟨l, hl, rfl⟩ := Option.map_eq_some_iff.mp h
      exact i.reads (pop_reads hl).1 (pop_reads hl).2 (ib.step hl)
    | readUnlock =>
      obtain ⟨l, hl, rfl⟩ := Option.map_eq_some_iff.mp h
      exact i.reads (readUnlock_reads hl).1 (readUnlock_reads hl).2 (ib.step hl)
    | called => exact i.called h
    | leave =>
      obtain ⟨l, hl, rfl⟩ := Option.map_eq_some_iff.mp h
      exact i.reads (leave_reads hl).1 (leave_reads hl).2 (ib.step hl)

omit [DecidableEq τ] in
/-- There is a functor for each event that calls `onCustomEvent`. -/
lemma front (i : Inv loop s) (h : s.called loop = true) : s.customEvents ≠ [] := by
  obtain ⟨xs, ib⟩ := i.below
  have hle : customs s.loop_.handled ≤ customs s.loop_.posted := by
    rw [← ib.order, List.append_assoc]
    unfold customs
    rw [List.countP_append]
    exact Nat.le_add_right _ _
  have hran := i.ran
  have hqueued := i.queued
  rw [h, Bool.toNat_true] at hran
  rw [← i.order, List.length_append] at hqueued
  intro hnil
  rw [hnil, List.length_nil] at hqueued
  omega

omit [DecidableEq τ] in
/-- Where the loop waits and no thread is in `postEvent`, a functor for each event that was lost is
in the queue. -/
lemma rest (i : Inv loop s) (hcount : s.loop_.count = 0) (hread : (s.loop_.pc loop).2 = .outside)
    (hbetween : s.between = ∅) : s.customEvents.length = s.lost := by
  obtain ⟨xs, ib⟩ := i.below
  have hxs := ib.count
  rw [hcount, hread] at hxs
  obtain rfl : xs = [] := List.eq_nil_of_length_eq_zero (Nat.eq_zero_of_add_eq_zero hxs).1
  have hall := ib.order
  rw [hread, List.append_nil] at hall
  have hhandled : s.loop_.handled = s.loop_.posted := (List.append_nil _).symm.trans hall
  have hran := i.ran
  rw [not_called fun k ev hc => Read.noConfusion (hread.symm.trans hc), hhandled] at hran
  have hqueued := i.queued
  rw [← i.order, List.length_append, hbetween, Finset.card_empty, ← hran, Bool.toNat_false]
    at hqueued
  omega

end Inv

/-- **The functors.** However the threads and the loop come in between each other, the functors run
in the order in which they were put into the queue, each once, and `onCustomEvent` finds one
whenever it is called. When the loop waits and no thread is in `postEvent`, all of them ran but as
many of the last ones as there were events that could not be posted. -/
theorem functors_run_in_order (loop : τ) (as : List (Action τ F)) (s : EventLoop τ F)
    (h : Transition.exec (EventLoop.step loop) (start τ F) as = some s) :
    s.ran ++ s.customEvents = s.queued ∧ (s.called loop = true → s.customEvents ≠ []) ∧
      (s.loop_.count = 0 → (s.loop_.pc loop).2 = .outside → s.between = ∅ →
        s.customEvents.length = s.lost) := by
  have i : Inv loop s := Transition.inv_of_always (P := fun _ _ _ => True)
    (I := fun _ s => Inv loop s) (inv_start loop) (fun _ _ _ _ i _ hs => i.step hs)
    (fun _ _ _ _ _ _ => trivial) h
  exact ⟨i.order, i.front, i.rest⟩

/-- The event of the first functor could not be posted, and that of the second one calls it. -/
theorem functors_run_in_order_two :
    ∃ s, Transition.exec (EventLoop.step 0) (start ℕ ℕ)
        [.push 1 7, .post 1, .loop (.lock 1), .loop (.write 1 true false), .loop (.unlock 1),
          .push 1 8, .post 1, .loop (.lock 1), .loop (.write 1 true true), .loop (.push 1),
          .loop (.unlock 1), .loop (.read 1), .loop .readLock, .loop .pop, .loop .readUnlock,
          .run] = some s ∧
      s.ran = [7] ∧ s.ran ++ s.customEvents = s.queued := by
  have hrun : ∃ s, Transition.exec (EventLoop.step 0) (start ℕ ℕ)
      [.push 1 7, .post 1, .loop (.lock 1), .loop (.write 1 true false), .loop (.unlock 1),
        .push 1 8, .post 1, .loop (.lock 1), .loop (.write 1 true true), .loop (.push 1),
        .loop (.unlock 1), .loop (.read 1), .loop .readLock, .loop .pop, .loop .readUnlock,
        .run] = some s ∧ s.ran = [7] := ⟨_, rfl, rfl⟩
  obtain ⟨s, h, hran⟩ := hrun
  exact ⟨s, h, hran, (functors_run_in_order 0 _ s h).1⟩

end MmrService.EventLoops
