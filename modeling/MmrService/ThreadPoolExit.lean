import MmrService.ThreadPoolStops

/-!
What a worker of a `ThreadPool` does behind its erase, and what `stop` has to wait for.

A worker erases itself from the map under the mutex, frees it and calls `notify_all`. `stop`
waits for the map to be empty, and its caller then destroys the members. The steps of the
workers are taken here to go on after that.
-/

namespace MmrService.ThreadPool

open Transition

variable {τ : Type} [DecidableEq τ]

/-- The pool, and the workers that have freed the mutex for the last time and not yet called
`notify_all`. -/
structure Ending (τ : Type) where
  pool : State τ
  notifying : ℕ → Bool

inductive Ending.Action (τ : Type)
  | step (a : ThreadPool.Action τ)
  /-- `m_cv.notify_all()` at the end of `threadFunc`. -/
  | notify (i : ℕ)

/-- The operation that a worker is before is on a member of the pool. -/
def Pc.touches {κ : Type} : Pc κ → Bool
  | .execute _ | .gone => false
  | _ => true

/-- A step of the pool, or of a worker that is left when `stop` has returned. -/
def State.goOn (pool : Config) (s : State τ) (a : Action τ) : Option (State τ) :=
  if s.stopping = .returned then
    match a with
    | .work i dur => s.workers[i]?.bind fun w => s.stepWorker pool i w dur
    | .wake i timeout => s.workers[i]?.bind fun w => s.wakeWorker i w timeout
    | _ => none
  else s.step pool a

namespace Ending

/-- A worker that erases itself has its last call to make. -/
def erased (s : Ending τ) : ThreadPool.Action τ → ℕ → Bool
  | .work i _ =>
    if (s.pool.workers[i]?).any (·.pc = .erase) then Function.update s.notifying i true
    else s.notifying
  | _ => s.notifying

def step (pool : Config) (s : Ending τ) : Action τ → Option (Ending τ)
  | .step a => (s.pool.goOn pool a).map fun t => ⟨t, s.erased a⟩
  | .notify i =>
    if s.notifying i then some { s with notifying := Function.update s.notifying i false }
    else none

def start (τ : Type) (pool : Config) (g : UInt32) : Ending τ :=
  ⟨State.start τ pool g, fun _ => false⟩

/-- Whether a step is an access of a worker to a member of the pool. -/
def accesses (s : Ending τ) : Action τ → Bool
  | .step (.work i _) => (s.pool.workers[i]?).any (·.pc.touches)
  | .step (.wake _ _) | .notify _ => true
  | _ => false

variable {pool : Config} {s t : Ending τ} {i : ℕ}

/-- No worker accesses a member any more, whatever the order of the steps that are left. -/
def Quiet (pool : Config) (s : Ending τ) : Prop :=
  ∀ as a t, exec (step pool) s as = some t → (step pool t a).isSome → t.accesses a = false

/-- Every worker has erased itself and made its last call. -/
def Over (s : Ending τ) : Prop :=
  (∀ i, s.notifying i = false) ∧ ∀ w ∈ s.pool.workers, w.pc = .gone

lemma Quiet.step (h : Quiet pool s) {a : Action τ} (hs : step pool s a = some t) :
    Quiet pool t := by
  intro as b u hu
  refine h (a :: as) b u ?_
  rw [exec_cons, hs]
  exact hu

/-- Nobody is left to take a step. -/
lemma Over.stuck (h : Over s) (hret : s.pool.stopping = .returned) (a : Action τ) :
    step pool s a = none := by
  cases a with
  | notify i =>
    simp [step, h.1 i]
  | step a =>
    refine Option.map_eq_none_iff.mpr ?_
    unfold State.goOn
    rw [if_pos hret]
    cases a with
    | work i dur =>
      refine Option.bind_eq_none_iff.mpr fun w hw => ?_
      rw [State.stepWorker, h.2 w (List.mem_of_getElem? hw)]
    | wake i b =>
      refine Option.bind_eq_none_iff.mpr fun w hw => ?_
      rw [State.wakeWorker, h.2 w (List.mem_of_getElem? hw)]
    | _ => rfl

lemma Over.quiet (h : Over s) (hret : s.pool.stopping = .returned) : Quiet pool s := by
  intro as a t ht hstep
  cases as with
  | nil =>
    cases ht
    rw [h.stuck hret a] at hstep
    cases hstep
  | cons b bs =>
    rw [exec_cons, h.stuck hret b] at ht
    cases ht

/-- Its task executed, a worker goes on to count itself idle. -/
lemma Quiet.not_executing (h : Quiet pool s) (hret : s.pool.stopping = .returned) {w : Worker τ}
    (hw : s.pool.workers[i]? = some w) (task : Task τ) : w.pc ≠ .execute task := by
  intro hc
  obtain ⟨hi, -⟩ := List.getElem?_eq_some_iff.mp hw
  have hstep : Ending.step pool s (.step (.work i 0)) = some
      ⟨{ s.pool.goto i w .addIdle with executed := s.pool.executed ++ [task] }, s.notifying⟩ := by
    simp [Ending.step, State.goOn, hret, hw, State.stepWorker, hc, erased]
  have hget : (s.pool.goto i w .addIdle).workers[i]? = some ⟨w.threadId, .addIdle⟩ := by
    simp [State.goto, hi]
  have hacc := h.step hstep [] (.step (.work i 0)) _ rfl
    (by simp [Ending.step, State.goOn, State.goto, hret, hi, State.stepWorker])
  simp [accesses, State.goto, hi, Pc.touches] at hacc

/-- A worker that has not come to its end accesses a member, at the latest when it has executed
its task. -/
lemma Quiet.over (h : Quiet pool s) (hret : s.pool.stopping = .returned)
    (hm : s.pool.m_mutex = none) : Over s := by
  refine ⟨fun i => ?_, fun w hw => ?_⟩
  · by_contra hi
    have hi : s.notifying i = true := by simpa using hi
    cases h [] (.notify i) s rfl (by simp [Ending.step, hi])
  · obtain ⟨i, hi⟩ := List.mem_iff_getElem?.mp hw
    by_contra hgone
    rcases worker_enabled pool i 0 (.inl hm) hgone with hsome | hsome
    · have hacc := h [] (.step (.work i 0)) s rfl
        (by simp [Ending.step, State.goOn, hret, hi, hsome])
      have htouch : w.pc.touches = true := by
        cases hc : w.pc with
        | gone => exact absurd hc hgone
        | execute task => exact absurd hc (h.not_executing hret hi task)
        | _ => rfl
      simp [accesses, hi, htouch] at hacc
    · cases h [] (.step (.wake i true)) s rfl (by simp [Ending.step, State.goOn, hret, hi, hsome])

/-- No step of a worker on a member comes after the return of `stop`. -/
lemma quiet_iff (hret : s.pool.stopping = .returned) (hm : s.pool.m_mutex = none) :
    Quiet pool s ↔ Over s :=
  ⟨fun h => h.over hret hm, fun h => h.quiet hret⟩

/-! ### Runs -/

/-- When `stop` finds the map empty, no worker is between its unlock and its `notify_all`; and
where more threads than there are ids have been created, so that two may have shared an entry,
every worker has erased itself. -/
def Waited (s : Ending τ) (a : Action τ) : Prop :=
  a = .step .stop → s.pool.stopping = .waiting → s.pool.m_mutex = none →
    s.pool.m_mapThreads = [] →
    (∀ i, s.notifying i = false) ∧
      (2 ^ 32 < s.pool.workers.length → ∀ w ∈ s.pool.workers, w.pc = .gone)

/-- What is used of the pool: its workers are in the map until they erase themselves. -/
def Mapped (g : UInt32) (s : Ending τ) : Prop :=
  s.pool.stopping ≠ .returned → Registered g s.pool

omit [DecidableEq τ] in
/-- The workers that are left do not bring the pool back. -/
lemma stopping_stepWorker {s t : State τ} {w : Worker τ} {dur : ℕ}
    (hs : s.stepWorker pool i w dur = some t) : t.stopping = s.stopping := by
  revert hs
  fun_cases State.stepWorker pool s i w dur <;> intro hs <;> cases hs <;> rfl

omit [DecidableEq τ] in
lemma stopping_wakeWorker {s t : State τ} {w : Worker τ} {b : Bool}
    (hs : s.wakeWorker i w b = some t) : t.stopping = s.stopping := by
  revert hs
  fun_cases State.wakeWorker s i w b <;> intro hs <;> cases hs <;> rfl

lemma returned_step (hret : s.pool.stopping = .returned) {a : Action τ}
    (hs : step pool s a = some t) : t.pool.stopping = .returned := by
  cases a with
  | notify i =>
    simp only [step, Option.ite_none_right_eq_some] at hs
    cases hs.2
    exact hret
  | step a =>
    obtain ⟨u, hu, rfl⟩ := Option.map_eq_some_iff.mp hs
    unfold State.goOn at hu
    rw [if_pos hret] at hu
    cases a with
    | work i dur =>
      obtain ⟨w, -, hu⟩ := Option.bind_eq_some_iff.mp hu
      exact (stopping_stepWorker hu).trans hret
    | wake i b =>
      obtain ⟨w, -, hu⟩ := Option.bind_eq_some_iff.mp hu
      exact (stopping_wakeWorker hu).trans hret
    | _ => cases hu

/-- Before that, a step is one of the pool. -/
lemma step_before (hret : s.pool.stopping ≠ .returned) {a : ThreadPool.Action τ}
    (hs : step pool s (.step a) = some t) :
    s.pool.step pool a = some t.pool ∧ t.notifying = s.erased a := by
  obtain ⟨u, hu, rfl⟩ := Option.map_eq_some_iff.mp hs
  unfold State.goOn at hu
  rw [if_neg hret] at hu
  exact ⟨hu, rfl⟩

lemma Mapped.step {g : UInt32} (h : Mapped g s) {a : Action τ} (hs : step pool s a = some t) :
    Mapped g t := by
  intro hret
  have hret' : s.pool.stopping ≠ .returned := fun hc => hret (returned_step hc hs)
  cases a with
  | notify i =>
    simp only [Ending.step, Option.ite_none_right_eq_some] at hs
    cases hs.2
    exact h hret
  | step a => exact (h hret').step (step_before hret' hs).1

/-- With the map empty, only a worker that shares its id with another can be left in it. -/
lemma Mapped.gone {g : UInt32} (h : Mapped g s) (hret : s.pool.stopping ≠ .returned)
    (hmap : s.pool.m_mapThreads = []) (hlen : s.pool.workers.length ≤ 2 ^ 32) :
    ∀ w ∈ s.pool.workers, w.pc = .gone := by
  intro w hw
  by_contra hgone
  have hmem := (h hret).listed hlen w hw hgone
  rw [hmap] at hmem
  cases hmem

/-- `stop` returns, and nothing is to come, exactly if that was so before. -/
lemma quiet_stop {g : UInt32} (hj : Mapped g s) (hret : s.pool.stopping ≠ .returned)
    (hs : step pool s (.step .stop) = some t) :
    (t.pool.stopping = .returned → Quiet pool t) ↔ Waited s (.step .stop) := by
  have hgone := hj.gone hret
  obtain ⟨p, n⟩ := t
  obtain ⟨hpool, hnot⟩ := step_before hret hs
  obtain rfl : n = s.notifying := hnot
  have hstop : s.pool.stop = some p := stop_of_step hpool
  clear hpool hs
  revert hstop
  fun_cases State.stop s.pool <;> intro hstop <;> cases hstop
  · next hrun =>
    refine ⟨fun _ _ hc => ?_, fun _ hc => ?_⟩
    · cases hrun.symm.trans hc
    · cases hc
  · next hm hwait hlen =>
    have hmap := List.length_eq_zero_iff.mp hlen
    have hiff : Quiet pool ⟨{ s.pool with stopping := .returned }, s.notifying⟩ ↔
        Over ⟨{ s.pool with stopping := .returned }, s.notifying⟩ := quiet_iff rfl hm
    refine ⟨fun h _ _ _ _ => ?_, fun h _ => hiff.mpr ⟨?_, ?_⟩⟩
    · obtain ⟨hn, hw⟩ := hiff.mp (h rfl)
      exact ⟨hn, fun _ => hw⟩
    · exact (h rfl hwait hm hmap).1
    · rcases Nat.lt_or_ge (2 ^ 32) s.pool.workers.length with hlt | hle
      · exact (h rfl hwait hm hmap).2 hlt
      · exact hgone hmap hle
  · next hm hwait hlen =>
    refine ⟨fun _ _ _ _ hmap => absurd (List.length_eq_zero_iff.mpr hmap) hlen, fun _ hc => ?_⟩
    exact absurd hc hret

lemma quiet_step {g : UInt32} (hj : Mapped g s)
    (hr : s.pool.stopping = .returned → Quiet pool s) {a : Action τ}
    (hs : step pool s a = some t) :
    (t.pool.stopping = .returned → Quiet pool t) ↔ Waited s a := by
  by_cases hret : s.pool.stopping = .returned
  · refine ⟨fun _ _ hw => ?_, fun _ _ => (hr hret).step hs⟩
    cases hw.symm.trans hret
  cases a with
  | notify i =>
    simp only [step, Option.ite_none_right_eq_some] at hs
    cases hs.2
    exact ⟨fun _ ha => (by cases ha), fun _ hc => absurd hc hret⟩
  | step a =>
    by_cases ha : a = .stop
    · subst ha
      exact quiet_stop hj hret hs
    · have hstay := (stopping_step ha (step_before hret hs).1).1
      refine ⟨fun _ hc => ?_, fun _ hc => absurd (hstay.symm.trans hc) hret⟩
      cases hc
      exact absurd rfl ha

/-- **Nothing is accessed behind `stop`.** In the whole of a run, no worker accesses a member of
the pool once `stop` has returned, exactly when `stop` never finds the map empty while a worker
has its last call to make. -/
theorem quiet_after_stop_iff (pool : Config) (g : UInt32) (as : List (Action τ)) :
    Throughout (step pool) (fun s => s.pool.stopping = .returned → Quiet pool s)
      (start τ pool g) as ↔
    Always (step pool) (fun _ => Waited) (start τ pool g) as := by
  have hrun : (start τ pool g).pool.stopping = .running := (fresh_start pool g).stopping
  refine throughout_iff (J := Mapped g) (fun _ => (inv_start pool g).registered)
    (fun hret => ?_) (fun _ _ _ h hs => h.step hs) (fun _ _ _ hj hr hs => quiet_step hj hr hs)
    (fun s a hs => ?_) as
  · cases hrun.symm.trans hret
  · rintro rfl hwait hm hmap
    simp [step, State.goOn, State.step, State.stop, hwait, hm, hmap] at hs

/-- Both workers find the flag cleared and erase themselves; the call of the first wakes `stop`. -/
def lateNotify : List (Action Unit) :=
  [.step .stop,
    .step (.work 0 0), .step (.work 0 0), .step (.work 0 0), .step (.work 0 0),
    .step (.work 1 0), .step (.work 1 0), .step (.work 1 0), .step (.work 1 0),
    .notify 0, .step .stop]

lemma lateNotify_ends :
    (exec (step (.make 8 .MODE_FIXED 2 10000 1024 60))
      (start Unit (.make 8 .MODE_FIXED 2 10000 1024 60) 0) lateNotify).map
        (fun s => (s.pool.stopping, s.notifying 0, s.notifying 1)) =
      some (.returned, false, true) := by
  decide +kernel

theorem lateNotify_accesses :
    ∃ s, exec (step (.make 8 .MODE_FIXED 2 10000 1024 60))
      (start Unit (.make 8 .MODE_FIXED 2 10000 1024 60) 0) lateNotify = some s ∧
      s.pool.stopping = .returned ∧
      (step (.make 8 .MODE_FIXED 2 10000 1024 60) s (.notify 1)).isSome ∧
      s.accesses (.notify 1) = true := by
  obtain ⟨s, hs, he⟩ := Option.map_eq_some_iff.mp lateNotify_ends
  simp only [Prod.mk.injEq] at he
  obtain ⟨hret, -, hone⟩ := he
  exact ⟨s, hs, hret, by simp [step, hone], rfl⟩

end Ending

end MmrService.ThreadPool
