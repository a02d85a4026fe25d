import MmrService.ThreadPoolStops

/-!
What `submit` of a `ThreadPool` leaves behind when it ends with an exception.

It throws when the queue is still full after the wait, before it has changed anything. In
`MODE_CACHED` the start of a new thread may fail as well: the task is in the queue by then, and
in the map is an entry that no thread will erase.
-/

namespace MmrService.ThreadPool

open Transition Mutex

variable {τ : Type} [DecidableEq τ]

/-- A step of the pool, or a thread of `submit` for which `std::thread` throws. -/
inductive Attempt (τ : Type)
  | step (a : Action τ)
  | throw (u : τ)

namespace State

/-- `createThreadInner` with a start that fails: the entry stays in the map, the counters have
not been reached, and the exception passes through `submit`. -/
def throwStart (s : State τ) (u : τ) : Option (State τ) :=
  match s.client u with
  | .emplace =>
    some { s.goes u .outside with
      m_mutex := none
      m_generateId := s.m_generateId + 1
      m_mapThreads := s.m_mapThreads.insert (s.m_generateId + 1)
      rejected := s.rejected ++ [s.current u]
      calls := Function.update s.calls u (s.calls u + 1) }
  | _ => none

def attempt (pool : Config) (s : State τ) : Attempt τ → Option (State τ)
  | .step a => s.step pool a
  | .throw u => if s.stopping = .returned then none else s.throwStart u

end State

variable {pool : Config} {s t : State τ} {i : ℕ} {w : Worker τ} {k : Task τ}

/-- The call of `u` ends with an exception. -/
def Throws (pool : Config) (s : State τ) (a : Attempt τ) (u : τ) : Prop :=
  a = .step (.client u) ∧ s.client u = .test true ∧
      ¬ s.m_queueTask.length < pool.m_ulTaskqueMaxSize.toNat ∨
    a = .throw u ∧ s.client u = .emplace

/-- The pool is as if the call with the task `k` had not been made: `k` is not in the queue and
will not run, the map holds threads that were started, the counters are what they were, and
`stop` can still complete. -/
structure AsBefore (pool : Config) (k : Task τ) (s t : State τ) : Prop where
  queue : k ∉ t.m_queueTask
  executed : ∀ as v, exec (State.attempt pool) t as = some v → k ∉ v.executed
  map : Started t
  cur : t.m_usCurThreadSize = s.m_usCurThreadSize
  idle : t.m_usIdleThreadSize = s.m_usIdleThreadSize
  stop : ∃ as v, exec (State.attempt pool) t as = some v ∧ v.stopping = .returned

/-! ### A task that will not run -/

/-- The task is of a call that has ended, and nobody has it. -/
structure Absent (k : Task τ) (s : State τ) : Prop where
  queue : k ∉ s.m_queueTask
  hands : ∀ w ∈ s.workers, w.pc.task ≠ some k
  executed : k ∉ s.executed
  past : k.2 < s.calls k.1

omit [DecidableEq τ] in
lemma Absent.quiet (h : Absent k s) (hq : t.m_queueTask = s.m_queueTask)
    (hw : t.workers = s.workers) (he : t.executed = s.executed) (hc : t.calls = s.calls) :
    Absent k t := by
  refine ⟨?_, ?_, ?_, ?_⟩
  · rw [hq]; exact h.queue
  · rw [hw]; exact h.hands
  · rw [he]; exact h.executed
  · rw [hc]; exact h.past

omit [DecidableEq τ] in
lemma Absent.goto (h : Absent k s) {p : Pc (Task τ)} (hp : p.task ≠ some k)
    (hq : k ∉ t.m_queueTask) (hw : t.workers = (s.goto i w p).workers) (he : k ∉ t.executed)
    (hc : t.calls = s.calls) : Absent k t := by
  refine ⟨hq, fun v hv => ?_, he, hc ▸ h.past⟩
  rw [hw] at hv
  rcases List.mem_or_eq_of_mem_set hv with hv | rfl
  · exact h.hands v hv
  · exact hp

/-- A call that ends is none of the past ones. -/
lemma Absent.call (h : Absent k s) (u : τ) (hq : t.m_queueTask = s.m_queueTask)
    (hw : t.workers = s.workers) (he : t.executed = s.executed)
    (hc : t.calls = Function.update s.calls u (s.calls u + 1)) : Absent k t := by
  refine ⟨hq ▸ h.queue, hw ▸ h.hands, he ▸ h.executed, ?_⟩
  have hpast := h.past
  rw [hc, Function.update_apply]
  split_ifs with hu
  · rw [hu] at hpast
    exact Nat.lt_succ_of_lt hpast
  · exact hpast

omit [DecidableEq τ] in
lemma Absent.emplaceThread (h : Absent k s) : Absent k s.emplaceThread := by
  refine ⟨h.queue, fun v hv => ?_, h.executed, h.past⟩
  rcases List.mem_append.mp hv with hv | hv
  · exact h.hands v hv
  · rw [List.mem_singleton.mp hv]
    simp [Pc.task]

lemma Absent.stepClient (h : Absent k s) {u : τ} (hs : s.stepClient pool u = some t) :
    Absent k t := by
  revert hs
  fun_cases State.stepClient pool s u <;> intro hs <;> cases hs
  case case3 hc _ =>
    refine ⟨fun hk => ?_, h.hands, h.executed, h.past⟩
    rcases List.mem_append.mp hk with hk | hk
    · exact h.queue hk
    · have hpast := h.past
      rw [List.mem_singleton.mp hk] at hpast
      exact Nat.lt_irrefl _ hpast
  case case4 => exact h.call u rfl rfl rfl rfl
  case case10 => exact (h.quiet (t := s.goes u .addCur) rfl rfl rfl rfl).emplaceThread
  case case13 => exact h.call u rfl rfl rfl rfl
  all_goals exact h.quiet rfl rfl rfl rfl

omit [DecidableEq τ] in
lemma Absent.stepWorker (h : Absent k s) (hw : s.workers[i]? = some w) {dur : ℕ}
    (hs : s.stepWorker pool i w dur = some t) : Absent k t := by
  revert hs
  fun_cases State.stepWorker pool s i w dur <;> intro hs <;> cases hs
  case case1 => exact h.goto (by split_ifs <;> simp [Pc.task]) h.queue rfl h.executed rfl
  case case4 => exact h.goto (by split_ifs <;> simp [Pc.task]) h.queue rfl h.executed rfl
  case case6 => exact h.goto (by split_ifs <;> simp [Pc.task]) h.queue rfl h.executed rfl
  case case5 task rest hq =>
    -- another task is taken from the queue
    have hk := h.queue
    rw [hq, List.mem_cons, not_or] at hk
    exact h.goto (p := .execute task) (by simpa [Pc.task] using Ne.symm hk.1) hk.2 rfl
      h.executed rfl
  case case8 task hc =>
    have hk : k ≠ task := by
      rintro rfl
      exact h.hands w (List.mem_of_getElem? hw) (by rw [hc]; rfl)
    refine h.goto (p := .addIdle) (by simp [Pc.task]) h.queue rfl (fun hx => ?_) rfl
    rcases List.mem_append.mp hx with hx | hx
    · exact h.executed hx
    · exact hk (List.mem_singleton.mp hx)
  all_goals exact h.goto (by simp [Pc.task]) h.queue rfl h.executed rfl

omit [DecidableEq τ] in
lemma Absent.wakeWorker (h : Absent k s) {b : Bool} (hs : s.wakeWorker i w b = some t) :
    Absent k t := by
  revert hs
  fun_cases State.wakeWorker s i w b <;> intro hs <;> cases hs
  all_goals exact h.goto (by simp [Pc.task]) h.queue rfl h.executed rfl

lemma Absent.step (h : Absent k s) {a : Action τ} (hs : s.step pool a = some t) : Absent k t := by
  obtain ⟨u, -, hs⟩ | ⟨i, dur, w, -, hw, hs⟩ | ⟨i, b, w, -, -, hs⟩ | hstill :=
    State.step_cases hs
  · exact h.stepClient hs
  · exact h.stepWorker hw hs
  · exact h.wakeWorker hs
  · exact h.quiet hstill.queue hstill.workers hstill.executed hstill.calls

/-- Nor does a later call that fails bring it back. -/
lemma Absent.attempt (h : Absent k s) {a : Attempt τ} (hs : s.attempt pool a = some t) :
    Absent k t := by
  cases a with
  | step a => exact h.step hs
  | throw u =>
    unfold State.attempt at hs
    simp only at hs
    split_ifs at hs
    revert hs
    fun_cases State.throwStart s u <;> intro hs <;> cases hs
    exact h.call u rfl rfl rfl rfl

lemma Absent.exec {as : List (Attempt τ)} (h : Absent k s)
    (hs : exec (State.attempt pool) s as = some t) : Absent k t :=
  inv_of_always (P := fun _ _ _ => True) (I := fun _ => Absent k) h
    (fun _ _ _ _ h _ hs => h.attempt hs) (fun _ _ _ _ _ _ => trivial) hs

/-! ### The two exceptions -/

/-- What holds as long as every thread can be created. -/
structure Sound (pool : Config) (g : UInt32) (s : State τ) : Prop where
  inv : Inv g s
  sized : Sized pool s
  started : Started s

variable {g : UInt32}

lemma Sound.step (h : Sound pool g s) {a : Action τ} (hs : s.step pool a = some t) :
    Sound pool g t :=
  ⟨h.inv.step hs, h.sized.step hs, h.started.step hs⟩

lemma sound_start (pool : Config) (g : UInt32) : Sound pool g (State.start τ pool g) :=
  ⟨inv_start pool g, sized_start pool g, started_start pool g⟩

/-- The steps of the pool are attempts. -/
lemma exec_attempt {as : List (Action τ)} (hs : exec (State.step pool) s as = some t) :
    exec (State.attempt pool) s (as.map .step) = some t := by
  induction as generalizing s with
  | nil => exact hs
  | cons a as ih =>
    obtain ⟨u, hu, hs⟩ := Option.bind_eq_some_iff.mp hs
    rw [List.map_cons, exec_cons]
    exact Option.bind_eq_some_iff.mpr ⟨u, hu, ih hs⟩

lemma Sound.completes (h : Sound pool g s) :
    ∃ as v, exec (State.attempt pool) s as = some v ∧ v.stopping = .returned := by
  have hflag : s.stopping = .waiting → s.m_isPoolRunning = false := by
    intro hw
    by_contra hrun
    cases hw.symm.trans (h.sized.up (by simpa using hrun))
  obtain ⟨as, v, hv, hret⟩ := stop_completes pool h.inv.locked h.started hflag
  exact ⟨_, v, exec_attempt hv, hret⟩

/-- The task of a call that has not pushed it is nowhere. -/
lemma Ledger.nowhere (h : Ledger s) {u : τ} (hm : s.m_mutex = some (.client u))
    (hc : (s.client u).pushed = false) :
    s.current u ∉ s.m_queueTask ∧ (∀ w ∈ s.workers, w.pc.task ≠ some (s.current u)) ∧
      s.current u ∉ s.executed := by
  have hbal := h.balance (s.current u)
  have hfresh := h.current_fresh u
  rw [List.mem_append, not_or] at hfresh
  rw [List.count_eq_zero_of_not_mem hfresh.1, State.pending_client hm, hc] at hbal
  change _ = 0 + 0 at hbal
  have hheld : s.held (s.current u) = 0 := by omega
  refine ⟨List.count_eq_zero.mp (by omega), fun w hw ht => ?_, List.count_eq_zero.mp (by omega)⟩
  have hno := List.countP_eq_zero.mp hheld w hw
  simp [ht] at hno

/-- The task of a call that has pushed it is somewhere. -/
lemma Ledger.somewhere (h : Ledger s) {u : τ} (hm : s.m_mutex = some (.client u))
    (hc : (s.client u).pushed = true) :
    s.current u ∈ s.m_queueTask ∨ (∃ w ∈ s.workers, w.pc.task = some (s.current u)) ∨
      s.current u ∈ s.executed := by
  have hbal := h.balance (s.current u)
  rw [State.pending_client hm, if_pos hc, List.count_singleton_self] at hbal
  by_contra hno
  simp only [not_or] at hno
  obtain ⟨hq, hw, hx⟩ := hno
  have hheld : s.held (s.current u) = 0 :=
    List.countP_eq_zero.mpr fun w hmem ht => hw ⟨w, hmem, by simpa using ht⟩
  rw [List.count_eq_zero_of_not_mem hq, List.count_eq_zero_of_not_mem hx, hheld] at hbal
  omega

omit [DecidableEq τ] in
lemma task_eq {p : Pc (Task τ)} (h : p.task = some k) : p = .execute k := by
  cases p with
  | execute task => exact congrArg _ (Option.some.inj h)
  | _ => cases h

/-- A full queue: nothing has been changed. -/
lemma Sound.full (h : Sound pool g s) {u : τ} (hc : s.client u = .test true)
    (hfull : ¬ s.m_queueTask.length < pool.m_ulTaskqueMaxSize.toNat)
    (hs : s.step pool (.client u) = some t) : AsBefore pool (s.current u) s t := by
  have ht := h.step hs
  have hm : s.m_mutex = some (.client u) := h.inv.locked.client (by rw [hc]; rfl)
  obtain ⟨hq, hw, hx⟩ := h.inv.ledger.nowhere hm (by rw [hc]; rfl)
  have hstep : s.stepClient pool u = some t := by
    unfold State.step at hs
    split_ifs at hs
    exact hs
  unfold State.stepClient at hstep
  rw [hc] at hstep
  simp only [if_neg hfull, if_true, Option.some.injEq] at hstep
  have habsent : Absent (s.current u) t := by
    subst hstep
    refine ⟨hq, hw, hx, ?_⟩
    simp [State.current]
  refine ⟨habsent.queue, fun as v hv => (habsent.exec hv).executed, ht.started, ?_, ?_,
    ht.completes⟩
  · subst hstep; rfl
  · subst hstep; rfl

/-- A thread that cannot be started: the task is in the pool, and will run. -/
lemma Sound.fails (h : Sound pool g s) {u : τ} (hs : s.attempt pool (.throw u) = some t) :
    ¬ AsBefore pool (s.current u) s t := by
  intro hb
  unfold State.attempt at hs
  simp only at hs
  split_ifs at hs with hret
  revert hs
  fun_cases State.throwStart s u <;> intro hs <;> cases hs
  next hc =>
    have hm : s.m_mutex = some (.client u) := h.inv.locked.client (by rw [hc]; rfl)
    rcases h.inv.ledger.somewhere hm (by rw [hc]; rfl) with hq | ⟨w, hw, htask⟩ | hx
    · exact hb.queue hq
    · obtain ⟨i, hi⟩ := List.mem_iff_getElem?.mp hw
      have hpc : w.pc = .execute (s.current u) := task_eq htask
      have hrun := hb.executed [.step (.work i 0)]
      simp [exec_cons, State.attempt, State.step, State.goes, hret, hi, State.stepWorker, hpc]
        at hrun
    · exact hb.executed [] _ rfl hx

/-- No creation of a thread fails in this step. -/
def Creates (pool : Config) (s : State τ) (a : Attempt τ) : Prop :=
  ∀ u, a = .throw u → s.attempt pool a = none

/-- **An exception of `submit`.** In the whole of a run, the pool is as if a call that ends with
an exception had not been made, exactly when no creation of a thread fails. -/
theorem asBefore_iff (pool : Config) (g : UInt32) (as : List (Attempt τ)) :
    Always (State.attempt pool)
      (fun _ s a => ∀ u t, Throws pool s a u → s.attempt pool a = some t →
        AsBefore pool (s.current u) s t) (State.start τ pool g) as ↔
    Always (State.attempt pool) (fun _ => Creates pool) (State.start τ pool g) as := by
  refine (always_congr (I := fun _ => Sound pool g) (sound_start pool g) ?_ ?_ as).symm
  · intro _ s a t h hcreate hs
    cases a with
    | step a => exact h.step hs
    | throw u => cases (hcreate u rfl).symm.trans hs
  · intro _ s a h
    constructor
    · rintro hcreate u t (⟨rfl, hc, hfull⟩ | ⟨rfl, -⟩) hs
      · exact h.full hc hfull hs
      · cases (hcreate u rfl).symm.trans hs
    · rintro hbefore u rfl
      by_contra hsome
      obtain ⟨t, ht⟩ := Option.ne_none_iff_exists'.mp hsome
      refine h.fails ht (hbefore u t (.inr ⟨rfl, ?_⟩) ht)
      unfold State.attempt at ht
      simp only at ht
      split_ifs at ht
      revert ht
      fun_cases State.throwStart s u <;> intro ht <;> cases ht
      assumption

/-! ### The entry that nobody erases -/

/-- The id is in the map, and no thread has it. -/
def Orphan (id : UInt32) (s : State τ) : Prop :=
  id ∈ s.m_mapThreads ∧ ∀ w ∈ s.workers, w.threadId ≠ id

/-- No thread is started under the id in this step. -/
def Spares (id : UInt32) (s : State τ) (a : Attempt τ) : Prop :=
  ∀ u, a = .step (.client u) → s.client u = .emplace → s.m_generateId + 1 ≠ id

section Orphan

variable {id : UInt32}

omit [DecidableEq τ] in
lemma Orphan.quiet (h : Orphan id s) (hm : id ∈ t.m_mapThreads) (hw : t.workers = s.workers) :
    Orphan id t :=
  ⟨hm, hw ▸ h.2⟩

omit [DecidableEq τ] in
lemma Orphan.goto (h : Orphan id s) (hw : s.workers[i]? = some w) {p : Pc (Task τ)}
    (hm : id ∈ t.m_mapThreads) (ht : t.workers = (s.goto i w p).workers) : Orphan id t := by
  refine ⟨hm, fun v hv => ?_⟩
  rw [ht] at hv
  rcases List.mem_or_eq_of_mem_set hv with hv | rfl
  · exact h.2 v hv
  · exact h.2 w (List.mem_of_getElem? hw)

lemma Orphan.stepClient (h : Orphan id s) {u : τ}
    (hid : s.client u = .emplace → s.m_generateId + 1 ≠ id) (hs : s.stepClient pool u = some t) :
    Orphan id t := by
  revert hs
  fun_cases State.stepClient pool s u <;> intro hs <;> cases hs
  case case10 hc =>
    refine ⟨List.mem_insert_of_mem h.1, fun v hv => ?_⟩
    rcases List.mem_append.mp hv with hv | hv
    · exact h.2 v hv
    · rw [List.mem_singleton.mp hv]
      exact hid hc
  all_goals exact h.quiet h.1 rfl

omit [DecidableEq τ] in
lemma Orphan.stepWorker (h : Orphan id s) (hw : s.workers[i]? = some w) {dur : ℕ}
    (hs : s.stepWorker pool i w dur = some t) : Orphan id t := by
  revert hs
  fun_cases State.stepWorker pool s i w dur <;> intro hs <;> cases hs
  case case12 =>
    have hne : id ≠ w.threadId := (h.2 w (List.mem_of_getElem? hw)).symm
    exact h.goto hw (List.mem_filter.mpr ⟨h.1, by simpa using hne⟩) rfl
  all_goals exact h.goto hw h.1 rfl

lemma Orphan.attempt (h : Orphan id s) {a : Attempt τ} (hid : Spares id s a)
    (hs : s.attempt pool a = some t) : Orphan id t ∧ t.stopping ≠ .returned := by
  cases a with
  | throw u =>
    unfold State.attempt at hs
    simp only at hs
    split_ifs at hs with hret
    revert hs
    fun_cases State.throwStart s u <;> intro hs <;> cases hs
    exact ⟨h.quiet (List.mem_insert_of_mem h.1) rfl, hret⟩
  | step a =>
    have hstep : s.step pool a = some t := hs
    have hopen := not_returned hstep
    by_cases ha : a = .stop
    · subst ha
      have hstop := stop_of_step hstep
      revert hstop
      fun_cases State.stop s <;> intro hstop <;> cases hstop
      · exact ⟨h.quiet h.1 rfl, by simp⟩
      · next hlen =>
        have hmap := h.1
        rw [List.length_eq_zero_iff.mp hlen] at hmap
        cases hmap
      · exact ⟨h, hopen⟩
    · refine ⟨?_, (stopping_step ha hstep).1 ▸ hopen⟩
      unfold State.step at hstep
      rw [if_neg hopen] at hstep
      cases a with
      | submit u =>
        change s.submit u = some t at hstep
        revert hstep
        fun_cases State.submit s u <;> intro hstep <;> cases hstep
        exact h.quiet h.1 rfl
      | client u => exact h.stepClient (hid u rfl) hstep
      | wakeClient u b =>
        change s.wakeClient u b = some t at hstep
        revert hstep
        fun_cases State.wakeClient s u b <;> intro hstep <;> cases hstep
        exact h.quiet h.1 rfl
      | work i dur =>
        obtain ⟨w, hw, hstep⟩ := Option.bind_eq_some_iff.mp hstep
        exact h.stepWorker hw hstep
      | wake i b =>
        obtain ⟨w, hw, hstep⟩ := Option.bind_eq_some_iff.mp hstep
        revert hstep
        fun_cases State.wakeWorker s i w b <;> intro hstep <;> cases hstep
        all_goals exact h.goto hw h.1 rfl
      | stop => exact absurd rfl ha

/-- The failed creation leaves such an entry, and `stop` never returns while its id is not drawn
once more. -/
theorem orphan_blocks_stop {as : List (Attempt τ)} (h : Orphan id s) (hret : s.stopping ≠ .returned)
    (hid : Always (State.attempt pool) (fun _ => Spares id) s as)
    (hs : exec (State.attempt pool) s as = some t) : t.stopping ≠ .returned := by
  have hi : Orphan id t ∧ t.stopping ≠ .returned := by
    refine inv_of_always (I := fun _ s => Orphan id s ∧ s.stopping ≠ .returned) ⟨h, hret⟩ ?_
      hid hs
    intro _ s a t h hsp hs
    exact h.1.attempt hsp hs
  exact hi.2

end Orphan

/-- The only worker has a task in hand; a second call finds nobody idle, and the thread for it
cannot be started. -/
def failedGrowth : List (Attempt Unit) :=
  (growth.take 13).map .step

lemma failedGrowth_ends :
    (exec (State.attempt (.make 8 .MODE_CACHED 1 10000 40 10))
      (State.start Unit (.make 8 .MODE_CACHED 1 10000 40 10) 0) failedGrowth).map
        (fun s => (s.client (), s.current ())) = some (.emplace, ((), 1)) := by
  decide +kernel

lemma failedGrowth_throws :
    (exec (State.attempt (.make 8 .MODE_CACHED 1 10000 40 10))
      (State.start Unit (.make 8 .MODE_CACHED 1 10000 40 10) 0)
        (failedGrowth ++ [.throw ()])).map (fun s => s.m_queueTask) = some [((), 1)] := by
  decide +kernel

theorem failedGrowth_leaves_task :
    ∃ s t, exec (State.attempt (.make 8 .MODE_CACHED 1 10000 40 10))
      (State.start Unit (.make 8 .MODE_CACHED 1 10000 40 10) 0) failedGrowth = some s ∧
      Throws (.make 8 .MODE_CACHED 1 10000 40 10) s (.throw ()) () ∧
      s.attempt (.make 8 .MODE_CACHED 1 10000 40 10) (.throw ()) = some t ∧
      ¬ AsBefore (.make 8 .MODE_CACHED 1 10000 40 10) (s.current ()) s t := by
  obtain ⟨s, hs, he⟩ := Option.map_eq_some_iff.mp failedGrowth_ends
  obtain ⟨t, ht, hq⟩ := Option.map_eq_some_iff.mp failedGrowth_throws
  simp only [Prod.mk.injEq] at he
  obtain ⟨hc, hk⟩ := he
  obtain ⟨s', hs', hstep⟩ := exec_snoc_some ht
  obtain rfl : s = s' := Option.some.inj (hs.symm.trans hs')
  refine ⟨s, t, hs, .inr ⟨rfl, hc⟩, hstep, fun hb => hb.queue ?_⟩
  rw [hk, hq]
  exact List.mem_cons_self

end MmrService.ThreadPool
