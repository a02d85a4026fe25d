import MmrService.ThreadPoolGrowth

/-!
`stop` of a `ThreadPool` can complete.

Every entry of the map belongs to a thread that has been started and has still to erase itself.
Once the flag is cleared, each step of a worker brings it nearer to that, so that, with tasks
that return, the map can be emptied from every state.
-/

namespace MmrService.ThreadPool

open Transition Mutex

variable {τ : Type} [DecidableEq τ] {pool : Config} {s t : State τ} {i : ℕ} {w : Worker τ}

/-! ### The threads in the map -/

/-- The map holds threads that were started and that have not erased themselves. -/
def Started (s : State τ) : Prop :=
  ∀ id ∈ s.m_mapThreads, ∃ w ∈ s.workers, w.threadId = id ∧ w.pc ≠ .gone

omit [DecidableEq τ] in
lemma Started.quiet (h : Started s) (hw : t.workers = s.workers)
    (hm : t.m_mapThreads = s.m_mapThreads) : Started t := by
  unfold Started
  rw [hw, hm]
  exact h

omit [DecidableEq τ] in
lemma Started.emplaceThread (h : Started s) : Started s.emplaceThread := by
  intro id hid
  rcases List.mem_insert_iff.mp hid with rfl | hid
  · exact ⟨_, List.mem_append_right _ (List.mem_singleton_self _), rfl, by simp⟩
  · obtain ⟨w, hw, hwid, hgone⟩ := h id hid
    exact ⟨w, List.mem_append_left _ hw, hwid, hgone⟩

omit [DecidableEq τ] in
/-- A worker moves on without erasing itself. -/
lemma Started.goto (h : Started s) (hw : s.workers[i]? = some w) {p : Pc (Task τ)}
    (hp : p ≠ .gone) (ht : t.workers = (s.goto i w p).workers)
    (hm : t.m_mapThreads = s.m_mapThreads) : Started t := by
  intro id hid
  rw [hm] at hid
  obtain ⟨v, hv, hvid, hgone⟩ := h id hid
  obtain ⟨j, hj⟩ := List.mem_iff_getElem?.mp hv
  rw [ht]
  by_cases hij : i = j
  · subst hij
    obtain rfl : w = v := Option.some.inj (hw.symm.trans hj)
    obtain ⟨hlt, -⟩ := List.getElem?_eq_some_iff.mp hw
    exact ⟨⟨w.threadId, p⟩, List.mem_set hlt _, hvid, hp⟩
  · refine ⟨v, List.mem_iff_getElem?.mpr ⟨j, ?_⟩, hvid, hgone⟩
    rw [State.goto, List.getElem?_set_ne hij]
    exact hj

omit [DecidableEq τ] in
/-- A worker erases its own entry. -/
lemma Started.erase (h : Started s) (hw : s.workers[i]? = some w)
    (ht : t.workers = (s.goto i w .gone).workers)
    (hm : t.m_mapThreads = s.m_mapThreads.filter (· ≠ w.threadId)) : Started t := by
  intro id hid
  rw [hm] at hid
  obtain ⟨hid, hne⟩ := List.mem_filter.mp hid
  have hne : id ≠ w.threadId := by simpa using hne
  obtain ⟨v, hv, hvid, hgone⟩ := h id hid
  obtain ⟨j, hj⟩ := List.mem_iff_getElem?.mp hv
  have hij : i ≠ j := by
    rintro rfl
    obtain rfl : w = v := Option.some.inj (hw.symm.trans hj)
    exact hne hvid.symm
  rw [ht]
  refine ⟨v, List.mem_iff_getElem?.mpr ⟨j, ?_⟩, hvid, hgone⟩
  rw [State.goto, List.getElem?_set_ne hij]
  exact hj

omit [DecidableEq τ] in
lemma Started.stepWorker (h : Started s) (hw : s.workers[i]? = some w) {dur : ℕ}
    (hs : s.stepWorker pool i w dur = some t) : Started t := by
  revert hs
  fun_cases State.stepWorker pool s i w dur <;> intro hs <;> cases hs
  case case12 hc hm => exact h.erase hw rfl rfl
  case case1 hc => exact h.goto hw (by split_ifs <;> simp) rfl rfl
  case case4 hc _ => exact h.goto hw (by split_ifs <;> simp) rfl rfl
  case case6 hc _ => exact h.goto hw (by split_ifs <;> simp) rfl rfl
  all_goals exact h.goto hw (by simp) rfl rfl

omit [DecidableEq τ] in
lemma Started.wakeWorker (h : Started s) (hw : s.workers[i]? = some w) {b : Bool}
    (hs : s.wakeWorker i w b = some t) : Started t := by
  revert hs
  fun_cases State.wakeWorker s i w b <;> intro hs <;> cases hs
  all_goals exact h.goto hw (by simp) rfl rfl

lemma Started.stepClient (h : Started s) {u : τ} (hs : s.stepClient pool u = some t) :
    Started t := by
  revert hs
  fun_cases State.stepClient pool s u <;> intro hs <;> cases hs
  case case10 hc => exact (h.quiet (t := s.goes u .addCur) rfl rfl).emplaceThread
  all_goals exact h.quiet rfl rfl

lemma Started.step (h : Started s) {a : Action τ} (hs : s.step pool a = some t) : Started t := by
  obtain ⟨u, -, hs⟩ | ⟨i, dur, w, -, hw, hs⟩ | ⟨i, b, w, -, hw, hs⟩ | hstill :=
    State.step_cases hs
  · exact h.stepClient hs
  · exact h.stepWorker hw hs
  · exact h.wakeWorker hw hs
  · exact h.quiet hstill.workers hstill.map

omit [DecidableEq τ] in
lemma started_start (pool : Config) (g : UInt32) : Started (State.start τ pool g) := by
  refine Function.Iterate.rec Started (fun id hid => ?_) (fun s h => ?_) _
  · cases hid
  · exact h.emplaceThread.quiet rfl rfl

/-! ### The way of a worker to its end -/

/-- The most steps that a worker has to go with the flag cleared. -/
def Pc.rank {κ : Type} : Pc κ → ℕ
  | .lock => 9
  | .size => 8
  | .waitOne => 7
  | .woken _ | .execute _ => 6
  | .waitFive | .addIdle => 5
  | .loadRunning => 4
  | .subCur => 3
  | .subIdle => 2
  | .erase => 1
  | .gone => 0

/-- The most steps of a call to its unlock. -/
def ClientPc.rank : ClientPc → ℕ
  | .test _ => 7
  | .loadIdle => 6
  | .loadCur => 5
  | .emplace => 4
  | .addCur => 3
  | .addIdle => 2
  | .unlock => 1
  | .outside | .lock | .wait => 0

/-- The steps left to all workers. -/
def State.remaining (s : State τ) : ℕ := (s.workers.map (·.pc.rank)).sum

/-- The steps left to the call that holds the mutex. -/
def State.callLeft (s : State τ) : ℕ :=
  match s.m_mutex with
  | some (.client u) => (s.client u).rank
  | _ => 0

omit [DecidableEq τ] in
lemma sum_rank_set {ws : List (Worker τ)} {v : Worker τ} (hw : ws[i]? = some w) :
    ((ws.set i v).map (·.pc.rank)).sum + w.pc.rank = (ws.map (·.pc.rank)).sum + v.pc.rank := by
  induction ws generalizing i with
  | nil => cases hw
  | cons u us ih =>
    cases i with
    | zero =>
      obtain rfl : u = w := Option.some.inj hw
      simp only [List.set_cons_zero, List.map_cons, List.sum_cons]
      omega
    | succ i =>
      have hi := ih (i := i) hw
      simp only [List.set_cons_succ, List.map_cons, List.sum_cons]
      omega

omit [DecidableEq τ] in
lemma State.remaining_goto (hw : s.workers[i]? = some w) (p : Pc (Task τ)) :
    (s.goto i w p).remaining + w.pc.rank = s.remaining + p.rank :=
  sum_rank_set hw

omit [DecidableEq τ] in
/-- With the flag cleared, every step of a worker is one of those left. -/
lemma remaining_stepWorker (hrun : s.m_isPoolRunning = false) (hw : s.workers[i]? = some w)
    {dur : ℕ} (hs : s.stepWorker pool i w dur = some t) : t.remaining < s.remaining := by
  have hgoto := fun p => State.remaining_goto hw p
  have hlt : ∀ {p : Pc (Task τ)}, p.rank < w.pc.rank → t.workers = (s.goto i w p).workers →
      t.remaining < s.remaining := by
    intro p hp ht
    have he : t.remaining = (s.goto i w p).remaining := by rw [State.remaining, ht]; rfl
    have hp' := hgoto p
    omega
  revert hs
  fun_cases State.stepWorker pool s i w dur <;> intro hs <;> cases hs
  case case1 hc => exact hlt (p := .subCur) (by simp [hc, Pc.rank]) (by rw [hrun]; rfl)
  case case4 hc _ => exact hlt (by rw [hc]; split_ifs <;> simp [Pc.rank]) rfl
  case case6 hc _ => exact hlt (by rw [hc]; split_ifs <;> simp [Pc.rank]) rfl
  all_goals exact hlt (by simp [*, Pc.rank]) rfl

omit [DecidableEq τ] in
lemma remaining_wakeWorker (hw : s.workers[i]? = some w) {b : Bool}
    (hs : s.wakeWorker i w b = some t) : t.remaining < s.remaining := by
  revert hs
  fun_cases State.wakeWorker s i w b <;> intro hs <;> cases hs
  · next hc =>
    have h := State.remaining_goto hw (.woken b)
    rw [hc] at h
    change (s.goto i w (.woken b)).remaining < _
    simp only [Pc.rank] at h
    omega
  · next hc =>
    have h := State.remaining_goto hw .loadRunning
    rw [hc] at h
    simp only [Pc.rank] at h
    omega

/-! ### Emptying the map -/

/-- `stop` has cleared the flag and waits. -/
structure Draining (s : State τ) : Prop where
  locked : Locked s
  started : Started s
  flag : s.m_isPoolRunning = false
  waits : s.stopping = .waiting

/-- No call holds the mutex. -/
def Unclaimed (s : State τ) : Prop := ∀ u, s.m_mutex ≠ some (.client u)

lemma Draining.step (h : Draining s) {a : Action τ} (ha : a ≠ .stop)
    (hs : s.step pool a = some t) : Draining t := by
  obtain ⟨hstop, hrun⟩ := stopping_step ha hs
  exact ⟨h.locked.step hs, h.started.step hs, hrun.trans h.flag, hstop.trans h.waits⟩

omit [DecidableEq τ] in
/-- What is left to a call that holds the mutex or has freed it. -/
lemma State.callLeft_le {u : τ} (hm : s.m_mutex = none ∨ s.m_mutex = some (.client u)) :
    s.callLeft ≤ (s.client u).rank := by
  unfold State.callLeft
  rcases hm with hm | hm <;> rw [hm]
  · exact Nat.zero_le _

/-- A call that holds the mutex has a step, which brings it nearer to its unlock. -/
lemma stepClient_rank (pool : Config) {u : τ} (hc : (s.client u).holds = true) :
    ∃ t, s.stepClient pool u = some t ∧ (t.client u).rank < (s.client u).rank := by
  unfold State.stepClient
  cases hp : s.client u with
  | outside | lock | wait =>
    rw [hp] at hc
    cases hc
  | test last =>
    simp only
    split_ifs <;> exact ⟨_, rfl, by simp [State.goes, ClientPc.rank]⟩
  | loadIdle =>
    simp only
    split_ifs <;> exact ⟨_, rfl, by simp [State.goes, ClientPc.rank]⟩
  | loadCur =>
    simp only
    split_ifs <;> exact ⟨_, rfl, by simp [State.goes, ClientPc.rank]⟩
  | emplace => exact ⟨_, rfl, by simp [State.goes, State.emplaceThread, ClientPc.rank]⟩
  | addCur => exact ⟨_, rfl, by simp [State.goes, State.addCur, ClientPc.rank]⟩
  | addIdle => exact ⟨_, rfl, by simp [State.goes, State.addIdle, ClientPc.rank]⟩
  | unlock => exact ⟨_, rfl, by simp [State.goes, ClientPc.rank]⟩

/-- The call that holds the mutex goes on to its unlock. -/
lemma Draining.call (pool : Config) (h : Draining s) (hc : ¬ Unclaimed s) :
    ∃ a t, s.step pool a = some t ∧ Draining t ∧ t.callLeft < s.callLeft := by
  obtain ⟨u, hm⟩ : ∃ u, s.m_mutex = some (.client u) := by simpa [Unclaimed] using hc
  have hholds : s.holding (.client u) = true := (h.locked (.client u)).mpr hm
  obtain ⟨t, ht, hlt⟩ := stepClient_rank pool hholds
  have hs : s.step pool (.client u) = some t := by
    unfold State.step
    rw [if_neg (by rw [h.waits]; simp)]
    exact ht
  have hleft : s.callLeft = (s.client u).rank := by rw [State.callLeft, hm]
  refine ⟨_, t, hs, h.step (by simp) hs, ?_⟩
  rw [hleft]
  exact Nat.lt_of_le_of_lt (State.callLeft_le (mutex_stepClient h.locked ht).2) hlt

omit [DecidableEq τ] in
/-- A worker that is not gone has a step when it finds the mutex free, or holds it itself. -/
lemma worker_enabled (pool : Config) (i dur : ℕ) (hm : s.m_mutex = none ∨ w.pc.holds = true)
    (hgone : w.pc ≠ .gone) :
    (s.stepWorker pool i w dur).isSome ∨ (s.wakeWorker i w true).isSome := by
  by_cases hwait : w.pc = .waitOne ∨ w.pc = .waitFive
  · right
    have hfree : s.m_mutex = none := by
      refine hm.resolve_right ?_
      rcases hwait with hc | hc <;> simp [hc, Pc.holds]
    rcases hwait with hc | hc <;> simp [State.wakeWorker, hc, hfree]
  · left
    obtain ⟨hone, hfive⟩ := not_or.mp hwait
    fun_cases State.stepWorker pool s i w dur
    case case3 hc _ hlock =>
      rcases hm with hm | hm
      · cases hm.symm.trans hlock
      · simp [hc, Pc.holds] at hm
    case case13 hc _ hlock =>
      rcases hm with hm | hm
      · cases hm.symm.trans hlock
      · simp [hc, Pc.holds] at hm
    case case14 hc => exact absurd hc hone
    case case15 hc => exact absurd hc hfive
    case case16 hc => exact absurd hc hgone
    all_goals rfl

omit [DecidableEq τ] in
/-- The steps of the workers leave the mutex to them. -/
lemma Unclaimed.stepWorker (h : Unclaimed s) {dur : ℕ} (hs : s.stepWorker pool i w dur = some t) :
    Unclaimed t := by
  revert hs
  fun_cases State.stepWorker pool s i w dur <;> intro hs <;> cases hs
  all_goals first | exact h | intro u hu; cases hu

omit [DecidableEq τ] in
lemma Unclaimed.wakeWorker (h : Unclaimed s) {b : Bool} (hs : s.wakeWorker i w b = some t) :
    Unclaimed t := by
  revert hs
  fun_cases State.wakeWorker s i w b <;> intro hs <;> cases hs
  all_goals first | exact h | intro u hu; cases hu

omit [DecidableEq τ] in
lemma Locked.holder (h : Locked s) (hm : s.m_mutex = some (.worker i)) :
    ∃ w, s.workers[i]? = some w ∧ w.pc.holds = true := by
  have hi : s.holding (.worker i) = true := (h (.worker i)).mpr hm
  exact (Option.any_eq_true _ _).mp hi

omit [DecidableEq τ] in
/-- While a worker is left, one is that holds the mutex or finds it free. -/
lemma exists_worker (hl : Locked s) (hu : Unclaimed s) (hg : ¬ ∀ w ∈ s.workers, w.pc = .gone) :
    ∃ (i : ℕ) (w : Worker τ), s.workers[i]? = some w ∧ w.pc ≠ .gone ∧
      (s.m_mutex = none ∨ w.pc.holds = true) := by
  cases hm : s.m_mutex with
  | none =>
    simp only [not_forall] at hg
    obtain ⟨w, hw, hgone⟩ := hg
    obtain ⟨i, hi⟩ := List.mem_iff_getElem?.mp hw
    exact ⟨i, w, hi, hgone, .inl rfl⟩
  | some o =>
    cases o with
    | client u => exact absurd hm (hu u)
    | worker i =>
      obtain ⟨w, hw, hholds⟩ := hl.holder hm
      refine ⟨i, w, hw, fun hc => ?_, .inr hholds⟩
      rw [hc] at hholds
      cases hholds

/-- A worker that is left takes a step. -/
lemma Draining.work (pool : Config) (h : Draining s) (hu : Unclaimed s)
    (hg : ¬ ∀ w ∈ s.workers, w.pc = .gone) :
    ∃ a t, s.step pool a = some t ∧ (Draining t ∧ Unclaimed t) ∧ t.remaining < s.remaining := by
  obtain ⟨i, w, hw, hgone, hm⟩ := exists_worker h.locked hu hg
  have hopen : s.stopping ≠ .returned := by rw [h.waits]; simp
  rcases worker_enabled pool i 0 hm hgone with hsome | hsome
  · obtain ⟨t, ht⟩ := Option.isSome_iff_exists.mp hsome
    have hs : s.step pool (.work i 0) = some t := by simp [State.step, hopen, hw, ht]
    exact ⟨_, t, hs, ⟨h.step (by simp) hs, hu.stepWorker ht⟩, remaining_stepWorker h.flag hw ht⟩
  · obtain ⟨t, ht⟩ := Option.isSome_iff_exists.mp hsome
    have hs : s.step pool (.wake i true) = some t := by simp [State.step, hopen, hw, ht]
    exact ⟨_, t, hs, ⟨h.step (by simp) hs, hu.wakeWorker ht⟩, remaining_wakeWorker hw ht⟩

/-- `stop` finds nobody in the map. -/
lemma Draining.returns (pool : Config) (h : Draining s) (hu : Unclaimed s)
    (hg : ∀ w ∈ s.workers, w.pc = .gone) :
    ∃ t, s.step pool .stop = some t ∧ t.stopping = .returned := by
  have hm : s.m_mutex = none := by
    cases hm : s.m_mutex with
    | none => rfl
    | some o =>
      cases o with
      | client u => exact absurd hm (hu u)
      | worker i =>
        obtain ⟨w, hw, hholds⟩ := h.locked.holder hm
        rw [hg w (List.mem_of_getElem? hw)] at hholds
        cases hholds
  have hmap : s.m_mapThreads = [] := by
    refine List.eq_nil_iff_forall_not_mem.mpr fun id hid => ?_
    obtain ⟨w, hw, -, hgone⟩ := h.started id hid
    exact hgone (hg w hw)
  refine ⟨{ s with stopping := .returned }, ?_, rfl⟩
  simp [State.step, State.stop, h.waits, hm, hmap]

lemma Draining.completes (pool : Config) (h : Draining s) :
    ∃ as t, exec (State.step pool) s as = some t ∧ t.stopping = .returned := by
  obtain ⟨as, u, hu, hd, hun⟩ := exists_run (I := Draining) (G := Unclaimed)
    State.callLeft (fun s hs hc => hs.call pool hc) h
  obtain ⟨bs, v, hv, ⟨hdv, hunv⟩, hg⟩ := exists_run
    (I := fun s => Draining s ∧ Unclaimed s) (G := fun s => ∀ w ∈ s.workers, w.pc = .gone)
    State.remaining (fun s hs hg => hs.1.work pool hs.2 hg) ⟨hd, hun⟩
  obtain ⟨t, ht, hret⟩ := hdv.returns pool hunv hg
  refine ⟨as ++ bs ++ [.stop], t, ?_, hret⟩
  rw [exec_snoc, exec_append, hu, Option.bind_some, hv, Option.bind_some, ht]

/-- **`stop` can complete**: from every state of a pool whose map holds threads that were
started, the threads have steps after which it has returned. -/
theorem stop_completes (pool : Config) (hl : Locked s) (hst : Started s)
    (hflag : s.stopping = .waiting → s.m_isPoolRunning = false) :
    ∃ as t, exec (State.step pool) s as = some t ∧ t.stopping = .returned := by
  cases hc : s.stopping with
  | returned => exact ⟨[], s, rfl, hc⟩
  | waiting => exact Draining.completes pool ⟨hl, hst, hflag hc, hc⟩
  | running =>
    have hs : s.step pool .stop =
        some { s with m_isPoolRunning := false, stopping := .waiting } := by
      simp [State.step, State.stop, hc]
    obtain ⟨as, t, ht, hret⟩ := Draining.completes pool
      (s := { s with m_isPoolRunning := false, stopping := .waiting })
      ⟨hl.step hs, hst.step hs, rfl, rfl⟩
    exact ⟨.stop :: as, t, by rw [exec_cons, hs]; exact ht, hret⟩

end MmrService.ThreadPool
