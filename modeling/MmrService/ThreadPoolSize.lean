import MmrService.ThreadPoolTasks

/-!
The number of threads of a `ThreadPool`.

While the pool is running, `m_usCurThreadSize` counts the workers in their loop, those that
have left it and not yet said so, and not the one that is just being created. The upper bound
is therefore kept; the lower one is tested against workers that are leaving already.
-/

namespace MmrService.ThreadPool

open Transition Mutex

variable {τ : Type} [DecidableEq τ] {pool : Config} {s t : State τ} {i : ℕ} {w : Worker τ}

/-- Out of the loop, and still counted. -/
def Pc.leaves {κ : Type} : Pc κ → Bool
  | .subCur => true
  | _ => false

def State.looping (s : State τ) : ℕ := s.workers.countP (·.pc.inLoop)

def State.leaving (s : State τ) : ℕ := s.workers.countP (·.pc.leaves)

/-- A thread that has been started and is not counted. -/
def State.creating (s : State τ) : ℕ :=
  match s.m_mutex with
  | some (.client u) => if s.client u = .addCur then 1 else 0
  | _ => 0

omit [DecidableEq τ] in
lemma State.creating_of_none (hm : s.m_mutex = none) : s.creating = 0 := by
  rw [creating, hm]

omit [DecidableEq τ] in
lemma State.creating_worker (hm : s.m_mutex = some (.worker i)) : s.creating = 0 := by
  rw [creating, hm]

omit [DecidableEq τ] in
lemma State.creating_client {u : τ} (hm : s.m_mutex = some (.client u)) :
    s.creating = if s.client u = .addCur then 1 else 0 := by
  rw [creating, hm]

lemma State.creating_goes {u : τ} {p : ClientPc} (hc : s.client u ≠ .addCur) (hp : p ≠ .addCur) :
    (s.goes u p).creating = s.creating := by
  have hcreate : ∀ v, (s.goes u p).client v = .addCur ↔ s.client v = .addCur := by
    intro v
    simp only [goes, Function.update_apply]
    split_ifs with hv
    · simp [hp, hv, hc]
    · rfl
  simp only [creating, hcreate]
  rfl

omit [DecidableEq τ] in
lemma State.looping_goto (hw : s.workers[i]? = some w) (p : Pc (Task τ)) :
    (s.goto i w p).looping + w.pc.inLoop.toNat = s.looping + p.inLoop.toNat :=
  countP_goto hw (·.pc.inLoop) p

omit [DecidableEq τ] in
lemma State.leaving_goto (hw : s.workers[i]? = some w) (p : Pc (Task τ)) :
    (s.goto i w p).leaving + w.pc.leaves.toNat = s.leaving + p.leaves.toNat :=
  countP_goto hw (·.pc.leaves) p

omit [DecidableEq τ] in
lemma State.looping_emplaceThread (s : State τ) : s.emplaceThread.looping = s.looping + 1 := by
  simp [looping, emplaceThread, Pc.inLoop]

omit [DecidableEq τ] in
lemma State.leaving_emplaceThread (s : State τ) : s.emplaceThread.leaving = s.leaving := by
  simp [leaving, emplaceThread, Pc.leaves]

/-- What the counter counts, and that there is room for a thread that is about to be created. -/
structure Counted (pool : Config) (s : State τ) : Prop where
  cur : s.m_usCurThreadSize.toNat + s.creating = s.looping + s.leaving
  below : s.looping + s.leaving ≤ max pool.m_usThreadSize.toNat pool.m_usMaxTreadSize.toNat
  room : ∀ u, s.client u = .emplace → s.looping + s.leaving < pool.m_usMaxTreadSize.toNat
  fresh : ∀ u, s.client u = .addCur → 0 < s.looping

omit [DecidableEq τ] in
/-- Steps that neither count nor create nor leave. -/
lemma Counted.quiet (h : Counted pool s) (hcur : t.m_usCurThreadSize = s.m_usCurThreadSize)
    (hcreate : t.creating = s.creating) (hloop : t.looping = s.looping)
    (hleave : t.leaving = s.leaving) (hclient : t.client = s.client) : Counted pool t := by
  refine ⟨?_, ?_, ?_, ?_⟩
  · rw [hcur, hcreate, hloop, hleave]
    exact h.cur
  · rw [hloop, hleave]
    exact h.below
  · rw [hclient, hloop, hleave]
    exact h.room
  · rw [hclient, hloop]
    exact h.fresh

omit [DecidableEq τ] in
lemma Counted.relock (h : Counted pool s) {m : Option (Holder τ)} (hs : s.creating = 0)
    (hm : { s with m_mutex := m }.creating = 0) : Counted pool { s with m_mutex := m } :=
  h.quiet rfl (hm.trans hs.symm) rfl rfl rfl

omit [DecidableEq τ] in
lemma Counted.goto (h : Counted pool s) (hw : s.workers[i]? = some w) {p : Pc (Task τ)}
    (hin : p.inLoop = w.pc.inLoop) (hout : p.leaves = w.pc.leaves) :
    Counted pool (s.goto i w p) := by
  refine h.quiet rfl rfl ?_ ?_ rfl
  · have hl := State.looping_goto hw p
    rw [hin] at hl
    exact Nat.add_right_cancel hl
  · have hl := State.leaving_goto hw p
    rw [hout] at hl
    exact Nat.add_right_cancel hl

/-- A call goes on without creating a thread. -/
lemma Counted.goes (h : Counted pool s) {u : τ} {p : ClientPc} (hc : s.client u ≠ .addCur)
    (hp : p ≠ .addCur)
    (hroom : p = .emplace → s.looping + s.leaving < pool.m_usMaxTreadSize.toNat) :
    Counted pool (s.goes u p) := by
  refine ⟨?_, h.below, fun v hv => ?_, fun v hv => ?_⟩
  · rw [State.creating_goes hc hp]
    exact h.cur
  · simp only [State.goes, Function.update_apply] at hv
    split_ifs at hv
    · exact hroom hv
    · exact h.room v hv
  · simp only [State.goes, Function.update_apply] at hv
    split_ifs at hv
    · exact absurd hv hp
    · exact h.fresh v hv

/-- A call starts a thread. -/
lemma Counted.emplaceThread (h : Counted pool s) (hl : Locked s) {u : τ}
    (hc : s.client u = .emplace) : Counted pool (s.goes u .addCur).emplaceThread := by
  have hm : s.m_mutex = some (.client u) := hl.client (by rw [hc]; rfl)
  have hroom := h.room u hc
  have hcur := h.cur
  have hcreate : (s.goes u .addCur).emplaceThread.creating = 1 := by
    rw [State.creating_client (s := (s.goes u .addCur).emplaceThread) (u := u) hm]
    simp [State.goes, State.emplaceThread]
  have hloop : (s.goes u .addCur).emplaceThread.looping = s.looping + 1 :=
    State.looping_emplaceThread _
  have hleave : (s.goes u .addCur).emplaceThread.leaving = s.leaving :=
    State.leaving_emplaceThread _
  rw [State.creating_client hm, hc] at hcur
  refine ⟨?_, ?_, fun v hv => ?_, fun v hv => ?_⟩
  · rw [hcreate, hloop, hleave]
    change s.m_usCurThreadSize.toNat + 1 = _
    change s.m_usCurThreadSize.toNat + 0 = _ at hcur
    omega
  · rw [hloop, hleave]
    omega
  · -- nobody else is there, with the lock held
    simp only [State.goes, State.emplaceThread, Function.update_apply] at hv
    split_ifs at hv with huv
    have he := hl.client (u := v) (by rw [hv]; rfl)
    rw [hm] at he
    cases he
    exact absurd rfl huv
  · rw [hloop]
    omega

/-- The thread is counted. -/
lemma Counted.addCur (h : Counted pool s) (hl : Locked s) {u : τ} (hc : s.client u = .addCur) :
    Counted pool (s.goes u .addIdle).addCur := by
  have hm : s.m_mutex = some (.client u) := hl.client (by rw [hc]; rfl)
  have hcur := h.cur
  have hbelow := h.below
  rw [State.creating_client hm, if_pos hc] at hcur
  have hcreate : (s.goes u .addIdle).addCur.creating = 0 := by
    rw [State.creating_client (s := (s.goes u .addIdle).addCur) (u := u) hm]
    simp [State.goes, State.addCur]
  have hfix := pool.m_usThreadSize.toNat_lt
  have hmax := pool.m_usMaxTreadSize.toNat_lt
  have hadd : (s.m_usCurThreadSize + 1).toNat = s.m_usCurThreadSize.toNat + 1 := by
    rw [UInt16.toNat_add, UInt16.toNat_one]
    omega
  refine ⟨?_, hbelow, fun v hv => ?_, fun v hv => ?_⟩
  · rw [hcreate]
    change (s.m_usCurThreadSize + 1).toNat + 0 = s.looping + s.leaving
    omega
  · simp only [State.goes, State.addCur, Function.update_apply] at hv
    split_ifs at hv
    exact h.room v hv
  · exact h.fresh u hc

omit [DecidableEq τ] in
/-- A worker leaves the loop with the lock in its hands, and frees it. -/
lemma Counted.leave (h : Counted pool s) (hl : Locked s) (hw : s.workers[i]? = some w) {b : Bool}
    (hc : w.pc = .woken b) : Counted pool { s.goto i w .subCur with m_mutex := none } := by
  have hm : s.m_mutex = some (.worker i) := hl.worker hw (by rw [hc]; rfl)
  have hcur := h.cur
  rw [State.creating_worker hm] at hcur
  have hloop := State.looping_goto hw .subCur
  have hleave := State.leaving_goto hw .subCur
  rw [hc] at hloop hleave
  change (s.goto i w .subCur).looping + 1 = s.looping + 0 at hloop
  change (s.goto i w .subCur).leaving + 0 = s.leaving + 1 at hleave
  have hsum : (s.goto i w .subCur).looping + (s.goto i w .subCur).leaving =
      s.looping + s.leaving := by omega
  refine ⟨?_, ?_, fun u hu => ?_, fun u hu => ?_⟩
  · rw [State.creating_of_none rfl]
    exact hcur.trans hsum.symm
  · exact Nat.le_trans (Nat.le_of_eq hsum) h.below
  · exact Nat.lt_of_le_of_lt (Nat.le_of_eq hsum) (h.room u hu)
  · change s.client u = .addCur at hu
    have he := hl.client (u := u) (by rw [hu]; rfl)
    rw [hm] at he
    cases he

omit [DecidableEq τ] in
/-- A worker that has left is no longer counted. -/
lemma Counted.subCur (h : Counted pool s) (hw : s.workers[i]? = some w)
    (hc : w.pc = .subCur) :
    Counted pool { s.goto i w .subIdle with
      m_usCurThreadSize := s.m_usCurThreadSize - 1 } := by
  have hcur := h.cur
  have hbelow := h.below
  have hloop := State.looping_goto hw .subIdle
  have hleave := State.leaving_goto hw .subIdle
  rw [hc] at hloop hleave
  change (s.goto i w .subIdle).looping + 0 = s.looping + 0 at hloop
  change (s.goto i w .subIdle).leaving + 1 = s.leaving + 0 at hleave
  -- the thread that is being created is in its loop, so that the counter does not fall below 0
  have hcreate : s.creating ≤ s.looping := by
    unfold State.creating
    split
    · split_ifs with hu
      · exact h.fresh _ hu
      · exact Nat.zero_le _
    · exact Nat.zero_le _
  have hone : (1 : UInt16) ≤ s.m_usCurThreadSize := by
    rw [UInt16.le_iff_toNat_le, UInt16.toNat_one]
    omega
  have hsub := UInt16.toNat_sub_of_le _ _ hone
  rw [UInt16.toNat_one] at hsub
  refine ⟨?_, ?_, fun u hu => ?_, fun u hu => ?_⟩
  · change (s.m_usCurThreadSize - 1).toNat + s.creating =
      (s.goto i w .subIdle).looping + (s.goto i w .subIdle).leaving
    omega
  · change (s.goto i w .subIdle).looping + (s.goto i w .subIdle).leaving ≤ _
    omega
  · have hroom := h.room u hu
    change (s.goto i w .subIdle).looping + (s.goto i w .subIdle).leaving < _
    omega
  · have hfresh := h.fresh u hu
    change 0 < (s.goto i w .subIdle).looping
    omega

/-- A call takes the free mutex to test the queue. -/
lemma Counted.lockClient (h : Counted pool s) (hm : s.m_mutex = none) {u : τ}
    (hc : s.client u ≠ .addCur) (b : Bool) :
    Counted pool { s.goes u (.test b) with m_mutex := some (.client u) } := by
  refine (h.goes (p := .test b) hc (by simp) (by simp)).relock (State.creating_of_none hm) ?_
  rw [State.creating_client rfl]
  simp [State.goes]

/-- A call frees the mutex. -/
lemma Counted.unlockClient (h : Counted pool s) (hl : Locked s) {u : τ} {p q : ClientPc}
    (hc : s.client u = q) (hq : q.holds = true) (hq' : q ≠ .addCur) (hp : p.holds = false) :
    Counted pool { s.goes u p with m_mutex := none } := by
  have hm : s.m_mutex = some (.client u) := hl.client (by rw [hc]; exact hq)
  have hp' : p ≠ .addCur := by
    rintro rfl
    cases hp
  have hp'' : p ≠ .emplace := by
    rintro rfl
    cases hp
  have hc' : s.client u ≠ .addCur := hc ▸ hq'
  refine (h.goes hc' hp' fun he => absurd he hp'').relock ?_ rfl
  rw [State.creating_goes hc' hp', State.creating_client hm, if_neg hc']

lemma Counted.stepClient (h : Counted pool s) (hl : Locked s) {u : τ}
    (hs : s.stepClient pool u = some t) : Counted pool t := by
  revert hs
  fun_cases State.stepClient pool s u <;> intro hs <;> cases hs
  · next hc hm => exact h.lockClient hm (by simp [hc]) false
  · next hc _ =>
    exact (h.goes (p := .loadIdle) (by simp [hc]) (by simp) (by simp)).quiet rfl rfl rfl rfl rfl
  · next hc =>
    exact (h.unlockClient (p := .outside) hl hc rfl (by simp) rfl).quiet rfl rfl rfl rfl rfl
  · next hc _ _ => exact h.unlockClient hl hc rfl (by simp) rfl
  · next hc _ => exact h.goes (by simp [hc]) (by simp) (by simp)
  · next hc _ => exact h.goes (by simp [hc]) (by simp) (by simp)
  · next hc hlt =>
    refine h.goes (by simp [hc]) (by simp) fun _ => ?_
    have hm : s.m_mutex = some (.client u) := hl.client (by rw [hc]; rfl)
    have hcur := h.cur
    rw [State.creating_client hm, if_neg (by simp [hc])] at hcur
    have hlt := UInt16.lt_iff_toNat_lt.mp hlt
    omega
  · next hc _ => exact h.goes (by simp [hc]) (by simp) (by simp)
  · next hc => exact h.emplaceThread hl hc
  · next hc => exact h.addCur hl hc
  · next hc =>
    exact (h.goes (p := .unlock) (by simp [hc]) (by simp) (by simp)).quiet rfl rfl rfl rfl rfl
  · next hc =>
    exact (h.unlockClient (p := .outside) hl hc rfl (by simp) rfl).quiet rfl rfl rfl rfl rfl

omit [DecidableEq τ] in
/-- A worker that stays in the loop frees the mutex. -/
lemma Counted.unlockWorker (h : Counted pool s) (hl : Locked s) (hw : s.workers[i]? = some w)
    (hc : w.pc.holds = true) {p : Pc (Task τ)} (hin : p.inLoop = w.pc.inLoop)
    (hout : p.leaves = w.pc.leaves) : Counted pool { s.goto i w p with m_mutex := none } :=
  (h.goto hw hin hout).relock (State.creating_worker (s := s.goto i w p) (hl.worker hw hc)) rfl

omit [DecidableEq τ] in
lemma Counted.lockWorker (h : Counted pool s) (hm : s.m_mutex = none) (hw : s.workers[i]? = some w)
    {p : Pc (Task τ)} (hin : p.inLoop = w.pc.inLoop) (hout : p.leaves = w.pc.leaves) :
    Counted pool { s.goto i w p with m_mutex := some (.worker i) } :=
  (h.goto hw hin hout).relock (State.creating_of_none hm) rfl

omit [DecidableEq τ] in
lemma Counted.stepWorker (h : Counted pool s) (hl : Locked s) (hrun : s.m_isPoolRunning = true)
    (hw : s.workers[i]? = some w) {dur : ℕ} (hs : s.stepWorker pool i w dur = some t) :
    Counted pool t := by
  revert hs
  fun_cases State.stepWorker pool s i w dur <;> intro hs <;> cases hs
  · next hc => exact h.goto hw (by rw [hc, hrun]; rfl) (by rw [hc, hrun]; rfl)
  · next hc hm => exact h.lockWorker hm hw (by rw [hc]; rfl) (by rw [hc]; rfl)
  · next hc _ =>
    exact h.unlockWorker hl hw (by rw [hc]; rfl) (by rw [hc]; split_ifs <;> rfl)
      (by rw [hc]; split_ifs <;> rfl)
  · next hc task _ _ =>
    exact (h.unlockWorker (p := .execute task) hl hw (by rw [hc]; rfl) (by rw [hc]; rfl)
      (by rw [hc]; rfl)).quiet rfl rfl rfl rfl rfl
  · next hc _ =>
    split_ifs
    · exact h.leave hl hw hc
    · exact h.unlockWorker hl hw (by rw [hc]; rfl) (by rw [hc]; rfl) (by rw [hc]; rfl)
  · next hc _ => exact h.unlockWorker hl hw (by rw [hc]; rfl) (by rw [hc]; rfl) (by rw [hc]; rfl)
  · next hc =>
    exact (h.goto (p := .addIdle) hw (by rw [hc]; rfl) (by rw [hc]; rfl)).quiet rfl rfl rfl rfl rfl
  · next hc =>
    exact (h.goto (p := .loadRunning) hw (by rw [hc]; rfl) (by rw [hc]; rfl)).quiet
      rfl rfl rfl rfl rfl
  · next hc => exact h.subCur hw hc
  · next hc =>
    exact (h.goto (p := .erase) hw (by rw [hc]; rfl) (by rw [hc]; rfl)).quiet rfl rfl rfl rfl rfl
  · next hc hm =>
    exact (h.goto (p := .gone) hw (by rw [hc]; rfl) (by rw [hc]; rfl)).quiet rfl rfl rfl rfl rfl

omit [DecidableEq τ] in
lemma Counted.wakeWorker (h : Counted pool s) (hw : s.workers[i]? = some w) {b : Bool}
    (hs : s.wakeWorker i w b = some t) : Counted pool t := by
  revert hs
  fun_cases State.wakeWorker s i w b <;> intro hs <;> cases hs
  · next hm hc => exact h.lockWorker hm hw (by rw [hc]; rfl) (by rw [hc]; rfl)
  · next hm hc => exact h.goto hw (by rw [hc]; rfl) (by rw [hc]; rfl)

/-- What holds of the counter as long as the pool is running. -/
structure Sized (pool : Config) (s : State τ) : Prop where
  locked : Locked s
  up : s.m_isPoolRunning = true → s.stopping = .running
  counted : s.m_isPoolRunning = true → Counted pool s

/-- The state of a pool of `n` threads that have done nothing. -/
structure Fresh (n : ℕ) (s : State τ) : Prop where
  cur : s.m_usCurThreadSize = UInt16.ofNat n
  looping : s.looping = n
  leaving : s.leaving = 0
  mutex : s.m_mutex = none
  client : s.client = fun _ => .outside
  stopping : s.stopping = .running

omit [DecidableEq τ] in
lemma Fresh.createThreadInner {n : ℕ} (h : Fresh n s) : Fresh (n + 1) s.createThreadInner := by
  refine ⟨?_, ?_, ?_, h.mutex, h.client, h.stopping⟩
  · change s.m_usCurThreadSize + 1 = _
    rw [h.cur, UInt16.ofNat_add]
    rfl
  · exact (State.looping_emplaceThread s).trans (congrArg (· + 1) h.looping)
  · exact (State.leaving_emplaceThread s).trans h.leaving

omit [DecidableEq τ] in
lemma fresh_start (pool : Config) (g : UInt32) :
    Fresh pool.m_usThreadSize.toNat (State.start τ pool g) := by
  unfold State.start
  induction pool.m_usThreadSize.toNat with
  | zero => exact ⟨rfl, rfl, rfl, rfl, rfl, rfl⟩
  | succ n ih =>
    rw [Function.iterate_succ_apply']
    exact ih.createThreadInner

lemma sized_start (pool : Config) (g : UInt32) : Sized pool (State.start τ pool g) := by
  have h := fresh_start (τ := τ) pool g
  refine ⟨(inv_start pool g).locked, fun _ => h.stopping, fun _ => ⟨?_, ?_, ?_, ?_⟩⟩
  · rw [h.cur, h.looping, h.leaving, State.creating_of_none h.mutex, UInt16.ofNat_toNat]
  · rw [h.looping, h.leaving]
    exact Nat.le_max_left _ _
  · intro u hu
    rw [h.client] at hu
    cases hu
  · intro u hu
    rw [h.client] at hu
    cases hu

/-- A pool that is running after a step was so before, and not by a step of the destructor. -/
lemma running_step (h : s.m_isPoolRunning = true → s.stopping = .running) {a : Action τ}
    (hs : s.step pool a = some t) (ht : t.m_isPoolRunning = true) :
    a ≠ .stop ∧ s.m_isPoolRunning = true ∧ t.stopping = .running := by
  have ha : a ≠ .stop := by
    rintro rfl
    have hstop := stop_of_step hs
    revert hstop
    fun_cases State.stop s <;> intro hstop <;> cases hstop
    · cases ht
    · next hc _ => cases hc.symm.trans (h ht)
    · next hc _ => cases hc.symm.trans (h ht)
  obtain ⟨hstop, hrun⟩ := stopping_step ha hs
  rw [hrun] at ht
  exact ⟨ha, ht, hstop.trans (h ht)⟩

lemma Counted.step (h : Counted pool s) (hl : Locked s) (hrun : s.m_isPoolRunning = true)
    {a : Action τ} (ha : a ≠ .stop) (hs : s.step pool a = some t) : Counted pool t := by
  unfold State.step at hs
  split_ifs at hs
  cases a with
  | submit u =>
    change s.submit u = some t at hs
    revert hs
    fun_cases State.submit s u <;> intro hs <;> cases hs
    next hc => exact h.goes (by simp [hc]) (by simp) (by simp)
  | client u => exact h.stepClient hl hs
  | wakeClient u b =>
    change s.wakeClient u b = some t at hs
    revert hs
    fun_cases State.wakeClient s u b <;> intro hs <;> cases hs
    next hm hc => exact h.lockClient hm (by simp [hc]) b
  | work i dur =>
    obtain ⟨w, hw, hs⟩ := Option.bind_eq_some_iff.mp hs
    exact h.stepWorker hl hrun hw hs
  | wake i b =>
    obtain ⟨w, hw, hs⟩ := Option.bind_eq_some_iff.mp hs
    exact h.wakeWorker hw hs
  | stop => exact absurd rfl ha

lemma Sized.step (h : Sized pool s) {a : Action τ} (hs : s.step pool a = some t) :
    Sized pool t := by
  refine ⟨h.locked.step hs, fun ht => (running_step h.up hs ht).2.2, fun ht => ?_⟩
  obtain ⟨ha, hrun, -⟩ := running_step h.up hs ht
  exact (h.counted hrun).step h.locked hrun ha hs

/-! ### Workers that leave for having been idle -/

/-- The step at which a worker, timed out and idle for long enough, breaks out of its loop. -/
def IdleExit (pool : Config) (s : State τ) (a : Action τ) : Prop :=
  ∃ i dur w, a = .work i dur ∧ s.workers[i]? = some w ∧ w.pc = .woken true ∧
    pool.m_usThreadSize < s.m_usCurThreadSize ∧ pool.m_usMaxIdleTime.toNat ≤ dur

/-- Such a worker is not one of the fixed ones: those that are leaving already set aside, more
than `m_usThreadSize` are counted. -/
def Spare (pool : Config) (s : State τ) (a : Action τ) : Prop :=
  s.m_isPoolRunning = true → IdleExit pool s a →
    pool.m_usThreadSize.toNat + s.leaving < s.m_usCurThreadSize.toNat

def Within (pool : Config) (s : State τ) : Prop :=
  pool.m_usThreadSize.toNat ≤ s.looping ∧
    s.looping ≤ max pool.m_usThreadSize.toNat pool.m_usMaxTreadSize.toNat

omit [DecidableEq τ] in
lemma looping_goto_le (hw : s.workers[i]? = some w) {p : Pc (Task τ)}
    (hp : w.pc.inLoop = true → p.inLoop = true) : s.looping ≤ (s.goto i w p).looping := by
  have h := State.looping_goto hw p
  have hle : w.pc.inLoop.toNat ≤ p.inLoop.toNat := by
    cases hin : w.pc.inLoop with
    | false => exact Nat.zero_le _
    | true => exact Nat.le_of_eq (by rw [hp hin])
  omega

lemma looping_stepClient {u : τ} (hs : s.stepClient pool u = some t) :
    s.looping ≤ t.looping := by
  revert hs
  fun_cases State.stepClient pool s u <;> intro hs <;> cases hs
  case case10 =>
    exact (State.looping_emplaceThread (s.goes u .addCur)).symm ▸ Nat.le_succ s.looping
  all_goals exact Nat.le_refl _

omit [DecidableEq τ] in
lemma looping_stepWorker (hrun : s.m_isPoolRunning = true) (hw : s.workers[i]? = some w) {dur : ℕ}
    (ha : ¬ IdleExit pool s (.work i dur)) (hs : s.stepWorker pool i w dur = some t) :
    s.looping ≤ t.looping := by
  revert hs
  fun_cases State.stepWorker pool s i w dur <;> intro hs <;> cases hs
  · exact looping_goto_le hw fun _ => by rw [hrun]; rfl
  · exact looping_goto_le hw fun _ => rfl
  · exact looping_goto_le hw fun _ => by split_ifs <;> rfl
  · exact looping_goto_le hw fun _ => rfl
  · next b hc hcond =>
    refine looping_goto_le hw fun _ => ?_
    split_ifs with hdur
    · exact absurd ⟨i, dur, w, rfl, hw, hcond.1 ▸ hc, hcond.2, hdur⟩ ha
    · rfl
  · exact looping_goto_le hw fun _ => rfl
  · exact looping_goto_le hw fun _ => rfl
  · exact looping_goto_le hw fun _ => rfl
  · next hc => exact looping_goto_le hw fun hin => by simp [hc, Pc.inLoop] at hin
  · next hc => exact looping_goto_le hw fun hin => by simp [hc, Pc.inLoop] at hin
  · next hc _ => exact looping_goto_le hw fun hin => by simp [hc, Pc.inLoop] at hin

/-- No other step of a running pool takes a worker out of its loop. -/
lemma looping_step (hrun : s.m_isPoolRunning = true) {a : Action τ} (ha : ¬ IdleExit pool s a)
    (hs : s.step pool a = some t) : s.looping ≤ t.looping := by
  obtain ⟨u, -, hs⟩ | ⟨i, dur, w, rfl, hw, hs⟩ | ⟨i, b, w, -, hw, hs⟩ | hstill :=
    State.step_cases hs
  · exact looping_stepClient hs
  · exact looping_stepWorker hrun hw ha hs
  · revert hs
    fun_cases State.wakeWorker s i w b <;> intro hs <;> cases hs
    all_goals exact looping_goto_le hw fun _ => rfl
  · rw [State.looping, State.looping, hstill.workers]

/-- Such a step is enabled, and takes one worker out. -/
lemma looping_exit (h : Sized pool s) (hrun : s.m_isPoolRunning = true) {a : Action τ}
    (ha : IdleExit pool s a) :
    ∃ t, s.step pool a = some t ∧ t.m_isPoolRunning = true ∧ t.looping + 1 = s.looping ∧
      s.m_usCurThreadSize.toNat = s.looping + s.leaving := by
  obtain ⟨i, dur, w, rfl, hw, hc, hcur, hdur⟩ := ha
  have hm : s.m_mutex = some (.worker i) := h.locked.worker hw (by rw [hc]; rfl)
  have hstep : s.step pool (.work i dur) =
      some { s.goto i w .subCur with m_mutex := none } := by
    simp [State.step, h.up hrun, hw, State.stepWorker, hc, hcur, hdur]
  have hloop := State.looping_goto hw .subCur
  rw [hc] at hloop
  have hcount := (h.counted hrun).cur
  rw [State.creating_worker hm] at hcount
  exact ⟨_, hstep, hrun, hloop, hcount⟩

/-- One step keeps the bounds, unless a worker leaves that is not spare. -/
lemma Sized.within (h : Sized pool s) (hb : s.m_isPoolRunning = true → Within pool s)
    {a : Action τ} (ha : Spare pool s a) (hs : s.step pool a = some t)
    (ht : t.m_isPoolRunning = true) : Within pool t := by
  obtain ⟨-, hrun, -⟩ := running_step h.up hs ht
  have hbelow := ((h.step hs).counted ht).below
  refine ⟨?_, by omega⟩
  by_cases hexit : IdleExit pool s a
  · obtain ⟨u, hu, -, hloop, hcur⟩ := looping_exit h hrun hexit
    obtain rfl : t = u := Option.some.inj (hs.symm.trans hu)
    have hspare := ha hrun hexit
    omega
  · exact Nat.le_trans (hb hrun).1 (looping_step hrun hexit hs)

variable {g : UInt32}

omit [DecidableEq τ] in
lemma within_start (pool : Config) (g : UInt32) : Within pool (State.start τ pool g) := by
  have h := (fresh_start (τ := τ) pool g).looping
  exact ⟨Nat.le_of_eq h.symm, h ▸ Nat.le_max_left _ _⟩

lemma sized_exec {as : List (Action τ)}
    (hs : exec (State.step pool) (State.start τ pool g) as = some s) : Sized pool s :=
  inv_of_always (P := fun _ _ _ => True) (I := fun _ => Sized pool) (sized_start pool g)
    (fun _ _ _ _ h _ hs => h.step hs) (fun _ _ _ _ _ _ => trivial) hs

/-- **The number of threads of a running pool.** It stays between the fixed number and the
larger of the two limits in the whole of a run, exactly when every worker that leaves for
having been idle is spare. -/
theorem threads_within_iff (pool : Config) (g : UInt32) (as : List (Action τ)) :
    (∀ bs s, bs <+: as → exec (State.step pool) (State.start τ pool g) bs = some s →
      s.m_isPoolRunning = true → Within pool s) ↔
    Always (State.step pool) (fun _ => Spare pool) (State.start τ pool g) as := by
  constructor
  · intro h bs a cs s he hs hrun hexit
    have hz := sized_exec hs
    obtain ⟨t, ht, hrun', hloop, hcur⟩ := looping_exit hz hrun hexit
    have hbs : bs ++ [a] <+: as := ⟨cs, by rw [he, List.append_assoc]; rfl⟩
    have hexec : exec (State.step pool) (State.start τ pool g) (bs ++ [a]) = some t := by
      rw [exec_snoc, hs]
      exact ht
    have hw := (h _ t hbs hexec hrun').1
    omega
  · rintro h bs s ⟨cs, rfl⟩ hs
    have hi : Sized pool s ∧ (s.m_isPoolRunning = true → Within pool s) := by
      refine inv_of_always (I := fun _ s => Sized pool s ∧ (s.m_isPoolRunning = true →
        Within pool s)) ⟨sized_start pool g, fun _ => within_start pool g⟩ ?_ h.left hs
      intro _ t a u hi hspare hu
      exact ⟨hi.1.step hu, hi.1.within hi.2 hspare hu⟩
    exact hi.2

/-- A pool of one fixed thread, which a second call makes grow by one. -/
def growth : List (Action Unit) :=
  [.submit (), .client (), .client (), .client (), .client (),
    .work 0 0, .work 0 0, .work 0 0,
    .submit (), .client (), .client (), .client (), .client (), .client (), .client (),
    .client (), .client (),
    .work 1 0, .work 1 0, .work 1 0, .work 1 0, .work 1 0, .work 0 0, .work 0 0]

/-- Both threads find nothing to do, time out one after the other, and see two threads. -/
def timeouts : List (Action Unit) :=
  [.work 0 0, .work 0 0, .work 0 0, .wake 0 true, .work 0 10,
    .work 1 0, .work 1 0, .work 1 0, .wake 1 true, .work 1 10]

lemma growth_timeouts_ends :
    (exec (State.step (.make 8 .MODE_CACHED 1 10000 40 10))
      (State.start Unit (.make 8 .MODE_CACHED 1 10000 40 10) 0) (growth ++ timeouts)).map
        (fun s => (s.m_isPoolRunning, s.m_usCurThreadSize, s.looping)) = some (true, 2, 0) := by
  decide +kernel

theorem threads_below_fixed :
    ∃ s, exec (State.step (.make 8 .MODE_CACHED 1 10000 40 10))
      (State.start Unit (.make 8 .MODE_CACHED 1 10000 40 10) 0) (growth ++ timeouts) = some s ∧
      s.m_isPoolRunning = true ∧ ¬ Within (.make 8 .MODE_CACHED 1 10000 40 10) s := by
  obtain ⟨s, hs, he⟩ := Option.map_eq_some_iff.mp growth_timeouts_ends
  simp only [Prod.mk.injEq] at he
  obtain ⟨hrun, -, hloop⟩ := he
  refine ⟨s, hs, hrun, fun h => ?_⟩
  have hfix : 1 ≤ s.looping := h.1
  omega

end MmrService.ThreadPool
