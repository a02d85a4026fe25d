import MmrService.ThreadPoolSize

/-!
When a `ThreadPool` in `MODE_CACHED` grows.

Both counters are, modulo `2 ^ 16`, numbers of workers at certain places; a worker that leaves
its loop is taken off them one step after the other, and it may leave tasks behind in the
queue. As long as `submit` meets neither, no task waits for a worker that is busy while another
thread could be created.
-/

namespace MmrService.ThreadPool

open Transition Mutex

variable {τ : Type} [DecidableEq τ] {pool : Config} {s t : State τ} {i : ℕ} {w : Worker τ}

/-! ### Places -/

/-- In the loop, and not executing a task. -/
def Pc.ready {κ : Type} : Pc κ → Bool
  | .execute _ | .subCur | .subIdle | .erase | .gone => false
  | _ => true

/-- Back from a task, and not yet among the idle ones. -/
def Pc.finishes {κ : Type} : Pc κ → Bool
  | .addIdle => true
  | _ => false

/-- Out of the loop, and still among the idle ones. -/
def Pc.quits {κ : Type} : Pc κ → Bool
  | .subCur | .subIdle => true
  | _ => false

/-- What `m_usCurThreadSize` counts. -/
def Pc.counted {κ : Type} (p : Pc κ) : Bool := p.inLoop || p.leaves

/-- What `m_usIdleThreadSize` counts. -/
def Pc.credited {κ : Type} (p : Pc κ) : Bool := p.ready && !p.finishes || p.quits

/-- A thread has been started and is not in `m_usCurThreadSize`. -/
def ClientPc.creating : ClientPc → Bool
  | .addCur => true
  | _ => false

/-- It is not in `m_usIdleThreadSize`. -/
def ClientPc.crediting : ClientPc → Bool
  | .addCur | .addIdle => true
  | _ => false

/-- The task has been pushed, and whether a thread is created for it is not settled. -/
def ClientPc.growing : ClientPc → Bool
  | .loadIdle | .loadCur | .emplace => true
  | _ => false

namespace State

/-- The number of workers at the places of `f`. -/
def number (s : State τ) (f : Pc (Task τ) → Bool) : ℕ := s.workers.countP fun w => f w.pc

def ready (s : State τ) : ℕ := s.number Pc.ready

def finishing (s : State τ) : ℕ := s.number Pc.finishes

def quitting (s : State τ) : ℕ := s.number Pc.quits

/-- Whether the call that holds the mutex is at a place of `q`. -/
def inside (s : State τ) (q : ClientPc → Bool) : ℕ :=
  match s.m_mutex with
  | some (.client u) => (q (s.client u)).toNat
  | _ => 0

omit [DecidableEq τ] in
lemma number_goto (hw : s.workers[i]? = some w) (f : Pc (Task τ) → Bool) (p : Pc (Task τ)) :
    (s.goto i w p).number f + (f w.pc).toNat = s.number f + (f p).toNat :=
  countP_goto hw (fun w => f w.pc) p

omit [DecidableEq τ] in
lemma number_emplaceThread (s : State τ) (f : Pc (Task τ) → Bool) :
    s.emplaceThread.number f = s.number f + (f .loadRunning).toNat := by
  simp only [number, emplaceThread, List.countP_append, List.countP_singleton]
  cases f .loadRunning <;> rfl

omit [DecidableEq τ] in
lemma number_le {f g : Pc (Task τ) → Bool} (h : ∀ p, f p = true → g p = true) (s : State τ) :
    s.number f ≤ s.number g :=
  List.countP_mono_left fun w _ hw => h w.pc hw

omit [DecidableEq τ] in
/-- A place is in `f` or `g` as often as it is in `f'` or `g'`. -/
lemma number_add {f g f' g' : Pc (Task τ) → Bool}
    (h : ∀ p, (f p).toNat + (g p).toNat = (f' p).toNat + (g' p).toNat) (s : State τ) :
    s.number f + s.number g = s.number f' + s.number g' := by
  unfold number
  induction s.workers with
  | nil => rfl
  | cons w ws ih =>
    have hnat : ∀ b : Bool, (if b = true then 1 else 0) = b.toNat := by
      intro b
      cases b <;> rfl
    simp only [List.countP_cons, hnat]
    have hw := h w.pc
    omega

omit [DecidableEq τ] in
lemma number_counted (s : State τ) : s.number Pc.counted = s.looping + s.leaving := by
  have h : s.number Pc.counted + s.number (fun _ => false) = s.looping + s.leaving :=
    number_add (fun p => by cases p <;> rfl) s
  rw [show s.number (fun _ => false) = 0 from List.countP_eq_zero.mpr (by simp)] at h
  exact h

omit [DecidableEq τ] in
lemma number_credited (s : State τ) :
    s.number Pc.credited + s.finishing = s.ready + s.quitting :=
  number_add (fun p => by cases p <;> rfl) s

omit [DecidableEq τ] in
lemma ready_le_looping (s : State τ) : s.ready ≤ s.looping :=
  number_le (fun p => by cases p <;> simp [Pc.inLoop, Pc.ready]) s

omit [DecidableEq τ] in
lemma inside_of_none (hm : s.m_mutex = none) (q : ClientPc → Bool) : s.inside q = 0 := by
  rw [inside, hm]

omit [DecidableEq τ] in
lemma inside_worker (hm : s.m_mutex = some (.worker i)) (q : ClientPc → Bool) :
    s.inside q = 0 := by
  rw [inside, hm]

omit [DecidableEq τ] in
lemma inside_client {u : τ} (hm : s.m_mutex = some (.client u)) (q : ClientPc → Bool) :
    s.inside q = (q (s.client u)).toNat := by
  rw [inside, hm]

lemma client_goes (s : State τ) (u : τ) (p : ClientPc) : (s.goes u p).client u = p :=
  Function.update_self ..

omit [DecidableEq τ] in
lemma client_emplaceThread (s : State τ) : s.emplaceThread.client = s.client := rfl

omit [DecidableEq τ] in
lemma client_addCur (s : State τ) : s.addCur.client = s.client := rfl

omit [DecidableEq τ] in
lemma client_addIdle (s : State τ) : s.addIdle.client = s.client := rfl

end State

/-! ### Where the calls are -/

omit [DecidableEq τ] in
/-- A step of a worker is not seen by the calls. -/
lemma inside_stepWorker (hl : Locked s) (hw : s.workers[i]? = some w) {dur : ℕ}
    (hs : s.stepWorker pool i w dur = some t) (q : ClientPc → Bool) : t.inside q = s.inside q := by
  have hheld : w.pc.holds = true → s.inside q = 0 :=
    fun hc => State.inside_worker (hl.worker hw hc) q
  revert hs
  fun_cases State.stepWorker pool s i w dur <;> intro hs <;> cases hs
  · rfl
  · next hm => exact (State.inside_of_none hm q).symm
  · next hc _ => exact (hheld (by rw [hc]; rfl)).symm
  · next hc _ _ _ => exact (hheld (by rw [hc]; rfl)).symm
  · next hc _ => exact (hheld (by rw [hc]; rfl)).symm
  · next hc _ => exact (hheld (by rw [hc]; rfl)).symm
  all_goals rfl

omit [DecidableEq τ] in
lemma inside_wakeWorker {b : Bool} (hs : s.wakeWorker i w b = some t) (q : ClientPc → Bool) :
    t.inside q = s.inside q := by
  revert hs
  fun_cases State.wakeWorker s i w b <;> intro hs <;> cases hs
  · next hm _ => exact (State.inside_of_none hm q).symm
  · rfl

/-- The mutex is free before and after a step of a call, or held by that call. -/
lemma mutex_stepClient (hl : Locked s) {u : τ} (hs : s.stepClient pool u = some t) :
    (s.m_mutex = none ∨ s.m_mutex = some (.client u)) ∧
      (t.m_mutex = none ∨ t.m_mutex = some (.client u)) := by
  have hheld : (s.client u).holds = true → s.m_mutex = some (.client u) := fun hc => hl.client hc
  revert hs
  fun_cases State.stepClient pool s u <;> intro hs <;> cases hs
  case case1 hm => exact ⟨.inl hm, .inr rfl⟩
  case case4 hc => exact ⟨.inr (hheld (by rw [hc]; rfl)), .inl rfl⟩
  case case5 hc _ _ => exact ⟨.inr (hheld (by rw [hc]; rfl)), .inl rfl⟩
  case case13 hc => exact ⟨.inr (hheld (by rw [hc]; rfl)), .inl rfl⟩
  all_goals
    have hm := hheld (by simp [*, ClientPc.holds])
    exact ⟨.inr hm, .inr hm⟩

omit [DecidableEq τ] in
/-- Then places in a critical section are its own. -/
lemma inside_own (hl : Locked s) {u : τ} (hm : s.m_mutex = none ∨ s.m_mutex = some (.client u))
    {q : ClientPc → Bool} (hq : ∀ p, q p = true → p.holds = true) :
    s.inside q = (q (s.client u)).toNat := by
  rcases hm with hm | hm
  · rw [State.inside_of_none hm]
    cases hqp : q (s.client u) with
    | false => rfl
    | true => cases hm.symm.trans (hl.client (hq _ hqp))
  · exact State.inside_client hm q

lemma inside_stepClient (hl : Locked s) {u : τ} (hs : s.stepClient pool u = some t)
    {q : ClientPc → Bool} (hq : ∀ p, q p = true → p.holds = true) :
    s.inside q = (q (s.client u)).toNat ∧ t.inside q = (q (t.client u)).toNat := by
  obtain ⟨hm, hm'⟩ := mutex_stepClient hl hs
  exact ⟨inside_own hl hm hq, inside_own (hl.stepClient hs) hm' hq⟩

/-! ### What the counters count -/

/-- A counter of 16 bits is the number of the workers at the places of `f`, but for a thread
that a call at the places of `q` has started. -/
def Tally (f : Pc (Task τ) → Bool) (q : ClientPc → Bool) (c : UInt16) (s : State τ) : Prop :=
  (c.toNat + s.inside q) % 65536 = s.number f % 65536

/-- Both counters. -/
structure Tallied (s : State τ) : Prop where
  locked : Locked s
  cur : Tally Pc.counted ClientPc.creating s.m_usCurThreadSize s
  idle : Tally Pc.credited ClientPc.crediting s.m_usIdleThreadSize s

lemma creating_holds (p : ClientPc) (h : p.creating = true) : p.holds = true := by
  cases p <;> first | rfl | cases h

lemma crediting_holds (p : ClientPc) (h : p.crediting = true) : p.holds = true := by
  cases p <;> first | rfl | cases h

lemma growing_holds (p : ClientPc) (h : p.growing = true) : p.holds = true := by
  cases p <;> first | rfl | cases h

section Tally

variable {f : Pc (Task τ) → Bool} {q : ClientPc → Bool} {c : UInt16}

omit [DecidableEq τ] in
lemma Tally.quiet (h : Tally f q c s) (hn : t.number f = s.number f)
    (hi : t.inside q = s.inside q) : Tally f q c t := by
  unfold Tally
  rw [hn, hi]
  exact h

omit [DecidableEq τ] in
lemma Tally.goto (h : Tally f q c s) (hw : s.workers[i]? = some w) {p : Pc (Task τ)}
    (hp : f p = f w.pc) (hi : t.inside q = s.inside q)
    (ht : t.workers = (s.goto i w p).workers) : Tally f q c t := by
  refine h.quiet ?_ hi
  have hn := State.number_goto hw f p
  rw [hp] at hn
  rw [State.number, ht]
  exact Nat.add_right_cancel hn

omit [DecidableEq τ] in
/-- A worker comes to a place of `f` and adds itself. -/
lemma Tally.gain (h : Tally f q c s) (hw : s.workers[i]? = some w) {p : Pc (Task τ)}
    (hc : f w.pc = false) (hp : f p = true) (hi : t.inside q = s.inside q)
    (ht : t.workers = (s.goto i w p).workers) : Tally f q (c + 1) t := by
  have hn := State.number_goto hw f p
  rw [hc, hp] at hn
  have he : t.number f = (s.goto i w p).number f := by rw [State.number, ht]; rfl
  unfold Tally at h ⊢
  rw [UInt16.toNat_add, UInt16.toNat_one, hi, he]
  change _ + 0 = _ + 1 at hn
  omega

omit [DecidableEq τ] in
/-- A worker leaves the places of `f` and takes itself off. -/
lemma Tally.lose (h : Tally f q c s) (hw : s.workers[i]? = some w) {p : Pc (Task τ)}
    (hc : f w.pc = true) (hp : f p = false) (hi : t.inside q = s.inside q)
    (ht : t.workers = (s.goto i w p).workers) : Tally f q (c - 1) t := by
  have hn := State.number_goto hw f p
  rw [hc, hp] at hn
  have he : t.number f = (s.goto i w p).number f := by rw [State.number, ht]; rfl
  unfold Tally at h ⊢
  rw [UInt16.toNat_sub, UInt16.toNat_one, hi, he]
  change _ + 1 = _ + 0 at hn
  omega

omit [DecidableEq τ] in
/-- A call creates a thread, and is now to count it. -/
lemma Tally.owe (h : Tally f q c s) (hs : s.inside q = 0) (ht : t.inside q = 1)
    (hn : t.number f = s.number f + 1) : Tally f q c t := by
  unfold Tally at h ⊢
  rw [hs] at h
  rw [ht, hn]
  omega

omit [DecidableEq τ] in
/-- A call counts the thread it has created. -/
lemma Tally.settle (h : Tally f q c s) (hs : s.inside q = 1) (ht : t.inside q = 0)
    (hn : t.number f = s.number f) : Tally f q (c + 1) t := by
  unfold Tally at h ⊢
  rw [hs] at h
  rw [ht, hn, UInt16.toNat_add, UInt16.toNat_one]
  omega

end Tally

omit [DecidableEq τ] in
lemma tally_cur_stepWorker (hl : Locked s)
    (h : Tally Pc.counted ClientPc.creating s.m_usCurThreadSize s)
    (hw : s.workers[i]? = some w) {dur : ℕ} (hs : s.stepWorker pool i w dur = some t) :
    Tally Pc.counted ClientPc.creating t.m_usCurThreadSize t := by
  have hi := inside_stepWorker hl hw hs ClientPc.creating
  revert hs
  fun_cases State.stepWorker pool s i w dur <;> intro hs <;> cases hs
  case case1 hc => exact h.goto hw (by rw [hc]; split_ifs <;> rfl) hi rfl
  case case4 hc _ => exact h.goto hw (by rw [hc]; split_ifs <;> rfl) hi rfl
  case case6 hc _ => exact h.goto hw (by rw [hc]; split_ifs <;> rfl) hi rfl
  case case10 hc => exact h.lose hw (by rw [hc]; rfl) rfl hi rfl
  all_goals exact h.goto hw (by simp [*, Pc.counted, Pc.inLoop, Pc.leaves]) hi rfl

omit [DecidableEq τ] in
lemma tally_idle_stepWorker (hl : Locked s)
    (h : Tally Pc.credited ClientPc.crediting s.m_usIdleThreadSize s)
    (hw : s.workers[i]? = some w) {dur : ℕ} (hs : s.stepWorker pool i w dur = some t) :
    Tally Pc.credited ClientPc.crediting t.m_usIdleThreadSize t := by
  have hi := inside_stepWorker hl hw hs ClientPc.crediting
  revert hs
  fun_cases State.stepWorker pool s i w dur <;> intro hs <;> cases hs
  case case1 hc => exact h.goto hw (by rw [hc]; split_ifs <;> rfl) hi rfl
  case case4 hc _ => exact h.goto hw (by rw [hc]; split_ifs <;> rfl) hi rfl
  case case5 hc task _ _ => exact h.lose (p := .execute task) hw (by rw [hc]; rfl) rfl hi rfl
  case case6 hc _ => exact h.goto hw (by rw [hc]; split_ifs <;> rfl) hi rfl
  case case9 hc => exact h.gain hw (by rw [hc]; rfl) rfl hi rfl
  case case11 hc => exact h.lose hw (by rw [hc]; rfl) rfl hi rfl
  all_goals exact h.goto hw (by simp [*, Pc.credited, Pc.ready, Pc.finishes, Pc.quits]) hi rfl

lemma Tallied.wakeWorker (h : Tallied s) (hw : s.workers[i]? = some w) {b : Bool}
    (hs : s.wakeWorker i w b = some t) : Tallied t := by
  have hi := inside_wakeWorker hs
  refine ⟨h.locked.wakeWorker hw hs, ?_, ?_⟩
  all_goals
    revert hs
    fun_cases State.wakeWorker s i w b <;> intro hs <;> cases hs
  · next hc => exact h.cur.goto hw (by rw [hc]; rfl) (hi _) rfl
  · next hc => exact h.cur.goto hw (by rw [hc]; rfl) (hi _) rfl
  · next hc => exact h.idle.goto hw (by rw [hc]; rfl) (hi _) rfl
  · next hc => exact h.idle.goto hw (by rw [hc]; rfl) (hi _) rfl

lemma tally_cur_stepClient (hl : Locked s)
    (h : Tally Pc.counted ClientPc.creating s.m_usCurThreadSize s) {u : τ}
    (hs : s.stepClient pool u = some t) :
    Tally Pc.counted ClientPc.creating t.m_usCurThreadSize t := by
  have hi := inside_stepClient hl hs creating_holds
  revert hs hi
  fun_cases State.stepClient pool s u <;> intro hs hi <;> cases hs
  case case10 hc =>
    refine h.owe (by rw [hi.1, hc]; rfl) ?_ (State.number_emplaceThread ..)
    rw [hi.2, State.client_emplaceThread, State.client_goes]
    rfl
  case case11 hc =>
    refine h.settle (by rw [hi.1, hc]; rfl) ?_ rfl
    rw [hi.2, State.client_addCur, State.client_goes]
    rfl
  all_goals
    refine h.quiet rfl ?_
    rw [hi.1, hi.2]
    simp [*, State.goes, State.addIdle, ClientPc.creating]

lemma tally_idle_stepClient (hl : Locked s)
    (h : Tally Pc.credited ClientPc.crediting s.m_usIdleThreadSize s) {u : τ}
    (hs : s.stepClient pool u = some t) :
    Tally Pc.credited ClientPc.crediting t.m_usIdleThreadSize t := by
  have hi := inside_stepClient hl hs crediting_holds
  revert hs hi
  fun_cases State.stepClient pool s u <;> intro hs hi <;> cases hs
  case case10 hc =>
    refine h.owe (by rw [hi.1, hc]; rfl) ?_ (State.number_emplaceThread ..)
    rw [hi.2, State.client_emplaceThread, State.client_goes]
    rfl
  case case12 hc =>
    refine h.settle (by rw [hi.1, hc]; rfl) ?_ rfl
    rw [hi.2, State.client_addIdle, State.client_goes]
    rfl
  all_goals
    refine h.quiet rfl ?_
    rw [hi.1, hi.2]
    simp [*, State.goes, State.addCur, ClientPc.crediting]

/-- A call that is outside, or waits, is not the one that holds the mutex. -/
lemma inside_goes (hl : Locked s) {u : τ} {p : ClientPc} (hc : (s.client u).holds = false)
    (q : ClientPc → Bool) : (s.goes u p).inside q = s.inside q := by
  unfold State.inside
  change (match s.m_mutex with
    | some (.client v) => (q (Function.update s.client u p v)).toNat
    | _ => 0) = _
  split
  · next v hm =>
    have hv : v ≠ u := by
      rintro rfl
      have hin : s.holding (.client v) = true := (hl (.client v)).mpr hm
      cases hc.symm.trans hin
    rw [Function.update_of_ne hv]
  · rfl

lemma Tallied.submit (h : Tallied s) {u : τ} (hs : s.submit u = some t) : Tallied t := by
  refine ⟨h.locked.submit hs, ?_, ?_⟩
  all_goals
    revert hs
    fun_cases State.submit s u <;> intro hs <;> cases hs
  · next hc => exact h.cur.quiet rfl (inside_goes h.locked (by rw [hc]; rfl) _)
  · next hc => exact h.idle.quiet rfl (inside_goes h.locked (by rw [hc]; rfl) _)

/-- A call takes the free mutex to test the queue. -/
lemma inside_lockClient (hm : s.m_mutex = none) (u : τ) (b : Bool) {q : ClientPc → Bool}
    (hq : q (.test b) = false) :
    State.inside { s.goes u (.test b) with m_mutex := some (.client u) } q = s.inside q := by
  rw [State.inside_of_none hm, State.inside_client rfl]
  change (q (Function.update s.client u (.test b) u)).toNat = 0
  rw [Function.update_self, hq]
  rfl

lemma Tallied.wakeClient (h : Tallied s) {u : τ} {b : Bool} (hs : s.wakeClient u b = some t) :
    Tallied t := by
  refine ⟨h.locked.wakeClient hs, ?_, ?_⟩
  all_goals
    revert hs
    fun_cases State.wakeClient s u b <;> intro hs <;> cases hs
  · next hm hc => exact h.cur.quiet rfl (inside_lockClient hm u b rfl)
  · next hm hc => exact h.idle.quiet rfl (inside_lockClient hm u b rfl)

omit [DecidableEq τ] in
lemma Tallied.stop (h : Tallied s) (hs : s.stop = some t) : Tallied t := by
  refine ⟨h.locked.stop hs, ?_, ?_⟩
  all_goals
    revert hs
    fun_cases State.stop s <;> intro hs <;> cases hs
  all_goals first | exact h.cur.quiet rfl rfl | exact h.idle.quiet rfl rfl

/-- No step of any thread, nor of the destructor, makes the counters wrong. -/
lemma Tallied.step (h : Tallied s) {a : Action τ} (hs : s.step pool a = some t) : Tallied t := by
  have hl' := h.locked.step hs
  unfold State.step at hs
  split_ifs at hs
  cases a with
  | submit u => exact h.submit hs
  | client u =>
    exact ⟨hl', tally_cur_stepClient h.locked h.cur hs, tally_idle_stepClient h.locked h.idle hs⟩
  | wakeClient u b => exact h.wakeClient hs
  | work i dur =>
    obtain ⟨w, hw, hs⟩ := Option.bind_eq_some_iff.mp hs
    exact ⟨hl', tally_cur_stepWorker h.locked h.cur hw hs,
      tally_idle_stepWorker h.locked h.idle hw hs⟩
  | wake i b =>
    obtain ⟨w, hw, hs⟩ := Option.bind_eq_some_iff.mp hs
    exact h.wakeWorker hw hs
  | stop => exact h.stop hs

/-! ### Tasks behind busy threads -/

/-- Another thread could be created, and more tasks are queued than workers are ready. -/
def Short (pool : Config) (s : State τ) : Prop :=
  s.looping < pool.m_usMaxTreadSize.toNat ∧ s.ready < s.m_queueTask.length

/-- While a call has a task in hand for which a thread may be created, one more task is queued
than ready workers can take. -/
def Supplied (pool : Config) (s : State τ) : Prop :=
  s.looping < pool.m_usMaxTreadSize.toNat →
    s.m_queueTask.length ≤ s.ready + s.inside ClientPc.growing

/-- A worker leaves its loop, having been idle or finding the flag cleared. -/
def Exits (pool : Config) (s : State τ) (a : Action τ) : Prop :=
  IdleExit pool s a ∨ ∃ i dur w, a = .work i dur ∧ s.workers[i]? = some w ∧
    w.pc = .loadRunning ∧ s.m_isPoolRunning = false

/-- A worker that leaves its loop leaves enough others for the tasks that are queued; and when
`submit` reads a counter at a time when it should create a thread, the workers that have left
their loop and are still counted do not outnumber what the counter lacks. -/
structure Prompt (pool : Config) (s : State τ) (a : Action τ) : Prop where
  exit : Exits pool s a → s.looping ≤ pool.m_usMaxTreadSize.toNat →
    s.m_queueTask.length < s.ready
  idle : ∀ u, a = .client u → s.client u = .loadIdle → Short pool s → s.quitting ≤ s.finishing
  cur : ∀ u, a = .client u → s.client u = .loadCur → Short pool s →
    s.looping + s.leaving < pool.m_usMaxTreadSize.toNat

omit [DecidableEq τ] in
/-- The idle counter then shows that there are too few. -/
lemma Tallied.idle_lt (h : Tallied s) {u : τ} (hc : s.client u = .loadIdle) (hs : Short pool s)
    (hq : s.quitting ≤ s.finishing) : s.m_usIdleThreadSize.toNat < s.m_queueTask.length := by
  have hm : s.m_mutex = some (.client u) := h.locked.client (by rw [hc]; rfl)
  have hidle := h.idle
  unfold Tally at hidle
  rw [State.inside_client hm, hc] at hidle
  change (_ + 0) % _ = _ at hidle
  have hcredit := s.number_credited
  have hready := s.ready_le_looping
  have hmax := pool.m_usMaxTreadSize.toNat_lt
  have hlt := s.m_usIdleThreadSize.toNat_lt
  obtain ⟨hloop, hshort⟩ := hs
  omega

omit [DecidableEq τ] in
lemma Tallied.cur_lt (h : Tallied s) {u : τ} (hc : s.client u = .loadCur)
    (hlt : s.looping + s.leaving < pool.m_usMaxTreadSize.toNat) :
    s.m_usCurThreadSize < pool.m_usMaxTreadSize := by
  have hm : s.m_mutex = some (.client u) := h.locked.client (by rw [hc]; rfl)
  have hcur := h.cur
  unfold Tally at hcur
  rw [State.inside_client hm, hc, s.number_counted] at hcur
  change (_ + 0) % _ = _ at hcur
  have hmax := pool.m_usMaxTreadSize.toNat_lt
  have hsize := s.m_usCurThreadSize.toNat_lt
  rw [UInt16.lt_iff_toNat_lt]
  omega

omit [DecidableEq τ] in
lemma Supplied.quiet (h : Supplied pool s) (hq : t.m_queueTask.length = s.m_queueTask.length)
    (hl : t.looping = s.looping) (hr : t.ready = s.ready)
    (hi : t.inside ClientPc.growing = s.inside ClientPc.growing) : Supplied pool t := by
  unfold Supplied
  rw [hq, hl, hr, hi]
  exact h

lemma Supplied.stepClient (h : Supplied pool s) (hz : Tallied s)
    (hmode : pool.m_poolMode = .MODE_CACHED) {u : τ} (hp : Prompt pool s (.client u))
    (hs : s.stepClient pool u = some t) : Supplied pool t := by
  have hi := inside_stepClient hz.locked hs growing_holds
  revert hs hi
  fun_cases State.stepClient pool s u <;> intro hs hi <;> cases hs
  case case3 hc _ =>
    -- the task is pushed
    intro hlt
    have hle := h hlt
    rw [hi.1, hc] at hle
    rw [hi.2]
    simp only [State.goes, Function.update_self, List.length_append, List.length_singleton]
    change _ ≤ s.ready + 0 at hle
    change _ ≤ s.ready + 1
    omega
  case case7 hc hno =>
    -- no thread is created
    intro hlt
    rw [hi.2, State.client_goes]
    change _ ≤ s.ready + 0
    by_contra hshort
    have hs : Short pool s := ⟨hlt, by simpa [State.goes] using hshort⟩
    exact hno ⟨hmode, hz.idle_lt hc hs (hp.idle u rfl hc hs)⟩
  case case9 hc hno =>
    intro hlt
    rw [hi.2, State.client_goes]
    change _ ≤ s.ready + 0
    by_contra hshort
    have hs : Short pool s := ⟨hlt, by simpa [State.goes] using hshort⟩
    exact hno (hz.cur_lt hc (hp.cur u rfl hc hs))
  case case10 hc =>
    -- a thread is created
    intro hlt
    rw [State.looping_emplaceThread] at hlt
    change s.looping + 1 < _ at hlt
    have hle := h (by omega)
    rw [hi.1, hc] at hle
    rw [hi.2, State.client_emplaceThread, State.client_goes, State.ready,
      State.number_emplaceThread]
    exact hle
  all_goals
    refine h.quiet rfl rfl rfl ?_
    rw [hi.1, hi.2]
    simp [*, State.goes, State.addCur, State.addIdle, ClientPc.growing]

omit [DecidableEq τ] in
/-- A worker moves inside its loop or outside of it, to a place no worse for the queue. -/
lemma Supplied.goto (h : Supplied pool s) (hw : s.workers[i]? = some w) {p : Pc (Task τ)}
    (hin : p.inLoop = w.pc.inLoop) (hi : t.inside ClientPc.growing = s.inside ClientPc.growing)
    (ht : t.workers = (s.goto i w p).workers)
    (hq : t.m_queueTask.length + w.pc.ready.toNat ≤ s.m_queueTask.length + p.ready.toNat) :
    Supplied pool t := by
  have hloop := State.number_goto hw Pc.inLoop p
  have hready := State.number_goto hw Pc.ready p
  have hl : t.looping = (s.goto i w p).number Pc.inLoop := by rw [State.looping, ht]; rfl
  have hr : t.ready = (s.goto i w p).number Pc.ready := by rw [State.ready, State.number, ht]; rfl
  rw [hin] at hloop
  have hsame : (s.goto i w p).number Pc.inLoop = s.looping := Nat.add_right_cancel hloop
  intro hlt
  rw [hl, hsame] at hlt
  have hle := h hlt
  rw [hi, hr]
  change _ = s.ready + _ at hready
  omega

omit [DecidableEq τ] in
/-- A worker leaves its loop. -/
lemma Supplied.exit (hw : s.workers[i]? = some w) {p : Pc (Task τ)} (hc : w.pc.inLoop = true)
    (hready : w.pc.ready = true) (hp : p.inLoop = false) (hpr : p.ready = false)
    (ht : t.workers = (s.goto i w p).workers) (hq : t.m_queueTask = s.m_queueTask)
    (h : s.looping ≤ pool.m_usMaxTreadSize.toNat → s.m_queueTask.length < s.ready) :
    Supplied pool t := by
  have hloop := State.number_goto hw Pc.inLoop p
  have hnum := State.number_goto hw Pc.ready p
  have hl : t.looping = (s.goto i w p).number Pc.inLoop := by rw [State.looping, ht]; rfl
  have hr : t.ready = (s.goto i w p).number Pc.ready := by rw [State.ready, State.number, ht]; rfl
  rw [hc, hp] at hloop
  rw [hready, hpr] at hnum
  change _ + 1 = s.looping + 0 at hloop
  change _ + 1 = s.ready + 0 at hnum
  intro hlt
  have hle := h (by omega)
  rw [hq, hr]
  omega

omit [DecidableEq τ] in
lemma Supplied.stepWorker (h : Supplied pool s) (hl : Locked s) (hw : s.workers[i]? = some w)
    {dur : ℕ} (hp : Prompt pool s (.work i dur)) (hs : s.stepWorker pool i w dur = some t) :
    Supplied pool t := by
  have hi := inside_stepWorker hl hw hs ClientPc.growing
  revert hs
  fun_cases State.stepWorker pool s i w dur <;> intro hs <;> cases hs
  case case1 hc =>
    cases hrun : s.m_isPoolRunning with
    | true => exact h.goto hw (by rw [hc]; rfl) hi rfl (by rw [hc]; exact Nat.le_refl _)
    | false =>
      refine Supplied.exit hw (by rw [hc]; rfl) (by rw [hc]; rfl) rfl rfl rfl rfl (hp.exit ?_)
      exact .inr ⟨i, dur, w, rfl, hw, hc, hrun⟩
  case case4 hc _ =>
    split_ifs at hi ⊢
    · exact h.goto hw (by rw [hc]; rfl) hi rfl (by rw [hc]; exact Nat.le_refl _)
    · exact h.goto hw (by rw [hc]; rfl) hi rfl (by rw [hc]; exact Nat.le_refl _)
  case case5 hc task rest hq =>
    refine h.goto (p := .execute task) hw (by rw [hc]; rfl) hi rfl ?_
    rw [hc, hq]
    exact Nat.le_refl _
  case case6 timeout hc hcond =>
    split_ifs at hi ⊢ with hdur
    · refine Supplied.exit hw (by rw [hc]; rfl) (by rw [hc]; rfl) rfl rfl rfl rfl (hp.exit ?_)
      exact .inl ⟨i, dur, w, rfl, hw, hcond.1 ▸ hc, hcond.2, hdur⟩
    · exact h.goto hw (by rw [hc]; rfl) hi rfl (by rw [hc]; exact Nat.le_refl _)
  case case8 task hc =>
    exact h.goto (p := .addIdle) hw (by rw [hc]; rfl) hi rfl (by rw [hc]; exact Nat.le_succ _)
  all_goals
    refine h.goto hw ?_ hi rfl ?_
    · simp [*, Pc.inLoop]
    · simp [*, Pc.ready, State.goto, State.addIdle]

lemma Supplied.step (h : Supplied pool s) (hz : Tallied s)
    (hmode : pool.m_poolMode = .MODE_CACHED) {a : Action τ} (hp : Prompt pool s a)
    (hs : s.step pool a = some t) : Supplied pool t := by
  unfold State.step at hs
  split_ifs at hs
  cases a with
  | submit u =>
    change s.submit u = some t at hs
    revert hs
    fun_cases State.submit s u <;> intro hs <;> cases hs
    next hc => exact h.quiet rfl rfl rfl (inside_goes hz.locked (by rw [hc]; rfl) _)
  | client u => exact h.stepClient hz hmode hp hs
  | wakeClient u b =>
    change s.wakeClient u b = some t at hs
    revert hs
    fun_cases State.wakeClient s u b <;> intro hs <;> cases hs
    next hm hc => exact h.quiet rfl rfl rfl (inside_lockClient hm u b rfl)
  | work i dur =>
    obtain ⟨w, hw, hs⟩ := Option.bind_eq_some_iff.mp hs
    exact h.stepWorker hz.locked hw hp hs
  | wake i b =>
    obtain ⟨w, hw, hs⟩ := Option.bind_eq_some_iff.mp hs
    have hi := inside_wakeWorker hs ClientPc.growing
    revert hs
    fun_cases State.wakeWorker s i w b <;> intro hs <;> cases hs
    · next hc => exact h.goto hw (by rw [hc]; rfl) hi rfl (by rw [hc]; exact Nat.le_refl _)
    · next hc => exact h.goto hw (by rw [hc]; rfl) hi rfl (by rw [hc]; exact Nat.le_refl _)
  | stop =>
    change s.stop = some t at hs
    revert hs
    fun_cases State.stop s <;> intro hs <;> cases hs
    all_goals exact h.quiet rfl rfl rfl rfl

/-! ### Whole runs -/

omit [DecidableEq τ] in
/-- The constructor counts each thread it creates. -/
lemma Tally.createThreadInner {f : Pc (Task τ) → Bool} {q : ClientPc → Bool} {c : UInt16}
    (h : Tally f q c s) (hf : f .loadRunning = true) (hm : s.m_mutex = none) :
    Tally f q (c + 1) s.createThreadInner := by
  have hn := State.number_emplaceThread s f
  rw [hf] at hn
  unfold Tally at h ⊢
  rw [State.inside_of_none hm] at h
  have hi : s.createThreadInner.inside q = 0 := State.inside_of_none hm q
  rw [hi, UInt16.toNat_add, UInt16.toNat_one]
  change _ = s.emplaceThread.number f % _
  change _ = _ + 1 at hn
  omega

omit [DecidableEq τ] in
lemma tallied_start (pool : Config) (g : UInt32) :
    Tallied (State.start τ pool g) ∧ Supplied pool (State.start τ pool g) := by
  suffices h : Tallied (State.start τ pool g) ∧ (State.start τ pool g).m_mutex = none ∧
      (State.start τ pool g).m_queueTask = [] by
    refine ⟨h.1, fun _ => ?_⟩
    rw [h.2.2]
    exact Nat.zero_le _
  refine Function.Iterate.rec (fun s => Tallied s ∧ s.m_mutex = none ∧ s.m_queueTask = []) ?_
    (fun s h => ?_) _
  · refine ⟨⟨?_, rfl, rfl⟩, rfl, rfl⟩
    rintro (j | u) <;> simp [State.holding, ClientPc.holds]
  · obtain ⟨h, hm, hq⟩ := h
    exact ⟨⟨h.locked.emplaceThread, h.cur.createThreadInner rfl hm,
      h.idle.createThreadInner rfl hm⟩, hm, hq⟩

/-- **No task waits behind busy threads.** In a run in which every worker leaves enough others
behind and every call reads the counters when they lack no more than they exceed, whenever
`submit` returns and another thread could have been created, there are no more tasks queued
than workers in their loop that execute none. -/
theorem supplied_at_return (hmode : pool.m_poolMode = .MODE_CACHED) {g : UInt32}
    {as bs : List (Action τ)} {u : τ}
    (hp : Always (State.step pool) (fun _ => Prompt pool) (State.start τ pool g) as)
    (hpre : bs ++ [.client u] <+: as)
    (hs : exec (State.step pool) (State.start τ pool g) bs = some s) (hc : s.client u = .unlock)
    (ht : s.step pool (.client u) = some t) (hlt : t.looping < pool.m_usMaxTreadSize.toNat) :
    t.m_queueTask.length ≤ t.ready := by
  obtain ⟨cs, rfl⟩ := hpre
  have hi : Tallied s ∧ Supplied pool s := by
    refine inv_of_always (I := fun _ s => Tallied s ∧ Supplied pool s) (tallied_start pool g) ?_
      hp.left.left hs
    intro _ s a t hi hprompt ht
    exact ⟨hi.1.step ht, hi.2.step hi.1 hmode hprompt ht⟩
  have hprompt : Prompt pool s (.client u) := hp.left.last hs
  have hsup := hi.2.step hi.1 hmode hprompt ht hlt
  have hstep : s.stepClient pool u = some t := by
    unfold State.step at ht
    split_ifs at ht
    exact ht
  have hin := (inside_stepClient hi.1.locked hstep growing_holds).2
  rw [hin] at hsup
  unfold State.stepClient at hstep
  rw [hc] at hstep
  cases hstep
  simpa [State.goes, ClientPc.growing] using hsup

/-- Of two threads, one executes a task, and the other has timed out and left its loop with
both counters still counting it. -/
def exitUncounted : List (Action Unit) :=
  growth.take 22 ++ [.work 1 0, .work 1 0, .work 1 0, .wake 1 true, .work 1 10,
    .submit (), .client (), .client (), .client ()]

lemma exitUncounted_ends :
    (exec (State.step (.make 8 .MODE_CACHED 1 10000 3 10))
      (State.start Unit (.make 8 .MODE_CACHED 1 10000 3 10) 0) exitUncounted).map
        (fun s => (s.client (), s.stopping)) = some (.unlock, .running) := by
  decide +kernel

lemma exitUncounted_returns :
    (exec (State.step (.make 8 .MODE_CACHED 1 10000 3 10))
      (State.start Unit (.make 8 .MODE_CACHED 1 10000 3 10) 0)
        (exitUncounted ++ [.client ()])).map
        (fun s => (s.looping, s.m_queueTask.length, s.ready)) = some (1, 1, 0) := by
  decide +kernel

theorem exitUncounted_waits :
    ∃ s t, exec (State.step (.make 8 .MODE_CACHED 1 10000 3 10))
      (State.start Unit (.make 8 .MODE_CACHED 1 10000 3 10) 0) exitUncounted = some s ∧
      s.client () = .unlock ∧
      s.step (.make 8 .MODE_CACHED 1 10000 3 10) (.client ()) = some t ∧
      t.looping < (Config.make 8 .MODE_CACHED 1 10000 3 10).m_usMaxTreadSize.toNat ∧
      ¬ t.m_queueTask.length ≤ t.ready := by
  obtain ⟨s, hs, he⟩ := Option.map_eq_some_iff.mp exitUncounted_ends
  obtain ⟨t, ht, he'⟩ := Option.map_eq_some_iff.mp exitUncounted_returns
  simp only [Prod.mk.injEq] at he he'
  obtain ⟨hloop, hqueue, hready⟩ := he'
  obtain ⟨s', hs', hstep⟩ := exec_snoc_some ht
  obtain rfl : s = s' := Option.some.inj (hs.symm.trans hs')
  refine ⟨s, t, hs, he.1, hstep, ?_, ?_⟩
  · rw [hloop]
    decide
  · rw [hqueue, hready]
    decide

/-- No worker is where it could leave its loop, and a call sees both counters exact. -/
def steady (s : State Unit) : Action Unit → Bool
  | .work i _ => s.m_isPoolRunning && (s.workers[i]?).all fun w => w.pc ≠ .woken true
  | .client _ => s.quitting = 0 && s.looping + s.leaving < 3
  | _ => true

lemma prompt_of_steady {s : State Unit} {a : Action Unit} (h : steady s a = true) :
    Prompt (.make 8 .MODE_CACHED 1 10000 3 10) s a := by
  refine ⟨?_, ?_, ?_⟩
  · rintro (⟨i, dur, w, rfl, hw, hc, -⟩ | ⟨i, dur, w, rfl, hw, -, hrun⟩)
    · simp [steady, hw, hc] at h
    · simp [steady, hrun] at h
  · rintro u rfl - -
    simp only [steady, Bool.and_eq_true, decide_eq_true_eq] at h
    exact h.1 ▸ Nat.zero_le _
  · rintro u rfl - -
    simp only [steady, Bool.and_eq_true, decide_eq_true_eq] at h
    exact h.2

lemma growth_returns :
    (exec (State.step (.make 8 .MODE_CACHED 1 10000 3 10))
      (State.start Unit (.make 8 .MODE_CACHED 1 10000 3 10) 0) (growth.take 17)).map
        (fun s => (s.looping, s.m_queueTask.length, s.ready)) = some (2, 1, 1) := by
  decide +kernel

theorem supplied_at_return_growth :
    ∃ t, exec (State.step (.make 8 .MODE_CACHED 1 10000 3 10))
      (State.start Unit (.make 8 .MODE_CACHED 1 10000 3 10) 0) (growth.take 17) = some t ∧
      t.m_queueTask.length ≤ t.ready := by
  obtain ⟨t, ht, he⟩ := Option.map_eq_some_iff.mp growth_returns
  simp only [Prod.mk.injEq] at he
  have hsplit : growth.take 17 = growth.take 16 ++ [.client ()] := rfl
  obtain ⟨s, hs, hstep⟩ := exec_snoc_some (hsplit ▸ ht)
  have hp : Always (State.step (.make 8 .MODE_CACHED 1 10000 3 10))
      (fun _ => Prompt (.make 8 .MODE_CACHED 1 10000 3 10))
      (State.start Unit (.make 8 .MODE_CACHED 1 10000 3 10) 0) (growth.take 17) :=
    always_of_check (fun _ _ => prompt_of_steady) (by decide +kernel)
  have hc : (exec (State.step (.make 8 .MODE_CACHED 1 10000 3 10))
      (State.start Unit (.make 8 .MODE_CACHED 1 10000 3 10) 0) (growth.take 16)).map
        (fun s => s.client ()) = some .unlock := by
    decide +kernel
  rw [hs] at hc
  refine ⟨t, ht, supplied_at_return (u := ()) rfl hp ⟨[], ?_⟩ hs (Option.some.inj hc) hstep ?_⟩
  · rfl
  · rw [he.1]
    decide

end MmrService.ThreadPool
