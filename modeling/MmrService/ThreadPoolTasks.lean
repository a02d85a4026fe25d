import MmrService.ThreadPool
import Mathlib.Data.List.Nodup
import Mathlib.Tactic.Ring

/-!
What becomes of the tasks of a `ThreadPool`.

A task that has been pushed is in the queue, in the hand of one worker, or executed, and its
call is accepted or about to be. `stop` waits for the workers and not for the queue.
-/

namespace MmrService.ThreadPool

open Transition Mutex

variable {τ : Type} [DecidableEq τ] {pool : Config} {s t : State τ} {i : ℕ} {w : Worker τ}

/-! ### Who holds the mutex -/

/-- The thread is in a critical section. -/
def State.holding (s : State τ) : Holder τ → Bool
  | .worker i => (s.workers[i]?).any (·.pc.holds)
  | .client u => (s.client u).holds

lemma State.holding_goto (hw : s.workers[i]? = some w) (p : Pc (Task τ)) :
    (s.goto i w p).holding = Function.update s.holding (.worker i) p.holds := by
  funext u
  rw [Function.update_apply]
  cases u with
  | client u => simp [holding, goto]
  | worker j =>
    simp only [holding, goto, List.getElem?_set, Holder.worker.injEq]
    by_cases hij : i = j
    · subst hij
      simp [(List.getElem?_eq_some_iff.mp hw).1]
    · simp [hij, Ne.symm hij]

lemma State.holding_goes (u : τ) (p : ClientPc) :
    (s.goes u p).holding = Function.update s.holding (.client u) p.holds := by
  funext v
  rw [Function.update_apply]
  cases v with
  | worker j => simp [holding, goes]
  | client v =>
    simp only [holding, goes, Function.update_apply, Holder.client.injEq]
    split_ifs <;> rfl

omit [DecidableEq τ] in
lemma State.holding_emplaceThread (s : State τ) : s.emplaceThread.holding = s.holding := by
  funext u
  cases u with
  | client u => rfl
  | worker j =>
    simp only [holding, emplaceThread]
    rcases Nat.lt_trichotomy j s.workers.length with hj | hj | hj
    · rw [List.getElem?_append_left hj]
    · subst hj
      simp [Pc.holds]
    · rw [List.getElem?_eq_none (Nat.le_of_lt hj), List.getElem?_eq_none]
      rw [List.length_append]
      exact hj

/-- The threads in a critical section are the holder of the mutex. -/
def Locked (s : State τ) : Prop := Owned s.m_mutex (fun b => b) s.holding

omit [DecidableEq τ] in
lemma Locked.worker (h : Locked s) (hw : s.workers[i]? = some w) (hp : w.pc.holds = true) :
    s.m_mutex = some (.worker i) :=
  Owned.holder h (by simp [State.holding, hw, hp])

omit [DecidableEq τ] in
lemma Locked.client (h : Locked s) {u : τ} (hp : (s.client u).holds = true) :
    s.m_mutex = some (.client u) := by
  have hi : s.holding (.client u) = true := hp
  exact Owned.holder h hi

/-- A worker stays on its side. -/
lemma Locked.goto (h : Locked s) (hw : s.workers[i]? = some w) {p : Pc (Task τ)}
    (hp : p.holds = w.pc.holds) : Locked (s.goto i w p) := by
  unfold Locked
  rw [State.holding_goto hw]
  exact h.stay (by simp [State.holding, hw, hp])

lemma Locked.goes (h : Locked s) {u : τ} {p : ClientPc} (hp : p.holds = (s.client u).holds) :
    Locked (s.goes u p) := by
  unfold Locked
  rw [State.holding_goes]
  exact h.stay hp

/-- A worker takes the free mutex. -/
lemma Locked.lockWorker (h : Locked s) (hm : s.m_mutex = none) (hw : s.workers[i]? = some w)
    {p : Pc (Task τ)} (hp : p.holds = true) :
    Locked { s.goto i w p with m_mutex := some (.worker i) } := by
  unfold Locked at h
  rw [hm] at h
  have hu := h.lock (t := .worker i) hp
  rw [← State.holding_goto hw] at hu
  exact hu

lemma Locked.lockClient (h : Locked s) (hm : s.m_mutex = none) {u : τ} {p : ClientPc}
    (hp : p.holds = true) : Locked { s.goes u p with m_mutex := some (.client u) } := by
  unfold Locked at h
  rw [hm] at h
  have hu := h.lock (t := .client u) hp
  rw [← State.holding_goes] at hu
  exact hu

/-- A worker frees the mutex. -/
lemma Locked.unlockWorker (h : Locked s) (hw : s.workers[i]? = some w)
    (hpc : w.pc.holds = true) {p : Pc (Task τ)} (hp : p.holds = false) :
    Locked { s.goto i w p with m_mutex := none } := by
  have hi : s.holding (.worker i) = true := by simp [State.holding, hw, hpc]
  have hu := Owned.unlock h hi hp
  rw [← State.holding_goto hw] at hu
  exact hu

lemma Locked.unlockClient (h : Locked s) {u : τ} (hpc : (s.client u).holds = true)
    {p : ClientPc} (hp : p.holds = false) : Locked { s.goes u p with m_mutex := none } := by
  have hi : s.holding (.client u) = true := hpc
  have hu := Owned.unlock h hi hp
  rw [← State.holding_goes] at hu
  exact hu

omit [DecidableEq τ] in
lemma Locked.emplaceThread (h : Locked s) : Locked s.emplaceThread := by
  unfold Locked
  rw [State.holding_emplaceThread]
  exact h

lemma Locked.submit (h : Locked s) {u : τ} (hs : s.submit u = some t) : Locked t := by
  revert hs
  fun_cases State.submit s u <;> intro hs <;> cases hs
  next hc => exact h.goes (by rw [hc]; rfl)

lemma Locked.stepClient (h : Locked s) {u : τ} (hs : s.stepClient pool u = some t) :
    Locked t := by
  revert hs
  fun_cases State.stepClient pool s u <;> intro hs <;> cases hs
  · next hc hm => exact h.lockClient hm rfl
  · next hc _ => exact h.goes (p := .loadIdle) (by rw [hc]; rfl)
  · next hc => exact h.unlockClient (p := .outside) (by rw [hc]; rfl) rfl
  · next hc _ _ => exact h.unlockClient (by rw [hc]; rfl) rfl
  · next hc _ => exact h.goes (by rw [hc]; rfl)
  · next hc _ => exact h.goes (by rw [hc]; rfl)
  · next hc _ => exact h.goes (by rw [hc]; rfl)
  · next hc _ => exact h.goes (by rw [hc]; rfl)
  · next hc => exact (h.goes (by rw [hc]; rfl)).emplaceThread
  · next hc => exact h.goes (p := .addIdle) (by rw [hc]; rfl)
  · next hc => exact h.goes (p := .unlock) (by rw [hc]; rfl)
  · next hc => exact h.unlockClient (p := .outside) (by rw [hc]; rfl) rfl

lemma Locked.wakeClient (h : Locked s) {u : τ} {b : Bool} (hs : s.wakeClient u b = some t) :
    Locked t := by
  revert hs
  fun_cases State.wakeClient s u b <;> intro hs <;> cases hs
  next hm hc => exact h.lockClient hm rfl

lemma Locked.stepWorker (h : Locked s) (hw : s.workers[i]? = some w) {dur : ℕ}
    (hs : s.stepWorker pool i w dur = some t) : Locked t := by
  revert hs
  fun_cases State.stepWorker pool s i w dur <;> intro hs <;> cases hs
  · next hc => exact h.goto hw (by rw [hc]; split_ifs <;> rfl)
  · next hc hm => exact h.lockWorker hm hw rfl
  · next hc _ => exact h.unlockWorker hw (by rw [hc]; rfl) (by split_ifs <;> rfl)
  · next hc _ _ _ => exact h.unlockWorker hw (p := .execute _) (by rw [hc]; rfl) rfl
  · next hc _ => exact h.unlockWorker hw (by rw [hc]; rfl) (by split_ifs <;> rfl)
  · next hc _ => exact h.unlockWorker hw (by rw [hc]; rfl) rfl
  · next hc => exact h.goto hw (p := .addIdle) (by rw [hc]; rfl)
  · next hc => exact h.goto hw (p := .loadRunning) (by rw [hc]; rfl)
  · next hc => exact h.goto hw (p := .subIdle) (by rw [hc]; rfl)
  · next hc => exact h.goto hw (p := .erase) (by rw [hc]; rfl)
  · next hc hm => exact h.goto hw (p := .gone) (by rw [hc]; rfl)

lemma Locked.wakeWorker (h : Locked s) (hw : s.workers[i]? = some w) {b : Bool}
    (hs : s.wakeWorker i w b = some t) : Locked t := by
  revert hs
  fun_cases State.wakeWorker s i w b <;> intro hs <;> cases hs
  · next hm hc => exact h.lockWorker hm hw rfl
  · next hm hc => exact h.goto hw (by rw [hc]; rfl)

omit [DecidableEq τ] in
lemma Locked.stop (h : Locked s) (hs : s.stop = some t) : Locked t := by
  revert hs
  fun_cases State.stop s <;> intro hs <;> cases hs <;> exact h

lemma Locked.step (h : Locked s) {a : Action τ} (hs : s.step pool a = some t) : Locked t := by
  unfold State.step at hs
  split_ifs at hs
  cases a with
  | submit u => exact h.submit hs
  | client u => exact h.stepClient hs
  | wakeClient u b => exact h.wakeClient hs
  | work i dur =>
    obtain ⟨w, hw, hs⟩ := Option.bind_eq_some_iff.mp hs
    exact h.stepWorker hw hs
  | wake i b =>
    obtain ⟨w, hw, hs⟩ := Option.bind_eq_some_iff.mp hs
    exact h.wakeWorker hw hs
  | stop => exact h.stop hs

/-! ### Where a task is -/

omit [DecidableEq τ] in
lemma countP_goto (hw : s.workers[i]? = some w) (f : Worker τ → Bool) (p : Pc (Task τ)) :
    (s.goto i w p).workers.countP f + (f w).toNat =
      s.workers.countP f + (f ⟨w.threadId, p⟩).toNat := by
  obtain ⟨hi, rfl⟩ := List.getElem?_eq_some_iff.mp hw
  have hle : (if f s.workers[i] then 1 else 0) ≤ s.workers.countP f := by
    split_ifs with hf
    · exact List.countP_pos_iff.mpr ⟨_, List.getElem_mem hi, hf⟩
    · exact Nat.zero_le _
  have hnat : ∀ b : Bool, b.toNat = if b = true then 1 else 0 := by
    intro b
    cases b <;> rfl
  rw [hnat, hnat, State.goto, List.countP_set hi]
  omega

/-- The number of workers with the task in hand. -/
def State.held (s : State τ) (k : Task τ) : ℕ :=
  s.workers.countP fun w => w.pc.task = some k

/-- The task that has been pushed by a call that has not returned. -/
def State.pending (s : State τ) : List (Task τ) :=
  match s.m_mutex with
  | some (.client u) => if (s.client u).pushed then [s.current u] else []
  | _ => []

/-- A worker lays one task down and takes another. -/
lemma State.held_goto_add (hw : s.workers[i]? = some w) (p : Pc (Task τ)) (k : Task τ) :
    (s.goto i w p).held k + w.pc.task.toList.count k = s.held k + p.task.toList.count k := by
  have hcount : ∀ o : Option (Task τ), (decide (o = some k)).toNat = o.toList.count k := by
    intro o
    cases o with
    | none => rfl
    | some task => by_cases hk : task = k <;> simp [hk]
  rw [← hcount, ← hcount]
  exact countP_goto hw (fun w => w.pc.task = some k) p

lemma State.held_goto (hw : s.workers[i]? = some w) {p : Pc (Task τ)} (hp : p.task = w.pc.task)
    (k : Task τ) : (s.goto i w p).held k = s.held k := by
  have h := State.held_goto_add hw p k
  rw [hp] at h
  exact Nat.add_right_cancel h

lemma State.held_emplaceThread (s : State τ) (k : Task τ) : s.emplaceThread.held k = s.held k := by
  simp [held, emplaceThread, Pc.task]

lemma State.pending_goes {u : τ} {p : ClientPc} (hp : p.pushed = (s.client u).pushed) :
    (s.goes u p).pending = s.pending := by
  have hpushed : ∀ v, ((s.goes u p).client v).pushed = (s.client v).pushed := by
    intro v
    simp only [goes, Function.update_apply]
    split_ifs with hv
    · rw [hp, hv]
    · rfl
  simp only [pending, hpushed]
  rfl

omit [DecidableEq τ] in
lemma State.pending_of_none (hm : s.m_mutex = none) : s.pending = [] := by
  rw [pending, hm]

omit [DecidableEq τ] in
lemma State.pending_worker (hm : s.m_mutex = some (.worker i)) : s.pending = [] := by
  rw [pending, hm]

omit [DecidableEq τ] in
lemma State.pending_client {u : τ} (hm : s.m_mutex = some (.client u)) :
    s.pending = if (s.client u).pushed then [s.current u] else [] := by
  rw [pending, hm]

/-- Every task that was pushed is in one place, and each call has had one outcome. -/
structure Ledger (s : State τ) : Prop where
  balance : ∀ k, s.m_queueTask.count k + s.held k + s.executed.count k =
    s.accepted.count k + s.pending.count k
  past : ∀ k ∈ s.accepted ++ s.rejected, k.2 < s.calls k.1
  once : (s.accepted ++ s.rejected).Nodup

/-- Steps that move no task. -/
lemma Ledger.quiet (h : Ledger s) (hqueue : t.m_queueTask = s.m_queueTask)
    (hheld : ∀ k, t.held k = s.held k) (hexec : t.executed = s.executed)
    (hacc : t.accepted = s.accepted) (hrej : t.rejected = s.rejected) (hcalls : t.calls = s.calls)
    (hpend : t.pending = s.pending) : Ledger t := by
  refine ⟨fun k => ?_, ?_, ?_⟩
  · rw [hqueue, hheld, hexec, hacc, hpend]
    exact h.balance k
  · rw [hacc, hrej, hcalls]
    exact h.past
  · rw [hacc, hrej]
    exact h.once

lemma Ledger.goes (h : Ledger s) {u : τ} {p : ClientPc} (hp : p.pushed = (s.client u).pushed) :
    Ledger (s.goes u p) :=
  h.quiet rfl (fun _ => rfl) rfl rfl rfl rfl (State.pending_goes hp)

lemma Ledger.goto (h : Ledger s) (hw : s.workers[i]? = some w) {p : Pc (Task τ)}
    (hp : p.task = w.pc.task) : Ledger (s.goto i w p) :=
  h.quiet rfl (State.held_goto hw hp) rfl rfl rfl rfl rfl

lemma Ledger.emplaceThread (h : Ledger s) : Ledger s.emplaceThread :=
  h.quiet rfl (State.held_emplaceThread s) rfl rfl rfl rfl rfl

/-- The mutex changes hands while no task is pending. -/
lemma Ledger.relock (h : Ledger s) {m : Option (Holder τ)} (hp : s.pending = [])
    (hm : { s with m_mutex := m }.pending = []) : Ledger { s with m_mutex := m } :=
  h.quiet rfl (fun _ => rfl) rfl rfl rfl rfl (hm.trans hp.symm)

/-- The counters, the map and the flag are about no task. -/
lemma Ledger.retune (h : Ledger s) (cur idle : UInt16) (ids : List UInt32)
    (b : Bool) (pc : StopPc) :
    Ledger { s with
      m_usCurThreadSize := cur
      m_usIdleThreadSize := idle
      m_mapThreads := ids
      m_isPoolRunning := b
      stopping := pc } :=
  ⟨h.balance, h.past, h.once⟩

/-- A call puts its task into the queue. -/
lemma Ledger.push (h : Ledger s) (hl : Locked s) {u : τ} {b : Bool} (hc : s.client u = .test b) :
    Ledger { s.goes u .loadIdle with m_queueTask := s.m_queueTask ++ [s.current u] } := by
  have hm : s.m_mutex = some (.client u) := hl.client (by rw [hc]; rfl)
  refine ⟨fun k => ?_, h.past, h.once⟩
  have hk := h.balance k
  rw [State.pending_client hm, hc] at hk
  change (s.m_queueTask ++ [s.current u]).count k + s.held k + s.executed.count k =
    s.accepted.count k + (s.goes u .loadIdle).pending.count k
  rw [State.pending_client (s := s.goes u .loadIdle) hm, List.count_append]
  simp only [State.goes, Function.update_self]
  change _ = s.accepted.count k + [s.current u].count k
  change _ = s.accepted.count k + 0 at hk
  omega

/-- The task of the call that a thread is in is none of the earlier ones. -/
lemma Ledger.current_fresh (h : Ledger s) (u : τ) :
    s.current u ∉ s.accepted ++ s.rejected :=
  fun hk => Nat.lt_irrefl _ (h.past _ hk)

/-- A call returns: its task is one of the earlier ones. -/
lemma Ledger.past_call (h : Ledger s) (u : τ) {k : Task τ}
    (hk : k = s.current u ∨ k ∈ s.accepted ++ s.rejected) :
    k.2 < Function.update s.calls u (s.calls u + 1) k.1 := by
  rw [Function.update_apply]
  rcases hk with rfl | hk
  · simp [State.current]
  · have hlt := h.past k hk
    split_ifs with hu
    · rw [hu] at hlt
      exact Nat.lt_succ_of_lt hlt
    · exact hlt

/-- The future of a pushed task is returned. -/
lemma Ledger.accept (h : Ledger s) (hl : Locked s) {u : τ} (hc : s.client u = .unlock) :
    Ledger { s.goes u .outside with
      m_mutex := none
      accepted := s.accepted ++ [s.current u]
      calls := Function.update s.calls u (s.calls u + 1) } := by
  have hm : s.m_mutex = some (.client u) := hl.client (by rw [hc]; rfl)
  have hperm : (s.accepted ++ [s.current u] ++ s.rejected).Perm
      (s.current u :: (s.accepted ++ s.rejected)) := by
    rw [List.append_assoc]
    exact List.perm_middle
  refine ⟨fun k => ?_, fun k hk => ?_, ?_⟩
  · have hk := h.balance k
    rw [State.pending_client hm, hc] at hk
    rw [State.pending_of_none rfl, List.count_nil, List.count_append]
    exact hk
  · exact h.past_call u (List.mem_cons.mp (hperm.mem_iff.mp hk))
  · exact hperm.nodup_iff.mpr (List.nodup_cons.mpr ⟨h.current_fresh u, h.once⟩)

/-- A call ends with an exception. -/
lemma Ledger.reject (h : Ledger s) (hl : Locked s) {u : τ} {b : Bool} (hc : s.client u = .test b) :
    Ledger { s.goes u .outside with
      m_mutex := none
      rejected := s.rejected ++ [s.current u]
      calls := Function.update s.calls u (s.calls u + 1) } := by
  have hm : s.m_mutex = some (.client u) := hl.client (by rw [hc]; rfl)
  have hperm : (s.accepted ++ (s.rejected ++ [s.current u])).Perm
      (s.current u :: (s.accepted ++ s.rejected)) := by
    rw [← List.append_assoc]
    exact List.perm_append_singleton _ _
  refine ⟨fun k => ?_, fun k hk => ?_, ?_⟩
  · have hk := h.balance k
    rw [State.pending_client hm, hc] at hk
    rw [State.pending_of_none rfl]
    exact hk
  · exact h.past_call u (List.mem_cons.mp (hperm.mem_iff.mp hk))
  · exact hperm.nodup_iff.mpr (List.nodup_cons.mpr ⟨h.current_fresh u, h.once⟩)

/-- A worker takes the task at the front of the queue. -/
lemma Ledger.pop (h : Ledger s) (hl : Locked s) (hw : s.workers[i]? = some w) (hc : w.pc = .size)
    {task : Task τ} {rest : List (Task τ)} (hq : s.m_queueTask = task :: rest) :
    Ledger { s.goto i w (.execute task) with
      m_mutex := none
      m_usIdleThreadSize := s.m_usIdleThreadSize - 1
      m_queueTask := rest } := by
  have hm : s.m_mutex = some (.worker i) := hl.worker hw (by rw [hc]; rfl)
  refine ⟨fun k => ?_, h.past, h.once⟩
  have hk := h.balance k
  have hheld := State.held_goto_add hw (.execute task) k
  rw [hc] at hheld
  rw [State.pending_worker hm, hq, ← List.singleton_append, List.count_append] at hk
  rw [State.pending_of_none rfl]
  change rest.count k + (s.goto i w (.execute task)).held k + s.executed.count k =
    s.accepted.count k + 0
  change _ + 0 = s.held k + [task].count k at hheld
  change _ = s.accepted.count k + 0 at hk
  omega

/-- A worker has run its task. -/
lemma Ledger.execute (h : Ledger s) (hw : s.workers[i]? = some w) {task : Task τ}
    (hc : w.pc = .execute task) :
    Ledger { s.goto i w .addIdle with executed := s.executed ++ [task] } := by
  refine ⟨fun k => ?_, h.past, h.once⟩
  have hk := h.balance k
  have hheld := State.held_goto_add hw .addIdle k
  rw [hc] at hheld
  rw [List.count_append]
  change s.m_queueTask.count k + (s.goto i w .addIdle).held k +
    (s.executed.count k + [task].count k) = s.accepted.count k + s.pending.count k
  change _ + [task].count k = s.held k + 0 at hheld
  omega

/-- A call takes the free mutex to test the queue. -/
lemma Ledger.lockClient (h : Ledger s) (hm : s.m_mutex = none) {u : τ}
    (hc : (s.client u).pushed = false) (b : Bool) :
    Ledger { s.goes u (.test b) with m_mutex := some (.client u) } := by
  have hp : (s.goes u (.test b)).pending = [] := State.pending_of_none hm
  refine (h.goes (p := .test b) hc.symm).relock hp ?_
  rw [State.pending_client rfl]
  simp [State.goes, ClientPc.pushed]

lemma Ledger.lockWorker (h : Ledger s) (hm : s.m_mutex = none) (hw : s.workers[i]? = some w)
    {p : Pc (Task τ)} (hp : p.task = w.pc.task) :
    Ledger { s.goto i w p with m_mutex := some (.worker i) } :=
  (h.goto hw hp).relock (State.pending_of_none hm) rfl

lemma Ledger.unlockWorker (h : Ledger s) (hl : Locked s) (hw : s.workers[i]? = some w)
    (hc : w.pc.holds = true) {p : Pc (Task τ)} (hp : p.task = w.pc.task) :
    Ledger { s.goto i w p with m_mutex := none } := by
  have hm : (s.goto i w p).m_mutex = some (.worker i) := hl.worker hw hc
  exact (h.goto hw hp).relock (State.pending_worker hm) rfl

lemma Ledger.submit (h : Ledger s) {u : τ} (hs : s.submit u = some t) : Ledger t := by
  revert hs
  fun_cases State.submit s u <;> intro hs <;> cases hs
  next hc => exact h.goes (by rw [hc]; rfl)

lemma Ledger.stepClient (h : Ledger s) (hl : Locked s) {u : τ}
    (hs : s.stepClient pool u = some t) : Ledger t := by
  revert hs
  fun_cases State.stepClient pool s u <;> intro hs <;> cases hs
  · next hc hm => exact h.lockClient hm (by rw [hc]; rfl) false
  · next hc _ => exact h.push hl hc
  · next hc => exact h.reject hl hc
  · next hc _ _ =>
    have hm : s.m_mutex = some (.client u) := hl.client (by rw [hc]; rfl)
    have hp : (s.goes u .wait).pending = [] := by
      rw [State.pending_goes (by rw [hc]; rfl), State.pending_client hm, hc]
      rfl
    exact (h.goes (by rw [hc]; rfl)).relock hp rfl
  · next hc _ => exact h.goes (by rw [hc]; rfl)
  · next hc _ => exact h.goes (by rw [hc]; rfl)
  · next hc _ => exact h.goes (by rw [hc]; rfl)
  · next hc _ => exact h.goes (by rw [hc]; rfl)
  · next hc => exact (h.goes (by rw [hc]; rfl)).emplaceThread
  · next hc => exact (h.goes (p := .addIdle) (by rw [hc]; rfl)).retune _ _ _ _ _
  · next hc => exact (h.goes (p := .unlock) (by rw [hc]; rfl)).retune _ _ _ _ _
  · next hc => exact h.accept hl hc

lemma Ledger.wakeClient (h : Ledger s) {u : τ} {b : Bool} (hs : s.wakeClient u b = some t) :
    Ledger t := by
  revert hs
  fun_cases State.wakeClient s u b <;> intro hs <;> cases hs
  next hm hc => exact h.lockClient hm (by rw [hc]; rfl) b

lemma Ledger.stepWorker (h : Ledger s) (hl : Locked s) (hw : s.workers[i]? = some w) {dur : ℕ}
    (hs : s.stepWorker pool i w dur = some t) : Ledger t := by
  revert hs
  fun_cases State.stepWorker pool s i w dur <;> intro hs <;> cases hs
  · next hc => exact h.goto hw (by rw [hc]; split_ifs <;> rfl)
  · next hc hm => exact h.lockWorker hm hw (by rw [hc]; rfl)
  · next hc _ => exact h.unlockWorker hl hw (by rw [hc]; rfl) (by rw [hc]; split_ifs <;> rfl)
  · next hc _ _ hq => exact h.pop hl hw hc hq
  · next hc _ => exact h.unlockWorker hl hw (by rw [hc]; rfl) (by rw [hc]; split_ifs <;> rfl)
  · next hc _ => exact h.unlockWorker hl hw (by rw [hc]; rfl) (by rw [hc]; rfl)
  · next hc => exact h.execute hw hc
  · next hc => exact (h.goto hw (p := .loadRunning) (by rw [hc]; rfl)).retune _ _ _ _ _
  · next hc => exact (h.goto hw (p := .subIdle) (by rw [hc]; rfl)).retune _ _ _ _ _
  · next hc => exact (h.goto hw (p := .erase) (by rw [hc]; rfl)).retune _ _ _ _ _
  · next hc hm => exact (h.goto hw (p := .gone) (by rw [hc]; rfl)).retune _ _ _ _ _

lemma Ledger.wakeWorker (h : Ledger s) (hw : s.workers[i]? = some w) {b : Bool}
    (hs : s.wakeWorker i w b = some t) : Ledger t := by
  revert hs
  fun_cases State.wakeWorker s i w b <;> intro hs <;> cases hs
  · next hm hc => exact h.lockWorker hm hw (by rw [hc]; rfl)
  · next hm hc => exact h.goto hw (by rw [hc]; rfl)

lemma Ledger.stop (h : Ledger s) (hs : s.stop = some t) : Ledger t := by
  revert hs
  fun_cases State.stop s <;> intro hs <;> cases hs
  · exact h.retune _ _ _ _ _
  · exact h.retune _ _ _ _ _
  · exact h

lemma Ledger.step (h : Ledger s) (hl : Locked s) {a : Action τ} (hs : s.step pool a = some t) :
    Ledger t := by
  unfold State.step at hs
  split_ifs at hs
  cases a with
  | submit u => exact h.submit hs
  | client u => exact h.stepClient hl hs
  | wakeClient u b => exact h.wakeClient hs
  | work i dur =>
    obtain ⟨w, hw, hs⟩ := Option.bind_eq_some_iff.mp hs
    exact h.stepWorker hl hw hs
  | wake i b =>
    obtain ⟨w, hw, hs⟩ := Option.bind_eq_some_iff.mp hs
    exact h.wakeWorker hw hs
  | stop => exact h.stop hs

/-! ### What a step can do -/

/-- The workers, the tasks and the ids are as before. -/
structure Still (s t : State τ) : Prop where
  workers : t.workers = s.workers
  queue : t.m_queueTask = s.m_queueTask
  executed : t.executed = s.executed
  calls : t.calls = s.calls
  map : t.m_mapThreads = s.m_mapThreads
  id : t.m_generateId = s.m_generateId

/-- A step of a call behind its entry, a step of a worker, or one that only has to do with the
mutex and the destructor. -/
lemma State.step_cases {a : Action τ} (hs : s.step pool a = some t) :
    (∃ u, a = .client u ∧ s.stepClient pool u = some t) ∨
    (∃ i dur w, a = .work i dur ∧ s.workers[i]? = some w ∧ s.stepWorker pool i w dur = some t) ∨
    (∃ i b w, a = .wake i b ∧ s.workers[i]? = some w ∧ s.wakeWorker i w b = some t) ∨
    Still s t := by
  unfold State.step at hs
  split_ifs at hs
  cases a with
  | submit u =>
    right; right; right
    change s.submit u = some t at hs
    revert hs
    fun_cases State.submit s u <;> intro hs <;> cases hs
    exact ⟨rfl, rfl, rfl, rfl, rfl, rfl⟩
  | client u => exact .inl ⟨u, rfl, hs⟩
  | wakeClient u b =>
    right; right; right
    change s.wakeClient u b = some t at hs
    revert hs
    fun_cases State.wakeClient s u b <;> intro hs <;> cases hs
    exact ⟨rfl, rfl, rfl, rfl, rfl, rfl⟩
  | work i dur =>
    obtain ⟨w, hw, hs⟩ := Option.bind_eq_some_iff.mp hs
    exact .inr (.inl ⟨i, dur, w, rfl, hw, hs⟩)
  | wake i b =>
    obtain ⟨w, hw, hs⟩ := Option.bind_eq_some_iff.mp hs
    exact .inr (.inr (.inl ⟨i, b, w, rfl, hw, hs⟩))
  | stop =>
    right; right; right
    change s.stop = some t at hs
    revert hs
    fun_cases State.stop s <;> intro hs <;> cases hs <;> exact ⟨rfl, rfl, rfl, rfl, rfl, rfl⟩

/-! ### The map of the threads -/

/-- Worker `i` has the `i`-th id behind the first one, and is in the map until it erases itself,
as long as the ids have not come round. -/
structure Registered (g : UInt32) (s : State τ) : Prop where
  ids : ∀ i w, s.workers[i]? = some w → w.threadId = g + UInt32.ofNat (i + 1)
  last : s.m_generateId = g + UInt32.ofNat s.workers.length
  listed : s.workers.length ≤ 2 ^ 32 → ∀ w ∈ s.workers, w.pc ≠ .gone →
    w.threadId ∈ s.m_mapThreads

variable {g : UInt32}

omit [DecidableEq τ] in
/-- The ids of two workers differ. -/
lemma Registered.distinct (h : Registered g s) (hlen : s.workers.length ≤ 2 ^ 32) {j : ℕ}
    {v : Worker τ} (hw : s.workers[i]? = some w) (hv : s.workers[j]? = some v) (hij : i ≠ j) :
    v.threadId ≠ w.threadId := by
  obtain ⟨hi, -⟩ := List.getElem?_eq_some_iff.mp hw
  obtain ⟨hj, -⟩ := List.getElem?_eq_some_iff.mp hv
  intro he
  rw [h.ids i w hw, h.ids j v hv, UInt32.add_right_inj] at he
  have hn := congrArg UInt32.toNat he
  simp only [UInt32.toNat_ofNat'] at hn
  omega

omit [DecidableEq τ] in
lemma State.getElem?_goto {j : ℕ} {v : Worker τ} {p : Pc (Task τ)}
    (hv : (s.goto i w p).workers[j]? = some v) :
    s.workers[j]? = some v ∧ i ≠ j ∨ v = ⟨w.threadId, p⟩ ∧ i = j := by
  simp only [goto, List.getElem?_set] at hv
  split_ifs at hv with hij hlt
  · exact .inr ⟨(Option.some.inj hv).symm, hij⟩
  · exact .inl ⟨hv, hij⟩

omit [DecidableEq τ] in
lemma Registered.goto (h : Registered g s) (hw : s.workers[i]? = some w) (hc : w.pc ≠ .gone)
    (p : Pc (Task τ)) : Registered g (s.goto i w p) := by
  refine ⟨fun j v hv => ?_, ?_, fun hlen v hv hp => ?_⟩
  · rcases State.getElem?_goto hv with ⟨hv, -⟩ | ⟨rfl, rfl⟩
    · exact h.ids j v hv
    · exact h.ids i w hw
  · exact h.last.trans (by simp [State.goto])
  · have hlen : s.workers.length ≤ 2 ^ 32 := by simpa [State.goto] using hlen
    obtain ⟨j, hj⟩ := List.mem_iff_getElem?.mp hv
    rcases State.getElem?_goto hj with ⟨hv, -⟩ | ⟨rfl, -⟩
    · exact h.listed hlen v (List.mem_of_getElem? hv) hp
    · exact h.listed hlen w (List.mem_of_getElem? hw) hc

omit [DecidableEq τ] in
/-- A worker erases its own entry. -/
lemma Registered.erase (h : Registered g s) (hw : s.workers[i]? = some w) (hc : w.pc = .erase) :
    Registered g { s.goto i w .gone with
      m_mapThreads := s.m_mapThreads.filter (· ≠ w.threadId) } := by
  have hg := h.goto hw (by rw [hc]; simp) .gone
  refine ⟨hg.ids, hg.last, fun hlen v hv hp => ?_⟩
  have hlen' : s.workers.length ≤ 2 ^ 32 := by simpa [State.goto] using hlen
  obtain ⟨j, hj⟩ := List.mem_iff_getElem?.mp hv
  rcases State.getElem?_goto hj with ⟨hv', hij⟩ | ⟨rfl, -⟩
  · have hne := h.distinct hlen' hw hv' hij
    exact List.mem_filter.mpr ⟨h.listed hlen' v (List.mem_of_getElem? hv') hp, by simpa using hne⟩
  · exact absurd rfl hp

omit [DecidableEq τ] in
lemma Registered.emplaceThread (h : Registered g s) : Registered g s.emplaceThread := by
  have hnext : s.m_generateId + 1 = g + UInt32.ofNat (s.workers.length + 1) := by
    rw [h.last, UInt32.ofNat_add, UInt32.add_assoc]
    rfl
  refine ⟨fun j v hv => ?_, ?_, fun hlen v hv hp => ?_⟩
  · simp only [State.emplaceThread, List.getElem?_append] at hv
    split_ifs at hv with hj
    · exact h.ids j v hv
    · obtain ⟨hj', rfl⟩ := List.getElem?_eq_some_iff.mp hv
      have hj'' : j = s.workers.length := by
        simp only [List.length_singleton] at hj'
        omega
      rw [List.getElem_singleton, hj'']
      exact hnext
  · simp only [State.emplaceThread, List.length_append]
    exact hnext
  · simp only [State.emplaceThread, List.length_append, List.length_singleton] at hlen
    rcases List.mem_append.mp hv with hv | hv
    · exact List.mem_insert_of_mem (h.listed (by omega) v hv hp)
    · rw [List.mem_singleton.mp hv]
      exact List.mem_insert_self

omit [DecidableEq τ] in
/-- Steps that neither create a thread nor let one go. -/
lemma Registered.quiet (h : Registered g s) (hw : t.workers = s.workers)
    (hg : t.m_generateId = s.m_generateId) (hm : t.m_mapThreads = s.m_mapThreads) :
    Registered g t := by
  refine ⟨?_, ?_, ?_⟩
  · rw [hw]; exact h.ids
  · rw [hw, hg]; exact h.last
  · rw [hw, hm]; exact h.listed

lemma Registered.stepClient (h : Registered g s) {u : τ} (hs : s.stepClient pool u = some t) :
    Registered g t := by
  revert hs
  fun_cases State.stepClient pool s u <;> intro hs <;> cases hs
  case case10 hc => exact (h.quiet (t := s.goes u .addCur) rfl rfl rfl).emplaceThread
  all_goals exact h.quiet rfl rfl rfl

omit [DecidableEq τ] in
lemma Registered.stepWorker (h : Registered g s) (hw : s.workers[i]? = some w) {dur : ℕ}
    (hs : s.stepWorker pool i w dur = some t) : Registered g t := by
  revert hs
  fun_cases State.stepWorker pool s i w dur <;> intro hs <;> cases hs
  case case12 hc hm => exact h.erase hw hc
  all_goals exact (h.goto hw (by simp [*]) _).quiet rfl rfl rfl

omit [DecidableEq τ] in
lemma Registered.wakeWorker (h : Registered g s) (hw : s.workers[i]? = some w) {b : Bool}
    (hs : s.wakeWorker i w b = some t) : Registered g t := by
  revert hs
  fun_cases State.wakeWorker s i w b <;> intro hs <;> cases hs
  all_goals exact (h.goto hw (by simp [*]) _).quiet rfl rfl rfl

lemma Registered.step (h : Registered g s) {a : Action τ} (hs : s.step pool a = some t) :
    Registered g t := by
  obtain ⟨u, -, hs⟩ | ⟨i, dur, w, -, hw, hs⟩ | ⟨i, b, w, -, hw, hs⟩ | hstill :=
    State.step_cases hs
  · exact h.stepClient hs
  · exact h.stepWorker hw hs
  · exact h.wakeWorker hw hs
  · exact h.quiet hstill.workers hstill.id hstill.map

/-! ### What `stop` leaves -/

/-- `stop` has returned because nobody was in the map. -/
def Emptied (s : State τ) : Prop :=
  s.stopping = .returned → s.m_mutex = none ∧ s.m_mapThreads = []

/-- Nobody but the destructor is stopping the pool. -/
lemma stopping_step {a : Action τ} (ha : a ≠ .stop) (hs : s.step pool a = some t) :
    t.stopping = s.stopping ∧ t.m_isPoolRunning = s.m_isPoolRunning := by
  unfold State.step at hs
  split_ifs at hs
  cases a with
  | submit u =>
    change s.submit u = some t at hs
    revert hs
    fun_cases State.submit s u <;> intro hs <;> cases hs
    exact ⟨rfl, rfl⟩
  | client u =>
    change s.stepClient pool u = some t at hs
    revert hs
    fun_cases State.stepClient pool s u <;> intro hs <;> cases hs <;> exact ⟨rfl, rfl⟩
  | wakeClient u b =>
    change s.wakeClient u b = some t at hs
    revert hs
    fun_cases State.wakeClient s u b <;> intro hs <;> cases hs
    exact ⟨rfl, rfl⟩
  | work i dur =>
    obtain ⟨w, -, hs⟩ := Option.bind_eq_some_iff.mp hs
    revert hs
    fun_cases State.stepWorker pool s i w dur <;> intro hs <;> cases hs <;> exact ⟨rfl, rfl⟩
  | wake i b =>
    obtain ⟨w, -, hs⟩ := Option.bind_eq_some_iff.mp hs
    revert hs
    fun_cases State.wakeWorker s i w b <;> intro hs <;> cases hs <;> exact ⟨rfl, rfl⟩
  | stop => exact absurd rfl ha

lemma not_returned {a : Action τ} (hs : s.step pool a = some t) : s.stopping ≠ .returned := by
  unfold State.step at hs
  split_ifs at hs with hr
  exact hr

lemma stop_of_step (hs : s.step pool .stop = some t) : s.stop = some t := by
  unfold State.step at hs
  split_ifs at hs
  exact hs

lemma emptied_step {a : Action τ} (hs : s.step pool a = some t) : Emptied t := by
  intro hret
  by_cases ha : a = .stop
  · have hstop := stop_of_step (ha ▸ hs)
    revert hstop
    fun_cases State.stop s <;> intro hstop <;> cases hstop
    · cases hret
    · next hm _ hlen => exact ⟨hm, List.length_eq_zero_iff.mp hlen⟩
    · exact absurd hret (not_returned hs)
  · exact absurd ((stopping_step ha hs).1.symm.trans hret) (not_returned hs)

structure Inv (g : UInt32) (s : State τ) : Prop where
  locked : Locked s
  ledger : Ledger s
  registered : Registered g s
  emptied : Emptied s

lemma inv_start (pool : Config) (g : UInt32) : Inv g (State.start τ pool g) := by
  suffices h : Inv g (State.start τ pool g) ∧ (State.start τ pool g).stopping = .running from h.1
  refine Function.Iterate.rec (fun s => Inv g s ∧ s.stopping = .running) ?_ (fun s h => ?_) _
  · refine ⟨⟨?_, ⟨fun k => rfl, ?_, ?_⟩, ⟨?_, ?_, ?_⟩, ?_⟩, rfl⟩
    · rintro (j | u) <;> simp [State.holding, ClientPc.holds]
    all_goals simp [Emptied]
  · obtain ⟨h, hrun⟩ := h
    refine ⟨⟨h.locked.emplaceThread, h.ledger.emplaceThread.retune _ _ _ _ _,
      h.registered.emplaceThread.quiet rfl rfl rfl, fun hret => ?_⟩, hrun⟩
    cases hrun.symm.trans hret

lemma Inv.step (h : Inv g s) {a : Action τ} (hs : s.step pool a = some t) : Inv g t :=
  ⟨h.locked.step hs, h.ledger.step h.locked hs, h.registered.step hs, emptied_step hs⟩

lemma inv_exec {as : List (Action τ)}
    (hs : exec (State.step pool) (State.start τ pool g) as = some s) : Inv g s :=
  inv_of_always (P := fun _ _ _ => True) (I := fun _ => Inv g) (inv_start pool g)
    (fun _ _ _ _ h _ hs => h.step hs) (fun _ _ _ _ _ _ => trivial) hs

/-- Every task whose future was returned has been executed once, and no task that was refused
has been. -/
def Finished (s : State τ) : Prop :=
  (∀ k ∈ s.accepted, s.executed.count k = 1) ∧ ∀ k ∈ s.rejected, k ∉ s.executed

/-- With no call on its way, the tasks have been executed when the queue and the hands of the
workers are empty. -/
lemma Ledger.finished_iff (h : Ledger s) (hp : s.pending = []) :
    Finished s ↔ s.m_queueTask = [] ∧ ∀ w ∈ s.workers, w.pc.task = none := by
  have hbal : ∀ k, s.m_queueTask.count k + s.held k + s.executed.count k = s.accepted.count k := by
    intro k
    rw [h.balance k, hp, List.count_nil, Nat.add_zero]
  obtain ⟨hacc, -, hdisj⟩ := List.nodup_append.mp h.once
  have hle : ∀ k, s.accepted.count k ≤ 1 := List.nodup_iff_count_le_one.mp hacc
  constructor
  · rintro ⟨hdone, -⟩
    have hnone : ∀ k, s.m_queueTask.count k + s.held k = 0 := by
      intro k
      by_cases hk : k ∈ s.accepted
      · have h1 := hdone k hk
        have h2 := hbal k
        have h3 := hle k
        omega
      · have h1 := hbal k
        rw [List.count_eq_zero_of_not_mem hk] at h1
        omega
    refine ⟨List.eq_nil_iff_forall_not_mem.mpr fun k hk => ?_, fun w hw => ?_⟩
    · have h1 := List.count_pos_iff.mpr hk
      have h2 := hnone k
      omega
    · by_contra hne
      obtain ⟨k, hk⟩ := Option.ne_none_iff_exists'.mp hne
      have h1 : 0 < s.held k := List.countP_pos_iff.mpr ⟨w, hw, by simpa using hk⟩
      have h2 := hnone k
      omega
  · rintro ⟨hq, hw⟩
    have hexec : ∀ k, s.executed.count k = s.accepted.count k := by
      intro k
      have hheld : s.held k = 0 := List.countP_eq_zero.mpr fun w hmem => by simp [hw w hmem]
      have h1 := hbal k
      rw [hq, hheld, List.count_nil] at h1
      omega
    refine ⟨fun k hk => ?_, fun k hk hk' => ?_⟩
    · rw [hexec k]
      exact List.count_eq_one_of_mem hacc hk
    · have h1 : 0 < s.accepted.count k := hexec k ▸ List.count_pos_iff.mpr hk'
      exact hdisj k (List.count_pos_iff.mp h1) k hk rfl

/-- **What `stop` leaves behind.** When it returns, the accepted tasks have been executed, each
once, and the refused ones have not, exactly when nothing is left in the queue and no worker
has a task in hand; the latter is sure unless the ids of the threads have come round. -/
theorem stop_returns_finished {as : List (Action τ)}
    (hs : exec (State.step pool) (State.start τ pool g) as = some s)
    (hr : s.stopping = .returned) :
    (Finished s ↔ s.m_queueTask = [] ∧ ∀ w ∈ s.workers, w.pc.task = none) ∧
      (s.workers.length ≤ 2 ^ 32 → (Finished s ↔ s.m_queueTask = [])) := by
  have h := inv_exec hs
  obtain ⟨hm, hmap⟩ := h.emptied hr
  have hiff := h.ledger.finished_iff (State.pending_of_none hm)
  refine ⟨hiff, fun hlen => hiff.trans (and_iff_left fun w hw => ?_)⟩
  by_contra htask
  have hgone : w.pc ≠ .gone := by
    intro hc
    rw [hc] at htask
    exact htask rfl
  have hmem := h.registered.listed hlen w hw hgone
  rw [hmap] at hmem
  cases hmem

/-- The only worker of a pool takes a task, runs it and finds the flag cleared. -/
def completion : List (Action Unit) :=
  [.submit (), .client (), .client (), .client (), .client (), .work 0 0, .work 0 0, .work 0 0,
    .work 0 0, .work 0 0, .stop, .work 0 0, .work 0 0, .work 0 0, .work 0 0, .stop]

/-- The only worker of a pool finds the flag cleared before it looks at the queue. -/
def abandonment : List (Action Unit) :=
  [.submit (), .client (), .client (), .client (), .client (), .stop,
    .work 0 0, .work 0 0, .work 0 0, .work 0 0, .stop]

lemma completion_ends :
    (exec (State.step (.make 8 .MODE_FIXED 1 10000 1024 60))
      (State.start Unit (.make 8 .MODE_FIXED 1 10000 1024 60) 0) completion).map
        (fun s => (s.stopping, s.m_queueTask, s.workers.length)) = some (.returned, [], 1) := by
  decide +kernel

lemma abandonment_ends :
    (exec (State.step (.make 8 .MODE_FIXED 1 10000 1024 60))
      (State.start Unit (.make 8 .MODE_FIXED 1 10000 1024 60) 0) abandonment).map
        (fun s => (s.stopping, s.accepted, s.executed)) = some (.returned, [((), 0)], []) := by
  decide +kernel

theorem stop_returns_finished_one :
    ∃ s, exec (State.step (.make 8 .MODE_FIXED 1 10000 1024 60))
      (State.start Unit (.make 8 .MODE_FIXED 1 10000 1024 60) 0) completion = some s ∧
      s.stopping = .returned ∧ Finished s := by
  obtain ⟨s, hs, he⟩ := Option.map_eq_some_iff.mp completion_ends
  simp only [Prod.mk.injEq] at he
  obtain ⟨hstop, hqueue, hlen⟩ := he
  exact ⟨s, hs, hstop, ((stop_returns_finished hs hstop).2 (by omega)).mpr hqueue⟩

theorem stop_abandons_task :
    ∃ s, exec (State.step (.make 8 .MODE_FIXED 1 10000 1024 60))
      (State.start Unit (.make 8 .MODE_FIXED 1 10000 1024 60) 0) abandonment = some s ∧
      s.stopping = .returned ∧ ¬ Finished s := by
  obtain ⟨s, hs, he⟩ := Option.map_eq_some_iff.mp abandonment_ends
  simp only [Prod.mk.injEq] at he
  obtain ⟨hstop, hacc, hexec⟩ := he
  refine ⟨s, hs, hstop, fun h => ?_⟩
  have hone := h.1 ((), 0) (by rw [hacc]; simp)
  rw [hexec] at hone
  cases hone

end MmrService.ThreadPool
