import MmrService.EventReentry

/-!
Callbacks that throw, and what `stop` leaves behind.

An exception leaves the loop over the events and ends the worker, with the front event not yet
popped, and `stop` throws it again before it has cleared anything. In runs without exceptions the
worker goes on until `stop`, and `stop` returns with the queues and the topics empty, but for
what clients post and add after it has cleared them.
-/

namespace MmrService.EventCtrl

open Transition Mutex

variable {φ δ τ : Type} [DecidableEq τ]

/-! ### What steps leave as it is -/

section Base

variable {s t : State φ δ τ}

/-- What a client that goes on does to the queues, the callbacks and the history. -/
lemma client_effect {u : τ} (hs : s.client u = some t) :
    t.m_bTheadRun = s.m_bTheadRun ∧ t.data.m_queueDealData = s.data.m_queueDealData ∧
      t.hist.delivered = s.hist.delivered ∧
      ((∃ varData, t.data.m_queueAddData =
            s.data.m_queueAddData ++ [(varData.getName, varData)] ∧
          t.hist.posted = s.hist.posted ++ [varData] ∧
          t.data.m_mapFuncs = s.data.m_mapFuncs ∧ t.hist.added = s.hist.added) ∨
        t.data.m_queueAddData = s.data.m_queueAddData ∧ t.hist.posted = s.hist.posted ∧
          ((∃ strTopcs ptrFunc, t.data.m_mapFuncs = Function.update s.data.m_mapFuncs strTopcs
              (some ((s.data.m_mapFuncs strTopcs).getD [] ++ [ptrFunc])) ∧
            t.hist.added =
              Function.update s.hist.added strTopcs (s.hist.added strTopcs ++ [ptrFunc])) ∨
          t.data.m_mapFuncs = s.data.m_mapFuncs ∧ t.hist.added = s.hist.added)) := by
  unfold State.client at hs
  split at hs <;> try cases hs
  · next varData _ => exact ⟨rfl, rfl, rfl, .inl ⟨varData, rfl, rfl, rfl, rfl⟩⟩
  · exact ⟨rfl, rfl, rfl, .inr ⟨rfl, rfl, .inr ⟨rfl, rfl⟩⟩⟩
  · exact ⟨rfl, rfl, rfl, .inr ⟨rfl, rfl, .inr ⟨rfl, rfl⟩⟩⟩
  · next strTopcs ptrFunc _ =>
    exact ⟨rfl, rfl, rfl, .inr ⟨rfl, rfl, .inl ⟨strTopcs, ptrFunc, rfl, rfl⟩⟩⟩
  · exact ⟨rfl, rfl, rfl, .inr ⟨rfl, rfl, .inr ⟨rfl, rfl⟩⟩⟩

/-- A call that gets its mutex changes nothing else. -/
structure SameContents (s t : State φ δ τ) : Prop where
  run : t.m_bTheadRun = s.m_bTheadRun
  worker : t.pc .worker = s.pc .worker
  queueAdd : t.data.m_queueAddData = s.data.m_queueAddData
  queueDeal : t.data.m_queueDealData = s.data.m_queueDealData
  mapFuncs : t.data.m_mapFuncs = s.data.m_mapFuncs
  hist : t.hist = s.hist

lemma contents_of_addFunc {u : τ} {strTopcs : Topic} {ptrFunc : φ}
    (hs : s.addFunc u strTopcs ptrFunc = some t) : SameContents s t := by
  have hpc := (pc_of_addFunc hs).2 .worker nofun
  unfold State.addFunc at hs
  split at hs <;> cases hs
  exact ⟨rfl, hpc, rfl, rfl, rfl, rfl⟩

lemma contents_of_addEvenVartData {u : τ} {varData : CVarDatas δ}
    (hs : s.addEvenVartData u varData = some t) : SameContents s t := by
  have hpc := (pc_of_addEvenVartData hs).2 .worker nofun
  unfold State.addEvenVartData at hs
  split at hs <;> cases hs
  exact ⟨rfl, hpc, rfl, rfl, rfl, rfl⟩

lemma run_of_call {i : ℕ} {before handed : List φ} (hs : s.call i before handed = some t) :
    t.m_bTheadRun = s.m_bTheadRun ∧ t.pc .worker ≠ .finished := by
  unfold State.call at hs
  split at hs <;> try cases hs
  split at hs <;> try cases hs
  split at hs
  · split_ifs at hs <;> rw [← Option.some.inj hs]
    · exact ⟨rfl, by simp⟩
    · exact ⟨rfl, by simp [State.setData]⟩
  · rw [← Option.some.inj hs]
    exact ⟨rfl, by simp [State.popFront]⟩

/-- The worker ends only when it is told to. -/
lemma run_of_work (hs : s.work = some t) : t.m_bTheadRun = s.m_bTheadRun ∧
    (t.pc .worker = .finished → t.m_bTheadRun = false) := by
  unfold State.work at hs
  split at hs <;> try cases hs
  · refine ⟨rfl, fun hpc => ?_⟩
    rw [State.pc_goto_self] at hpc
    split_ifs at hpc with hrun
    exact Bool.not_eq_true _ ▸ hrun
  · refine ⟨rfl, fun hpc => ?_⟩
    rw [State.pc_goto_self] at hpc
    split_ifs at hpc
  · split at hs <;> cases hs
    exact ⟨rfl, fun hpc => by simp [State.setData] at hpc⟩
  · exact ⟨rfl, fun hpc => by simp [State.setData] at hpc⟩
  · exact ⟨rfl, fun hpc => by simp [State.setData] at hpc⟩
  · exact ⟨rfl, fun hpc => by simp [State.setData] at hpc⟩
  · split at hs <;> cases hs
    exact ⟨rfl, fun hpc => by simp [State.setData] at hpc⟩
  · unfold State.front
    split
    · exact ⟨rfl, fun hpc => by simp at hpc⟩
    · dsimp only
      split
      · exact ⟨rfl, fun hpc => by simp [State.popFront] at hpc⟩
      · exact ⟨rfl, fun hpc => by simp at hpc⟩
  · obtain ⟨hrun, hne⟩ := run_of_call hs
    exact ⟨hrun, fun hpc => absurd hpc hne⟩
  · exact ⟨rfl, fun hpc => by simp [State.setData] at hpc⟩
  · split at hs <;> cases hs
    exact ⟨rfl, fun hpc => by simp [State.setData] at hpc⟩
  · split_ifs at hs <;> cases hs
    · exact ⟨rfl, fun hpc => by simp [State.setData] at hpc⟩
    · exact ⟨rfl, fun hpc => by simp at hpc⟩
  · exact ⟨rfl, fun hpc => by simp [State.setData] at hpc⟩

end Base

namespace Dispatcher

variable {s t : Dispatcher φ δ τ}

/-! ### Runs without exceptions -/

/-- The callbacks of a topic that were added since there were `n`. -/
def since (l : List φ) (n : ℕ) : Option (List φ) :=
  if l.drop n = [] then none else some (l.drop n)

/-- Only what came after it was cleared is there. -/
structure Emptied (b : State φ δ (Option τ)) (n : ℕ) : Prop where
  deal : b.data.m_queueDealData = []
  le : n ≤ b.hist.posted.length
  add : b.data.m_queueAddData.map Prod.snd = b.hist.posted.drop n

structure Dropped (b : State φ δ (Option τ)) (f : Topic → ℕ) : Prop where
  le : ∀ topic, f topic ≤ (b.hist.added topic).length
  map : ∀ topic, b.data.m_mapFuncs topic = since (b.hist.added topic) (f topic)

/-- What holds as long as no callback has thrown. -/
structure Kept (s : Dispatcher φ δ τ) : Prop where
  future : s.exception = false
  threw : s.stopper ≠ .threw
  idle : s.stopper = .idle → s.base.m_bTheadRun = true
  told : s.base.pc .worker = .finished → s.base.m_bTheadRun = false
  ended : s.stopper ≠ .idle → s.stopper ≠ .joining → s.base.pc .worker = .finished
  inv : s.cleared = none → Inv s.base
  each : ∀ d ∈ s.base.hist.delivered, d.after.Sublist d.handed ∧ d.handed.Sublist d.before ∧
    d.before.Sublist (s.base.hist.added d.varData.getName)
  early : s.stopper = .idle ∨ s.stopper = .joining → s.cleared = none ∧ s.dropped = none
  cleared : s.stopper = .clearFunc → s.cleared.isSome
  returned : s.stopper = .returned → s.cleared.isSome ∧ s.dropped.isSome
  emptied : ∀ n, s.cleared = some n → Emptied s.base n
  dropped : ∀ f, s.dropped = some f → Dropped s.base f

lemma kept_start : Kept (start φ δ τ) where
  future := rfl
  threw := nofun
  idle _ := rfl
  told h := by simp [start, State.start] at h
  ended h := absurd rfl h
  inv _ := inv_start
  each := inv_start.each
  early _ := ⟨rfl, rfl⟩
  cleared h := by cases h
  returned h := by cases h
  emptied _ h := by cases h
  dropped _ h := by cases h

omit [DecidableEq τ] in
/-- A step that changes the contents as a call that gets its mutex does. -/
lemma Kept.same (h : Kept s) {b : State φ δ (Option τ)} {e : Option τ → Option (Entry φ δ)}
    (hb : SameContents s.base b) (hinv : Inv s.base → Inv b) :
    Kept { s with base := b, entry := e } where
  future := h.future
  threw := h.threw
  idle hs := hb.run.trans (h.idle hs)
  told hs := hb.run.trans (h.told (hb.worker.symm.trans hs))
  ended h1 h2 := hb.worker.trans (h.ended h1 h2)
  inv hc := hinv (h.inv hc)
  each := by
    rw [hb.hist]
    exact h.each
  early := h.early
  cleared := h.cleared
  returned := h.returned
  emptied n hn := by
    obtain ⟨hd, hle, ha⟩ := h.emptied n hn
    exact ⟨hb.queueDeal.trans hd, by rw [hb.hist]; exact hle,
      by rw [hb.hist, hb.queueAdd]; exact ha⟩
  dropped f hf := by
    obtain ⟨hle, hm⟩ := h.dropped f hf
    exact ⟨by rw [hb.hist]; exact hle, by rw [hb.hist, hb.mapFuncs]; exact hm⟩

omit [DecidableEq τ] in
lemma since_append {l : List φ} {n : ℕ} (hn : n ≤ l.length) (x : φ) :
    since (l ++ [x]) n = some ((since l n).getD [] ++ [x]) := by
  unfold since
  rw [List.drop_append_of_le_length hn, if_neg (by simp)]
  split_ifs with hd
  · rw [hd]
    rfl
  · rfl

omit [DecidableEq τ] in
lemma since_length (l : List φ) : since l l.length = none := by
  rw [since, List.drop_length, if_pos rfl]

/-- A client goes on with its call. -/
lemma Kept.go (h : Kept s) {u : Option τ} {b : State φ δ (Option τ)}
    (hb : s.base.client u = some b) : Kept { s with base := b } := by
  obtain ⟨hrun, hdeal, hdel, heff⟩ := client_effect hb
  have hw := (pc_of_client hb).2 .worker nofun
  have hadded : ∀ topic, (s.base.hist.added topic).Sublist (b.hist.added topic) := by
    intro topic
    rcases heff with ⟨_, _, _, _, ha⟩ | ⟨_, _, ⟨strTopcs, ptrFunc, _, ha⟩ | ⟨_, ha⟩⟩
    · rw [ha]
    · rw [ha]
      by_cases ht : topic = strTopcs
      · rw [ht, Function.update_self]
        exact List.sublist_append_left ..
      · rw [Function.update_of_ne ht]
    · rw [ha]
  refine ⟨h.future, h.threw, fun hi => hrun.trans (h.idle hi),
    fun hf => hrun.trans (h.told (hw.symm.trans hf)), fun h1 h2 => hw.trans (h.ended h1 h2),
    fun hc => (h.inv hc).client hb, ?_, h.early, h.cleared, h.returned, fun n hn => ?_,
    fun f hf => ?_⟩
  · rw [hdel]
    intro d hd
    obtain ⟨h1, h2, h3⟩ := h.each d hd
    exact ⟨h1, h2, h3.trans (hadded _)⟩
  · obtain ⟨hd, hle, ha⟩ := h.emptied n hn
    rcases heff with ⟨varData, hq, hp, -⟩ | ⟨hq, hp, -⟩
    · refine ⟨hdeal.trans hd, ?_, ?_⟩
      · rw [hp, List.length_append]
        omega
      · rw [hq, hp, List.map_append, ha, List.drop_append_of_le_length hle]
        rfl
    · exact ⟨hdeal.trans hd, hp ▸ hle, by rw [hq, hp, ha]⟩
  · obtain ⟨hle, hm⟩ := h.dropped f hf
    rcases heff with ⟨_, _, _, hmap, ha⟩ | ⟨_, _, ⟨strTopcs, ptrFunc, hmap, ha⟩ | ⟨hmap, ha⟩⟩
    · exact ⟨by rw [ha]; exact hle, by rw [hmap, ha]; exact hm⟩
    · constructor
      · intro topic
        rw [ha]
        by_cases ht : topic = strTopcs
        · rw [ht, Function.update_self, List.length_append]
          have := hle strTopcs
          omega
        · rw [Function.update_of_ne ht]
          exact hle topic
      · intro topic
        rw [hmap, ha]
        by_cases ht : topic = strTopcs
        · rw [ht, Function.update_self, Function.update_self, hm, since_append (hle strTopcs)]
        · rw [Function.update_of_ne ht, Function.update_of_ne ht]
          exact hm topic
    · exact ⟨by rw [ha]; exact hle, by rw [hmap, ha]; exact hm⟩

/-- The worker goes on: `stop` has cleared nothing yet. -/
lemma Kept.work (h : Kept s) (hs : s.work = some t) : Kept t := by
  unfold Dispatcher.work at hs
  split_ifs at hs
  obtain ⟨b, hb, rfl⟩ := Option.map_eq_some_iff.mp hs
  have hfin : s.base.pc .worker ≠ .finished := by
    intro hf
    unfold State.work at hb
    rw [hf] at hb
    cases hb
  have hst : s.stopper = .idle ∨ s.stopper = .joining := by
    by_contra hne
    rw [not_or] at hne
    exact hfin (h.ended hne.1 hne.2)
  obtain ⟨hc, hd⟩ := h.early hst
  obtain ⟨hrun, htold⟩ := run_of_work hb
  have hinv := (h.inv hc).work hb
  refine ⟨h.future, h.threw, fun hi => hrun.trans (h.idle hi), htold, fun h1 h2 => ?_,
    fun _ => hinv, hinv.each, fun _ => ⟨hc, hd⟩, h.cleared, h.returned, fun n hn => ?_,
    fun f hf => ?_⟩
  · rcases hst with hst | hst
    · exact absurd hst h1
    · exact absurd hst h2
  · rw [hc] at hn
    cases hn
  · rw [hd] at hf
    cases hf

omit [DecidableEq τ] in
lemma Kept.stop (h : Kept s) (hs : s.stop = some t) : Kept t := by
  unfold Dispatcher.stop at hs
  split at hs
  · next hst =>
    rw [if_pos (h.idle hst)] at hs
    rw [← Option.some.inj hs]
    obtain ⟨hc, hd⟩ := h.early (.inl hst)
    refine ⟨h.future, nofun, nofun, fun _ => rfl, fun _ h2 => absurd rfl h2, fun _ => ?_, h.each,
      fun _ => ⟨hc, hd⟩, nofun, nofun, fun n hn => ?_, fun f hf => ?_⟩
    · have hi := h.inv hc
      exact ⟨hi.data, hi.func, hi.order, hi.named, hi.drained, hi.swapped, hi.flagged, hi.live,
        hi.walking, hi.each, hi.calls⟩
    · rw [show s.cleared = some n from hn] at hc
      cases hc
    · rw [show s.dropped = some f from hf] at hd
      cases hd
  · next hst =>
    have hf := h.ended (by rw [hst]; exact nofun) (by rw [hst]; exact nofun)
    rw [if_neg (by rw [h.told hf]; exact nofun)] at hs
    rw [← Option.some.inj hs]
    exact ⟨h.future, nofun, nofun, h.told, fun _ _ => hf, h.inv, h.each,
      fun hj => hj.elim nofun nofun, nofun, nofun, h.emptied, h.dropped⟩
  · next hst => exact absurd hst h.threw
  · next hst =>
    split at hs <;> cases hs
    next hf =>
    obtain ⟨hc, hd⟩ := h.early (.inr hst)
    rw [if_neg (by rw [h.future]; exact nofun)]
    exact ⟨h.future, nofun, nofun, h.told, fun _ _ => hf, h.inv, h.each,
      fun hj => hj.elim nofun nofun, nofun, nofun, h.emptied, h.dropped⟩
  · next hst =>
    split at hs <;> cases hs
    have hf := h.ended (by rw [hst]; exact nofun) (by rw [hst]; exact nofun)
    refine ⟨h.future, nofun, nofun, h.told, fun _ _ => hf, nofun, h.each,
      fun hj => hj.elim nofun nofun, fun _ => rfl, nofun, fun n hn => ?_,
      fun f hf => ?_⟩
    · obtain rfl := Option.some.inj hn
      exact ⟨rfl, Nat.le_refl _, List.drop_length.symm⟩
    · obtain ⟨hle, hm⟩ := h.dropped f hf
      exact ⟨hle, hm⟩
  · next hst =>
    split at hs <;> cases hs
    have hf := h.ended (by rw [hst]; exact nofun) (by rw [hst]; exact nofun)
    have hc := h.cleared hst
    refine ⟨h.future, nofun, nofun, h.told, fun _ _ => hf, fun hn => ?_, h.each,
      fun hj => hj.elim nofun nofun, nofun, fun _ => ⟨hc, rfl⟩,
      fun n hn => ?_, fun f hf => ?_⟩
    · rw [show s.cleared = none from hn] at hc
      cases hc
    · obtain ⟨hd, hle, ha⟩ := h.emptied n hn
      exact ⟨hd, hle, ha⟩
    · obtain rfl := Option.some.inj hf
      exact ⟨fun _ => Nat.le_refl _, fun topic => (since_length _).symm⟩

theorem Kept.step [DecidableEq φ] (h : Kept s) {a : Action φ δ τ} (ha : a ≠ .throw)
    (hs : s.step a = some t) : Kept t := by
  cases a with
  | enter u e =>
    rw [Dispatcher.step, Dispatcher.enter] at hs
    split_ifs at hs
    split at hs <;> cases hs
    exact h.same ⟨rfl, rfl, rfl, rfl, rfl, rfl⟩ id
  | acquire u =>
    rw [Dispatcher.step, Dispatcher.acquire] at hs
    split at hs
    · obtain ⟨b, hb, rfl⟩ := Option.map_eq_some_iff.mp hs
      exact h.same (contents_of_addFunc hb) fun hi => hi.addFunc hb
    · obtain ⟨b, hb, rfl⟩ := Option.map_eq_some_iff.mp hs
      exact h.same (contents_of_addEvenVartData hb) fun hi => hi.addEvenVartData hb
    · cases hs
  | go u =>
    obtain ⟨b, hb, rfl⟩ := Option.map_eq_some_iff.mp hs
    exact h.go hb
  | destroy ptrFunc =>
    rw [← Option.some.inj hs]
    exact h.same ⟨rfl, rfl, rfl, rfl, rfl, rfl⟩ fun hi => hi.destroy ptrFunc
  | work => exact h.work hs
  | leave =>
    rw [Dispatcher.step] at hs
    split_ifs at hs
    rw [← Option.some.inj hs]
    exact ⟨h.future, h.threw, h.idle, h.told, h.ended, h.inv, h.each, h.early, h.cleared,
      h.returned, h.emptied, h.dropped⟩
  | throw => exact absurd rfl ha
  | stop => exact h.stop hs

/-! ### Every run -/

/-- No exception has ended the worker: it ends when `stop` tells it to, with what it took off
the queue dealt with. Until `stop` clears them the events are dealt with in order and handed to
the live callbacks of their topics. `stop` throws nothing, and leaves the queues and the topics
empty but for what came since. -/
structure Isolated (s : Dispatcher φ δ τ) : Prop where
  future : s.exception = false
  worker : s.base.pc .worker = .finished →
    s.base.m_bTheadRun = false ∧ s.base.data.m_queueDealData = []
  inOrder : s.cleared = none → InOrder s.base
  handed : ∀ d ∈ s.base.hist.delivered, d.after.Sublist d.handed ∧ d.handed.Sublist d.before ∧
    d.before.Sublist (s.base.hist.added d.varData.getName)
  stop : s.stopper ≠ .threw
  returned : s.stopper = .returned → ∃ n f, s.cleared = some n ∧ s.dropped = some f ∧
    Emptied s.base n ∧ Dropped s.base f

omit [DecidableEq τ] in
lemma Kept.isolated (h : Kept s) : Isolated s where
  future := h.future
  worker hf := by
    refine ⟨h.told hf, ?_⟩
    cases hc : s.cleared with
    | none => exact (h.inv hc).drained (by rw [hf]; rfl)
    | some n => exact (h.emptied n hc).deal
  inOrder hc := ⟨(h.inv hc).order, (h.inv hc).calls, h.each, (h.inv hc).live, (h.inv hc).flagged⟩
  handed := h.each
  stop := h.threw
  returned hr := by
    obtain ⟨hc, hd⟩ := h.returned hr
    obtain ⟨n, hn⟩ := Option.isSome_iff_exists.mp hc
    obtain ⟨f, hf⟩ := Option.isSome_iff_exists.mp hd
    exact ⟨n, f, hn, hf, h.emptied n hn, h.dropped f hf⟩

/-- No callback that is run throws. -/
def NoThrow (s : Dispatcher φ δ τ) : Action φ δ τ → Prop
  | .throw => s.free = false
  | _ => True

/-- An exception is kept, and without one all is well. -/
def Marked (s : Dispatcher φ δ τ) : Prop := s.exception = false → Kept s

lemma exception_step [DecidableEq φ] {a : Action φ δ τ} (hs : s.step a = some t) :
    t.exception = true ∧ a = .throw ∧ s.free = true ∨
      t.exception = s.exception ∧ a ≠ .throw := by
  cases a with
  | throw =>
    rw [Dispatcher.step, Dispatcher.throw] at hs
    split_ifs at hs with hf
    rw [← Option.some.inj hs]
    exact .inl ⟨rfl, rfl, hf⟩
  | enter u e =>
    rw [Dispatcher.step, Dispatcher.enter] at hs
    split_ifs at hs
    split at hs <;> cases hs
    exact .inr ⟨rfl, by simp⟩
  | acquire u =>
    rw [Dispatcher.step, Dispatcher.acquire] at hs
    split at hs
    · obtain ⟨b, -, rfl⟩ := Option.map_eq_some_iff.mp hs
      exact .inr ⟨rfl, by simp⟩
    · obtain ⟨b, -, rfl⟩ := Option.map_eq_some_iff.mp hs
      exact .inr ⟨rfl, by simp⟩
    · cases hs
  | go u =>
    obtain ⟨b, -, rfl⟩ := Option.map_eq_some_iff.mp hs
    exact .inr ⟨rfl, by simp⟩
  | destroy ptrFunc =>
    rw [← Option.some.inj hs]
    exact .inr ⟨rfl, by simp⟩
  | work =>
    rw [Dispatcher.step, Dispatcher.work] at hs
    split_ifs at hs
    obtain ⟨b, -, rfl⟩ := Option.map_eq_some_iff.mp hs
    exact .inr ⟨rfl, by simp⟩
  | leave =>
    rw [Dispatcher.step] at hs
    split_ifs at hs
    rw [← Option.some.inj hs]
    exact .inr ⟨rfl, by simp⟩
  | stop => exact .inr ⟨(stop_same hs).2, by simp⟩

lemma Marked.step [DecidableEq φ] (h : Marked s) {a : Action φ δ τ} (hs : s.step a = some t) :
    Marked t := by
  intro hf
  rcases exception_step hs with ⟨ht, -, -⟩ | ⟨ht, ha⟩
  · rw [ht] at hf
    cases hf
  · exact (h (ht ▸ hf)).step ha hs

/-- **Every run** in which callbacks may throw keeps what one callback does from the others,
the later events and `stop` exactly if none throws. -/
theorem isolated_iff [DecidableEq φ] (as : List (Action φ δ τ)) :
    Throughout Dispatcher.step Isolated (start φ δ τ) as ↔
      Always Dispatcher.step (fun _ => NoThrow) (start φ δ τ) as := by
  refine throughout_iff (J := Marked) (fun _ => kept_start) kept_start.isolated
    (fun _ _ _ h hs => h.step hs) (fun s a t h hi hs => ?_) (fun s a hs => ?_) as
  · rcases exception_step hs with ⟨ht, rfl, hf⟩ | ⟨ht, ha⟩
    · refine iff_of_false (fun hi' => ?_) fun hn => ?_
      · rw [hi'.future] at ht
        cases ht
      · rw [show s.free = false from hn] at hf
        cases hf
    · refine iff_of_true ((h.step hs) (ht.trans hi.future)).isolated ?_
      cases a with
      | throw => exact absurd rfl ha
      | _ => trivial
  · cases a with
    | throw =>
      rw [Dispatcher.step, Dispatcher.throw] at hs
      split_ifs at hs with hf
      exact eq_false_of_ne_true hf
    | _ => trivial

/-- Two callbacks of a topic, two events of it, and a first callback that throws; then `stop`. -/
def firstThrows : List (Action ℕ ℕ ℕ) :=
  [.enter (some 0) (.addFunc [1] 0), .acquire (some 0), .go (some 0), .go (some 0),
    .enter (some 0) (.addFunc [1] 1), .acquire (some 0), .go (some 0), .go (some 0),
    .enter (some 0) (.addEvenVartData ⟨[1], 7⟩), .acquire (some 0), .go (some 0), .go (some 0),
    .go (some 0), .enter (some 0) (.addEvenVartData ⟨[1], 8⟩), .acquire (some 0), .go (some 0),
    .go (some 0), .go (some 0), .work, .work, .work, .work, .work, .work, .work, .work, .work,
    .throw, .stop, .stop]

/-- The second callback gets no event and the second event no callback, `stop` throws, and both
events and the topic are left. -/
theorem firstThrows_spreads : ∃ s, exec Dispatcher.step (start ℕ ℕ ℕ) firstThrows = some s ∧
    s.base.hist.calls = [(⟨[1], 7⟩, 0)] ∧ s.base.pc .worker = .finished ∧ s.stopper = .threw ∧
    s.base.data.m_queueDealData = [([1], ⟨[1], 7⟩), ([1], ⟨[1], 8⟩)] ∧
    s.base.data.m_mapFuncs [1] = some [0, 1] ∧ ¬ Isolated s := by
  have he : (exec Dispatcher.step (start ℕ ℕ ℕ) firstThrows).map
      (fun s => (s.base.hist.calls, s.base.pc .worker, s.stopper)) =
      some ([(⟨[1], 7⟩, 0)], .finished, .threw) := by decide
  have hleft : (exec Dispatcher.step (start ℕ ℕ ℕ) firstThrows).map
      (fun s => (s.base.data.m_queueDealData, s.base.data.m_mapFuncs [1])) =
      some ([([1], ⟨[1], 7⟩), ([1], ⟨[1], 8⟩)], some [0, 1]) := by decide
  obtain ⟨s, hs, he⟩ := Option.map_eq_some_iff.mp he
  rw [hs, Option.map_some] at hleft
  simp only [Prod.mk.injEq, Option.some.injEq] at he hleft
  obtain ⟨hcalls, hpc, hst⟩ := he
  exact ⟨s, hs, hcalls, hpc, hst, hleft.1, hleft.2, fun hi => hi.stop hst⟩

end Dispatcher

end MmrService.EventCtrl
