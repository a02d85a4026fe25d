import MmrService.EventOrder

/-!
Callbacks that call back into `CEventDealWithLock`, threads that wait for its mutexes, and
`stop`.

A callback the worker runs may call `addFunc` and `addEvenVartData` any number of times, return
or throw; a call that has not got its mutex waits for it. The worker holds `m_mutexFunc` while it
runs callbacks, so a callback that adds a callback waits for a mutex of its own thread. Nothing
else can make threads wait for each other.
-/

namespace MmrService.EventCtrl

open Transition Mutex

variable {φ δ τ : Type}

/-- A call that is about to lock. -/
inductive Entry (φ δ : Type)
  | addFunc (strTopcs : Topic) (ptrFunc : φ)
  | addEvenVartData (varData : CVarDatas δ)

inductive MutexId
  | mutexData
  | mutexFunc
  deriving DecidableEq

def Entry.mutex : Entry φ δ → MutexId
  | .addFunc .. => .mutexFunc
  | .addEvenVartData _ => .mutexData

/-- Where `stop` is: it waits for the worker, and clears the queues and then the callbacks. -/
inductive Stopper
  | idle
  | joining
  | clearData
  | clearFunc
  | returned
  | threw
  deriving DecidableEq

/-- The dispatcher with its threads: `none` is the worker while it is inside a callback.
`exception` is kept by `m_future`. As ghost state, how many events had been posted and how many
callbacks added when `stop` cleared them. -/
structure Dispatcher (φ δ τ : Type) where
  base : State φ δ (Option τ)
  inside : Bool
  entry : Option τ → Option (Entry φ δ)
  exception : Bool
  stopper : Stopper
  cleared : Option ℕ
  dropped : Option (Topic → ℕ)

namespace Dispatcher

/-- The steps of a thread are those of the dispatcher; a client, or the callback that is run,
calls an entry and gets the mutex later. -/
inductive Action (φ δ τ : Type)
  | enter (t : Option τ) (e : Entry φ δ)
  | acquire (t : Option τ)
  | go (t : Option τ)
  | destroy (ptrFunc : φ)
  | work
  /-- The callback returns, or throws. -/
  | leave
  | throw
  /-- The next step of `stop`. -/
  | stop

section Step

variable [DecidableEq τ]

/-- The next turn of the loop runs a callback. -/
def calls (s : State φ δ (Option τ)) : Bool :=
  match s.pc .worker, s.data.m_queueDealData with
  | .calling i _ _, (topic, _) :: _ =>
    match (s.data.m_mapFuncs topic).bind fun funcs => funcs[i]? with
    | some ptrFunc => s.alive ptrFunc
    | none => false
  | _, _ => false

/-- The callback is not inside a call itself. -/
def free (s : Dispatcher φ δ τ) : Bool :=
  match s.inside, s.base.pc (.client none), s.entry none with
  | true, .idle, none => true
  | _, _, _ => false

def enter (s : Dispatcher φ δ τ) (t : Option τ) (e : Entry φ δ) : Option (Dispatcher φ δ τ) :=
  if t = none ∧ s.inside = false then none
  else
    match s.base.pc (.client t), s.entry t with
    | .idle, none => some { s with entry := Function.update s.entry t (some e) }
    | _, _ => none

def acquire (s : Dispatcher φ δ τ) (t : Option τ) : Option (Dispatcher φ δ τ) :=
  match s.entry t with
  | some (.addFunc strTopcs ptrFunc) =>
    (s.base.addFunc t strTopcs ptrFunc).map fun base =>
      { s with base := base, entry := Function.update s.entry t none }
  | some (.addEvenVartData varData) =>
    (s.base.addEvenVartData t varData).map fun base =>
      { s with base := base, entry := Function.update s.entry t none }
  | none => none

def work (s : Dispatcher φ δ τ) : Option (Dispatcher φ δ τ) :=
  if s.inside then none
  else s.base.work.map fun base => { s with base := base, inside := calls s.base }

/-- The exception leaves `dealEventData`, which gives `m_mutexFunc` back. -/
def throw (s : Dispatcher φ δ τ) : Option (Dispatcher φ δ τ) :=
  if s.free then
    some { s with
      base := (s.base.goto .worker .finished).setData { s.base.data with m_mutexFunc := none }
      inside := false
      exception := true }
  else none

/-- `stop`: `m_future.get()` waits for the worker and throws what ended it. -/
def stop (s : Dispatcher φ δ τ) : Option (Dispatcher φ δ τ) :=
  match s.stopper with
  | .idle | .returned | .threw =>
    if s.base.m_bTheadRun then
      some { s with base := { s.base with m_bTheadRun := false }, stopper := .joining }
    else some { s with stopper := .clearData }
  | .joining =>
    match s.base.pc .worker with
    | .finished => some { s with stopper := if s.exception then .threw else .clearData }
    | _ => none
  | .clearData =>
    match s.base.data.m_mutexData with
    | none =>
      some { s with
        base := s.base.setData { s.base.data with
          m_bDataAdded := false
          m_queueAddData := []
          m_queueDealData := [] }
        stopper := .clearFunc
        cleared := some s.base.hist.posted.length }
    | some _ => none
  | .clearFunc =>
    match s.base.data.m_mutexFunc with
    | none =>
      some { s with
        base := s.base.setData { s.base.data with m_mapFuncs := fun _ => none }
        stopper := .returned
        dropped := some fun topic => (s.base.hist.added topic).length }
    | some _ => none

def step [DecidableEq φ] (s : Dispatcher φ δ τ) : Action φ δ τ → Option (Dispatcher φ δ τ)
  | .enter t e => s.enter t e
  | .acquire t => s.acquire t
  | .go t => (s.base.client t).map fun base => { s with base := base }
  | .destroy ptrFunc =>
    some { s with
      base := { s.base with alive := Function.update s.base.alive ptrFunc false } }
  | .work => s.work
  | .leave => if s.free then some { s with inside := false } else none
  | .throw => s.throw
  | .stop => s.stop

end Step

/-- After `start`. -/
def start (φ δ τ : Type) [DecidableEq τ] : Dispatcher φ δ τ where
  base := State.start φ δ (Option τ)
  inside := false
  entry _ := none
  exception := false
  stopper := .idle
  cleared := none
  dropped := none

/-! ### Who waits for whom -/

/-- The thread, whether or not it is inside a callback. -/
def os : Thread (Option τ) → Option τ
  | .worker => none
  | .client t => t

/-- The mutex a thread waits for. -/
def waits (s : Dispatcher φ δ τ) (t : Option τ) : Option MutexId :=
  match s.entry t, t, s.base.pc .worker with
  | some e, _, _ => some e.mutex
  | none, none, .lockSwap => some .mutexData
  | none, none, .lockWait => some .mutexData
  | none, none, .lockDeal => some .mutexFunc
  | _, _, _ => none

def holder (s : Dispatcher φ δ τ) : MutexId → Option (Option τ)
  | .mutexData => s.base.data.m_mutexData.map os
  | .mutexFunc => s.base.data.m_mutexFunc.map os

/-- One thread waits for a mutex that another, or itself, holds. -/
def Blocked (s : Dispatcher φ δ τ) (t u : Option τ) : Prop :=
  ∃ m, s.waits t = some m ∧ s.holder m = some u

/-- No thread waits for itself, be it through others. -/
def DeadlockFree (s : Dispatcher φ δ τ) : Prop := ∀ t, ¬ Relation.TransGen s.Blocked t t

/-- No callback that is run calls `addFunc`. -/
def NoAddFunc (s : Dispatcher φ δ τ) : Action φ δ τ → Prop
  | .enter none (.addFunc _ _) => s.free = false
  | _ => True

end Dispatcher

/-! ### Mutual exclusion -/

/-- The threads inside the critical sections hold the mutexes. -/
structure Exclusive (s : State φ δ τ) : Prop where
  data : Owned s.data.m_mutexData Pc.holdsData s.pc
  func : Owned s.data.m_mutexFunc Pc.holdsFunc s.pc

section Exclusive

variable [DecidableEq τ] {s t : State φ δ τ}

lemma Exclusive.addEvenVartData (h : Exclusive s) {u : τ} {varData : CVarDatas δ}
    (hs : s.addEvenVartData u varData = some t) : Exclusive t := by
  unfold State.addEvenVartData at hs
  split at hs
  · next hpc hm =>
    rw [← Option.some.inj hs]
    exact ⟨Owned.lock (hm ▸ h.data) rfl, h.func.stay (by rw [hpc]; rfl)⟩
  · cases hs

lemma Exclusive.addFunc (h : Exclusive s) {u : τ} {strTopcs : Topic} {ptrFunc : φ}
    (hs : s.addFunc u strTopcs ptrFunc = some t) : Exclusive t := by
  unfold State.addFunc at hs
  split at hs
  · next hpc hm =>
    rw [← Option.some.inj hs]
    exact ⟨h.data.stay (by rw [hpc]; rfl), Owned.lock (hm ▸ h.func) rfl⟩
  · cases hs

lemma Exclusive.client (h : Exclusive s) {u : τ} (hs : s.client u = some t) : Exclusive t := by
  unfold State.client at hs
  split at hs <;> try cases hs
  · next hpc => exact ⟨h.data.stay (by rw [hpc]; rfl), h.func.stay (by rw [hpc]; rfl)⟩
  · next hpc => exact ⟨h.data.stay (by rw [hpc]; rfl), h.func.stay (by rw [hpc]; rfl)⟩
  · next hpc => exact ⟨h.data.unlock (by rw [hpc]; rfl) rfl, h.func.stay (by rw [hpc]; rfl)⟩
  · next hpc => exact ⟨h.data.stay (by rw [hpc]; rfl), h.func.stay (by rw [hpc]; rfl)⟩
  · next hpc => exact ⟨h.data.stay (by rw [hpc]; rfl), h.func.unlock (by rw [hpc]; rfl) rfl⟩

lemma Exclusive.call (h : Exclusive s) {i : ℕ} {before handed : List φ}
    (hpc : s.pc .worker = .calling i before handed) (hs : s.call i before handed = some t) :
    Exclusive t := by
  unfold State.call at hs
  split at hs <;> try cases hs
  split at hs <;> try cases hs
  split at hs
  · split_ifs at hs <;> rw [← Option.some.inj hs] <;>
      exact ⟨h.data.stay (congrArg Pc.holdsData hpc).symm,
        h.func.stay (congrArg Pc.holdsFunc hpc).symm⟩
  · rw [← Option.some.inj hs]
    exact ⟨h.data.stay (by rw [hpc]; rfl), h.func.stay (by rw [hpc]; rfl)⟩

lemma Exclusive.front (h : Exclusive s) (hpc : s.pc .worker = .deal) : Exclusive s.front := by
  unfold State.front
  split
  · exact ⟨h.data.stay (by rw [hpc]; rfl), h.func.stay (by rw [hpc]; rfl)⟩
  · dsimp only
    split <;> exact ⟨h.data.stay (congrArg Pc.holdsData hpc).symm,
      h.func.stay (congrArg Pc.holdsFunc hpc).symm⟩

lemma Exclusive.work (h : Exclusive s) (hs : s.work = some t) : Exclusive t := by
  unfold State.work at hs
  split at hs <;> try cases hs
  · next hpc =>
    split_ifs <;> exact ⟨h.data.stay (by rw [hpc]; rfl), h.func.stay (by rw [hpc]; rfl)⟩
  · next hpc =>
    split_ifs <;> exact ⟨h.data.stay (by rw [hpc]; rfl), h.func.stay (by rw [hpc]; rfl)⟩
  · next hpc =>
    split at hs <;> try cases hs
    next hm => exact ⟨Owned.lock (hm ▸ h.data) rfl, h.func.stay (by rw [hpc]; rfl)⟩
  · next hpc => exact ⟨h.data.stay (by rw [hpc]; rfl), h.func.stay (by rw [hpc]; rfl)⟩
  · next hpc => exact ⟨h.data.stay (by rw [hpc]; rfl), h.func.stay (by rw [hpc]; rfl)⟩
  · next hpc => exact ⟨h.data.unlock (by rw [hpc]; rfl) rfl, h.func.stay (by rw [hpc]; rfl)⟩
  · next hpc =>
    split at hs <;> try cases hs
    next hm => exact ⟨h.data.stay (by rw [hpc]; rfl), Owned.lock (hm ▸ h.func) rfl⟩
  · next hpc => exact h.front hpc
  · next i before handed hpc => exact h.call hpc hs
  · next hpc => exact ⟨h.data.stay (by rw [hpc]; rfl), h.func.unlock (by rw [hpc]; rfl) rfl⟩
  · next hpc =>
    split at hs <;> try cases hs
    next hm => exact ⟨Owned.lock (hm ▸ h.data) rfl, h.func.stay (by rw [hpc]; rfl)⟩
  · next hpc =>
    split_ifs at hs <;> rw [← Option.some.inj hs]
    · exact ⟨h.data.unlock (by rw [hpc]; rfl) rfl, h.func.stay (by rw [hpc]; rfl)⟩
    · exact ⟨h.data.stay (by rw [hpc]; rfl), h.func.stay (by rw [hpc]; rfl)⟩
  · next hpc => exact ⟨h.data.unlock (by rw [hpc]; rfl) rfl, h.func.stay (by rw [hpc]; rfl)⟩

lemma pc_goto_worker (s : State φ δ τ) (u : τ) (p : Pc φ δ) :
    (s.goto .worker p).pc (.client u) = s.pc (.client u) := by
  rw [State.pc_goto, if_neg nofun]

/-- A step moves one thread. -/
lemma pc_of_addFunc {u : τ} {strTopcs : Topic} {ptrFunc : φ}
    (hs : s.addFunc u strTopcs ptrFunc = some t) :
    s.pc (.client u) = .idle ∧ ∀ v ≠ .client u, t.pc v = s.pc v := by
  unfold State.addFunc at hs
  split at hs
  · next hpc _ =>
    rw [← Option.some.inj hs]
    exact ⟨hpc, fun v hv => Function.update_of_ne hv _ _⟩
  · cases hs

lemma pc_of_addEvenVartData {u : τ} {varData : CVarDatas δ}
    (hs : s.addEvenVartData u varData = some t) :
    s.pc (.client u) = .idle ∧ ∀ v ≠ .client u, t.pc v = s.pc v := by
  unfold State.addEvenVartData at hs
  split at hs
  · next hpc _ =>
    rw [← Option.some.inj hs]
    exact ⟨hpc, fun v hv => Function.update_of_ne hv _ _⟩
  · cases hs

lemma pc_of_client {u : τ} (hs : s.client u = some t) :
    s.pc (.client u) ≠ .idle ∧ ∀ v ≠ .client u, t.pc v = s.pc v := by
  unfold State.client at hs
  split at hs <;> try cases hs
  all_goals
    next hpc =>
      exact ⟨by rw [hpc]; exact nofun, fun v hv => Function.update_of_ne hv _ _⟩

lemma pc_of_call {i : ℕ} {before handed : List φ} (hs : s.call i before handed = some t) :
    ∀ v ≠ .worker, t.pc v = s.pc v := by
  intro v hv
  unfold State.call at hs
  split at hs <;> try cases hs
  split at hs <;> try cases hs
  split at hs
  · split_ifs at hs <;> rw [← Option.some.inj hs] <;> exact Function.update_of_ne hv _ _
  · rw [← Option.some.inj hs]
    exact Function.update_of_ne hv _ _

lemma pc_of_work (hs : s.work = some t) : ∀ v ≠ .worker, t.pc v = s.pc v := by
  intro v hv
  unfold State.work at hs
  split at hs <;> try cases hs
  · exact Function.update_of_ne hv _ _
  · exact Function.update_of_ne hv _ _
  · split at hs <;> try cases hs
    exact Function.update_of_ne hv _ _
  · exact Function.update_of_ne hv _ _
  · exact Function.update_of_ne hv _ _
  · exact Function.update_of_ne hv _ _
  · split at hs <;> try cases hs
    exact Function.update_of_ne hv _ _
  · unfold State.front
    split
    · exact Function.update_of_ne hv _ _
    · dsimp only
      split <;> exact Function.update_of_ne hv _ _
  · exact pc_of_call hs v hv
  · exact Function.update_of_ne hv _ _
  · split at hs <;> try cases hs
    exact Function.update_of_ne hv _ _
  · split_ifs at hs <;> rw [← Option.some.inj hs] <;> exact Function.update_of_ne hv _ _
  · exact Function.update_of_ne hv _ _

end Exclusive

namespace Dispatcher

variable [DecidableEq τ] {s t : Dispatcher φ δ τ}

/-- The worker is inside a callback only in the loop over them. -/
lemma calling_of_calls {b b' : State φ δ (Option τ)} (hc : calls b = true)
    (hb : b.work = some b') : ∃ i before handed, b'.pc .worker = .calling i before handed := by
  unfold calls at hc
  split at hc
  · next i before handed topic varData rest hpc hq =>
    unfold State.work at hb
    rw [hpc] at hb
    simp only at hb
    unfold State.call at hb
    rw [hq] at hb
    simp only at hb
    cases hf : b.data.m_mapFuncs topic with
    | none =>
      rw [hf] at hb
      cases hb
    | some funcs =>
      rw [hf, Option.bind_some] at hc
      rw [hf] at hb
      cases hi : funcs[i]? with
      | none =>
        rw [hi] at hc
        cases hc
      | some ptrFunc =>
        rw [hi] at hc
        simp only [hi] at hb
        rw [if_pos hc] at hb
        rw [← Option.some.inj hb]
        exact ⟨_, _, _,
          State.pc_goto_self b .worker (.calling (i + 1) before (handed ++ [ptrFunc]))⟩
  · cases hc

/-- What is known of the threads. -/
structure Threads (s : Dispatcher φ δ τ) : Prop where
  locks : Exclusive s.base
  entry : ∀ t, (s.entry t).isSome → s.base.pc (.client t) = .idle
  outside : s.inside = false → s.base.pc (.client none) = .idle ∧ s.entry none = none
  inside : s.inside = true → ∃ i before handed, s.base.pc .worker = .calling i before handed

omit [DecidableEq τ] in
lemma free_iff : s.free = true ↔
    s.inside = true ∧ s.base.pc (.client none) = .idle ∧ s.entry none = none := by
  unfold free
  constructor
  · intro h
    split at h
    · next h1 h2 h3 => exact ⟨h1, h2, h3⟩
    · cases h
  · rintro ⟨h1, h2, h3⟩
    rw [h1, h2, h3]

lemma Threads.enter (h : Threads s) {u : Option τ} {e : Entry φ δ} (hs : s.enter u e = some t) :
    Threads t := by
  unfold Dispatcher.enter at hs
  split_ifs at hs with hu
  split at hs
  · next hpc he =>
    rw [← Option.some.inj hs]
    refine ⟨h.locks, fun v (hv : (Function.update s.entry u (some e) v).isSome) => ?_,
      fun hin => ⟨(h.outside hin).1, ?_⟩, h.inside⟩
    · by_cases hvu : v = u
      · rw [hvu]
        exact hpc
      · rw [Function.update_of_ne hvu] at hv
        exact h.entry v hv
    · have hne : none ≠ u := fun hnu => hu ⟨hnu.symm, hin⟩
      exact (Function.update_of_ne hne _ _).trans (h.outside hin).2
  · cases hs

/-- A call gets its mutex. -/
lemma Threads.acquired (h : Threads s) {u : Option τ} {b : State φ δ (Option τ)}
    (hu : (s.entry u).isSome) (hb : Exclusive b)
    (hpc : ∀ v ≠ .client u, b.pc v = s.base.pc v) :
    Threads { s with base := b, entry := Function.update s.entry u none } := by
  refine ⟨hb, fun v (hv : (Function.update s.entry u none v).isSome) => ?_,
    fun (hin : s.inside = false) => ?_, fun hin => ?_⟩
  · by_cases hvu : v = u
    · rw [hvu, Function.update_self] at hv
      cases hv
    · rw [Function.update_of_ne hvu] at hv
      rw [hpc (.client v) (by simpa using hvu)]
      exact h.entry v hv
  · have hne : none ≠ u := by
      rintro rfl
      rw [(h.outside hin).2] at hu
      cases hu
    exact ⟨(hpc (.client none) (by simpa using hne)).trans (h.outside hin).1,
      (Function.update_of_ne hne _ _).trans (h.outside hin).2⟩
  · obtain ⟨i, before, handed, hw⟩ := h.inside hin
    exact ⟨i, before, handed, (hpc .worker nofun).trans hw⟩

lemma Threads.acquire (h : Threads s) {u : Option τ} (hs : s.acquire u = some t) : Threads t := by
  unfold Dispatcher.acquire at hs
  split at hs
  · next strTopcs ptrFunc he =>
    obtain ⟨b, hb, rfl⟩ := Option.map_eq_some_iff.mp hs
    exact h.acquired (by rw [he]; rfl) (h.locks.addFunc hb) (pc_of_addFunc hb).2
  · next varData he =>
    obtain ⟨b, hb, rfl⟩ := Option.map_eq_some_iff.mp hs
    exact h.acquired (by rw [he]; rfl) (h.locks.addEvenVartData hb) (pc_of_addEvenVartData hb).2
  · cases hs

lemma Threads.go (h : Threads s) {u : Option τ} {b : State φ δ (Option τ)}
    (hb : s.base.client u = some b) : Threads { s with base := b } := by
  obtain ⟨hidle, hpc⟩ := pc_of_client hb
  refine ⟨h.locks.client hb, fun v hv => ?_, fun hin => ?_, fun hin => ?_⟩
  · have hvu : v ≠ u := by
      rintro rfl
      exact hidle (h.entry v hv)
    rw [hpc (.client v) (by simpa using hvu)]
    exact h.entry v hv
  · have hne : none ≠ u := by
      rintro rfl
      exact hidle (h.outside hin).1
    rw [hpc (.client none) (by simpa using hne)]
    exact h.outside hin
  · obtain ⟨i, before, handed, hw⟩ := h.inside hin
    exact ⟨i, before, handed, (hpc .worker nofun).trans hw⟩

lemma Threads.work (h : Threads s) (hs : s.work = some t) : Threads t := by
  unfold Dispatcher.work at hs
  split_ifs at hs with hin
  obtain ⟨b, hb, rfl⟩ := Option.map_eq_some_iff.mp hs
  have hpc := pc_of_work hb
  refine ⟨h.locks.work hb, fun v hv => ?_, fun _ => ?_, fun hc => calling_of_calls hc hb⟩
  · rw [hpc (.client v) nofun]
    exact h.entry v hv
  · rw [hpc (.client none) nofun]
    exact h.outside (Bool.not_eq_true _ ▸ hin)

lemma Threads.throw (h : Threads s) (hs : s.throw = some t) : Threads t := by
  unfold Dispatcher.throw at hs
  split_ifs at hs with hf
  obtain ⟨hin, hidle, hentry⟩ := free_iff.mp hf
  obtain ⟨i, before, handed, hw⟩ := h.inside hin
  rw [← Option.some.inj hs]
  refine ⟨⟨h.locks.data.stay (by rw [hw]; rfl), h.locks.func.unlock (by rw [hw]; rfl) rfl⟩,
    fun v hv => ?_, fun _ => ⟨?_, hentry⟩, nofun⟩
  · exact (pc_goto_worker s.base v .finished).trans (h.entry v hv)
  · exact (pc_goto_worker s.base none .finished).trans hidle

omit [DecidableEq τ] in
lemma Threads.stop (h : Threads s) (hs : s.stop = some t) : Threads t := by
  unfold Dispatcher.stop at hs
  split at hs
  · split_ifs at hs <;> rw [← Option.some.inj hs] <;>
      exact ⟨⟨h.locks.data, h.locks.func⟩, h.entry, h.outside, h.inside⟩
  · split_ifs at hs <;> rw [← Option.some.inj hs] <;>
      exact ⟨⟨h.locks.data, h.locks.func⟩, h.entry, h.outside, h.inside⟩
  · split_ifs at hs <;> rw [← Option.some.inj hs] <;>
      exact ⟨⟨h.locks.data, h.locks.func⟩, h.entry, h.outside, h.inside⟩
  · split at hs <;> cases hs
    exact ⟨h.locks, h.entry, h.outside, h.inside⟩
  · split at hs <;> cases hs
    exact ⟨⟨h.locks.data, h.locks.func⟩, h.entry, h.outside, h.inside⟩
  · split at hs <;> cases hs
    exact ⟨⟨h.locks.data, h.locks.func⟩, h.entry, h.outside, h.inside⟩

theorem Threads.step [DecidableEq φ] (h : Threads s) {a : Action φ δ τ}
    (hs : s.step a = some t) : Threads t := by
  cases a with
  | enter u e => exact h.enter hs
  | acquire u => exact h.acquire hs
  | go u =>
    obtain ⟨b, hb, rfl⟩ := Option.map_eq_some_iff.mp hs
    exact h.go hb
  | destroy ptrFunc =>
    rw [← Option.some.inj hs]
    exact ⟨⟨h.locks.data, h.locks.func⟩, h.entry, h.outside, h.inside⟩
  | work => exact h.work hs
  | leave =>
    rw [Dispatcher.step] at hs
    split_ifs at hs with hf
    obtain ⟨-, hidle, hentry⟩ := free_iff.mp hf
    rw [← Option.some.inj hs]
    exact ⟨h.locks, h.entry, fun _ => ⟨hidle, hentry⟩, nofun⟩
  | throw => exact h.throw hs
  | stop => exact h.stop hs

lemma threads_start : Threads (start φ δ τ) where
  locks := ⟨inv_start.data, inv_start.func⟩
  entry t h := by cases h
  outside _ := ⟨by simp [start, State.start], rfl⟩
  inside h := by cases h

/-! ### Deadlocks -/

/-- A client that waits ranks over the worker, and whoever waits over those that do not. -/
def rank (s : Dispatcher φ δ τ) : Option τ → ℕ
  | none => if (s.waits none).isSome then 1 else 0
  | some t => if (s.waits (some t)).isSome then 2 else 0

omit [DecidableEq τ] in
lemma waits_some {u : τ} {m : MutexId} (h : s.waits (some u) = some m) :
    ∃ e, s.entry (some u) = some e ∧ e.mutex = m := by
  unfold waits at h
  split at h
  · next e he => exact ⟨e, he, Option.some.inj h⟩
  all_goals simp_all

omit [DecidableEq τ] in
/-- The worker waits inside a callback, or for the exchange, the loop or the wait. -/
lemma waits_none {m : MutexId} (h : s.waits none = some m) :
    (∃ e, s.entry none = some e ∧ e.mutex = m) ∨ s.entry none = none ∧
      (s.base.pc .worker).holdsData = false ∧ (s.base.pc .worker).holdsFunc = false := by
  unfold waits at h
  cases he : s.entry none with
  | some e =>
    rw [he] at h
    exact .inl ⟨e, rfl, Option.some.inj h⟩
  | none =>
    rw [he] at h
    refine .inr ⟨rfl, ?_⟩
    split at h <;> simp_all [Pc.holdsData, Pc.holdsFunc]

omit [DecidableEq τ] in
/-- The holder of a mutex is in its critical section. -/
lemma Threads.holder (h : Threads s) {m : MutexId} {u : Option τ} (hm : s.holder m = some u) :
    ∃ v, os v = u ∧ (m = .mutexData ∧ (s.base.pc v).holdsData = true ∨
      m = .mutexFunc ∧ (s.base.pc v).holdsFunc = true) := by
  cases m with
  | mutexData =>
    obtain ⟨v, hv, rfl⟩ := Option.map_eq_some_iff.mp hm
    exact ⟨v, rfl, .inl ⟨rfl, (h.locks.data v).mpr hv⟩⟩
  | mutexFunc =>
    obtain ⟨v, hv, rfl⟩ := Option.map_eq_some_iff.mp hm
    exact ⟨v, rfl, .inr ⟨rfl, (h.locks.func v).mpr hv⟩⟩

omit [DecidableEq τ] in
/-- A thread that holds a mutex waits for none, but for the worker inside a callback. -/
lemma Threads.rank_lt (h : Threads s)
    (hno : ∀ strTopcs ptrFunc, s.entry none ≠ some (.addFunc strTopcs ptrFunc)) {t u : Option τ}
    (hb : s.Blocked t u) : s.rank u < s.rank t := by
  obtain ⟨m, hw, hm⟩ := hb
  obtain ⟨v, rfl, hv⟩ := h.holder hm
  have hidle : ∀ c, s.base.pc (.client c) = .idle → v ≠ .client c := by
    rintro c hc rfl
    rw [hc] at hv
    rcases hv with ⟨-, hv⟩ | ⟨-, hv⟩ <;> cases hv
  have hv' : os v ≠ none → s.rank (os v) = 0 := by
    intro hne
    match v, hne with
    | .client none, hne => exact absurd rfl hne
    | .worker, hne => exact absurd rfl hne
    | .client (some c), _ =>
      have hwait : ¬ (s.waits (some c)).isSome := by
        intro hs
        obtain ⟨m', hm'⟩ := Option.isSome_iff_exists.mp hs
        obtain ⟨e, he, -⟩ := waits_some hm'
        exact hidle (some c) (h.entry (some c) (by rw [he]; rfl)) rfl
      exact if_neg hwait
  have ht : 0 < s.rank t := by
    cases t with
    | none => simp [rank, hw]
    | some c => simp [rank, hw]
  by_cases hu : os v = none
  · cases t with
    | some c =>
      have hr : s.rank (some c) = 2 := if_pos (by rw [hw]; rfl)
      rw [hu, hr, rank]
      split_ifs <;> decide
    | none =>
      -- the worker does not hold what it waits for
      exfalso
      have hworker : v = .worker ∨ v = .client none := by
        match v, hu with
        | .worker, _ => exact .inl rfl
        | .client none, _ => exact .inr rfl
      rcases waits_none hw with ⟨e, he, hem⟩ | ⟨-, hdata, hfunc⟩
      · have hin : s.inside = true := by
          by_contra hne
          rw [(h.outside (Bool.not_eq_true _ ▸ hne)).2] at he
          cases he
        obtain ⟨i, before, handed, hpc⟩ := h.inside hin
        rcases hworker with rfl | rfl
        · rcases hv with ⟨-, hv⟩ | ⟨rfl, -⟩
          · rw [hpc] at hv
            cases hv
          · cases e with
            | addFunc strTopcs ptrFunc => exact hno _ _ he
            | addEvenVartData varData => cases hem
        · exact hidle none (h.entry none (by rw [he]; rfl)) rfl
      · have hout : s.inside = false := by
          by_contra hne
          obtain ⟨i, before, handed, hpc⟩ := h.inside (Bool.not_eq_false _ ▸ hne)
          rw [hpc] at hfunc
          cases hfunc
        rcases hworker with rfl | rfl
        · rcases hv with ⟨-, hv⟩ | ⟨-, hv⟩
          · rw [hdata] at hv
            cases hv
          · rw [hfunc] at hv
            cases hv
        · exact hidle none (h.outside hout).1 rfl
  · rw [hv' hu]
    exact ht

omit [DecidableEq τ] in
/-- **No thread waits for itself** exactly if no callback waits for `m_mutexFunc`. -/
theorem Threads.deadlockFree_iff (h : Threads s) : s.DeadlockFree ↔
    ∀ strTopcs ptrFunc, s.entry none ≠ some (.addFunc strTopcs ptrFunc) := by
  constructor
  · intro hfree strTopcs ptrFunc he
    have hin : s.inside = true := by
      by_contra hne
      rw [(h.outside (Bool.not_eq_true _ ▸ hne)).2] at he
      cases he
    obtain ⟨i, before, handed, hpc⟩ := h.inside hin
    have hown := h.locks.func.holder (t := .worker) (by rw [hpc]; rfl)
    refine hfree none (.single ⟨.mutexFunc, ?_, ?_⟩)
    · simp only [waits, he]
      rfl
    · simp only [Dispatcher.holder, hown]
      rfl
  · intro hno t
    exact acyclic_of_rank s.rank (fun _ _ hb => h.rank_lt hno hb) t

omit [DecidableEq τ] in
/-- `stop` is no call of a callback, and throws no exception of its own. -/
lemma stop_same (hs : s.stop = some t) : t.entry = s.entry ∧ t.exception = s.exception := by
  unfold Dispatcher.stop at hs
  split at hs
  · split_ifs at hs <;> rw [← Option.some.inj hs] <;> exact ⟨rfl, rfl⟩
  · split_ifs at hs <;> rw [← Option.some.inj hs] <;> exact ⟨rfl, rfl⟩
  · split_ifs at hs <;> rw [← Option.some.inj hs] <;> exact ⟨rfl, rfl⟩
  · split at hs <;> cases hs
    exact ⟨rfl, rfl⟩
  · split at hs <;> cases hs
    exact ⟨rfl, rfl⟩
  · split at hs <;> cases hs
    exact ⟨rfl, rfl⟩

/-- What a step makes of the call that the callback is in. -/
lemma entry_step [DecidableEq φ] {a : Action φ δ τ} (hs : s.step a = some t) :
    t.entry none = s.entry none ∨ t.entry none = none ∨
      ∃ e, a = .enter none e ∧ s.free = true ∧ t.entry none = some e := by
  cases a with
  | enter u e =>
    rw [Dispatcher.step, Dispatcher.enter] at hs
    split_ifs at hs with hu
    split at hs
    · next hpc he =>
      rw [← Option.some.inj hs]
      by_cases hn : none = u
      · subst hn
        refine .inr (.inr ⟨e, rfl, free_iff.mpr ⟨?_, hpc, he⟩,
          Function.update_self none (some e) s.entry⟩)
        exact Bool.not_eq_false _ ▸ fun hf => hu ⟨rfl, hf⟩
      · exact .inl (Function.update_of_ne hn _ _)
    · cases hs
  | acquire u =>
    have hupd : Function.update s.entry u none none = s.entry none ∨
        Function.update s.entry u none none = none := by
      by_cases hn : none = u
      · subst hn
        exact .inr (Function.update_self ..)
      · exact .inl (Function.update_of_ne hn _ _)
    rw [Dispatcher.step, Dispatcher.acquire] at hs
    split at hs
    · obtain ⟨b, -, rfl⟩ := Option.map_eq_some_iff.mp hs
      exact hupd.imp_right .inl
    · obtain ⟨b, -, rfl⟩ := Option.map_eq_some_iff.mp hs
      exact hupd.imp_right .inl
    · cases hs
  | go u =>
    obtain ⟨b, -, rfl⟩ := Option.map_eq_some_iff.mp hs
    exact .inl rfl
  | destroy ptrFunc => exact .inl (by rw [← Option.some.inj hs])
  | work =>
    rw [Dispatcher.step, Dispatcher.work] at hs
    split_ifs at hs
    obtain ⟨b, -, rfl⟩ := Option.map_eq_some_iff.mp hs
    exact .inl rfl
  | leave =>
    rw [Dispatcher.step] at hs
    split_ifs at hs
    exact .inl (by rw [← Option.some.inj hs])
  | throw =>
    rw [Dispatcher.step, Dispatcher.throw] at hs
    split_ifs at hs
    exact .inl (by rw [← Option.some.inj hs])
  | stop => exact .inl (congrFun (stop_same hs).1 none)

/-- **One step** from a state without deadlocks makes none exactly if it is no callback that
calls `addFunc`. -/
lemma deadlockFree_step [DecidableEq φ] (h : Threads s) {a : Action φ δ τ}
    (hfree : s.DeadlockFree) (hs : s.step a = some t) : t.DeadlockFree ↔ s.NoAddFunc a := by
  rw [(h.step hs).deadlockFree_iff]
  rw [h.deadlockFree_iff] at hfree
  constructor
  · intro hno
    cases a with
    | enter u e =>
      match u, e with
      | none, .addFunc strTopcs ptrFunc =>
        by_contra hne
        rw [Dispatcher.step, Dispatcher.enter] at hs
        obtain ⟨hin, hidle, hentry⟩ := free_iff.mp (Bool.not_eq_false _ ▸ hne)
        rw [if_neg (by rw [hin]; exact fun hc => nomatch hc.2), hidle, hentry] at hs
        rw [← Option.some.inj hs] at hno
        exact hno strTopcs ptrFunc
          (Function.update_self none (some (.addFunc strTopcs ptrFunc)) s.entry)
      | none, .addEvenVartData _ => trivial
      | some _, _ => trivial
    | _ => trivial
  · intro hna strTopcs ptrFunc he
    rcases entry_step hs with hk | hk | ⟨e, rfl, hf, hk⟩
    · exact hfree strTopcs ptrFunc (hk ▸ he)
    · rw [hk] at he
      cases he
    · rw [hk] at he
      obtain rfl := Option.some.inj he
      rw [show s.free = false from hna] at hf
      cases hf

lemma deadlockFree_start : (start φ δ τ).DeadlockFree := by
  rw [threads_start.deadlockFree_iff]
  exact fun _ _ => nofun

/-- **Every run** of the dispatcher, with callbacks that post, throw or return, is without
deadlocks exactly if no callback calls `addFunc`. -/
theorem reentry_deadlockFree_iff [DecidableEq φ] (as : List (Action φ δ τ)) :
    Throughout Dispatcher.step DeadlockFree (start φ δ τ) as ↔
      Always Dispatcher.step (fun _ => NoAddFunc) (start φ δ τ) as := by
  refine throughout_iff (J := Threads) threads_start deadlockFree_start
    (fun _ _ _ h hs => h.step hs) (fun _ _ _ h hf hs => deadlockFree_step h hf hs) ?_ as
  intro s a hs
  cases a with
  | enter u e =>
    match u, e with
    | none, .addFunc strTopcs ptrFunc =>
      by_contra hne
      obtain ⟨hin, hidle, hentry⟩ := free_iff.mp (Bool.not_eq_false _ ▸ hne)
      rw [Dispatcher.step, Dispatcher.enter, if_neg (by rw [hin]; exact fun hc => nomatch hc.2),
        hidle, hentry] at hs
      cases hs
    | none, .addEvenVartData _ => trivial
    | some _, _ => trivial
  | _ => trivial

/-- A client adds a callback and posts an event of its topic; the callback adds another. -/
def addsFromCallback : List (Action ℕ ℕ ℕ) :=
  [.enter (some 0) (.addFunc [1] 0), .acquire (some 0), .go (some 0), .go (some 0),
    .enter (some 0) (.addEvenVartData ⟨[1], 7⟩), .acquire (some 0), .go (some 0), .go (some 0),
    .go (some 0), .work, .work, .work, .work, .work, .work, .work, .work, .work,
    .enter none (.addFunc [2] 1)]

/-- The worker waits for the mutex it holds. -/
theorem addsFromCallback_deadlock : ∃ s, exec Dispatcher.step (start ℕ ℕ ℕ) addsFromCallback =
    some s ∧ s.Blocked none none ∧ ¬ s.DeadlockFree := by
  have he : (exec Dispatcher.step (start ℕ ℕ ℕ) addsFromCallback).map
      (fun s => (s.waits none, s.holder .mutexFunc)) = some (some .mutexFunc, some none) := by
    decide
  obtain ⟨s, hs, he⟩ := Option.map_eq_some_iff.mp he
  simp only [Prod.mk.injEq] at he
  have hb : s.Blocked none none := ⟨.mutexFunc, he⟩
  exact ⟨s, hs, hb, fun hf => hf none (.single hb)⟩

end Dispatcher

end MmrService.EventCtrl
