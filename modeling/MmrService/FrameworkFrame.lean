import MmrService.Framework

/-!
What the parts of `start` leave alone.

A relation between the states around a part of `start` follows from what the part writes, and
the same few facts about it serve every part.
-/

namespace MmrService.Framework

open Effect Effect.Prog Json

/-- Relations that the loading of the singletons and the libraries keeps. -/
structure Loads (R : State → State → Prop) : Prop where
  logger : ∀ s x, s.logger = none → R s { s with logger := some x, made := s.made + 1 }
  chunk : ∀ s x, s.chunk = none → R s { s with chunk := some x, made := s.made + 1 }
  small : ∀ s x, s.small = none → R s { s with small := some x, made := s.made + 1 }
  pool : ∀ s x, s.pool = none → R s { s with pool := some x, made := s.made + 1 }
  raise : ∀ s, R s { s with m_bTheadRun := true }
  thread : ∀ s, s.m_future = false → R s { s with m_future := true }
  component : ∀ s (L : Layout) strCompName, R s
    { s with
      m_mapComponents := L.arrange (⟨s.made, strCompName⟩ :: s.m_mapComponents)
      made := s.made + 1 }
  handles : ∀ s l, R s { s with m_libHandl := l }

/-- Relations that the calls of the components keep. -/
structure Calls (R : State → State → Prop) : Prop where
  request : ∀ r, Keeps R (perform r)
  calls : ∀ s l, R s { s with calls := l }

/-- Relations that the subscription of the framework keeps. -/
structure Subscribes (R : State → State → Prop) : Prop where
  func : ∀ s, R s { s with ptrFunc := some s.made, made := s.made + 1 }
  topic : ∀ s m, R s { s with m_mapFuncs := m }

/-- Relations that the first start of a server keeps. -/
structure Serves (R : State → State → Prop) : Prop where
  license : ∀ s, R s { s with ptrLicenseCtrl := some s.made, made := s.made + 1 }
  commands : ∀ s m, R s { s with m_mapCmdFunc := m }
  flag : ∀ s, R s { s with bRunflag := true }

variable {R : State → State → Prop} [IsPreorder State R]
variable {N : Numbers} {L : Layout} {is_Server : Bool} {env : Env N}

lemma keeps_nonNull {π : Type} (p : Option π) : Keeps R (nonNull p) := by
  unfold nonNull
  split_ifs
  · exact Keeps.pure ()
  · exact Keeps.stuck

lemma keeps_log : Keeps R log := Keeps.get.bind fun s => keeps_nonNull s.logger

lemma keeps_logIf (b : Bool) : Keeps R (logIf b) := by
  unfold logIf
  split_ifs
  · exact keeps_log
  · exact Keeps.pure ()

lemma keeps_mayThrow (p : Point) : Keeps R (mayThrow env p) := by
  unfold mayThrow
  split_ifs
  · exact Keeps.throw ()
  · exact Keeps.pure ()

lemma keeps_load_from_file : Keeps R (load_from_file env) := by
  unfold load_from_file
  split
  · exact Keeps.pure _
  · exact Keeps.throw ()
  · split
    · exact Keeps.pure _
    · exact Keeps.stuck

namespace Loads

variable (h : Loads R)
include h

omit [IsPreorder State R] in
lemma slot {D : Type} {jsonRoot : Value D} {c : Slot} (hc : c ∈ slots jsonRoot) {s : State}
    (hs : ¬ c.isThere s = true) : R s (c.make s) := by
  simp only [slots, List.mem_cons, List.not_mem_nil, or_false] at hc
  rcases hc with rfl | rfl | rfl | rfl
  · exact h.logger s _ (by simpa [loggerSlot] using hs)
  · exact h.chunk s _ (by simpa [chunkSlot] using hs)
  · exact h.small s _ (by simpa [smallSlot] using hs)
  · exact h.pool s _ (by simpa [poolSlot] using hs)

lemma initInstance {D : Type} {jsonRoot : Value D} {c : Slot} (hc : c ∈ slots jsonRoot) :
    Keeps R (initInstance env c) := by
  intro s
  simp only [Framework.initInstance, bind_apply, get_apply, Out.done_bind]
  split_ifs with hs
  · exact refl_of R s
  · simp only [bind_apply, mayThrow]
    split_ifs
    · exact refl_of R s
    · exact h.slot hc hs

lemma eventStart : Keeps R (eventStart env) := by
  refine (Keeps.modify h.raise).bind fun _ => (keeps_mayThrow _).bind fun _ => ?_
  intro s
  simp only [bind_apply, get_apply, Out.done_bind]
  split_ifs with hs
  · trivial
  · exact h.thread s (by simpa using hs)

lemma registComponent (strCompName : Key) : Keeps R (registComponent L strCompName) := by
  refine Keeps.bind (Keeps.get.bind fun s => keeps_log.bind fun _ => ?_) fun _ => Keeps.pure ()
  split_ifs
  · exact Keeps.pure _
  · exact (Keeps.modify fun s => h.component s L _).bind fun _ => Keeps.pure _

lemma loadComponent (iterComp : Key × Value N.Double) :
    Keeps R (loadComponent L env iterComp) := by
  unfold Framework.loadComponent
  split_ifs
  · exact keeps_log
  · exact Keeps.pure ()
  · refine (keeps_mayThrow _).bind fun _ => ?_
    split
    · exact keeps_log
    · exact (Keeps.forEach fun name _ => h.registComponent name).bind fun _ =>
        Keeps.modify fun s => h.handles s _

lemma loadComponents (jsonRoot : Value N.Double) :
    Keeps R (loadComponents L env jsonRoot) := by
  unfold Framework.loadComponents
  simp only
  split_ifs
  · exact keeps_log.bind fun _ => Keeps.pure _
  · exact (Keeps.forEach fun c _ => h.loadComponent c).bind fun _ => Keeps.pure _

lemma prepare : Keeps R (prepare L env) := by
  refine keeps_load_from_file.bind fun r => ?_
  simp only
  split_ifs
  · exact Keeps.pure _
  · exact (Keeps.forEach fun c hc => h.initInstance hc).bind fun _ => keeps_log.bind fun _ =>
      h.eventStart.bind fun _ => h.loadComponents _

end Loads

namespace Calls

variable (h : Calls R)
include h

lemma call (c : IComponent) (b : Called) (how : Result → Call) : Keeps R (call c b how) := by
  refine (Keeps.forEach fun r _ => h.request r).bind fun _ =>
    (Keeps.modify fun s => h.calls s _).bind fun _ => ?_
  split
  · exact Keeps.pure _
  · exact Keeps.throw ()

lemma initialiseComponent (components : Value N.Double) (c : IComponent) :
    Keeps R (initialiseComponent env components c) := by
  unfold Framework.initialiseComponent
  split_ifs
  · exact keeps_log
  · exact (h.call c _ _).bind fun _ => keeps_log

lemma startComponent (c : IComponent) : Keeps R (startComponent env c) :=
  (h.call c _ _).bind fun _ => keeps_logIf _

end Calls

lemma Subscribes.subscribeStop (h : Subscribes R) : Keeps R (subscribeStop env) :=
  (keeps_mayThrow _).bind fun _ => Keeps.get.bind fun _ =>
    (Keeps.modify fun s => h.func s).bind fun _ => Keeps.modify fun s => h.topic s _

namespace Serves

variable (h : Serves R)
include h

lemma addCmdCallback (strCmd strDesc : Key) (func : CmdFunc) :
    Keeps R (addCmdCallback strCmd strDesc func) :=
  Keeps.get.bind fun _ => (keeps_logIf _).bind fun _ => Keeps.modify fun s => h.commands s _

lemma command (strCmd strDesc : String) (func : State → CmdFunc) :
    Keeps R (command env strCmd strDesc func) :=
  (keeps_mayThrow _).bind fun _ => Keeps.get.bind fun _ => h.addCmdCallback _ _ _

lemma registerCommands : Keeps R (registerCommands env) :=
  (h.command _ _ _).bind fun _ => (h.command _ _ _).bind fun _ => (h.command _ _ _).bind fun _ =>
    (h.command _ _ _).bind fun _ => h.command _ _ _

lemma startServer : Keeps R (startServer is_Server env) :=
  Keeps.get.bind fun s => by
    split_ifs
    · exact (keeps_mayThrow _).bind fun _ => (Keeps.modify h.license).bind fun _ =>
        (keeps_mayThrow _).bind fun _ => h.registerCommands.bind fun _ =>
        (Keeps.modify h.flag).bind fun _ => keeps_mayThrow _
    · exact Keeps.pure ()

end Serves

/-- The parts of `start` together. -/
lemma keeps_bringUp (hc : Calls R) (hs : Subscribes R) (hv : Serves R)
    (components : Value N.Double) : Keeps R (bringUp is_Server env components) :=
  Keeps.get.bind fun _ => (Keeps.forEach fun c _ => hc.initialiseComponent components c).bind
    fun _ => Keeps.get.bind fun _ => (Keeps.forEach fun c _ => hc.startComponent c).bind
    fun _ => hs.subscribeStop.bind fun _ => keeps_log.bind fun _ => hv.startServer.bind
    fun _ => Keeps.pure _

/-- What the handler leaves behind is what the body left. -/
lemma start_eq {s t : State} {b : Bool} (h : start L is_Server env s = .done b t) :
    startBody L is_Server env s = .done b t ∨
      b = false ∧ t.logger.isSome = true ∧ startBody L is_Server env s = .threw () t := by
  unfold start Prog.tryCatch at h
  cases hb : startBody L is_Server env s with
  | done c u => rw [hb] at h; exact .inl h
  | threw e u =>
    rw [hb] at h
    simp only [bind_apply, log_apply] at h
    split_ifs at h with hu
    · simp only [pure_apply, Out.done_bind, Out.done.injEq] at h
      obtain ⟨rfl, rfl⟩ := h
      exact .inr ⟨rfl, hu, rfl⟩
    · simp at h
  | stuck => rw [hb] at h; cases h

/-! ### What comes back with a value -/

section Done

variable {s t : State}

lemma log_done {a : Unit} (h : log s = .done a t) : t = s ∧ s.logger.isSome = true := by
  rw [log_apply] at h
  split_ifs at h with hs
  cases h
  exact ⟨rfl, hs⟩

lemma logIf_done {b : Bool} {a : Unit} (h : logIf b s = .done a t) : t = s := by
  unfold logIf at h
  split_ifs at h
  · exact (log_done h).1
  · cases h; rfl

lemma mayThrow_done {p : Point} {a : Unit} (h : mayThrow env p s = .done a t) : t = s := by
  unfold mayThrow at h
  split_ifs at h
  · cases h
  · cases h; rfl

lemma load_from_file_done {r : List UInt8 × Value N.Double}
    (h : load_from_file env s = .done r t) : t = s := by
  unfold load_from_file at h
  cases hc : env.config with
  | unopened => rw [hc] at h; cases h; rfl
  | unseekable => rw [hc] at h; cases h
  | contents str =>
    rw [hc] at h
    simp only at h
    rcases hl : load N str .null with ⟨_, _⟩ | _ | _ | _
    · rw [hl] at h; cases h; rfl
    all_goals rw [hl] at h; cases h

lemma stopComponents_apply (cs : List IComponent) (s : State) :
    forEach stopComponent cs s =
      .done () { s with calls := s.calls ++ cs.map fun c => (c.id, .stop) } := by
  induction cs generalizing s with
  | nil => simp
  | cons c cs ih =>
    rw [forEach_cons, stopComponent, modify_apply, Out.done_bind, ih]
    simp

lemma unload_apply (s : State) :
    unload s = .done () { clear s with
      m_mapComponents := []
      m_libHandl := []
      calls := s.calls ++ s.m_mapComponents.map fun c => (c.id, .stop) } := by
  simp only [unload, bind_apply, get_apply, Out.done_bind, stopComponents_apply, modify_apply]
  rfl

/-- The components, the commands and the calls, and the number of objects made. -/
def kept (s : State) : List IComponent × (Key → Option (Key × CmdFunc)) × ℕ × List (ℕ × Call) :=
  (s.m_mapComponents, s.m_mapCmdFunc, s.made, s.calls)

lemma eventStop_kept : Keeps (Same kept) eventStop := by
  refine Keeps.get.bind fun s => Keeps.bind ?_ fun _ => Keeps.modify ?_
  · unfold joinThread
    split_ifs
    · exact Keeps.modify fun _ => rfl
    · exact Keeps.stuck
    · exact Keeps.pure ()
  · exact fun _ => rfl

lemma destroyInstances_kept : Keeps (Same kept) destroyInstances := by
  refine Keeps.get.bind fun _ => (keeps_nonNull _).bind fun _ => (keeps_nonNull _).bind fun _ =>
    keeps_log.bind fun _ => (Keeps.modify ?_).bind fun _ => (Keeps.modify ?_).bind fun _ =>
    (Keeps.modify ?_).bind fun _ => keeps_log.bind fun _ => Keeps.modify ?_
  all_goals exact fun _ => rfl

/-- What `stop` leaves, where it comes back. -/
lemma stop_done {a : Unit} (h : stop s = .done a t) :
    t.m_mapComponents = [] ∧ t.m_mapCmdFunc = (fun _ => none) ∧ t.made = s.made ∧
      t.calls = s.calls ++ s.m_mapComponents.map fun c => (c.id, .stop) := by
  obtain ⟨_, u, hevent, hunload⟩ := bind_eq_done.mp h
  obtain ⟨_, v, hv, hdestroy⟩ := bind_eq_done.mp hunload
  have hu := eventStop_kept.done hevent
  have ht := destroyInstances_kept.done hdestroy
  rw [unload_apply] at hv
  cases hv
  simp only [Same, kept, clear, Prod.mk.injEq] at hu ht
  obtain ⟨hcomponents, -, hmade, hcalls⟩ := hu
  exact ⟨ht.1, ht.2.1, ht.2.2.1.trans hmade, by rw [ht.2.2.2, hcalls, hcomponents]⟩

lemma step_done {a : Action N} (h : step L is_Server s a = some t) :
    ∃ b, act L is_Server a s = .done b t := by
  unfold step at h
  split at h
  next hd => cases h; exact ⟨_, hd⟩
  · cases h

end Done

/-! ### What is made stays -/

/-- The singletons and the event thread of the first state are those of the second. -/
structure Stays (s t : State) : Prop where
  logger : ∀ x, s.logger = some x → t.logger = some x
  chunk : ∀ x, s.chunk = some x → t.chunk = some x
  small : ∀ x, s.small = some x → t.small = some x
  pool : ∀ x, s.pool = some x → t.pool = some x
  thread : s.m_future = true → t.m_future = true

instance instIsPreorderStays : IsPreorder State Stays where
  refl _ := ⟨fun _ => id, fun _ => id, fun _ => id, fun _ => id, id⟩
  trans _ _ _ h g :=
    ⟨fun x hx => g.logger x (h.logger x hx), fun x hx => g.chunk x (h.chunk x hx),
      fun x hx => g.small x (h.small x hx), fun x hx => g.pool x (h.pool x hx),
      fun hx => g.thread (h.thread hx)⟩

/-- A change of other fields. -/
lemma Stays.of_eq {s t : State} (hl : t.logger = s.logger) (hc : t.chunk = s.chunk)
    (hs : t.small = s.small) (hp : t.pool = s.pool) (hf : t.m_future = s.m_future) :
    Stays s t := by
  refine ⟨?_, ?_, ?_, ?_, ?_⟩
  · rw [hl]; exact fun _ => id
  · rw [hc]; exact fun _ => id
  · rw [hs]; exact fun _ => id
  · rw [hp]; exact fun _ => id
  · rw [hf]; exact id

lemma stays_loads : Loads Stays where
  logger s x h := { refl_of Stays s with logger := fun y hy => by rw [h] at hy; cases hy }
  chunk s x h := { refl_of Stays s with chunk := fun y hy => by rw [h] at hy; cases hy }
  small s x h := { refl_of Stays s with small := fun y hy => by rw [h] at hy; cases hy }
  pool s x h := { refl_of Stays s with pool := fun y hy => by rw [h] at hy; cases hy }
  raise _ := .of_eq rfl rfl rfl rfl rfl
  thread s _ := { refl_of Stays s with thread := fun _ => rfl }
  component _ _ _ := .of_eq rfl rfl rfl rfl rfl
  handles _ _ := .of_eq rfl rfl rfl rfl rfl

lemma stays_serves : Serves Stays where
  license _ := .of_eq rfl rfl rfl rfl rfl
  commands _ _ := .of_eq rfl rfl rfl rfl rfl
  flag _ := .of_eq rfl rfl rfl rfl rfl

lemma stays_subscribes : Subscribes Stays where
  func _ := .of_eq rfl rfl rfl rfl rfl
  topic _ _ := .of_eq rfl rfl rfl rfl rfl

lemma stays_calls : Calls Stays where
  request r := by
    cases r with
    | addCmdCallback strCmd strDesc func => exact stays_serves.addCmdCallback strCmd strDesc _
    | addComponetLogWrapper _ _ => exact Keeps.modify fun _ => .of_eq rfl rfl rfl rfl rfl
    | addTimerCallback _ => exact Keeps.modify fun _ => .of_eq rfl rfl rfl rfl rfl
    | addTimerCallbackWk _ => exact Keeps.modify fun _ => .of_eq rfl rfl rfl rfl rfl
    | addFunc _ _ => exact Keeps.modify fun _ => .of_eq rfl rfl rfl rfl rfl
  calls _ _ := .of_eq rfl rfl rfl rfl rfl

section Slots

variable {D : Type} {jsonRoot : Value D} {c : Slot} {s t : State}

lemma isThere_make (hc : c ∈ slots jsonRoot) (s : State) : c.isThere (c.make s) = true := by
  simp only [slots, List.mem_cons, List.not_mem_nil, or_false] at hc
  rcases hc with rfl | rfl | rfl | rfl <;> rfl

lemma Stays.isThere (h : Stays s t) (hc : c ∈ slots jsonRoot) (hs : c.isThere s = true) :
    c.isThere t = true := by
  simp only [slots, List.mem_cons, List.not_mem_nil, or_false] at hc
  rcases hc with rfl | rfl | rfl | rfl
  · obtain ⟨x, hx⟩ := Option.isSome_iff_exists.mp hs
    exact Option.isSome_iff_exists.mpr ⟨x, h.logger x hx⟩
  · obtain ⟨x, hx⟩ := Option.isSome_iff_exists.mp hs
    exact Option.isSome_iff_exists.mpr ⟨x, h.chunk x hx⟩
  · obtain ⟨x, hx⟩ := Option.isSome_iff_exists.mp hs
    exact Option.isSome_iff_exists.mpr ⟨x, h.small x hx⟩
  · obtain ⟨x, hx⟩ := Option.isSome_iff_exists.mp hs
    exact Option.isSome_iff_exists.mpr ⟨x, h.pool x hx⟩

end Slots

/-! ### What a start that gets to the components has made -/

section Prepared

variable {s t : State}

/-- The singletons are there when they are through. -/
lemma initInstances_there {jsonRoot : Value N.Double} {cs : List Slot} {a : Unit}
    (hcs : ∀ c ∈ cs, c ∈ slots jsonRoot) (h : forEach (initInstance env) cs s = .done a t) :
    ∀ c ∈ cs, c.isThere t = true := by
  induction cs generalizing s with
  | nil => exact fun c hc => by cases hc
  | cons c cs ih =>
    obtain ⟨_, u, hu, hrest⟩ := bind_eq_done.mp h
    have hthere : c.isThere u = true := by
      obtain ⟨_, _, hget, hu⟩ := bind_eq_done.mp hu
      cases hget
      split_ifs at hu with hc
      · cases hu; exact hc
      · obtain ⟨_, v, hv, hmake⟩ := bind_eq_done.mp hu
        obtain rfl := mayThrow_done hv
        cases hmake
        exact isThere_make (hcs c List.mem_cons_self) v
    have hkeeps : Keeps Stays (forEach (initInstance env) cs) :=
      Keeps.forEach fun d hd => stays_loads.initInstance (hcs d (.tail _ hd))
    intro d hd
    rcases List.mem_cons.mp hd with rfl | hd
    · exact (hkeeps.done hrest).isThere (hcs d List.mem_cons_self) hthere
    · exact ih (fun e he => hcs e (.tail _ he)) hrest d hd

lemma eventStart_done {a : Unit} (h : eventStart env s = .done a t) :
    s.m_future = false ∧ t = { s with m_bTheadRun := true, m_future := true } := by
  obtain ⟨_, _, hset, hmake⟩ := bind_eq_done.mp h
  cases hset
  obtain ⟨_, u, hu, hjoin⟩ := bind_eq_done.mp hmake
  obtain rfl := mayThrow_done hu
  obtain ⟨_, _, hget, hjoin⟩ := bind_eq_done.mp hjoin
  cases hget
  split_ifs at hjoin with hf
  · cases hjoin
  · cases hjoin
    exact ⟨by simpa using hf, rfl⟩

/-- What a start that gets to the components has made. -/
lemma prepare_done {components : Value N.Double}
    (h : prepare L env s = .done (some components) t) :
    s.m_future = false ∧ t.m_future = true ∧
      t.small.isSome = true ∧ t.chunk.isSome = true ∧ t.pool.isSome = true := by
  obtain ⟨⟨strErr, jsonRoot⟩, u, hu, hgo⟩ := bind_eq_done.mp h
  obtain rfl := load_from_file_done hu
  simp only at hgo
  split_ifs at hgo
  · cases hgo
  · obtain ⟨_, v, hv, hlog⟩ := bind_eq_done.mp hgo
    obtain ⟨_, w, hw, hevent⟩ := bind_eq_done.mp hlog
    obtain rfl := (log_done hw).1
    obtain ⟨_, x, hx, hload⟩ := bind_eq_done.mp hevent
    have hslots := initInstances_there (fun c (hc : c ∈ slots jsonRoot) => hc) hv
    have hmade : Stays u w := (Keeps.forEach fun c hc => stays_loads.initInstance hc).done hv
    have hloaded : Stays x t := (stays_loads.loadComponents jsonRoot).done hload
    have hthread : Stays w x := stays_loads.eventStart.done hx
    have hthere : ∀ c ∈ slots jsonRoot, c.isThere t = true := fun c hc =>
      hloaded.isThere hc (hthread.isThere hc (hslots c hc))
    obtain ⟨hf, rfl⟩ := eventStart_done hx
    refine ⟨?_, hloaded.thread rfl, hthere (smallSlot jsonRoot) (by simp [slots]),
      hthere (chunkSlot jsonRoot) (by simp [slots]), hthere (poolSlot jsonRoot) (by simp [slots])⟩
    cases hu : u.m_future with
    | false => rfl
    | true => rw [hmade.thread hu] at hf; cases hf

end Prepared

end MmrService.Framework
