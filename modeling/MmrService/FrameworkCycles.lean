import MmrService.FrameworkFrame
import MmrService.JsonBounds

/-!
The state after each successful start of one framework.

The built-in commands, the run flag and the licence are set up where no licence control is
there yet. `stop` takes the commands away and leaves the licence control, so of all starts it
is the first ones only, up to the one that makes it, that find none.
-/

namespace MmrService.Framework

open Effect Effect.Prog Json Transition

/-- What a command is bound to. -/
def bound (s : State) (strCmd : String) : Option CmdFunc :=
  (s.m_mapCmdFunc (text strCmd)).map Prod.snd

/-- The run flag is set, the built-in commands are bound to what is there, and `stop` events
reach the framework. -/
structure Ready (s : State) : Prop where
  flag : s.bRunflag = true
  lg : bound s "-lg" = some .loggerCtrl
  lc : ∃ i, s.ptrLicenseCtrl = some i ∧ bound s "-lc" = some (.licenseCtrl (some i))
  sa : ∃ i, s.small = some i ∧ bound s "-sa" = some (.smallAllocator (some i.id))
  ca : ∃ i, s.chunk = some i ∧ bound s "-ca" = some (.chunkAllocator (some i.id))
  tp : ∃ i, s.pool = some i ∧ bound s "-tp" = some (.threadPool (some i.id))
  stop : ∃ p, s.ptrFunc = some p ∧ .framework p ∈ s.m_mapFuncs (text "stop")

/-- Every command is one of a component. -/
def OwnOnly (s : State) : Prop :=
  ∀ k d f, s.m_mapCmdFunc k = some (d, f) → ∃ i, f = .component i

/-- No licence control is made, and no built-in command. -/
structure Unserved (s t : State) : Prop where
  license : t.ptrLicenseCtrl = s.ptrLicenseCtrl
  own : OwnOnly s → OwnOnly t

instance instIsPreorderUnserved : IsPreorder State Unserved where
  refl _ := ⟨rfl, id⟩
  trans _ _ _ h g := ⟨g.license.trans h.license, fun hs => g.own (h.own hs)⟩

lemma unserved_loads : Loads Unserved where
  logger _ _ _ := ⟨rfl, id⟩
  chunk _ _ _ := ⟨rfl, id⟩
  small _ _ _ := ⟨rfl, id⟩
  pool _ _ _ := ⟨rfl, id⟩
  raise _ := ⟨rfl, id⟩
  thread _ _ := ⟨rfl, id⟩
  component _ _ _ := ⟨rfl, id⟩
  handles _ _ := ⟨rfl, id⟩

lemma unserved_subscribes : Subscribes Unserved where
  func _ := ⟨rfl, id⟩
  topic _ _ := ⟨rfl, id⟩

lemma OwnOnly.update {s : State} (h : OwnOnly s) (strCmd strDesc : Key) (func : ℕ) :
    OwnOnly { s with m_mapCmdFunc :=
      Function.update s.m_mapCmdFunc strCmd (some (strDesc, .component func)) } := by
  intro k d f hk
  by_cases he : k = strCmd
  · subst he
    simp only [Function.update_self, Option.some.injEq, Prod.mk.injEq] at hk
    exact ⟨func, hk.2.symm⟩
  · simp only [Function.update_of_ne he] at hk
    exact h k d f hk

lemma unserved_calls : Calls Unserved where
  request r := by
    cases r with
    | addCmdCallback strCmd strDesc func =>
      exact Keeps.get.bind fun s => (keeps_logIf _).bind fun _ =>
        Keeps.modify fun s => ⟨rfl, fun h => h.update strCmd strDesc func⟩
    | addComponetLogWrapper _ _ => exact Keeps.modify fun _ => ⟨rfl, id⟩
    | addTimerCallback _ => exact Keeps.modify fun _ => ⟨rfl, id⟩
    | addTimerCallbackWk _ => exact Keeps.modify fun _ => ⟨rfl, id⟩
    | addFunc _ _ => exact Keeps.modify fun _ => ⟨rfl, id⟩
  calls _ _ := ⟨rfl, id⟩

variable {N : Numbers} {L : Layout} {is_Server : Bool} {env : Env N} {s t : State}

/-! ### The first start of a server -/

lemma command_done {strCmd strDesc : String} {func : State → CmdFunc} {a : Unit}
    (h : command env strCmd strDesc func s = .done a t) :
    t = { s with m_mapCmdFunc :=
      Function.update s.m_mapCmdFunc (text strCmd) (some (text strDesc, func s)) } := by
  obtain ⟨_, u, hu, hadd⟩ := bind_eq_done.mp h
  obtain rfl := mayThrow_done hu
  simp only [bind_apply, get_apply, Out.done_bind, addCmdCallback] at hadd
  cases hw : logIf (u.m_mapCmdFunc (text strCmd)).isSome u with
  | done b v =>
    obtain rfl := logIf_done hw
    rw [hw] at hadd
    cases hadd
    rfl
  | threw e v => rw [hw] at hadd; cases hadd
  | stuck => rw [hw] at hadd; cases hadd

/-- The commands are registered one after another. -/
lemma registerCommands_done {a : Unit} (h : registerCommands env s = .done a t) :
    ∃ m, t = { s with m_mapCmdFunc := m } ∧
      bound t "-lg" = some .loggerCtrl ∧
      bound t "-lc" = some (.licenseCtrl s.ptrLicenseCtrl) ∧
      bound t "-sa" = some (.smallAllocator (s.small.map Instance.id)) ∧
      bound t "-ca" = some (.chunkAllocator (s.chunk.map Instance.id)) ∧
      bound t "-tp" = some (.threadPool (s.pool.map Instance.id)) := by
  obtain ⟨_, _, h1, hc⟩ := bind_eq_done.mp h
  obtain ⟨_, _, h2, hs⟩ := bind_eq_done.mp hc
  obtain ⟨_, _, h3, ha⟩ := bind_eq_done.mp hs
  obtain ⟨_, _, h4, h5⟩ := bind_eq_done.mp ha
  obtain rfl := command_done h1
  obtain rfl := command_done h2
  obtain rfl := command_done h3
  obtain rfl := command_done h4
  obtain rfl := command_done h5
  exact ⟨_, rfl, rfl, rfl, rfl, rfl, rfl⟩

/-- The topic of the framework is kept by what is done after the subscription. -/
structure Subscribed (s : State) : Prop where
  small : s.small.isSome = true
  chunk : s.chunk.isSome = true
  pool : s.pool.isSome = true
  stop : ∃ p, s.ptrFunc = some p ∧ .framework p ∈ s.m_mapFuncs (text "stop")

lemma startServer_first {a : Unit} (h : startServer true env s = .done a t)
    (hnone : s.ptrLicenseCtrl = none) (hs : Subscribed s) : Ready t := by
  obtain ⟨_, _, hget, hserve⟩ := bind_eq_done.mp h
  cases hget
  rw [hnone] at hserve
  obtain ⟨_, u, hu, hmake⟩ := bind_eq_done.mp hserve
  obtain rfl := mayThrow_done hu
  obtain ⟨_, _, hset, hinit⟩ := bind_eq_done.mp hmake
  cases hset
  obtain ⟨_, v, hv, hreg⟩ := bind_eq_done.mp hinit
  obtain rfl := mayThrow_done hv
  obtain ⟨_, w, hw, hflag⟩ := bind_eq_done.mp hreg
  obtain ⟨m, rfl, hlg, hlc, hsa, hca, htp⟩ := registerCommands_done hw
  obtain ⟨_, _, hset, hdeal⟩ := bind_eq_done.mp hflag
  cases hset
  obtain rfl := mayThrow_done hdeal
  obtain ⟨i, hi⟩ := Option.isSome_iff_exists.mp hs.small
  obtain ⟨j, hj⟩ := Option.isSome_iff_exists.mp hs.chunk
  obtain ⟨k, hk⟩ := Option.isSome_iff_exists.mp hs.pool
  refine ⟨rfl, hlg, ⟨_, rfl, hlc⟩, ⟨i, hi, ?_⟩, ⟨j, hj, ?_⟩, ⟨k, hk, ?_⟩, hs.stop⟩
  · rw [hi] at hsa; exact hsa
  · rw [hj] at hca; exact hca
  · rw [hk] at htp; exact htp

lemma startServer_later {a : Unit} (h : startServer is_Server env s = .done a t)
    (hsome : s.ptrLicenseCtrl ≠ none) : t = s := by
  obtain ⟨i, hi⟩ := Option.ne_none_iff_exists'.mp hsome
  simp only [startServer, bind_apply, get_apply, Out.done_bind, hi, Option.isNone_some,
    Bool.and_false, Bool.false_eq_true, if_false] at h
  cases h
  rfl

lemma subscribeStop_done {a : Unit} (h : subscribeStop env s = .done a t) :
    ∃ p, t.ptrFunc = some p ∧ .framework p ∈ t.m_mapFuncs (text "stop") := by
  obtain ⟨_, u, hu, hsub⟩ := bind_eq_done.mp h
  obtain rfl := mayThrow_done hu
  simp only [bind_apply, get_apply, modify_apply, Out.done_bind, addFunc] at hsub
  cases hsub
  exact ⟨_, rfl, by simp⟩

/-! ### A successful start -/

/-- A start that succeeds has subscribed the framework, and comes to the server part last. -/
lemma start_done (h : start L is_Server env s = .done true t) :
    ∃ u, s.m_future = false ∧ Unserved s u ∧ Subscribed u ∧
      startServer is_Server env u = .done () t := by
  have hbody : startBody L is_Server env s = .done true t := by
    rcases start_eq h with hb | ⟨hb, -⟩
    · exact hb
    · cases hb
  obtain ⟨r, u, hu, hgo⟩ := bind_eq_done.mp hbody
  cases r with
  | none => cases hgo
  | some components =>
    obtain ⟨hf, -, hsmall, hchunk, hpool⟩ := prepare_done hu
    obtain ⟨_, _, hget, hgo⟩ := bind_eq_done.mp hgo
    cases hget
    obtain ⟨_, v, hv, hgo⟩ := bind_eq_done.mp hgo
    obtain ⟨_, _, hget, hgo⟩ := bind_eq_done.mp hgo
    cases hget
    obtain ⟨_, w, hw, hgo⟩ := bind_eq_done.mp hgo
    obtain ⟨_, x, hx, hgo⟩ := bind_eq_done.mp hgo
    obtain ⟨_, y, hy, hlast⟩ := bind_eq_done.mp hgo
    obtain rfl := (log_done hy).1
    obtain ⟨_, z, hz, hret⟩ := bind_eq_done.mp hlast
    cases hret
    have hloops : ∀ {R : State → State → Prop} [IsPreorder State R], Calls R → Subscribes R →
        R u y := fun {R} _ hc hs =>
      trans_of R (trans_of R
        ((Keeps.forEach fun c _ => hc.initialiseComponent components c).done hv)
        ((Keeps.forEach fun c _ => hc.startComponent c).done hw))
        (hs.subscribeStop.done hx)
    have hstays : Stays u y := hloops stays_calls stays_subscribes
    have hthere : ∀ {π : Type} {p q : Option π}, p.isSome = true →
        (∀ y, p = some y → q = some y) → q.isSome = true := by
      intro π p q hp hpq
      obtain ⟨y, hy⟩ := Option.isSome_iff_exists.mp hp
      exact Option.isSome_iff_exists.mpr ⟨y, hpq y hy⟩
    refine ⟨y, hf, trans_of Unserved (unserved_loads.prepare.done hu)
      (hloops unserved_calls unserved_subscribes), ⟨hthere hsmall hstays.small,
      hthere hchunk hstays.chunk, hthere hpool hstays.pool, subscribeStop_done hx⟩, hz⟩

/-! ### Runs -/

/-- A licence control without the event thread comes with no built-in command: `stop` has been
called since it was made. -/
def Cleared (s : State) : Prop :=
  s.ptrLicenseCtrl = none ∨ s.m_future = true ∨ OwnOnly s

variable (L) in
/-- The claim on a start: if it succeeds, the state after it is `Ready`. -/
def ReadyAfter (s : State) (a : Action N) : Prop :=
  ∀ env t, a = .start env → start L true env s = .done true t → Ready t

variable (L) in
/-- A start that succeeds is the first one that comes to the licence control. -/
def FirstServed (s : State) (a : Action N) : Prop :=
  ∀ env t, a = .start env → start L true env s = .done true t → s.ptrLicenseCtrl = none

lemma not_ready_of_own (h : OwnOnly s) : ¬ Ready s := by
  intro hr
  have hlg := hr.lg
  unfold bound at hlg
  obtain ⟨⟨d, f⟩, hf, he⟩ := Option.map_eq_some_iff.mp hlg
  obtain ⟨i, hi⟩ := h _ _ _ hf
  rw [hi] at he
  cases he

lemma ready_iff_first (hs : Cleared s) (h : start L true env s = .done true t) :
    Ready t ↔ s.ptrLicenseCtrl = none := by
  obtain ⟨u, hf, hu, hsub, hserve⟩ := start_done h
  constructor
  · intro hready
    by_contra hsome
    have hsomeu : u.ptrLicenseCtrl ≠ none := by rw [hu.license]; exact hsome
    obtain rfl := startServer_later hserve hsomeu
    rcases hs with hs | hs | hs
    · exact hsome hs
    · rw [hf] at hs; cases hs
    · exact not_ready_of_own (hu.own hs) hready
  · intro hnone
    exact startServer_first hserve (hu.license.trans hnone) hsub

/-- A part of `start` that makes neither a licence control nor a built-in command. -/
lemma Cleared.of_unserved (h : Cleared s) (hu : Unserved s t) (hs : Stays s t) : Cleared t := by
  rcases h with h | h | h
  · exact .inl (hu.license.trans h)
  · exact .inr (.inl (hs.thread h))
  · exact .inr (.inr (hu.own h))

/-- Behind `prepare` the event thread is running. -/
lemma start_cleared {b : Bool} (hs : Cleared s) (h : start L is_Server env s = .done b t) :
    Cleared t := by
  have hprep : (prepare L env s).Post
      (fun r u => Cleared u ∧ (r.isSome = true → u.m_future = true)) fun _ u => Cleared u := by
    have hu : Keeps Unserved (prepare L env) := unserved_loads.prepare
    have hst : Keeps Stays (prepare L env) := stays_loads.prepare
    have hu := hu s
    have hst := hst s
    cases hp : prepare L env s with
    | done r u =>
      rw [hp] at hu hst
      refine ⟨hs.of_unserved hu hst, fun hr => ?_⟩
      obtain ⟨components, rfl⟩ := Option.isSome_iff_exists.mp hr
      exact (prepare_done hp).2.1
    | threw e u => rw [hp] at hu hst; exact hs.of_unserved hu hst
    | stuck => trivial
  have hbody : (startBody L is_Server env s).Post (fun _ u => Cleared u) fun _ u => Cleared u := by
    refine Out.Post.bind hprep fun r u hu => ?_
    cases r with
    | none => exact hu.1
    | some components =>
      have hbring : Keeps Stays (bringUp is_Server env components) :=
        keeps_bringUp stays_calls stays_subscribes stays_serves components
      exact (hbring u).imp (fun _ v hv => .inr (.inl (hv.thread (hu.2 rfl))))
        fun _ v hv => .inr (.inl (hv.thread (hu.2 rfl)))
  rcases start_eq h with hb | ⟨-, -, hb⟩
  · rw [hb] at hbody; exact hbody
  · rw [hb] at hbody; exact hbody

lemma Cleared.step {a : Action N} (hs : Cleared s) (h : step L is_Server s a = some t) :
    Cleared t := by
  obtain ⟨_, hd⟩ := step_done h
  cases a with
  | start env =>
    obtain ⟨b, u, hstart, hret⟩ := bind_eq_done.mp hd
    cases hret
    exact start_cleared hs hstart
  | stop =>
    right; right
    intro k d f hk
    rw [(stop_done hd).2.1] at hk
    cases hk
  | addComponent strCompName =>
    exact hs.of_unserved ((unserved_loads.registComponent _).done hd)
      ((stays_loads.registComponent _).done hd)
  | request r =>
    exact hs.of_unserved ((unserved_calls.request r).done hd) ((stays_calls.request r).done hd)
  | lowerRunflag => cases hd; exact hs

/-- **A successful start leaves the framework ready exactly when it is the first to come to the
licence control.** -/
theorem readyAfter_iff (as : List (Action N)) :
    Always (step L true) (fun _ => ReadyAfter L) init as ↔
      Always (step L true) (fun _ => FirstServed L) init as := by
  refine always_congr (I := fun _ => Cleared) (.inl rfl) (fun _ s a t hs _ h => hs.step h) ?_ as
  intro _ s a hs
  refine forall₂_congr fun env t => forall₂_congr fun ha h => ?_
  exact ready_iff_first hs h

/-- No component at all. -/
def emptyComponents : Env lp64 where
  strConfigPath := []
  config := .contents
    ([lbrace, quote] ++ text "Components" ++ [quote, colon, lbrace, rbrace, rbrace])
  throws _ := false
  dlopen _ := none
  initialise _ _ := ⟨[], .ret true⟩
  start _ := ⟨[], .ret true⟩

/-- Whether a start succeeds, and what `-lg` is bound to then. -/
def outcome (s : State) : Option (Bool × Option CmdFunc) :=
  match start inOrder true emptyComponents s with
  | .done b t => some (b, bound t "-lg")
  | _ => none

lemma restart_outcome :
    (exec (step inOrder true) init [.start emptyComponents, .stop]).bind outcome =
      some (true, none) := by
  decide +kernel

/-- A start and a stop, and a start from the same file, which comes to an end without the
commands. -/
theorem restarted_not_ready :
    ∃ s t, exec (step inOrder true) init [.start emptyComponents, .stop] = some s ∧
      start inOrder true emptyComponents s = .done true t ∧ ¬ Ready t := by
  obtain ⟨s, hs, ho⟩ := Option.bind_eq_some_iff.mp restart_outcome
  unfold outcome at ho
  split at ho
  next b t ht =>
    simp only [Option.some.injEq, Prod.mk.injEq] at ho
    obtain ⟨rfl, hlg⟩ := ho
    refine ⟨s, t, hs, ht, fun h => ?_⟩
    rw [h.lg] at hlg
    cases hlg
  · cases ho

end MmrService.Framework
