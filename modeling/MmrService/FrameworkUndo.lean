import MmrService.FrameworkFrame
import MmrService.JsonBounds

/-!
What a start that returns false leaves behind.

Nothing that `start` has made is taken back on any of its ways out. So a failed start leaves
nothing only where it fails on the first thing it would have made.
-/

namespace MmrService.Framework

open Effect Effect.Prog Json

/-! ### What is undone, and when -/

/-- Nothing is left of what was not there before. -/
structure Undone (s t : State) : Prop where
  thread : t.m_future = true → s.m_future = true
  handles : ∀ h ∈ t.m_libHandl, h ∈ s.m_libHandl
  logger : s.logger = none → t.logger = none
  chunk : s.chunk = none → t.chunk = none
  small : s.small = none → t.small = none
  pool : s.pool = none → t.pool = none

variable {N : Numbers} {L : Layout} {is_Server : Bool} {env : Env N} {s t : State}

/-- The root `start` goes on with. -/
def root (env : Env N) : Option (Value N.Double) :=
  match env.config with
  | .contents str =>
    match load N str .null with
    | .ok (strErr, jsonRoot) _ =>
      if jsonRoot.IsNull || decide (strErr ≠ []) then none else some jsonRoot
    | _ => none
  | _ => none

/-- The configuration cannot be read, or the first thing cannot be made: the first of the
singletons that is missing, or the event thread if none is. -/
def FirstFails (env : Env N) (s : State) : Prop :=
  match root env with
  | none => True
  | some jsonRoot =>
    match (slots jsonRoot).find? fun c => !c.isThere s with
    | some c => env.throws c.point = true
    | none => env.throws .eventThread = true

lemma Undone.of_eq (hf : t.m_future = s.m_future) (hh : t.m_libHandl = s.m_libHandl)
    (hl : t.logger = s.logger) (hc : t.chunk = s.chunk) (hs : t.small = s.small)
    (hp : t.pool = s.pool) : Undone s t :=
  ⟨by rw [hf]; exact id, by rw [hh]; exact fun _ => id, by rw [hl]; exact id,
    by rw [hc]; exact id, by rw [hs]; exact id, by rw [hp]; exact id⟩

lemma Undone.isThere {D : Type} {jsonRoot : Value D} {c : Slot} (h : Undone s t)
    (hc : c ∈ slots jsonRoot) (ht : c.isThere t = true) : c.isThere s = true := by
  have key : ∀ {π : Type} {p q : Option π}, (p = none → q = none) → q.isSome = true →
      p.isSome = true := by
    intro π p q hpq hq
    cases p with
    | none => rw [hpq rfl] at hq; exact hq
    | some x => rfl
  simp only [slots, List.mem_cons, List.not_mem_nil, or_false] at hc
  rcases hc with rfl | rfl | rfl | rfl
  · exact key h.logger ht
  · exact key h.chunk ht
  · exact key h.small ht
  · exact key h.pool ht

/-- What follows the event thread. -/
def goOn (L : Layout) (is_Server : Bool) (env : Env N) (jsonRoot : Value N.Double) : Prog Bool := do
  let components ← loadComponents L env jsonRoot
  match components with
  | none => pure false
  | some components => bringUp is_Server env components

lemma goOn_stays (jsonRoot : Value N.Double) : Keeps Stays (goOn L is_Server env jsonRoot) :=
  (stays_loads.loadComponents _).bind fun components => by
    cases components with
    | none => exact Keeps.pure _
    | some components => exact keeps_bringUp stays_calls stays_subscribes stays_serves components

/-- Without a root `load_from_file` throws, or there is nothing to go on with. -/
lemma load_from_file_none (h : root env = none) (s : State) :
    (load_from_file env s).Post
      (fun r t => t = s ∧ (r.2.IsNull || decide (r.1 ≠ [])) = true) fun _ t => t = s := by
  unfold root at h
  unfold load_from_file
  cases hc : env.config with
  | unopened => exact ⟨rfl, rfl⟩
  | unseekable => exact rfl
  | contents str =>
    rw [hc] at h
    simp only at h ⊢
    rcases hl : load N str .null with ⟨⟨strErr, jsonRoot⟩, o⟩ | _ | _ | _
    · rw [hl] at h
      simp only at h
      split_ifs at h with hn
      exact ⟨rfl, hn⟩
    · trivial
    · trivial
    · trivial

lemma load_from_file_some {jsonRoot : Value N.Double} (h : root env = some jsonRoot) (s : State) :
    ∃ strErr, load_from_file env s = .done (strErr, jsonRoot) s ∧
      (jsonRoot.IsNull || decide (strErr ≠ [])) = false := by
  unfold root at h
  unfold load_from_file
  cases hc : env.config with
  | unopened => rw [hc] at h; cases h
  | unseekable => rw [hc] at h; cases h
  | contents str =>
    rw [hc] at h
    simp only at h ⊢
    rcases hl : load N str .null with ⟨⟨strErr, jsonRoot⟩, o⟩ | _ | _ | _
    · rw [hl] at h
      simp only at h
      split_ifs at h with hn
      cases h
      exact ⟨strErr, rfl, Bool.eq_false_iff.mpr hn⟩
    all_goals rw [hl] at h; cases h

/-- Without a root the state is left as it was. -/
lemma startBody_none (h : root env = none) (s : State) :
    (startBody L is_Server env s).Post (fun _ t => t = s) fun _ t => t = s := by
  have hl := load_from_file_none h s
  rw [startBody, bind_apply, prepare, bind_apply]
  cases hr : load_from_file env s with
  | done r u =>
    obtain ⟨strErr, jsonRoot⟩ := r
    rw [hr] at hl
    obtain ⟨rfl, hn⟩ := hl
    simp only [Out.done_bind, if_pos hn, pure_apply]
    rfl
  | threw e u => rw [hr] at hl; exact hl
  | stuck => trivial

/-- With a root the singletons are made first, then the event thread. -/
lemma startBody_some {jsonRoot : Value N.Double} (h : root env = some jsonRoot) (s : State) :
    startBody L is_Server env s =
      (forEach (initInstance env) (slots jsonRoot) s).bind fun _ u => (log u).bind fun _ v =>
        (eventStart env v).bind fun _ w => goOn L is_Server env jsonRoot w := by
  obtain ⟨strErr, hl, hn⟩ := load_from_file_some h s
  rw [startBody, bind_apply, prepare, bind_apply, hl, Out.done_bind]
  simp only [hn, Bool.false_eq_true, if_false, bind_apply, Out.bind_assoc]
  rfl

/-- The singletons: all there, or the first one that is missing fails, or it is made and the
others are made on top of it. -/
lemma initInstances_spec (env : Env N) {jsonRoot : Value N.Double} {cs : List Slot}
    (hcs : ∀ c ∈ cs, c ∈ slots jsonRoot) (s : State) :
    match cs.find? fun c => !c.isThere s with
    | none => forEach (initInstance env) cs s = .done () s
    | some c =>
      if env.throws c.point then forEach (initInstance env) cs s = .threw () s
      else (forEach (initInstance env) cs s).Post (fun _ t => Stays (c.make s) t)
        fun _ t => Stays (c.make s) t := by
  induction cs with
  | nil => rfl
  | cons c cs ih =>
    rw [forEach_cons]
    by_cases hc : c.isThere s = true
    · have hinit : initInstance env c s = .done () s := by simp [initInstance, hc]
      rw [List.find?_cons_of_neg (by simpa using hc), hinit]
      exact ih fun d hd => hcs d (.tail _ hd)
    · rw [List.find?_cons_of_pos (by simpa using hc)]
      by_cases hp : env.throws c.point = true
      · have hinit : initInstance env c s = .threw () s := by simp [initInstance, mayThrow, hc, hp]
        simp [hp, hinit]
      · have hinit : initInstance env c s = .done () (c.make s) := by
          simp [initInstance, mayThrow, hc, hp]
        simp only [hp, hinit, Out.done_bind]
        exact Keeps.forEach (fun d hd => stays_loads.initInstance (hcs d (.tail _ hd))) (c.make s)

/-- The event thread is made, and is there from then on, or the state is left but for the flag. -/
lemma thread_spec (jsonRoot : Value N.Double) (s : State) :
    ((eventStart env s).bind fun _ w => goOn L is_Server env jsonRoot w).Post
      (fun _ t => env.throws .eventThread = false ∧ s.m_future = false ∧ t.m_future = true)
      fun _ t => if env.throws .eventThread then t = { s with m_bTheadRun := true }
        else s.m_future = false ∧ t.m_future = true := by
  by_cases he : env.throws .eventThread = true
  · simp [eventStart, mayThrow, he]
  · cases hf : s.m_future with
    | true => simp [eventStart, mayThrow, he, hf]
    | false =>
      have hs : eventStart env s = .done () { s with m_bTheadRun := true, m_future := true } := by
        simp [eventStart, mayThrow, he, hf]
      rw [hs, Out.done_bind]
      refine (goOn_stays jsonRoot _).imp (fun _ t ht => ?_) fun _ t ht => ?_
      · exact ⟨by simpa using he, rfl, ht.thread rfl⟩
      · rw [if_neg he]
        exact ⟨rfl, ht.thread rfl⟩

/-- Whatever comes back from the body of `start`. -/
lemma startBody_undone (L : Layout) (is_Server : Bool) (env : Env N) (s : State) :
    (startBody L is_Server env s).Post (fun _ t => Undone s t ↔ FirstFails env s)
      fun _ t => Undone s t ↔ FirstFails env s := by
  cases hr : root env with
  | none =>
    have hfirst : FirstFails env s := by rw [FirstFails, hr]; trivial
    refine (startBody_none hr s).imp (fun _ t ht => ?_) fun _ t ht => ?_
    all_goals exact iff_of_true (.of_eq (by rw [ht]) (by rw [ht]) (by rw [ht]) (by rw [ht])
      (by rw [ht]) (by rw [ht])) hfirst
  | some jsonRoot =>
    have hslots := initInstances_spec env (fun c (hc : c ∈ slots jsonRoot) => hc) s
    rw [startBody_some hr]
    cases hfind : (slots jsonRoot).find? fun c => !c.isThere s with
    | none =>
      -- nothing is missing, and the event thread is the first thing to be made
      have hfirst : FirstFails env s ↔ env.throws .eventThread = true := by
        rw [FirstFails, hr]; simp only [hfind]
      rw [hfind] at hslots
      simp only at hslots
      rw [hslots, Out.done_bind, log_apply]
      split_ifs with hl
      · rw [Out.done_bind]
        refine (thread_spec jsonRoot s).imp (fun _ t ht => ?_) fun _ t ht => ?_
        · refine iff_of_false (fun hu => ?_) (by rw [hfirst, ht.1]; simp)
          rw [hu.thread ht.2.2] at ht
          exact absurd ht.2.1 (by simp)
        · split_ifs at ht with he
          · subst ht
            exact iff_of_true (.of_eq rfl rfl rfl rfl rfl rfl) (hfirst.mpr he)
          · refine iff_of_false (fun hu => ?_) (by rw [hfirst]; exact he)
            rw [hu.thread ht.2] at ht
            exact absurd ht.1 (by simp)
      · trivial
    | some c =>
      have hmem := List.mem_of_find?_eq_some hfind
      have hmissing : ¬ c.isThere s = true := by simpa using List.find?_some hfind
      have hfirst : FirstFails env s ↔ env.throws c.point = true := by
        rw [FirstFails, hr]; simp only [hfind]
      rw [hfind] at hslots
      simp only at hslots
      split_ifs at hslots with hp
      · rw [hslots]
        exact iff_of_true (.of_eq rfl rfl rfl rfl rfl rfl) (hfirst.mpr hp)
      · -- the first singleton is made, and stays
        have hleft : ∀ t, Stays (c.make s) t → (Undone s t ↔ FirstFails env s) := by
          intro t ht
          have hthere := ht.isThere hmem (isThere_make hmem s)
          exact iff_of_false (fun hu => hmissing (hu.isThere hmem hthere))
            (by rw [hfirst]; exact hp)
        refine Out.Post.bind (hslots.imp (fun _ _ => id) fun _ t ht => hleft t ht) fun _ u hu => ?_
        have hrest : Keeps Stays (log >>= fun _ => eventStart env >>= fun _ =>
            goOn L is_Server env jsonRoot) :=
          keeps_log.bind fun _ => stays_loads.eventStart.bind fun _ => goOn_stays jsonRoot
        exact (hrest u).imp (fun _ t ht => hleft t (trans_of Stays hu ht))
          fun _ t ht => hleft t (trans_of Stays hu ht)

/-- **Exactly the starts that fail on the first thing they make leave nothing behind.** -/
theorem start_undone_iff (h : start L is_Server env s = .done false t) :
    Undone s t ↔ FirstFails env s := by
  have hpost := startBody_undone L is_Server env s
  rcases start_eq h with hb | ⟨-, -, hb⟩
  · rw [hb] at hpost; exact hpost
  · rw [hb] at hpost; exact hpost

/-- An object without members: the `Components` are missing. -/
def noComponents : Env lp64 where
  strConfigPath := []
  config := .contents [lbrace, rbrace]
  throws _ := false
  dlopen _ := none
  initialise _ _ := ⟨[], .ret true⟩
  start _ := ⟨[], .ret true⟩

lemma noComponents_fails :
    ∃ t, start inOrder true noComponents init = .done false t ∧ t.m_future = true := ⟨_, rfl, rfl⟩

theorem noComponents_undone_iff :
    ∃ t, start inOrder true noComponents init = .done false t ∧
      (Undone init t ↔ FirstFails noComponents init) := by
  obtain ⟨t, h, -⟩ := noComponents_fails
  exact ⟨t, h, start_undone_iff h⟩

/-- The event thread runs on, with nothing to stop it. -/
theorem noComponents_not_undone :
    ∃ t, start inOrder true noComponents init = .done false t ∧ ¬ Undone init t := by
  obtain ⟨t, h, ht⟩ := noComponents_fails
  exact ⟨t, h, fun hu => Bool.false_ne_true (hu.thread ht)⟩

end MmrService.Framework
