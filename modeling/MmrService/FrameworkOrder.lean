import MmrService.FrameworkFrame
import MmrService.JsonBounds

/-!
The order of the lifecycle calls of each component.

The loops of `start` and `stop` go over all components, whatever came of the calls before. So
the calls of a component are in order where each loop finds that the one before it went well.
-/

namespace MmrService.Framework

open Effect Effect.Prog Json Transition

/-! ### The calls of one component -/

/-- The calls of a component among all calls. -/
def word (c : ℕ) (calls : List (ℕ × Call)) : List Call :=
  calls.filterMap fun e => if e.1 = c then some e.2 else none

/-- The order of the lifecycle: `initialise`, after true `start`, and after true `stop`. -/
inductive Legal : List Call → Prop
  | untouched : Legal []
  | initialised (r : Result) : Legal [.initialise r]
  | started (r : Result) : Legal [.initialise (.ret true), .start r]
  | stopped : Legal [.initialise (.ret true), .start (.ret true), .stop]

/-- Every component is called in order. -/
def Ordered (s : State) : Prop := ∀ c, Legal (word c s.calls)

@[simp] lemma word_nil (c : ℕ) : word c [] = [] := rfl

@[simp] lemma word_append (c : ℕ) (as bs : List (ℕ × Call)) :
    word c (as ++ bs) = word c as ++ word c bs := List.filterMap_append

lemma mem_word {c : ℕ} {a : Call} {calls : List (ℕ × Call)} :
    a ∈ word c calls ↔ (c, a) ∈ calls := by
  simp only [word, List.mem_filterMap]
  constructor
  · rintro ⟨⟨d, b⟩, he, hs⟩
    split_ifs at hs with hd
    cases hs
    exact hd ▸ he
  · exact fun h => ⟨(c, a), h, by simp⟩

lemma word_eq_nil {c : ℕ} {calls : List (ℕ × Call)} (h : ∀ e ∈ calls, e.1 ≠ c) :
    word c calls = [] :=
  List.filterMap_eq_nil_iff.mpr fun e he => if_neg (h e he)

/-- The calls of a component where each component made some of its own. -/
lemma word_flatMap {emit : IComponent → List (ℕ × Call)} (hemit : ∀ d, ∀ e ∈ emit d, e.1 = d.id)
    {cs : List IComponent} (hcs : (cs.map IComponent.id).Nodup) {c : IComponent} (hc : c ∈ cs) :
    word c.id (cs.flatMap emit) = (emit c).map Prod.snd := by
  have hown : word c.id (emit c) = (emit c).map Prod.snd := by
    rw [word, ← List.filterMap_eq_map]
    exact List.filterMap_congr fun e he => by simp [hemit c e he]
  induction cs with
  | nil => cases hc
  | cons d cs ih =>
    rw [List.map_cons, List.nodup_cons] at hcs
    rw [List.flatMap_cons, word_append]
    rcases List.mem_cons.mp hc with rfl | hc
    · rw [hown, word_eq_nil, List.append_nil]
      intro e he hid
      obtain ⟨b, hb, heb⟩ := List.mem_flatMap.mp he
      exact hcs.1 (List.mem_map.mpr ⟨b, hb, (hemit b e heb).symm.trans hid⟩)
    · rw [ih hcs.2 hc, word_eq_nil, List.nil_append]
      intro e he hid
      exact hcs.1 (List.mem_map.mpr ⟨c, hc, hid.symm.trans (hemit d e he)⟩)

lemma word_flatMap_other {emit : IComponent → List (ℕ × Call)}
    (hemit : ∀ d, ∀ e ∈ emit d, e.1 = d.id) {cs : List IComponent} {c : ℕ}
    (hc : ∀ d ∈ cs, d.id ≠ c) : word c (cs.flatMap emit) = [] := by
  refine word_eq_nil fun e he => ?_
  obtain ⟨d, hd, hed⟩ := List.mem_flatMap.mp he
  rw [hemit d e hed]
  exact hc d hd

/-! ### The loops -/

/-- What a loop comes to, up to the first whose call throws. -/
def reached (throws : IComponent → Bool) : List IComponent → List IComponent
  | [] => []
  | c :: cs => if throws c then [c] else c :: reached throws cs

lemma reached_sublist (throws : IComponent → Bool) (cs : List IComponent) :
    (reached throws cs).Sublist cs := by
  induction cs with
  | nil => exact .slnil
  | cons c cs ih =>
    rw [reached]
    split_ifs
    · exact (List.nil_sublist cs).cons_cons c
    · exact ih.cons_cons c

lemma reached_eq_self {throws : IComponent → Bool} {cs : List IComponent}
    (h : ∀ c ∈ cs, throws c = false) : reached throws cs = cs := by
  induction cs with
  | nil => rfl
  | cons c cs ih =>
    rw [reached, h c List.mem_cons_self, ih fun d hd => h d (.tail _ hd)]
    rfl

/-- The state has more calls, and the same components. -/
structure Adds (calls : List (ℕ × Call)) (s t : State) : Prop where
  calls : t.calls = s.calls ++ calls
  components : t.m_mapComponents = s.m_mapComponents
  made : t.made = s.made

lemma Adds.trans {s t u : State} {as bs : List (ℕ × Call)} (h : Adds as s t) (g : Adds bs t u) :
    Adds (as ++ bs) s u :=
  ⟨by rw [g.calls, h.calls, List.append_assoc], g.components.trans h.components,
    g.made.trans h.made⟩

lemma Adds.refl (s : State) : Adds [] s s := ⟨(List.append_nil _).symm, rfl, rfl⟩

/-- A loop over the components whose passes each add some calls and may throw. -/
lemma forEach_adds {f : IComponent → Prog Unit} {throws : IComponent → Bool}
    {emit : IComponent → List (ℕ × Call)}
    (hf : ∀ c s, (f c s).Post (fun _ t => throws c = false ∧ Adds (emit c) s t)
      fun _ t => throws c = true ∧ Adds (emit c) s t) (cs : List IComponent) (s : State) :
    (forEach f cs s).Post
      (fun _ t => (∀ c ∈ cs, throws c = false) ∧ Adds (cs.flatMap emit) s t)
      fun _ t => (∃ c ∈ cs, throws c = true) ∧ Adds ((reached throws cs).flatMap emit) s t := by
  induction cs generalizing s with
  | nil => exact ⟨by simp, .refl s⟩
  | cons c cs ih =>
    have hc := hf c s
    rw [forEach_cons]
    cases hs : f c s with
    | done a t =>
      rw [hs] at hc
      obtain ⟨hno, hadd⟩ := hc
      refine (ih t).imp (fun _ u hu => ⟨?_, ?_⟩) fun _ u hu => ⟨?_, ?_⟩
      · exact List.forall_mem_cons.mpr ⟨hno, hu.1⟩
      · exact hadd.trans hu.2
      · obtain ⟨d, hd, ht⟩ := hu.1
        exact ⟨d, .tail _ hd, ht⟩
      · rw [reached, hno]
        exact hadd.trans hu.2
    | threw e t =>
      rw [hs] at hc
      refine ⟨⟨c, List.mem_cons_self, hc.1⟩, ?_⟩
      rw [reached, hc.1, if_pos rfl, List.flatMap_singleton]
      exact hc.2
    | stuck => trivial

variable {N : Numbers} {L : Layout} {is_Server : Bool} {env : Env N}

/-- What a request leaves alone. -/
def quiet (s : State) : List (ℕ × Call) × List IComponent × ℕ :=
  (s.calls, s.m_mapComponents, s.made)

/-- A request does not throw. -/
lemma perform_quiet (r : Request) (s : State) :
    (perform r s).Post (fun _ t => quiet t = quiet s) fun _ _ => False := by
  cases r with
  | addCmdCallback strCmd strDesc func =>
    simp only [perform, addCmdCallback, bind_apply, get_apply, Out.done_bind, logIf]
    split_ifs
    · rw [log_apply]
      split_ifs
      · exact rfl
      · trivial
    · exact rfl
  | addComponetLogWrapper _ _ => exact rfl
  | addTimerCallback _ => exact rfl
  | addTimerCallbackWk _ => exact rfl
  | addFunc _ _ => exact rfl

lemma requests_quiet (rs : List Request) (s : State) :
    (forEach perform rs s).Post (fun _ t => quiet t = quiet s) fun _ _ => False := by
  induction rs generalizing s with
  | nil => exact rfl
  | cons r rs ih =>
    rw [forEach_cons]
    exact (perform_quiet r s).bind fun _ t ht =>
      (ih t).imp (fun _ u hu => Eq.trans hu ht) fun _ _ => id

/-- How a call of a component comes back. -/
lemma call_adds (c : IComponent) (b : Called) (how : Result → Call) (s : State) :
    (call c b how s).Post
      (fun ok t => b.result = .ret ok ∧ Adds [(c.id, how b.result)] s t)
      fun _ t => b.result = .threw ∧ Adds [(c.id, how b.result)] s t := by
  rw [call, bind_apply]
  refine ((requests_quiet b.requests s).imp (fun _ _ => id) fun _ _ => False.elim).bind
    fun _ t ht => ?_
  simp only [quiet, Prod.mk.injEq] at ht
  have hadd : Adds [(c.id, how b.result)] s
      { t with calls := t.calls ++ [(c.id, how b.result)] } := ⟨by rw [ht.1], ht.2.1, ht.2.2⟩
  rw [bind_apply, modify_apply, Out.done_bind]
  cases hr : b.result with
  | ret ok => rw [hr] at hadd; exact ⟨rfl, hadd⟩
  | threw => rw [hr] at hadd; exact ⟨rfl, hadd⟩

lemma log_post (s : State) : (log s).Post (fun _ t => t = s) fun _ _ => False := by
  rw [log_apply]
  split_ifs
  · exact rfl
  · trivial

/-- The calls of `initialise`, for the components the configuration names. -/
def initialises (env : Env N) (components : Value N.Double) (c : IComponent) :
    List (ℕ × Call) :=
  if components.hasKey c.name then
    [(c.id, .initialise (env.initialise c (components.atKey c.name)).result)]
  else []

def initialiseThrows (env : Env N) (components : Value N.Double) (c : IComponent) : Bool :=
  components.hasKey c.name &&
    decide ((env.initialise c (components.atKey c.name)).result = .threw)

lemma initialiseComponent_adds (env : Env N) (components : Value N.Double) (c : IComponent)
    (s : State) :
    (initialiseComponent env components c s).Post
      (fun _ t => initialiseThrows env components c = false ∧
        Adds (initialises env components c) s t)
      fun _ t => initialiseThrows env components c = true ∧
        Adds (initialises env components c) s t := by
  rw [initialiseComponent, initialiseThrows, initialises]
  cases hk : components.hasKey c.name with
  | false =>
    exact (log_post s).imp (fun _ t ht => ⟨rfl, ht ▸ .refl s⟩) fun _ _ => False.elim
  | true =>
    simp only [Bool.not_true, Bool.false_eq_true, if_false, if_true, Bool.true_and, bind_apply]
    refine ((call_adds c _ _ s).imp (fun _ _ => id) fun _ t ht => ?_).bind fun ok t ht => ?_
    · exact ⟨by simp [ht.1], ht.2⟩
    · exact (log_post t).imp (fun _ u hu => ⟨by simp [ht.1], hu ▸ ht.2⟩) fun _ _ => False.elim

/-- The call of `start`, for every component. -/
def starts (env : Env N) (c : IComponent) : List (ℕ × Call) := [(c.id, .start (env.start c).result)]

def startThrows (env : Env N) (c : IComponent) : Bool := decide ((env.start c).result = .threw)

lemma startComponent_adds (env : Env N) (c : IComponent) (s : State) :
    (startComponent env c s).Post
      (fun _ t => startThrows env c = false ∧ Adds (starts env c) s t)
      fun _ t => startThrows env c = true ∧ Adds (starts env c) s t := by
  rw [startComponent, startThrows, bind_apply]
  refine ((call_adds c _ _ s).imp (fun _ _ => id) fun _ t ht => ?_).bind fun ok t ht => ?_
  · exact ⟨by simp [ht.1], ht.2⟩
  · have hdone : decide ((env.start c).result = .threw) = false ∧ Adds (starts env c) s t :=
      ⟨by simp [ht.1], ht.2⟩
    rw [logIf]
    split_ifs
    · exact (log_post t).imp (fun _ _ hu => hu ▸ hdone) fun _ _ => False.elim
    · exact hdone

/-! ### The components of a state -/

/-- The components are different objects, made before. -/
structure Distinct (s : State) : Prop where
  ids : (s.m_mapComponents.map IComponent.id).Nodup
  made : ∀ c ∈ s.m_mapComponents, c.id < s.made

/-- No component is called, and those that are new were made in between. -/
structure Gathers (s t : State) : Prop where
  calls : t.calls = s.calls
  made : s.made ≤ t.made
  new : ∀ c ∈ t.m_mapComponents, c ∈ s.m_mapComponents ∨ s.made ≤ c.id
  distinct : Distinct s → Distinct t

instance instIsPreorderGathers : IsPreorder State Gathers where
  refl _ := ⟨rfl, le_rfl, fun _ => .inl, id⟩
  trans _ _ _ h g :=
    { calls := g.calls.trans h.calls
      made := h.made.trans g.made
      new := fun c hc => (g.new c hc).elim (h.new c) fun hm => .inr (h.made.trans hm)
      distinct := fun hs => g.distinct (h.distinct hs) }

/-- A change of other fields. -/
lemma Gathers.of_le {s t : State} (hc : t.calls = s.calls)
    (hm : t.m_mapComponents = s.m_mapComponents) (hle : s.made ≤ t.made) : Gathers s t where
  calls := hc
  made := hle
  new _ h := .inl (hm ▸ h)
  distinct h := ⟨hm ▸ h.ids, fun _ hc => (h.made _ (hm ▸ hc)).trans_le hle⟩

lemma gathers_component (s : State) (L : Layout) (strCompName : Key) : Gathers s
    { s with
      m_mapComponents := L.arrange (⟨s.made, strCompName⟩ :: s.m_mapComponents)
      made := s.made + 1 } where
  calls := rfl
  made := Nat.le_succ _
  new c hc := by
    rcases List.mem_cons.mp ((L.perm _).mem_iff.mp hc) with rfl | hc
    · exact .inr le_rfl
    · exact .inl hc
  distinct h := by
    refine ⟨?_, fun c hc => ?_⟩
    · refine (((L.perm _).map IComponent.id).nodup_iff).mpr (List.nodup_cons.mpr ⟨?_, h.ids⟩)
      intro hm
      obtain ⟨c, hc, he⟩ := List.mem_map.mp hm
      exact (h.made c hc).ne he
    · rcases List.mem_cons.mp ((L.perm _).mem_iff.mp hc) with rfl | hc
      · exact Nat.lt_succ_self _
      · exact (h.made c hc).trans (Nat.lt_succ_self _)

lemma gathers_loads : Loads Gathers where
  logger _ _ _ := .of_le rfl rfl (Nat.le_succ _)
  chunk _ _ _ := .of_le rfl rfl (Nat.le_succ _)
  small _ _ _ := .of_le rfl rfl (Nat.le_succ _)
  pool _ _ _ := .of_le rfl rfl (Nat.le_succ _)
  raise _ := .of_le rfl rfl le_rfl
  thread _ _ := .of_le rfl rfl le_rfl
  component := gathers_component
  handles _ _ := .of_le rfl rfl le_rfl

lemma gathers_subscribes : Subscribes Gathers where
  func _ := .of_le rfl rfl (Nat.le_succ _)
  topic _ _ := .of_le rfl rfl le_rfl

lemma gathers_serves : Serves Gathers where
  license _ := .of_le rfl rfl (Nat.le_succ _)
  commands _ _ := .of_le rfl rfl le_rfl
  flag _ := .of_le rfl rfl le_rfl

/-- The calls are of objects made before, and no component in the map has been stopped. -/
structure Known (s : State) : Prop where
  distinct : Distinct s
  called : ∀ e ∈ s.calls, e.1 < s.made
  running : ∀ c ∈ s.m_mapComponents, .stop ∉ word c.id s.calls

/-- While there is no event thread the components in the map have not been called at all. -/
structure Fresh (s : State) : Prop extends Known s where
  untouched : s.m_future = false → ∀ c ∈ s.m_mapComponents, word c.id s.calls = []

variable {s t : State}

/-- An object made later than all that were called. -/
lemma Known.word_new (h : Known s) {c : ℕ} (hc : s.made ≤ c) : word c s.calls = [] :=
  word_eq_nil fun e he => ((h.called e he).trans_le hc).ne

lemma Known.gathers (h : Known s) (hg : Gathers s t) : Known t where
  distinct := hg.distinct h.distinct
  called e he := (h.called e (hg.calls ▸ he)).trans_le hg.made
  running c hc := by
    rw [hg.calls]
    rcases hg.new c hc with hold | hnew
    · exact h.running c hold
    · rw [h.word_new hnew]
      exact List.not_mem_nil

lemma Fresh.gathers (h : Fresh s) (hg : Gathers s t) (hs : Stays s t) : Fresh t where
  toKnown := h.toKnown.gathers hg
  untouched hf c hc := by
    rw [hg.calls]
    rcases hg.new c hc with hold | hnew
    · refine h.untouched ?_ c hold
      cases hsf : s.m_future with
      | false => rfl
      | true => rw [hs.thread hsf] at hf; cases hf
    · exact h.word_new hnew

/-- The components the loops of `start` meet have not been called. -/
lemma Fresh.loaded (h : Fresh s) (hg : Gathers s t) (hf : s.m_future = false) {c : IComponent}
    (hc : c ∈ t.m_mapComponents) : word c.id t.calls = [] := by
  rw [hg.calls]
  rcases hg.new c hc with hold | hnew
  · exact h.untouched hf c hold
  · exact h.word_new hnew

/-! ### The calls of one start -/

/-- The calls of the two loops; the second is not reached where the first throws. -/
def loopCalls (env : Env N) (components : Value N.Double) (cs : List IComponent) :
    List (ℕ × Call) :=
  (reached (initialiseThrows env components) cs).flatMap (initialises env components) ++
    if cs.any (initialiseThrows env components) then []
    else (reached (startThrows env) cs).flatMap (starts env)

/-- An `initialise` throws, or every component that `start` is called of is configured and
initialised. -/
def StartsReady (env : Env N) (components : Value N.Double) (cs : List IComponent) : Prop :=
  (∃ c ∈ cs, initialiseThrows env components c = true) ∨
    ∀ c ∈ reached (startThrows env) cs, components.hasKey c.name = true ∧
      (env.initialise c (components.atKey c.name)).result = .ret true

lemma bringUp_adds (components : Value N.Double) (u : State) :
    (bringUp is_Server env components u).Post
      (fun _ t => ∃ v, Adds (loopCalls env components u.m_mapComponents) u v ∧
        Gathers v t ∧ Stays v t)
      fun _ t => ∃ v, Adds (loopCalls env components u.m_mapComponents) u v ∧
        Gathers v t ∧ Stays v t := by
  have hrest : ∀ {R : State → State → Prop} [IsPreorder State R], Subscribes R → Serves R →
      Keeps R (do
        subscribeStop env
        log
        startServer is_Server env
        pure true) := fun {R} _ hs hv =>
    hs.subscribeStop.bind fun _ => keeps_log.bind fun _ => hv.startServer.bind fun _ =>
      Keeps.pure _
  have hg := hrest gathers_subscribes gathers_serves
  have hst := hrest stays_subscribes stays_serves
  rw [bringUp, bind_apply, get_apply, Out.done_bind, bind_apply]
  have hinit := forEach_adds (initialiseComponent_adds env components) u.m_mapComponents u
  cases hi : forEach (initialiseComponent env components) u.m_mapComponents u with
  | threw e v =>
    rw [hi] at hinit
    obtain ⟨hthrow, hadd⟩ := hinit
    have hany := List.any_eq_true.mpr hthrow
    refine ⟨v, ?_, refl_of Gathers v, refl_of Stays v⟩
    rw [loopCalls, hany, if_pos rfl, List.append_nil]
    exact hadd
  | stuck => trivial
  | done a v =>
    rw [hi] at hinit
    obtain ⟨hno, hadd⟩ := hinit
    have hany : u.m_mapComponents.any (initialiseThrows env components) = false :=
      List.any_eq_false.mpr fun c hc => by rw [hno c hc]; exact Bool.false_ne_true
    rw [Out.done_bind, bind_apply, get_apply, Out.done_bind, bind_apply, hadd.components]
    have hstart := forEach_adds (startComponent_adds env) u.m_mapComponents v
    cases hs : forEach (startComponent env) u.m_mapComponents v with
    | threw e w =>
      rw [hs] at hstart
      refine ⟨w, ?_, refl_of Gathers w, refl_of Stays w⟩
      rw [loopCalls, hany, reached_eq_self hno, if_neg Bool.false_ne_true]
      exact hadd.trans hstart.2
    | stuck => trivial
    | done a w =>
      rw [hs] at hstart
      have hw : Adds (loopCalls env components u.m_mapComponents) u w := by
        rw [loopCalls, hany, reached_eq_self hno, reached_eq_self hstart.1,
          if_neg Bool.false_ne_true]
        exact hadd.trans hstart.2
      rw [Out.done_bind]
      exact ((hg w).and (hst w)).imp (fun _ _ ht => ⟨w, hw, ht⟩) fun _ _ ht => ⟨w, hw, ht⟩

lemma initialises_id (components : Value N.Double) (c : IComponent) :
    ∀ e ∈ initialises env components c, e.1 = c.id := by
  intro e he
  unfold initialises at he
  split_ifs at he
  · rw [List.mem_singleton.mp he]
  · cases he

lemma starts_id (c : IComponent) : ∀ e ∈ starts env c, e.1 = c.id := fun e he => by
  rw [List.mem_singleton.mp he]

/-- The calls of a component in a loop that comes to some of the components. -/
lemma word_reached {emit : IComponent → List (ℕ × Call)} (hemit : ∀ d, ∀ e ∈ emit d, e.1 = d.id)
    {cs : List IComponent} (hcs : (cs.map IComponent.id).Nodup) (throws : IComponent → Bool)
    {c : IComponent} (hc : c ∈ cs) :
    word c.id ((reached throws cs).flatMap emit) =
      if c ∈ reached throws cs then (emit c).map Prod.snd else [] := by
  have hsub := reached_sublist throws cs
  split_ifs with hr
  · exact word_flatMap hemit (hcs.sublist (hsub.map _)) hr
  · refine word_flatMap_other hemit fun d hd he => hr ?_
    rwa [← List.inj_on_of_nodup_map hcs (hsub.subset hd) hc he]

/-- A call of `start` without, or with another call before it. -/
lemma legal_start {env : Env N} {components : Value N.Double} {c : IComponent} {r : Result} :
    Legal ((initialises env components c).map Prod.snd ++ [.start r]) ↔
      components.hasKey c.name = true ∧
        (env.initialise c (components.atKey c.name)).result = .ret true := by
  unfold initialises
  split_ifs with hk
  · constructor
    · intro h
      refine ⟨hk, ?_⟩
      generalize (env.initialise c (components.atKey c.name)).result = q at h ⊢
      cases h
      rfl
    · rintro ⟨-, hr⟩
      rw [hr]
      exact .started r
  · exact iff_of_false (fun h => by cases h) fun h => hk h.1

lemma legal_initialises (env : Env N) (components : Value N.Double) (c : IComponent) :
    Legal ((initialises env components c).map Prod.snd) := by
  unfold initialises
  split_ifs
  · exact .initialised _
  · exact .untouched

/-- The calls of a start are in order exactly when its loops find what they need. -/
lemma legal_loopCalls {components : Value N.Double} {cs : List IComponent}
    (hcs : (cs.map IComponent.id).Nodup) :
    (∀ c ∈ cs, Legal (word c.id (loopCalls env components cs))) ↔
      StartsReady env components cs := by
  unfold loopCalls StartsReady
  by_cases hthrow : ∃ c ∈ cs, initialiseThrows env components c = true
  · have hany := List.any_eq_true.mpr hthrow
    rw [hany, if_pos rfl, List.append_nil]
    refine iff_of_true (fun c hc => ?_) (.inl hthrow)
    rw [word_reached (initialises_id components) hcs _ hc]
    split_ifs
    · exact legal_initialises env components c
    · exact .untouched
  · have hno : ∀ c ∈ cs, initialiseThrows env components c = false := fun c hc =>
      Bool.eq_false_iff.mpr fun h => hthrow ⟨c, hc, h⟩
    have hany : cs.any (initialiseThrows env components) = false :=
      List.any_eq_false.mpr fun c hc => by rw [hno c hc]; exact Bool.false_ne_true
    have hword : ∀ c ∈ cs,
        word c.id (cs.flatMap (initialises env components) ++
          (reached (startThrows env) cs).flatMap (starts env)) =
        (initialises env components c).map Prod.snd ++
          if c ∈ reached (startThrows env) cs then [.start (env.start c).result] else [] := by
      intro c hc
      rw [word_append, word_flatMap (initialises_id components) hcs hc,
        word_reached starts_id hcs _ hc]
      rfl
    rw [hany, reached_eq_self hno, if_neg Bool.false_ne_true, or_iff_right hthrow]
    constructor
    · intro h c hr
      have hc := (reached_sublist _ _).subset hr
      have hlegal := h c hc
      rw [hword c hc, if_pos hr] at hlegal
      exact legal_start.mp hlegal
    · intro h c hc
      rw [hword c hc]
      split_ifs with hr
      · exact legal_start.mpr (h c hr)
      · rw [List.append_nil]
        exact legal_initialises env components c

lemma loopCalls_id {components : Value N.Double} {cs : List IComponent} {e : ℕ × Call}
    (he : e ∈ loopCalls env components cs) : ∃ c ∈ cs, e.1 = c.id ∧ e.2 ≠ .stop := by
  have hinit : ∀ c, ∀ e ∈ initialises env components c, e.2 ≠ .stop := by
    intro c e he
    unfold initialises at he
    split_ifs at he
    · rw [List.mem_singleton.mp he]
      exact nofun
    · cases he
  unfold loopCalls at he
  rcases List.mem_append.mp he with he | he
  · obtain ⟨c, hc, hec⟩ := List.mem_flatMap.mp he
    exact ⟨c, (reached_sublist _ _).subset hc, initialises_id components c e hec, hinit c e hec⟩
  · split_ifs at he
    · cases he
    · obtain ⟨c, hc, hec⟩ := List.mem_flatMap.mp he
      refine ⟨c, (reached_sublist _ _).subset hc, starts_id c e hec, ?_⟩
      rw [List.mem_singleton.mp hec]
      exact nofun

/-! ### Runs -/

/-- The loops add their calls to components that have none. -/
lemma Known.adds {components : Value N.Double} (h : Known s)
    (hadd : Adds (loopCalls env components s.m_mapComponents) s t) : Known t where
  distinct := by
    refine ⟨hadd.components ▸ h.distinct.ids, fun c hc => ?_⟩
    rw [hadd.made]
    exact h.distinct.made c (hadd.components ▸ hc)
  called e he := by
    rw [hadd.made]
    rw [hadd.calls] at he
    rcases List.mem_append.mp he with he | he
    · exact h.called e he
    · obtain ⟨c, hc, hid, -⟩ := loopCalls_id he
      exact hid ▸ h.distinct.made c hc
  running c hc hstop := by
    rw [hadd.calls, word_append] at hstop
    rcases List.mem_append.mp hstop with hstop | hstop
    · exact h.running c (hadd.components ▸ hc) hstop
    · obtain ⟨_, -, -, hne⟩ := loopCalls_id (mem_word.mp hstop)
      exact hne rfl

lemma ordered_adds {components : Value N.Double} (h : Known s) (ho : Ordered s)
    (hnone : ∀ c ∈ s.m_mapComponents, word c.id s.calls = [])
    (hadd : Adds (loopCalls env components s.m_mapComponents) s t) :
    Ordered t ↔ StartsReady env components s.m_mapComponents := by
  rw [← legal_loopCalls h.distinct.ids]
  constructor
  · intro ht c hc
    have hlegal := ht c.id
    rwa [hadd.calls, word_append, hnone c hc, List.nil_append] at hlegal
  · intro hlegal c
    rw [hadd.calls, word_append]
    by_cases hc : ∃ d ∈ s.m_mapComponents, d.id = c
    · obtain ⟨d, hd, rfl⟩ := hc
      rw [hnone d hd, List.nil_append]
      exact hlegal d hd
    · have hother : word c (loopCalls env components s.m_mapComponents) = [] := by
        refine word_eq_nil fun e he heq => ?_
        obtain ⟨d, hd, hid, -⟩ := loopCalls_id he
        exact hc ⟨d, hd, hid.symm.trans heq⟩
      rw [hother, List.append_nil]
      exact ho c

lemma ordered_gathers (hg : Gathers s t) : Ordered t ↔ Ordered s := by
  unfold Ordered
  rw [hg.calls]

variable (L) in
/-- What the loops of a start find. -/
def FindsReady (env : Env N) (s : State) : Prop :=
  ∀ components u, prepare L env s = .done (some components) u →
    StartsReady env components u.m_mapComponents

lemma startBody_order (L : Layout) (is_Server : Bool) (env : Env N) (h : Fresh s) :
    (startBody L is_Server env s).Post
      (fun _ t => Fresh t ∧ (Ordered s → (Ordered t ↔ FindsReady L env s)))
      fun _ t => Fresh t ∧ (Ordered s → (Ordered t ↔ FindsReady L env s)) := by
  have hg : Keeps Gathers (prepare L env) := gathers_loads.prepare
  have hst : Keeps Stays (prepare L env) := stays_loads.prepare
  have hg := hg s
  have hst := hst s
  rw [startBody, bind_apply]
  cases hp : prepare L env s with
  | threw e u =>
    rw [hp] at hg hst
    refine ⟨h.gathers hg hst, fun ho => iff_of_true ((ordered_gathers hg).mpr ho) fun _ _ hd => ?_⟩
    rw [hp] at hd
    cases hd
  | stuck => trivial
  | done r u =>
    rw [hp] at hg hst
    rw [Out.done_bind]
    have hu := h.gathers hg hst
    cases r with
    | none =>
      refine ⟨hu, fun ho => iff_of_true ((ordered_gathers hg).mpr ho) fun _ _ hd => ?_⟩
      rw [hp] at hd
      cases hd
    | some components =>
      obtain ⟨hf, hft, -⟩ := prepare_done hp
      have hbring : Keeps Stays (bringUp is_Server env components) :=
        keeps_bringUp stays_calls stays_subscribes stays_serves components
      have hnone : ∀ c ∈ u.m_mapComponents, word c.id u.calls = [] := fun c hc =>
        h.loaded hg hf hc
      have hiff : FindsReady L env s ↔ StartsReady env components u.m_mapComponents := by
        constructor
        · exact fun hall => hall components u hp
        · intro hready _ _ hd
          rw [hp] at hd
          cases hd
          exact hready
      have key : ∀ t, Stays u t → (∃ v, Adds (loopCalls env components u.m_mapComponents) u v ∧
          Gathers v t ∧ Stays v t) →
          Fresh t ∧ (Ordered s → (Ordered t ↔ FindsReady L env s)) := by
        rintro t hut ⟨v, hadd, hgt, -⟩
        refine ⟨⟨(hu.toKnown.adds hadd).gathers hgt, fun hft' => ?_⟩, fun ho => ?_⟩
        · rw [hut.thread hft] at hft'
          cases hft'
        · rw [ordered_gathers hgt, hiff]
          exact ordered_adds hu.toKnown ((ordered_gathers hg).mpr ho) hnone hadd
      exact ((hbring u).and (bringUp_adds components u)).imp (fun _ t ht => key t ht.1 ht.2)
        fun _ t ht => key t ht.1 ht.2

lemma start_order {b : Bool} (h : Fresh s) (hs : start L is_Server env s = .done b t) :
    Fresh t ∧ (Ordered s → (Ordered t ↔ FindsReady L env s)) := by
  have hbody := startBody_order L is_Server env h
  rcases start_eq hs with hb | ⟨-, -, hb⟩
  · rw [hb] at hbody; exact hbody
  · rw [hb] at hbody; exact hbody

/-- A last call of `stop`. -/
lemma legal_stop {w : List Call} (h : Legal w) (hw : .stop ∉ w) :
    Legal (w ++ [.stop]) ↔ .start (.ret true) ∈ w := by
  cases h with
  | untouched => exact iff_of_false (fun h => by cases h) List.not_mem_nil
  | initialised r => exact iff_of_false (fun h => by cases h) (by simp)
  | started r =>
    constructor
    · intro h
      cases h
      simp
    · intro h
      simp only [List.mem_cons, Call.start.injEq, reduceCtorEq, List.not_mem_nil, or_false,
        false_or] at h
      rw [← h]
      exact .stopped
  | stopped => exact absurd (by simp) hw

lemma stop_order {a : Unit} (h : Fresh s) (ho : Ordered s) (hs : stop s = .done a t) :
    Ordered t ↔ ∀ c ∈ s.m_mapComponents, (c.id, .start (.ret true)) ∈ s.calls := by
  obtain ⟨-, -, -, hcalls⟩ := stop_done hs
  rw [List.map_eq_flatMap] at hcalls
  have hemit : ∀ d : IComponent, ∀ e ∈ [(d.id, Call.stop)], e.1 = d.id := fun d e he => by
    rw [List.mem_singleton.mp he]
  have hword : ∀ c ∈ s.m_mapComponents, word c.id t.calls = word c.id s.calls ++ [.stop] := by
    intro c hc
    rw [hcalls, word_append, word_flatMap hemit h.distinct.ids hc]
    rfl
  constructor
  · intro ht c hc
    have hlegal := ht c.id
    rw [hword c hc] at hlegal
    exact mem_word.mp ((legal_stop (ho c.id) (h.running c hc)).mp hlegal)
  · intro hall c
    by_cases hc : ∃ d ∈ s.m_mapComponents, d.id = c
    · obtain ⟨d, hd, rfl⟩ := hc
      rw [hword d hd]
      exact (legal_stop (ho d.id) (h.running d hd)).mpr (mem_word.mpr (hall d hd))
    · rw [hcalls, word_append, word_flatMap_other hemit fun d hd he => hc ⟨d, hd, he⟩,
        List.append_nil]
      exact ho c

lemma Fresh.stop {a : Unit} (h : Fresh s) (hs : stop s = .done a t) : Fresh t := by
  obtain ⟨hempty, -, hmade, hcalls⟩ := stop_done hs
  refine ⟨⟨⟨?_, ?_⟩, ?_, ?_⟩, ?_⟩
  · rw [hempty]
    exact List.nodup_nil
  · rw [hempty]
    exact fun c hc => absurd hc List.not_mem_nil
  · intro e he
    rw [hmade]
    rw [hcalls] at he
    rcases List.mem_append.mp he with he | he
    · exact h.called e he
    · obtain ⟨c, hc, rfl⟩ := List.mem_map.mp he
      exact h.distinct.made c hc
  · rw [hempty]
    exact fun c hc => absurd hc List.not_mem_nil
  · rw [hempty]
    exact fun _ c hc => absurd hc List.not_mem_nil

variable (L) in
/-- The components `start` is called of are configured, and initialised with true, unless an
`initialise` throws before; and the components `stop` is called of were started with true. -/
def InOrder (s : State) : Action N → Prop
  | .start env => FindsReady L env s
  | .stop => ∀ c ∈ s.m_mapComponents, (c.id, .start (.ret true)) ∈ s.calls
  | _ => True

/-- What happens outside of `start` and `stop` calls no component. -/
lemma gathers_request (r : Request) (h : perform r s = .done () t) : Gathers s t ∧ Stays s t := by
  have hq := perform_quiet r s
  rw [h] at hq
  simp only [Out.post_done, quiet, Prod.mk.injEq] at hq
  exact ⟨.of_le hq.1 hq.2.1 hq.2.2.ge, (stays_calls.request r).done h⟩

lemma Fresh.step {a : Action N} (h : Fresh s) (hs : step L is_Server s a = some t) : Fresh t := by
  obtain ⟨_, hd⟩ := step_done hs
  cases a with
  | start env =>
    obtain ⟨b, u, hstart, hret⟩ := bind_eq_done.mp hd
    cases hret
    exact (start_order h hstart).1
  | stop => exact h.stop hd
  | addComponent strCompName =>
    exact h.gathers ((gathers_loads.registComponent _).done hd)
      ((stays_loads.registComponent _).done hd)
  | request r => exact h.gathers (gathers_request r hd).1 (gathers_request r hd).2
  | lowerRunflag =>
    cases hd
    exact h.gathers (.of_le rfl rfl le_rfl) (.of_eq rfl rfl rfl rfl rfl)

lemma ordered_step {a : Action N} (h : Fresh s) (ho : Ordered s)
    (hs : step L is_Server s a = some t) : Ordered t ↔ InOrder L s a := by
  obtain ⟨_, hd⟩ := step_done hs
  cases a with
  | start env =>
    obtain ⟨b, u, hstart, hret⟩ := bind_eq_done.mp hd
    cases hret
    exact (start_order h hstart).2 ho
  | stop => exact stop_order h ho hd
  | addComponent strCompName =>
    exact iff_of_true ((ordered_gathers ((gathers_loads.registComponent _).done hd)).mpr ho) trivial
  | request r => exact iff_of_true ((ordered_gathers (gathers_request r hd).1).mpr ho) trivial
  | lowerRunflag => cases hd; exact iff_of_true ho trivial

lemma fresh_init : Fresh init where
  distinct := ⟨List.nodup_nil, fun _ hc => absurd hc List.not_mem_nil⟩
  called _ he := absurd he List.not_mem_nil
  running _ hc := absurd hc List.not_mem_nil
  untouched _ _ hc := absurd hc List.not_mem_nil

/-- **The lifecycle calls are in order along a run exactly when each start finds the components
it starts initialised, and each stop finds those it stops started.** -/
theorem lifecycle_iff (as : List (Action N)) :
    Throughout (step L is_Server) Ordered init as ↔
      Always (step L is_Server)
        (fun _ s a => (step L is_Server s a).isSome = true → InOrder L s a) init as :=
  throughout_iff (C := fun s a => (step L is_Server s a).isSome = true → InOrder L s a) fresh_init
    (fun _ => .untouched) (fun _ _ _ h hs => h.step hs)
    (fun s a t h ho hs => (ordered_step h ho hs).trans (by simp [hs]))
    (fun s a hnone hsome => by simp [hnone] at hsome) as

/-- A library with one component, whose `initialise` returns false. -/
def refusing : Env lp64 where
  strConfigPath := []
  config := .contents
    ([lbrace, quote] ++ text "Components" ++ [quote, colon, lbrace, quote] ++ text "A" ++
      [quote, colon, lbrace, quote] ++ text "Enable" ++ [quote, colon] ++ trueText ++
      [rbrace, rbrace, rbrace])
  throws _ := false
  dlopen name := some ⟨1, [name]⟩
  initialise _ _ := ⟨[], .ret false⟩
  start _ := ⟨[], .ret true⟩

lemma refusing_calls :
    (exec (step inOrder true) init [.start refusing]).map State.calls =
      some [(4, .initialise (.ret false)), (4, .start (.ret true))] := by
  decide +kernel

/-- It is started all the same. -/
theorem refusing_not_ordered :
    ¬ Throughout (step inOrder true) Ordered init [.start refusing] := by
  intro h
  obtain ⟨s, hs, hcalls⟩ := Option.map_eq_some_iff.mp refusing_calls
  have hlegal := h [.start refusing] [] s rfl hs 4
  rw [hcalls] at hlegal
  cases hlegal

end MmrService.Framework
