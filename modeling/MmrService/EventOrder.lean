import MmrService.EventCtrl

/-!
Events are dealt with once each and in the order they were posted.

At every point the posted events are the ones delivered, the ones of the queue being dealt
with and the ones of the queue being filled, one after the other. The callbacks of a topic
change while the worker walks through them only by the loss of dead ones.
-/

namespace MmrService.EventCtrl

open Transition Mutex

variable {φ δ τ : Type} [DecidableEq τ]

/-! ### The invariant -/

/-- The calls of a delivery. -/
def Delivery.calls (d : Delivery φ δ) : List (CVarDatas δ × φ) := d.handed.map (d.varData, ·)

/-- The calls made for the event at the front of the queue. -/
def underway (queue : List (Topic × CVarDatas δ)) : Pc φ δ → List (CVarDatas δ × φ)
  | .calling _ _ handed => queue.head?.toList.flatMap fun p => handed.map (p.2, ·)
  | _ => []

/-- In the loop over the callbacks, those behind the iterator are the ones handed the event,
and no more than the live ones can follow. -/
def Walking (s : State φ δ τ) : Pc φ δ → Prop
  | .calling i before handed => ∃ topic varData rest funcs,
      s.data.m_queueDealData = (topic, varData) :: rest ∧
      s.data.m_mapFuncs topic = some funcs ∧ i ≤ funcs.length ∧ funcs.take i = handed ∧
      (handed ++ (funcs.drop i).filter s.alive).Sublist before ∧
      before.Sublist (s.hist.added varData.getName)
  | _ => True

structure Inv (s : State φ δ τ) : Prop where
  data : Owned s.data.m_mutexData Pc.holdsData s.pc
  func : Owned s.data.m_mutexFunc Pc.holdsFunc s.pc
  order : s.hist.posted = s.hist.delivered.map Delivery.varData ++
    (s.data.m_queueDealData ++ s.data.m_queueAddData).map Prod.snd
  named : ∀ p ∈ s.data.m_queueDealData ++ s.data.m_queueAddData, p.1 = p.2.getName
  drained : (s.pc .worker).dealing = false → s.data.m_queueDealData = []
  swapped : s.pc .worker = .clearAdded → s.data.m_queueAddData = []
  flagged : s.data.m_queueAddData ≠ [] →
    s.data.m_bDataAdded = true ∨ ∃ t, s.pc t = .storeAdded
  live : ∀ topic, ((s.data.m_mapFuncs topic).getD []).filter s.alive = s.living topic
  walking : Walking s (s.pc .worker)
  each : ∀ d ∈ s.hist.delivered, d.after.Sublist d.handed ∧ d.handed.Sublist d.before ∧
    d.before.Sublist (s.hist.added d.varData.getName)
  calls : s.hist.calls = s.hist.delivered.flatMap Delivery.calls ++
    underway s.data.m_queueDealData (s.pc .worker)

lemma inv_start : Inv (State.start φ δ τ) where
  data := by
    intro t
    simp only [State.start, Function.update_apply]
    split_ifs <;> simp [Pc.holdsData]
  func := by
    intro t
    simp only [State.start, Function.update_apply]
    split_ifs <;> simp [Pc.holdsFunc]
  order := rfl
  named := by simp [State.start]
  drained _ := rfl
  swapped _ := rfl
  flagged := by simp [State.start]
  live _ := rfl
  walking := by simp [State.start, Walking]
  each := by simp [State.start]
  calls := by simp [State.start, underway]

/-! ### Steps that only move a thread, take or free a mutex, or set the flag -/

variable {s t : State φ δ τ}

/-- The worker is neither between the exchange and the clearing of the flag, nor walking. -/
def Pc.plain : Pc φ δ → Bool
  | .clearAdded | .calling .. => false
  | _ => true

omit [DecidableEq τ] in
lemma Walking.plain {p : Pc φ δ} (hp : p.plain = true) : Walking s p := by
  cases p <;> simp_all [Pc.plain, Walking]

omit [DecidableEq τ] in
lemma underway_plain {p : Pc φ δ} (hp : p.plain = true) (queue : List (Topic × CVarDatas δ)) :
    underway queue p = [] := by
  cases p <;> simp_all [Pc.plain, underway]

/-- Another mutex, flag and program counter. -/
def State.moved (s : State φ δ τ) (u : Thread τ) (p : Pc φ δ) (mf md : Option (Thread τ))
    (b : Bool) : State φ δ τ :=
  { s.goto u p with
    data := { s.data with m_mutexFunc := mf, m_mutexData := md, m_bDataAdded := b } }

lemma Inv.moved (h : Inv s) {u : Thread τ} {p : Pc φ δ} {mf md : Option (Thread τ)} {b : Bool}
    (hd : Owned md Pc.holdsData (Function.update s.pc u p))
    (hf : Owned mf Pc.holdsFunc (Function.update s.pc u p))
    (hb : s.data.m_queueAddData ≠ [] → b = true ∨ ∃ t, Function.update s.pc u p t = .storeAdded)
    (hw : u = .worker → p.plain = true ∧ (p.dealing = false → s.data.m_queueDealData = []) ∧
      underway s.data.m_queueDealData (s.pc .worker) = []) :
    Inv (s.moved u p mf md b) := by
  have hpc : (s.moved u p mf md b).pc .worker = s.pc .worker ∨
      u = .worker ∧ (s.moved u p mf md b).pc .worker = p := by
    by_cases hu : u = .worker
    · subst hu
      exact .inr ⟨rfl, State.pc_goto_self s .worker p⟩
    · exact .inl ((State.pc_goto s u .worker p).trans (if_neg (Ne.symm hu)))
  refine ⟨hd, hf, h.order, h.named, ?_, ?_, hb, h.live, ?_, h.each, ?_⟩
  · intro hdeal
    rcases hpc with he | ⟨hu, he⟩
    · exact h.drained (he ▸ hdeal)
    · exact (hw hu).2.1 (he ▸ hdeal)
  · intro hs
    rcases hpc with he | ⟨hu, he⟩
    · exact h.swapped (he ▸ hs)
    · have hp := (hw hu).1
      rw [← he, hs] at hp
      cases hp
  · rcases hpc with he | ⟨hu, he⟩
    · rw [he]; exact h.walking
    · rw [he]; exact Walking.plain (hw hu).1
  · rcases hpc with he | ⟨hu, he⟩
    · rw [he]; exact h.calls
    · rw [he, underway_plain (hw hu).1]
      exact h.calls.trans (by rw [(hw hu).2.2]; rfl)

/-- A thread that is not about to set the flag leaves it to the others. -/
lemma Inv.flagged_update (h : Inv s) {u : Thread τ} (p : Pc φ δ) (hu : s.pc u ≠ .storeAdded)
    (ha : s.data.m_queueAddData ≠ []) :
    s.data.m_bDataAdded = true ∨ ∃ t, Function.update s.pc u p t = .storeAdded := by
  rcases h.flagged ha with hb | ⟨t, ht⟩
  · exact .inl hb
  · have htu : t ≠ u := by
      rintro rfl
      exact hu ht
    exact .inr ⟨t, (Function.update_of_ne htu p s.pc).trans ht⟩

/-- The worker goes on, with the mutexes as they are told. -/
lemma Inv.workerMoved (h : Inv s) {q : Pc φ δ} (hq : s.pc .worker = q) {p : Pc φ δ}
    {mf md : Option (Thread τ)} {b : Bool}
    (hd : Owned md Pc.holdsData (Function.update s.pc .worker p))
    (hf : Owned mf Pc.holdsFunc (Function.update s.pc .worker p))
    (hb : s.data.m_queueAddData ≠ [] →
      b = true ∨ ∃ t, Function.update s.pc .worker p t = .storeAdded)
    (hp : p.plain = true) (hu : underway s.data.m_queueDealData q = [])
    (hpq : p.dealing = q.dealing ∨ s.data.m_queueDealData = []) :
    Inv (s.moved .worker p mf md b) := by
  refine h.moved hd hf hb fun _ => ⟨hp, fun hdeal => ?_, hq ▸ hu⟩
  rcases hpq with he | he
  · exact h.drained (by rw [hq, ← he]; exact hdeal)
  · exact he

/-! ### The clients -/

lemma Inv.addEvenVartData (h : Inv s) {u : τ} {varData : CVarDatas δ}
    (hs : s.addEvenVartData u varData = some t) : Inv t := by
  unfold State.addEvenVartData at hs
  split at hs
  · next hpc hm =>
    rw [← Option.some.inj hs]
    exact h.moved (Owned.lock (hm ▸ h.data) rfl) (h.func.stay (by rw [hpc]; rfl))
      (h.flagged_update _ (by simp [hpc])) (by simp)
  · cases hs

lemma Inv.addFunc (h : Inv s) {u : τ} {strTopcs : Topic} {ptrFunc : φ}
    (hs : s.addFunc u strTopcs ptrFunc = some t) : Inv t := by
  unfold State.addFunc at hs
  split at hs
  · next hpc hm =>
    rw [← Option.some.inj hs]
    exact h.moved (h.data.stay (by rw [hpc]; rfl)) (Owned.lock (hm ▸ h.func) rfl)
      (h.flagged_update _ (by simp [hpc])) (by simp)
  · cases hs

/-- A client that is not posting posts next. -/
lemma Inv.emplace (h : Inv s) {u : τ} {varData : CVarDatas δ}
    (hpc : s.pc (.client u) = .emplace varData) :
    Inv { s.goto (.client u) .storeAdded with
      data := { s.data with
        m_queueAddData := s.data.m_queueAddData ++ [(varData.getName, varData)] }
      hist := { s.hist with posted := s.hist.posted ++ [varData] } } := by
  have hw : (s.goto (.client u) .storeAdded).pc .worker = s.pc .worker :=
    State.pc_goto_client s u _
  refine ⟨h.data.stay (by rw [hpc]; rfl), h.func.stay (by rw [hpc]; rfl), ?_, ?_, ?_, ?_, ?_,
    h.live, ?_, h.each, ?_⟩
  · change s.hist.posted ++ [varData] = _
    rw [h.order]
    simp
  · intro p hp
    simp only [← List.append_assoc] at hp
    rcases List.mem_append.mp hp with hp | hp
    · exact h.named p hp
    · rw [List.mem_singleton.mp hp]
  · intro hdeal
    exact h.drained (hw ▸ hdeal)
  · -- the client holds the mutex of the queues
    intro hs
    have hworker : s.pc .worker = .clearAdded := hw ▸ hs
    have he := h.data.unique (t := .client u) (u := .worker) (by rw [hpc]; rfl)
      (by rw [hworker]; rfl)
    cases he
  · exact fun _ => .inr ⟨.client u, Function.update_self _ _ _⟩
  · exact hw ▸ h.walking
  · exact hw ▸ h.calls

/-- A callback is added behind those of its topic while nobody walks through them. -/
lemma Inv.emplaceBack (h : Inv s) {u : τ} {strTopcs : Topic} {ptrFunc : φ}
    (hpc : s.pc (.client u) = .emplaceBack strTopcs ptrFunc) :
    Inv { s.goto (.client u) .unlockFunc with
      data := { s.data with
        m_mapFuncs := Function.update s.data.m_mapFuncs strTopcs
          (some ((s.data.m_mapFuncs strTopcs).getD [] ++ [ptrFunc])) }
      hist := { s.hist with
        added := Function.update s.hist.added strTopcs
          (s.hist.added strTopcs ++ [ptrFunc]) } } := by
  have hw : (s.goto (.client u) .unlockFunc).pc .worker = s.pc .worker :=
    State.pc_goto_client s u _
  refine ⟨h.data.stay (by rw [hpc]; rfl), h.func.stay (by rw [hpc]; rfl), h.order, h.named, ?_,
    ?_, h.flagged_update _ (by simp [hpc]), ?_, ?_, ?_, ?_⟩
  · exact fun hdeal => h.drained (hw ▸ hdeal)
  · exact fun hs => h.swapped (hw ▸ hs)
  · intro topic
    have hl := h.live topic
    simp only [State.living] at hl ⊢
    by_cases ht : topic = strTopcs
    · subst ht
      simp only [Function.update_self, Option.getD_some, List.filter_append, State.alive_goto, hl]
    · simp only [Function.update_of_ne ht]
      exact hl
  · -- the client holds the mutex of the callbacks
    change Walking _ ((s.goto (.client u) .unlockFunc).pc .worker)
    rw [hw]
    rcases hwk : s.pc .worker with _ | _ | _ | _ | _ | _ | _ | _ | _ | _ | _ | _ | _ | _ |
      ⟨i, before, handed⟩ | _ | _ | _ | _ | _ <;> try trivial
    have he := h.func.unique (t := .client u) (u := .worker) (by rw [hpc]; rfl)
      (by rw [hwk]; rfl)
    cases he
  · intro d hd
    obtain ⟨ha, hb, hc⟩ := h.each d hd
    refine ⟨ha, hb, hc.trans ?_⟩
    simp only [Function.update_apply]
    split_ifs with hn
    · rw [hn]; exact List.sublist_append_left ..
    · exact List.Sublist.refl _
  · exact hw ▸ h.calls

lemma Inv.client (h : Inv s) {u : τ} (hs : s.client u = some t) : Inv t := by
  unfold State.client at hs
  split at hs <;> try cases hs
  · next varData hpc => exact h.emplace hpc
  · next hpc =>
    exact h.moved (h.data.stay (by rw [hpc]; rfl)) (h.func.stay (by rw [hpc]; rfl))
      (fun _ => .inl rfl) (by simp)
  · next hpc =>
    exact h.moved (h.data.unlock (by rw [hpc]; rfl) rfl) (h.func.stay (by rw [hpc]; rfl))
      (h.flagged_update _ (by simp [hpc])) (by simp)
  · next strTopcs ptrFunc hpc => exact h.emplaceBack hpc
  · next hpc =>
    exact h.moved (h.data.stay (by rw [hpc]; rfl)) (h.func.unlock (by rw [hpc]; rfl) rfl)
      (h.flagged_update _ (by simp [hpc])) (by simp)

/-! ### The worker -/

/-- The queue just dealt with is empty, so the exchange leaves nothing to be posted again. -/
lemma Inv.swap (h : Inv s) (hpc : s.pc .worker = .swap) :
    Inv ((s.goto .worker .clearAdded).setData
      { s.data with
        m_queueAddData := s.data.m_queueDealData
        m_queueDealData := s.data.m_queueAddData }) := by
  have hdeal : s.data.m_queueDealData = [] := h.drained (by rw [hpc]; rfl)
  have hnew : (s.goto .worker .clearAdded).pc .worker = .clearAdded := State.pc_goto_self ..
  refine ⟨h.data.stay (by rw [hpc]; rfl), h.func.stay (by rw [hpc]; rfl), ?_, ?_, ?_,
    fun _ => hdeal, fun hne => absurd hdeal hne, h.live, ?_, h.each, ?_⟩
  · have ho := h.order
    rw [hdeal] at ho
    simpa [State.setData, hdeal] using ho
  · intro p hp
    refine h.named p ?_
    simpa [State.setData, hdeal] using hp
  · intro hd
    change ((s.goto .worker .clearAdded).pc .worker).dealing = false at hd
    rw [hnew] at hd
    cases hd
  · change Walking _ ((s.goto .worker .clearAdded).pc .worker)
    rw [hnew]
    trivial
  · have hc := h.calls
    rw [hpc] at hc
    exact hc.trans (by rw [State.setData, hnew]; rfl)

/-- An event comes up whose topic has callbacks. -/
lemma Inv.enter (h : Inv s) (hpc : s.pc .worker = .deal) {topic : Topic}
    {varData : CVarDatas δ}
    {rest : List (Topic × CVarDatas δ)} (hq : s.data.m_queueDealData = (topic, varData) :: rest)
    {funcs : List φ} (hf : s.data.m_mapFuncs topic = some funcs) :
    Inv (s.goto .worker (.calling 0 (s.living varData.getName) [])) := by
  have hname : topic = varData.getName := h.named (topic, varData) (by rw [hq]; simp)
  have hlive : funcs.filter s.alive = s.living varData.getName := by
    have hl := h.live topic
    rw [hf, hname] at hl
    exact hl
  refine ⟨h.data.stay (by rw [hpc]; rfl), h.func.stay (by rw [hpc]; rfl), h.order, h.named, ?_,
    ?_, h.flagged_update _ (by simp [hpc]), h.live, ?_, h.each, ?_⟩
  · simp [Pc.dealing]
  · simp
  · rw [State.pc_goto_self]
    refine ⟨topic, varData, rest, funcs, hq, hf, Nat.zero_le _, rfl, ?_, List.filter_sublist⟩
    rw [List.nil_append, List.drop_zero, ← hlive]
    exact List.Sublist.refl _
  · have hc := h.calls
    rw [hpc] at hc
    rw [State.pc_goto_self]
    simpa [underway, hq] using hc

/-- The front event is popped: what it was handed to is what the record says. -/
lemma Inv.popFront (h : Inv s) (hfunc : (s.pc .worker).holdsFunc = true)
    (hdata : (s.pc .worker).holdsData = false) (hstore : s.pc .worker ≠ .storeAdded)
    {topic : Topic} {varData : CVarDatas δ}
    {rest : List (Topic × CVarDatas δ)} (hq : s.data.m_queueDealData = (topic, varData) :: rest)
    {mapFuncs : Topic → Option (List φ)} {before handed after : List φ}
    (hmap : ∀ k, (mapFuncs k).getD [] = (s.data.m_mapFuncs k).getD [])
    (heach : after.Sublist handed ∧ handed.Sublist before ∧
      before.Sublist (s.hist.added varData.getName))
    (hcalls : underway s.data.m_queueDealData (s.pc .worker) = handed.map (varData, ·)) :
    Inv (s.popFront { s.data with m_mapFuncs := mapFuncs } ⟨varData, before, handed, after⟩) := by
  refine ⟨h.data.stay (by rw [hdata]; rfl), h.func.stay (by rw [hfunc]; rfl), ?_, ?_, ?_, ?_,
    h.flagged_update _ hstore, fun k => ?_, ?_, ?_, ?_⟩
  · have ho := h.order
    rw [hq] at ho
    simpa [State.popFront, hq] using ho
  · intro p hp
    refine h.named p ?_
    rcases List.mem_append.mp hp with hp | hp
    · exact List.mem_append_left _ (List.mem_of_mem_tail hp)
    · exact List.mem_append_right _ hp
  · simp [State.popFront, Pc.dealing]
  · simp [State.popFront]
  · have hl := h.live k
    simp only [State.popFront, hmap]
    exact hl
  · simp only [State.popFront, State.pc_goto_self]
    trivial
  · intro d hd
    rcases List.mem_append.mp hd with hd | hd
    · exact h.each d hd
    · rw [List.mem_singleton.mp hd]
      exact heach
  · have hc := h.calls
    rw [hcalls] at hc
    simp only [State.popFront, State.pc_goto_self, List.flatMap_append,
      List.flatMap_cons, List.flatMap_nil, List.append_nil, underway]
    exact hc

lemma Inv.front (h : Inv s) (hpc : s.pc .worker = .deal) : Inv s.front := by
  unfold State.front
  split
  · next hq =>
    exact h.workerMoved hpc (h.data.stay (by rw [hpc]; rfl)) (h.func.stay (by rw [hpc]; rfl))
      (h.flagged_update _ (by simp [hpc])) rfl rfl (.inr hq)
  · next topic varData rest hq =>
    dsimp only
    split
    · next hf =>
      have hname : topic = varData.getName := h.named (topic, varData) (by rw [hq]; simp)
      have hlive : s.living varData.getName = [] := by
        have hl := h.live topic
        rw [hf, hname] at hl
        exact hl.symm
      refine h.popFront (by rw [hpc]; rfl) (by rw [hpc]; rfl) (by simp [hpc]) hq (fun k => rfl) ?_
        (by rw [hpc]; rfl)
      rw [hlive]
      exact ⟨List.Sublist.refl _, List.Sublist.refl _, List.nil_sublist _⟩
    · next funcs hf => exact h.enter hpc hq hf

omit [DecidableEq τ] in
lemma Inv.walk (h : Inv s) {i : ℕ} {before handed : List φ}
    (hpc : s.pc .worker = .calling i before handed) {topic : Topic} {varData : CVarDatas δ}
    {rest : List (Topic × CVarDatas δ)} (hq : s.data.m_queueDealData = (topic, varData) :: rest)
    {funcs : List φ} (hf : s.data.m_mapFuncs topic = some funcs) :
    i ≤ funcs.length ∧ funcs.take i = handed ∧
      (handed ++ (funcs.drop i).filter s.alive).Sublist before ∧
      before.Sublist (s.hist.added varData.getName) := by
  have hw := h.walking
  rw [hpc] at hw
  obtain ⟨_, _, _, funcs', hq', hf', hrest⟩ := hw
  rw [hq] at hq'
  obtain ⟨⟨rfl, rfl⟩, rfl⟩ := by simpa using hq'
  obtain rfl : funcs = funcs' := Option.some.inj (hf.symm.trans hf')
  exact hrest

/-- A live callback is handed the event. -/
lemma Inv.hand (h : Inv s) {i : ℕ} {before handed : List φ}
    (hpc : s.pc .worker = .calling i before handed) {topic : Topic} {varData : CVarDatas δ}
    {rest : List (Topic × CVarDatas δ)} (hq : s.data.m_queueDealData = (topic, varData) :: rest)
    {funcs : List φ} (hf : s.data.m_mapFuncs topic = some funcs) {ptrFunc : φ}
    (hi : funcs[i]? = some ptrFunc) (ha : s.alive ptrFunc = true) :
    Inv { s.goto .worker (.calling (i + 1) before (handed ++ [ptrFunc])) with
      hist := { s.hist with calls := s.hist.calls ++ [(varData, ptrFunc)] } } := by
  obtain ⟨hlt, hget⟩ := List.getElem?_eq_some_iff.mp hi
  obtain ⟨-, htake, hsub, hadded⟩ := h.walk hpc hq hf
  refine ⟨h.data.stay (by rw [hpc]; rfl), h.func.stay (by rw [hpc]; rfl), h.order, h.named, ?_,
    ?_, h.flagged_update _ (by simp [hpc]), h.live, ?_, h.each, ?_⟩
  · simp [Pc.dealing]
  · simp
  · simp only [State.pc_goto_self]
    refine ⟨topic, varData, rest, funcs, hq, hf, hlt, ?_, ?_, hadded⟩
    · rw [← List.take_append_getElem hlt, htake, hget]
    · rw [List.drop_eq_getElem_cons hlt, hget, List.filter_cons_of_pos ha] at hsub
      simpa using hsub
  · have hc := h.calls
    rw [hpc] at hc
    simp only [State.pc_goto_self, State.data_goto]
    rw [hc, hq]
    simp [underway]

/-- A dead callback is taken off its topic. -/
lemma Inv.drop (h : Inv s) {i : ℕ} {before handed : List φ}
    (hpc : s.pc .worker = .calling i before handed) {topic : Topic} {varData : CVarDatas δ}
    {rest : List (Topic × CVarDatas δ)} (hq : s.data.m_queueDealData = (topic, varData) :: rest)
    {funcs : List φ} (hf : s.data.m_mapFuncs topic = some funcs) {ptrFunc : φ}
    (hi : funcs[i]? = some ptrFunc) (ha : s.alive ptrFunc = false) :
    Inv ((s.goto .worker (.calling i before handed)).setData
      { s.data with
        m_mapFuncs := Function.update s.data.m_mapFuncs topic (some (funcs.eraseIdx i)) }) := by
  obtain ⟨hlt, hget⟩ := List.getElem?_eq_some_iff.mp hi
  obtain ⟨-, htake, hsub, hadded⟩ := h.walk hpc hq hf
  have herase : funcs.eraseIdx i = funcs.take i ++ funcs.drop (i + 1) :=
    List.eraseIdx_eq_take_drop_succ funcs i
  have hfilter : (funcs.drop i).filter s.alive = (funcs.drop (i + 1)).filter s.alive := by
    rw [List.drop_eq_getElem_cons hlt, hget, List.filter_cons_of_neg (by simp [ha])]
  have hlen : (funcs.take i).length = i := List.length_take_of_le (Nat.le_of_lt hlt)
  refine ⟨h.data.stay (by rw [hpc]), h.func.stay (by rw [hpc]), h.order, h.named, ?_,
    ?_, h.flagged_update _ (by simp [hpc]), ?_, ?_, h.each, ?_⟩
  · simp [State.setData, Pc.dealing]
  · simp [State.setData]
  · intro k
    have hl := h.live k
    simp only [State.setData, State.living, State.hist_goto, State.alive_goto] at hl ⊢
    by_cases hk : k = topic
    · subst hk
      rw [hf, Option.getD_some] at hl
      rw [Function.update_self, Option.getD_some, herase, List.filter_append, ← hfilter,
        ← List.filter_append, List.take_append_drop, hl]
    · rw [Function.update_of_ne hk]
      exact hl
  · simp only [State.setData, State.pc_goto_self]
    refine ⟨topic, varData, rest, funcs.eraseIdx i, hq, Function.update_self .., ?_, ?_, ?_,
      hadded⟩
    · rw [List.length_eraseIdx_of_lt hlt]
      omega
    · rw [herase, List.take_left' hlen, htake]
    · rw [herase, List.drop_left' hlen]
      simp only [State.alive_goto]
      rw [← hfilter]
      exact hsub
  · have hc := h.calls
    rw [hpc] at hc
    simpa [State.setData] using hc

/-- All callbacks of the front event have been walked through. -/
lemma Inv.leave (h : Inv s) {i : ℕ} {before handed : List φ}
    (hpc : s.pc .worker = .calling i before handed) {topic : Topic} {varData : CVarDatas δ}
    {rest : List (Topic × CVarDatas δ)} (hq : s.data.m_queueDealData = (topic, varData) :: rest)
    {funcs : List φ} (hf : s.data.m_mapFuncs topic = some funcs) (hi : funcs.length ≤ i) :
    Inv (s.popFront
      { s.data with
        m_mapFuncs := if funcs.length = 0 then Function.update s.data.m_mapFuncs topic none
          else s.data.m_mapFuncs }
      ⟨varData, before, handed, s.living varData.getName⟩) := by
  obtain ⟨-, htake, hsub, hadded⟩ := h.walk hpc hq hf
  rw [List.take_of_length_le hi] at htake
  rw [List.drop_of_length_le hi, List.filter_nil, List.append_nil] at hsub
  have hname : topic = varData.getName := h.named (topic, varData) (by rw [hq]; simp)
  have hlive : funcs.filter s.alive = s.living varData.getName := by
    have hl := h.live topic
    rw [hf, hname] at hl
    exact hl
  refine h.popFront (by rw [hpc]; rfl) (by rw [hpc]; rfl) (by simp [hpc]) hq (fun k => ?_)
    ⟨?_, hsub, hadded⟩ (by rw [hpc, hq]; simp [underway])
  · split_ifs with hlen
    · rw [Function.update_apply]
      split_ifs with hk
      · rw [hk, hf, List.length_eq_zero_iff.mp hlen]
        rfl
      · rfl
    · rfl
  · rw [← hlive, ← htake]
    exact List.filter_sublist

lemma Inv.call (h : Inv s) {i : ℕ} {before handed : List φ}
    (hpc : s.pc .worker = .calling i before handed) (hs : s.call i before handed = some t) :
    Inv t := by
  unfold State.call at hs
  split at hs
  · cases hs
  · next topic varData rest hq =>
    split at hs
    · cases hs
    · next funcs hf =>
      split at hs
      · next ptrFunc hi =>
        split_ifs at hs with ha <;> rw [← Option.some.inj hs]
        · exact h.hand hpc hq hf hi ha
        · exact h.drop hpc hq hf hi (Bool.not_eq_true _ ▸ ha)
      · next hi =>
        rw [← Option.some.inj hs]
        exact h.leave hpc hq hf (List.getElem?_eq_none_iff.mp hi)

lemma Inv.work (h : Inv s) (hs : s.work = some t) : Inv t := by
  unfold State.work at hs
  split at hs <;> try cases hs
  · next hpc =>
    split_ifs with hrun
    · exact h.workerMoved hpc (h.data.stay (by rw [hpc]; rfl)) (h.func.stay (by rw [hpc]; rfl))
        (h.flagged_update _ (by simp [hpc])) rfl rfl (.inl rfl)
    · exact h.workerMoved hpc (h.data.stay (by rw [hpc]; rfl)) (h.func.stay (by rw [hpc]; rfl))
        (h.flagged_update _ (by simp [hpc])) rfl rfl (.inl rfl)
  · next hpc =>
    split_ifs with hadded
    · exact h.workerMoved hpc (h.data.stay (by rw [hpc]; rfl)) (h.func.stay (by rw [hpc]; rfl))
        (h.flagged_update _ (by simp [hpc])) rfl rfl (.inl rfl)
    · exact h.workerMoved hpc (h.data.stay (by rw [hpc]; rfl)) (h.func.stay (by rw [hpc]; rfl))
        (h.flagged_update _ (by simp [hpc])) rfl rfl (.inl rfl)
  · next hpc =>
    split at hs <;> try cases hs
    next hm =>
    exact h.workerMoved hpc (Owned.lock (hm ▸ h.data) rfl) (h.func.stay (by rw [hpc]; rfl))
      (h.flagged_update _ (by simp [hpc])) rfl rfl (.inl rfl)
  · next hpc => exact h.swap hpc
  · next hpc =>
    exact h.workerMoved hpc (h.data.stay (by rw [hpc]; rfl)) (h.func.stay (by rw [hpc]; rfl))
      (fun hne => absurd (h.swapped hpc) hne) rfl rfl (.inl rfl)
  · next hpc =>
    exact h.workerMoved hpc (h.data.unlock (by rw [hpc]; rfl) rfl) (h.func.stay (by rw [hpc]; rfl))
      (h.flagged_update _ (by simp [hpc])) rfl rfl (.inl rfl)
  · next hpc =>
    split at hs <;> try cases hs
    next hm =>
    exact h.workerMoved hpc (h.data.stay (by rw [hpc]; rfl)) (Owned.lock (hm ▸ h.func) rfl)
      (h.flagged_update _ (by simp [hpc])) rfl rfl (.inl rfl)
  · next hpc => exact h.front hpc
  · next i before handed hpc => exact h.call hpc hs
  · next hpc =>
    exact h.workerMoved hpc (h.data.stay (by rw [hpc]; rfl)) (h.func.unlock (by rw [hpc]; rfl) rfl)
      (h.flagged_update _ (by simp [hpc])) rfl rfl (.inl rfl)
  · next hpc =>
    split at hs <;> try cases hs
    next hm =>
    exact h.workerMoved hpc (Owned.lock (hm ▸ h.data) rfl) (h.func.stay (by rw [hpc]; rfl))
      (h.flagged_update _ (by simp [hpc])) rfl rfl (.inl rfl)
  · next hpc =>
    split_ifs at hs with hw <;> rw [← Option.some.inj hs]
    · exact h.workerMoved hpc (h.data.unlock (by rw [hpc]; rfl) rfl)
        (h.func.stay (by rw [hpc]; rfl)) (h.flagged_update _ (by simp [hpc])) rfl rfl (.inl rfl)
    · exact h.workerMoved hpc (h.data.stay (by rw [hpc]; rfl)) (h.func.stay (by rw [hpc]; rfl))
        (h.flagged_update _ (by simp [hpc])) rfl rfl (.inl rfl)
  · next hpc =>
    exact h.workerMoved hpc (h.data.unlock (by rw [hpc]; rfl) rfl) (h.func.stay (by rw [hpc]; rfl))
      (h.flagged_update _ (by simp [hpc])) rfl rfl (.inl rfl)

/-! ### Any step, and a whole run -/

variable [DecidableEq φ]

omit [DecidableEq τ] in
/-- A callback that dies leaves fewer to come. -/
lemma Inv.destroy (h : Inv s) (ptrFunc : φ) :
    Inv { s with alive := Function.update s.alive ptrFunc false } := by
  have hfilter : ∀ l : List φ, l.filter (Function.update s.alive ptrFunc false) =
      (l.filter s.alive).filter fun f => decide (f ≠ ptrFunc) := by
    intro l
    rw [List.filter_filter]
    refine List.filter_congr fun f _ => ?_
    by_cases hf : f = ptrFunc <;> simp [hf]
  refine ⟨h.data, h.func, h.order, h.named, h.drained, h.swapped, h.flagged, fun topic => ?_, ?_,
    h.each, h.calls⟩
  · have hl := h.live topic
    simp only [State.living] at hl ⊢
    rw [hfilter, hfilter, hl]
  · have hw := h.walking
    rcases hpc : s.pc .worker with _ | _ | _ | _ | _ | _ | _ | _ | _ | _ | _ | _ | _ | _ |
      ⟨i, before, handed⟩ | _ | _ | _ | _ | _ <;> try trivial
    rw [hpc] at hw
    obtain ⟨topic, varData, rest, funcs, hq, hf, hi, htake, hsub, hadded⟩ := hw
    refine ⟨topic, varData, rest, funcs, hq, hf, hi, htake, ?_, hadded⟩
    rw [hfilter]
    exact ((List.Sublist.refl handed).append List.filter_sublist).trans hsub

lemma Inv.step (h : Inv s) {a : Action φ δ τ} (hs : s.step a = some t) : Inv t := by
  cases a with
  | addEvenVartData u varData => exact h.addEvenVartData hs
  | addFunc u strTopcs ptrFunc => exact h.addFunc hs
  | client u => exact h.client hs
  | destroy ptrFunc =>
    rw [← Option.some.inj hs]
    exact h.destroy ptrFunc
  | stop =>
    rw [← Option.some.inj hs]
    exact ⟨h.data, h.func, h.order, h.named, h.drained, h.swapped, h.flagged, h.live, h.walking,
      h.each, h.calls⟩
  | work => exact h.work hs

/-- The events posted are those delivered and then those queued, in order. The calls made are
those of the deliveries and then those of the event underway. An event has been handed to the
callbacks that were alive when it came up, in the order they were added and at least to those
alive throughout. No live callback is missing from its topic, and the flag is up, or about to
be, while events are queued. -/
structure InOrder (s : State φ δ τ) : Prop where
  posted : s.hist.posted = s.hist.delivered.map Delivery.varData ++
    (s.data.m_queueDealData ++ s.data.m_queueAddData).map Prod.snd
  calls : s.hist.calls = s.hist.delivered.flatMap Delivery.calls ++
    underway s.data.m_queueDealData (s.pc .worker)
  handed : ∀ d ∈ s.hist.delivered, d.after.Sublist d.handed ∧ d.handed.Sublist d.before ∧
    d.before.Sublist (s.hist.added d.varData.getName)
  kept : ∀ topic, ((s.data.m_mapFuncs topic).getD []).filter s.alive = s.living topic
  flagged : s.data.m_queueAddData ≠ [] →
    s.data.m_bDataAdded = true ∨ ∃ t, s.pc t = .storeAdded

/-- **Events in order**: whatever the interleaving, the worker deals with the events in the
order they were posted and hands each once to the live callbacks of its topic. -/
theorem events_in_order {as : List (Action φ δ τ)}
    (he : exec State.step (State.start φ δ τ) as = some s) : InOrder s := by
  have hrun : Always State.step (fun _ _ _ => True) (State.start φ δ τ) as :=
    fun _ _ _ _ _ _ => trivial
  have hi : Inv s := inv_of_always (I := fun _ s => Inv s) inv_start
    (fun _ _ _ _ hi _ hs => hi.step hs) hrun he
  exact ⟨hi.order, hi.calls, hi.each, hi.live, hi.flagged⟩

/-- Two callbacks are added to a topic and an event is posted; the owner of the second one lets
go of it while the first one has the event. -/
def ownerLeaves : List (Action ℕ ℕ ℕ) :=
  [.addFunc 0 [1] 0, .client 0, .client 0, .addFunc 1 [1] 1, .client 1, .client 1,
    .addEvenVartData 1 ⟨[1], 7⟩, .client 1, .work, .client 1, .work, .client 1,
    .work, .work, .work, .work, .work, .work, .work, .destroy 1, .work, .work, .work]

theorem ownerLeaves_in_order :
    ∃ s, exec State.step (State.start ℕ ℕ ℕ) ownerLeaves = some s ∧
      s.hist.calls = [(⟨[1], 7⟩, 0)] ∧ InOrder s := by
  have he : (exec State.step (State.start ℕ ℕ ℕ) ownerLeaves).map (fun s => s.hist.calls) =
      some [(⟨[1], 7⟩, 0)] := by decide
  obtain ⟨s, hs, hcalls⟩ := Option.map_eq_some_iff.mp he
  exact ⟨s, hs, hcalls, events_in_order hs⟩

end MmrService.EventCtrl
