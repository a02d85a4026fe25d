import MmrService.StackValues

/-!
The records along a run of the stack.

No count of a pointer exceeds the number of increments by more than one, so none wraps as long
as the loops of `pop` pass fewer than `2 ^ 31 - 2` times; then every step of a thread has its
counterpart in the records of the counts, the values and the lists.
-/

namespace MmrService.Stack

open Transition

variable {τ π α : Type} [DecidableEq τ] [DecidableEq π]

/-! ### The counts -/

/-- The counts a thread remembers. -/
def Pc.counts : Pc π α → List ℤ
  | .increasing old_head => [old_head.external_count]
  | .held old_head _ => [old_head.external_count]
  | .popping old_head _ next => [old_head.external_count, next.external_count]
  | .leaving old_head _ => [old_head.external_count]
  | .loadCount old_head _ => [old_head.external_count]
  | .deleteLeft old_head _ => [old_head.external_count]
  | .taking external_count _ => [external_count]
  | .counting external_count _ _ => [external_count]
  | _ => []

/-- A count that the increments so far account for. -/
def Within (n : ℕ) (c : ℤ) : Prop := 0 ≤ c ∧ c ≤ n + 1

lemma Within.mono {n m : ℕ} {c : ℤ} (h : Within n c) (hle : n ≤ m) : Within m c := by
  obtain ⟨h0, h1⟩ := h
  exact ⟨h0, by omega⟩

/-- The counts of all pointers. -/
structure Bounded (s : State τ π α) : Prop where
  head : Within s.increments s.head.external_count
  nodes : ∀ p nd, s.mem p = some nd → Within s.increments nd.next.external_count
  pcs : ∀ t, ∀ c ∈ (s.pc t).counts, Within s.increments c

variable {s s' : State τ π α} {a : Action τ π α} {t : τ} {r : Ref π}

omit [DecidableEq τ] [DecidableEq π] in
lemma bounded_init : Bounded (init : State τ π α) where
  head := ⟨le_rfl, Int.le_of_lt Int.one_pos⟩
  nodes _ _ h := by cases h
  pcs _ _ h := by cases h

/-- Changes of the head, of one node and of one thread. -/
lemma Bounded.change (h : Bounded s) (p : π) (n : Option (Node π α)) (pc' : Pc π α)
    (hinc : s.increments ≤ s'.increments) (hhead : Within s'.increments s'.head.external_count)
    (hmem : s'.mem = Function.update s.mem p n)
    (hn : ∀ nd ∈ n, Within s'.increments nd.next.external_count)
    (hpc : s'.pc = Function.update s.pc t pc')
    (hpc' : ∀ c ∈ pc'.counts, Within s'.increments c) : Bounded s' where
  head := hhead
  nodes q nd hq := by
    rw [hmem] at hq
    by_cases he : q = p
    · rw [he, Function.update_self] at hq
      exact hn nd hq
    · rw [Function.update_of_ne he] at hq
      exact (h.nodes q nd hq).mono hinc
  pcs u c hc := by
    rw [hpc] at hc
    by_cases hu : u = t
    · rw [hu, Function.update_self] at hc
      exact hpc' c hc
    · rw [Function.update_of_ne hu] at hc
      exact (h.pcs u c hc).mono hinc

omit [DecidableEq π] in
/-- One that leaves the nodes as they are. -/
lemma Bounded.goto (h : Bounded s) (pc' : Pc π α) (hinc : s.increments ≤ s'.increments)
    (hhead : Within s'.increments s'.head.external_count) (hmem : s'.mem = s.mem)
    (hpc : s'.pc = Function.update s.pc t pc')
    (hpc' : ∀ c ∈ pc'.counts, Within s'.increments c) : Bounded s' where
  head := hhead
  nodes q nd hq := (h.nodes q nd (hmem ▸ hq)).mono hinc
  pcs u c hc := by
    rw [hpc] at hc
    by_cases hu : u = t
    · rw [hu, Function.update_self] at hc
      exact hpc' c hc
    · rw [Function.update_of_ne hu] at hc
      exact (h.pcs u c hc).mono hinc

lemma Bounded.store (h : Bounded s) {nd : Node π α} {pc' : Pc π α}
    (hn : Within s.increments nd.next.external_count)
    (hpc' : ∀ c ∈ pc'.counts, Within s.increments c) :
    Bounded ((s.store r (some nd)).goto t pc') :=
  h.change r.ptr (some nd) pc' le_rfl h.head rfl (fun x hx => by cases hx; exact hn) rfl hpc'

omit [DecidableEq τ] [DecidableEq π] in
lemma Bounded.of_node (h : Bounded s) {nd : Node π α} (hr : s.node r = some nd) :
    Within s.increments nd.next.external_count :=
  h.nodes r.ptr nd (node_eq_some.mp hr).1

lemma within_one (n : ℕ) : Within n 1 := ⟨Int.one_nonneg, by omega⟩

theorem Bounded.advance (h : Bounded s) {b : Bool} (hs : step s (.next t b) = some s') :
    Bounded s' ∧ s.increments ≤ s'.increments := by
  have hpcs := h.pcs t
  rw [step] at hs
  cases hpc : s.pc t with
  | idle =>
    rw [hpc] at hs
    cases hs
  | pushLoad data r =>
    rw [hpc] at hs
    obtain ⟨nd, hr, rfl⟩ := Option.map_eq_some_iff.mp hs
    exact ⟨h.store h.head nofun, le_rfl⟩
  | pushCas data r =>
    rw [hpc] at hs
    obtain ⟨nd, hr, rfl⟩ := Option.map_eq_some_iff.mp hs
    split
    · exact ⟨h.goto (t := t) .idle le_rfl (within_one _) rfl rfl nofun, le_rfl⟩
    · exact ⟨h.store h.head nofun, le_rfl⟩
  | increasing old_head =>
    rw [hpc, Stack.advance] at hs
    have hnew : Within (s.increments + 1) (s.head.external_count + 1) := by
      obtain ⟨h0, h1⟩ := h.head
      exact ⟨by omega, by push_cast; omega⟩
    split at hs
    · cases hs
    · split at hs
      · next he =>
        subst he
        split at hs
        · cases hs
          exact ⟨h.goto (t := t) .returnNull (Nat.le_succ _) hnew rfl rfl nofun,
            Nat.le_succ _⟩
        · next p _ =>
          cases hs
          refine ⟨h.goto (t := t) (.held _ (s.ref p)) (Nat.le_succ _) hnew rfl rfl ?_,
            Nat.le_succ _⟩
          exact fun c hc => by obtain rfl := List.mem_singleton.mp hc; exact hnew
      · cases hs
        refine ⟨h.goto (t := t) (.increasing s.head) le_rfl h.head rfl rfl ?_, le_rfl⟩
        exact fun c hc => by obtain rfl := List.mem_singleton.mp hc; exact h.head
  | held old_head r =>
    rw [hpc] at hs hpcs
    obtain ⟨nd, hr, rfl⟩ := Option.map_eq_some_iff.mp hs
    refine ⟨h.goto (t := t) (.popping old_head r nd.next) le_rfl h.head rfl rfl ?_, le_rfl⟩
    exact List.forall_mem_cons.mpr
      ⟨hpcs _ List.mem_cons_self, List.forall_mem_singleton.mpr (h.of_node hr)⟩
  | popping old_head r next =>
    rw [hpc] at hs hpcs
    obtain ⟨hold, hnext⟩ := List.forall_mem_cons.mp hpcs
    rw [Stack.advance] at hs
    split at hs
    · cases hs
      exact ⟨h.goto (t := t) (.taking _ r) le_rfl (List.forall_mem_singleton.mp hnext) rfl
        rfl (List.forall_mem_singleton.mpr hold), le_rfl⟩
    · cases hs
      exact ⟨h.goto (t := t) (.leaving s.head r) le_rfl h.head rfl rfl
        (List.forall_mem_singleton.mpr h.head), le_rfl⟩
  | leaving old_head r =>
    rw [hpc] at hs hpcs
    obtain ⟨nd, hr, rfl⟩ := Option.map_eq_some_iff.mp hs
    have hnext := h.of_node hr
    refine ⟨h.store hnext ?_, le_rfl⟩
    split
    · exact hpcs
    · exact hpcs
  | loadCount old_head r =>
    rw [hpc] at hs hpcs
    obtain ⟨nd, hr, rfl⟩ := Option.map_eq_some_iff.mp hs
    exact ⟨h.goto (t := t) (.deleteLeft old_head r) le_rfl h.head rfl rfl hpcs, le_rfl⟩
  | deleteLeft old_head r =>
    rw [hpc] at hs hpcs
    obtain ⟨nd, hr, rfl⟩ := Option.map_eq_some_iff.mp hs
    exact ⟨h.change (t := t) r.ptr none (.increasing old_head) le_rfl h.head
      rfl nofun rfl hpcs, le_rfl⟩
  | taking e r =>
    rw [hpc] at hs hpcs
    obtain ⟨nd, hr, rfl⟩ := Option.map_eq_some_iff.mp hs
    have hnext := h.of_node hr
    exact ⟨h.store hnext hpcs, le_rfl⟩
  | counting e r res =>
    rw [hpc, Stack.advance] at hs
    split at hs
    · cases hs
    · obtain ⟨nd, hr, rfl⟩ := Option.map_eq_some_iff.mp hs
      have hnext := h.of_node hr
      refine ⟨h.store hnext ?_, le_rfl⟩
      split
      · exact nofun
      · exact nofun
  | deletePopped r res =>
    rw [hpc] at hs
    obtain ⟨nd, hr, rfl⟩ := Option.map_eq_some_iff.mp hs
    exact ⟨h.change (t := t) r.ptr none (.returning r res) le_rfl h.head
      rfl nofun rfl nofun, le_rfl⟩
  | returning r res =>
    rw [hpc] at hs
    cases hs
    exact ⟨h.goto (t := t) .idle le_rfl h.head rfl rfl nofun, le_rfl⟩
  | returnNull =>
    rw [hpc] at hs
    cases hs
    exact ⟨h.goto (t := t) .idle le_rfl h.head rfl rfl nofun, le_rfl⟩

theorem Bounded.step (h : Bounded s) (hs : step s a = some s') :
    Bounded s' ∧ s.increments ≤ s'.increments := by
  cases a with
  | push t data p =>
    rw [Stack.step] at hs
    split at hs
    · cases hs
      refine ⟨h.change (t := t) p (some ⟨some data, 0, s.head, s.serial⟩)
        (.pushCas data ⟨p, s.serial⟩) le_rfl h.head rfl ?_ rfl nofun, le_rfl⟩
      exact fun nd hnd => by cases hnd; exact h.head
    · cases hs
  | pop t =>
    rw [Stack.step] at hs
    split at hs
    · cases hs
      exact ⟨h.goto (t := t) (.increasing s.head) le_rfl h.head rfl rfl
        (List.forall_mem_singleton.mpr h.head), le_rfl⟩
    · cases hs
  | next t b => exact h.advance hs

/-! ### The records along a run -/

/-- All that is known of a state. -/
structure Track (g : Ref π → Record τ) (stack : List (Ref π)) (w : Ref π → Life τ α)
    (s : State τ π α) : Prop where
  inv : Inv g stack s
  values : Values g w s
  lists : Lists g w s

/-- There are records that agree with the state. -/
def Tracked (s : State τ π α) : Prop := ∃ g stack w, Track g stack w s

omit [DecidableEq τ] [DecidableEq π] in
lemma tracked_init : Tracked (init : State τ π α) := by
  refine ⟨_, _, fun _ => .unpushed, inv_init, ⟨fun _ => rfl, nofun, nofun, fun _ => trivial⟩,
    ⟨fun r v => ?_, List.nodup_nil⟩, ⟨fun r v => ?_, List.nodup_nil⟩, fun r => ?_, List.nodup_nil⟩
  · simp [init, Life.value]
  · simp [init]
  · simp [init]

variable {g : Ref π → Record τ} {stack : List (Ref π)} {w : Ref π → Life τ α}

omit [DecidableEq π] in
/-- A step of a thread alone. -/
lemma Track.goto (h : Track g stack w s) (pc' : Pc π α) (hpc : s'.pc = Function.update s.pc t pc')
    (hinv : Inv g stack s') (hnode : s'.node = s.node)
    (hcarries : pc'.carries = (s.pc t).carries) (hself : Value s.node w t pc')
    (hp : s'.pushed = s.pushed) (hr : s'.returned = s.returned)
    (hdel : s'.deleted = s.deleted) : Tracked s' := by
  refine ⟨g, stack, w, hinv, h.values.goto hpc hnode hcarries hself, ?_⟩
  exact ⟨hp ▸ h.lists.pushed, hr ▸ h.lists.returned, by rw [hdel]; exact h.lists.deleted,
    hdel ▸ h.lists.deleted_nodup⟩

/-- The call of `push`. -/
lemma Track.push (h : Track g stack w s) {p : π} {data : α} (hpc : s.pc t = .idle)
    (hp : s.mem p = none) :
    Tracked { s with
      mem := Function.update s.mem p (some ⟨some data, 0, s.head, s.serial⟩)
      pc := Function.update s.pc t (.pushCas data ⟨p, s.serial⟩)
      serial := s.serial + 1 } := by
  have hphase := h.inv.unborn ⟨p, s.serial⟩ le_rfl
  have hnode := node_new (s := s) ⟨some data, 0, s.head, s.serial⟩ hp rfl
  have hw : w ⟨p, s.serial⟩ = .unpushed := by
    have hf := h.values.fits ⟨p, s.serial⟩
    rw [hphase] at hf
    exact Life.fits_new.mp hf
  refine ⟨_, _, w, h.inv.push hpc hp, ?_, ?_⟩
  · refine h.values.at_kept h.inv (t := t) rfl
      (fun q hq => (congrFun hnode q).trans (Function.update_of_ne hq _ _)) ?_ ?_ ?_
      (.inr ⟨fun v => by rw [hw]; exact nofun, fun u _ => by rw [hphase]; exact ⟨nofun, nofun⟩⟩) ?_
    · rw [hw]
      rfl
    · rw [hpc]
      exact nofun
    · intro v hv
      rw [hw] at hv
      cases hv
    · exact ⟨_, (congrFun hnode _).trans (Function.update_self ..), rfl⟩
  · refine h.lists.same rfl rfl rfl (iff_of_false nofun ?_)
    rw [hphase]
    exact nofun

/-- A thread changes a node and moves no value. -/
lemma Track.store (h : Track g stack w s) {d : Record τ} {r : Ref π} {nd nd' : Node π α}
    {pc' : Pc π α} (hr : s.node r = some nd) (hs : nd'.serial = nd.serial)
    (hinv : Inv (Function.update g r d) stack ((s.store r (some nd')).goto t pc'))
    (hstage : d.phase.stage = (g r).phase.stage)
    (hold : (s.pc t).carries = none ∨ (s.pc t).carries = some r)
    (hcarries : pc'.carries = (s.pc t).carries)
    (hdata : nd'.data = nd.data ∨ (g r).phase = .taken t)
    (hself : Value (Function.update s.node r (some nd')) w t pc') :
    Tracked ((s.store r (some nd')).goto t pc') := by
  have hnode := node_store (some nd') hr
    (fun x hx => by cases hx; exact hs.trans (node_eq_some.mp hr).2)
  refine ⟨_, stack, w, hinv, ?_, ?_⟩
  · refine h.values.at_kept h.inv (t := t) rfl
      (fun q hq => (congrFun hnode q).trans (Function.update_of_ne hq _ _)) ?_ ?_ ?_ ?_ ?_
    · rw [hstage]
      exact h.values.fits r
    · intro q hq hc
      rcases hold with hn | hn
      · rw [hn] at hc
        cases hc
      · rw [hn] at hc
        cases hc
        exact hq rfl
    · intro v hv
      rw [hcarries]
      exact h.values.carried t r v hv
    · refine hdata.imp (fun hd x hx => ?_) fun hphase => ⟨?_, fun u hu => ?_⟩
      · rw [hr] at hx
        cases hx
        exact ⟨nd', (congrFun hnode r).trans (Function.update_self ..), hd⟩
      · refine (h.values.fits r).not_here ?_
        rw [hphase]
        exact nofun
      · rw [hphase]
        exact ⟨nofun, fun he => hu (by cases he; rfl)⟩
    · rw [← hnode] at hself
      exact hself
  · exact h.lists.same rfl rfl rfl (by rw [← stage_gone, hstage, stage_gone])

/-- The compare-and-exchange of `push`. -/
lemma Track.pushed (h : Track g stack w s) {r : Ref π} {nd : Node π α} {data : α}
    (hpc : s.pc t = .pushCas data r) (hr : s.node r = some nd) (hhead : s.head = nd.next) :
    Tracked { s.goto t .idle with
      head := ⟨1, some r.ptr⟩
      pushed := s.pushed ++ [(r, data)] } := by
  have hphase : (g r).phase = .fresh t := (h.inv.roles t r .pusher).mp (by rw [hpc]; rfl)
  have hw : w r = .unpushed := by
    have hf := h.values.fits r
    rw [hphase] at hf
    exact Life.fits_new.mp hf
  obtain ⟨x, hx, hdata⟩ : ∃ nd, s.node r = some nd ∧ nd.data = some data := by
    have hv := h.values.values t
    rw [hpc] at hv
    exact hv
  refine ⟨_, r :: stack, Function.update w r (.here data), h.inv.pushed hpc hr hhead _, ?_, ?_⟩
  · refine h.values.at h.inv (t := t) rfl (fun _ _ => rfl) rfl ?_ (fun u _ v => ?_) nofun ?_
      (.inl fun nd hnd => ⟨nd, hnd, rfl⟩) trivial
    · rw [hpc]
      exact nofun
    · rw [hw]
      exact iff_of_false nofun nofun
    · intro v hv
      cases hv
      exact ⟨x, hx, hdata⟩
  · refine h.lists.push hw rfl rfl rfl (iff_of_false nofun ?_)
    rw [hphase]
    exact nofun

/-- `increase_head_count` with a node at the head. -/
lemma Track.increase (h : Track g stack w s) {c : CountedNodePtr π} {p : π}
    (hpc : s.pc t = .increasing c) (hp : s.head.ptr = some p)
    (hb : s.head.external_count + 1 < 2 ^ 31) (n : ℕ) :
    Tracked { s.goto t (.held { s.head with external_count := s.head.external_count + 1 }
        (s.ref p)) with
      head := { s.head with external_count := s.head.external_count + 1 }
      increments := n } := by
  obtain ⟨r, l, nd, rfl, rfl, hr, hhead, hsp⟩ := h.inv.top hp
  have hphase : (g r).phase = .stacked := (h.inv.stacked r).mpr List.mem_cons_self
  have hcarries : (s.pc t).carries = none := by rw [hpc]; rfl
  rw [ref_of_node hr, hhead]
  rw [hhead] at hb
  refine ⟨_, r :: l, w, h.inv.increase n hpc hr hsp hb, ?_, ?_⟩
  · refine h.values.at_kept h.inv (t := t) rfl (fun _ _ => rfl) ?_ ?_ ?_
      (.inl fun nd hnd => ⟨nd, hnd, rfl⟩) trivial
    · have hf := h.values.fits r
      rw [hphase] at hf
      exact hf
    · rw [hcarries]
      exact nofun
    · intro v hv
      have hc := h.values.carried t r v hv
      rw [hcarries] at hc
      cases hc
  · refine h.lists.same rfl rfl rfl (iff_of_false nofun ?_)
    rw [hphase]
    exact nofun

/-- The compare-and-exchange of `pop`. -/
lemma Track.popped (h : Track g stack w s) {r : Ref π} {next : CountedNodePtr π}
    (hpc : s.pc t = .popping s.head r next) :
    Tracked { s.goto t (.taking s.head.external_count r) with head := next } := by
  obtain ⟨l, rfl, hext, hinv⟩ := h.inv.popped hpc
  have hphase : (g r).phase = .stacked := (h.inv.stacked r).mpr List.mem_cons_self
  obtain ⟨v, hw⟩ : ∃ v, w r = .here v := by
    have hf := h.values.fits r
    rw [hphase] at hf
    exact Life.fits_stacked.mp hf
  obtain ⟨nd, hr, hd⟩ := h.values.data r v hw
  refine ⟨_, l, Function.update w r (.taken t v), hinv, ?_, ?_⟩
  · refine h.values.at h.inv (t := t) rfl (fun _ _ => rfl) (.inl rfl) ?_ (fun u hu v' => ?_)
      (fun _ _ => rfl) nofun (.inl fun nd hnd => ⟨nd, hnd, rfl⟩) ?_
    · rw [hpc]
      exact nofun
    · rw [hw]
      exact iff_of_false nofun fun he => hu (by cases he; rfl)
    · exact ⟨v, nd, Function.update_self .., hr, hd⟩
  · refine h.lists.keep rfl rfl rfl (by rw [hw]; rfl) (fun v' => ?_) (iff_of_false nofun ?_)
    · rw [hw]
      exact iff_of_false nofun nofun
    · rw [hphase]
      exact nofun

/-- `delete`. -/
lemma Track.deleted (h : Track g stack w s) {r : Ref π} (pc' : Pc π α)
    (hrole : (s.pc t).role = some (r, .deleter)) (hrole' : pc'.role = none)
    (hlocal : ∀ n (g' : Ref π → Record τ), Local n g' pc')
    (hold : (s.pc t).carries = none ∨ (s.pc t).carries = some r)
    (hcarries : pc'.carries = (s.pc t).carries) (hself : ∀ n, Value n w t pc') :
    Tracked { (s.store r none).goto t pc' with deleted := s.deleted ++ [r] } := by
  obtain ⟨nd, hr⟩ := h.inv.node_of_role hrole
  have hphase : (g r).phase = .dying t := (h.inv.roles t r .deleter).mp hrole
  have hnode : (s.store r none).node = Function.update s.node r none := node_store none hr nofun
  have hfits := h.values.fits r
  rw [hphase] at hfits
  refine ⟨_, stack, w, h.inv.deleted hrole hrole' hlocal _, ?_, ?_⟩
  · refine h.values.at_kept h.inv (t := t) rfl
      (fun q hq => (congrFun hnode q).trans (Function.update_of_ne hq _ _)) hfits.gone ?_ ?_
      (.inr ⟨hfits.not_here nofun, fun u _ => by rw [hphase]; exact ⟨nofun, nofun⟩⟩) (hself _)
    · intro q hq hc
      rcases hold with hn | hn
      · rw [hn] at hc
        cases hc
      · rw [hn] at hc
        cases hc
        exact hq rfl
    · intro v hv
      rw [hcarries]
      exact h.values.carried t r v hv
  · refine h.lists.delete rfl rfl rfl ?_ rfl
    rw [hphase]
    exact nofun

/-- The end of `pop`. -/
lemma Track.return (h : Track g stack w s) {r : Ref π} {res : Option α}
    (hpc : s.pc t = .returning r res) :
    Tracked { s.goto t .idle with returned := s.returned ++ [(r, res)] } := by
  obtain ⟨v, hw, rfl⟩ : ∃ v, w r = .taken t v ∧ res = some v := by
    have hv := h.values.values t
    rw [hpc] at hv
    exact hv
  have hinv : Inv g stack { s.goto t .idle with returned := s.returned ++ [(r, some v)] } :=
    h.inv.goto (t := t) rfl rfl rfl h.inv.spine (by rw [hpc]; rfl) trivial
  have hfits := h.values.fits r
  rw [hw] at hfits
  refine ⟨g, stack, Function.update w r (.back v), hinv, ?_, h.lists.return hw rfl rfl rfl⟩
  rw [← Function.update_eq_self r g]
  refine h.values.at h.inv (t := t) rfl (fun _ _ => rfl) hfits ?_ (fun u hu v' => ?_) nofun nofun
    (.inl fun nd hnd => ⟨nd, hnd, rfl⟩) trivial
  · rw [hpc]
    intro q hq hc
    cases hc
    exact hq rfl
  · rw [hw]
    exact iff_of_false (fun he => hu (by cases he; rfl)) nofun

/-- `fetch_add` by a thread that only held the node. -/
lemma Track.leave (h : Track g stack w s) {r : Ref π} {nd : Node π α} {c : CountedNodePtr π}
    (hpc : s.pc t = .leaving c r) (hr : s.node r = some nd) :
    Tracked
      ((s.store r (some { nd with internal_count := fetch_add nd.internal_count (-1) })).goto t
        (if nd.internal_count = 1 then .loadCount c r else .increasing c)) := by
  have hrole : (s.pc t).role = some (r, .holder) := by rw [hpc]; rfl
  have hgood := h.inv.good r
  rw [hr] at hgood
  obtain ⟨d, hd, hleft⟩ := hgood.leave ((h.inv.roles t r .holder).mp hrole)
  refine h.store hr rfl (h.inv.left hrole hr hd hleft ?_ ?_) hleft.stage ?_ ?_ (.inl rfl) ?_
  · split <;> rfl
  · intro n g'
    split <;> trivial
  · rw [hpc]
    exact .inl rfl
  · rw [hpc]
    split <;> rfl
  · split <;> trivial

/-- `fetch_add` by the thread that took the node off. -/
lemma Track.count (h : Track g stack w s) {r : Ref π} {nd : Node π α} {e : ℤ} {res : Option α}
    (hpc : s.pc t = .counting e r res) (hr : s.node r = some nd) :
    Tracked
      ((s.store r (some { nd with internal_count := fetch_add nd.internal_count (e - 2) })).goto t
        (if nd.internal_count = -(e - 2) then .deletePopped r res else .returning r res)) := by
  have hrole : (s.pc t).role = some (r, .taker) := by rw [hpc]; rfl
  have hlocal := h.inv.locals t
  have hself := h.values.values t
  rw [hpc] at hlocal hself
  obtain rfl : e = (g r).ext := hlocal
  have hgood := h.inv.good r
  rw [hr] at hgood
  obtain ⟨d, hd, hleft⟩ := hgood.count ((h.inv.roles t r .taker).mp hrole)
  refine h.store hr rfl (h.inv.left hrole hr hd hleft ?_ ?_) hleft.stage ?_ ?_ (.inl rfl) ?_
  · split <;> rfl
  · intro n g'
    split <;> trivial
  · rw [hpc]
    exact .inr rfl
  · rw [hpc]
    split <;> rfl
  · split
    · exact hself
    · exact hself

theorem Track.advance (h : Track g stack w s) (hb : Bounded s) {b : Bool}
    (hs : step s (.next t b) = some s') (hn : s'.increments < 2 ^ 31 - 2) : Tracked s' := by
  have hinv := h.inv
  have hself := h.values.values t
  have hlocal := hinv.locals t
  rw [step] at hs
  cases hpc : s.pc t with
  | idle =>
    rw [hpc] at hs
    cases hs
  | pushLoad data r =>
    rw [hpc] at hs hself
    obtain ⟨nd, hr, rfl⟩ := Option.map_eq_some_iff.mp hs
    obtain ⟨x, hx, hd⟩ := hself
    rw [hr] at hx
    cases hx
    have hren := hinv.renext s.head (.pushCas data r) (by rw [hpc]; rfl) hr rfl trivial
    rw [← Function.update_eq_self r g] at hren
    exact h.store hr rfl hren rfl (.inl (by rw [hpc]; rfl)) (by rw [hpc]; rfl) (.inl rfl)
      ⟨_, Function.update_self .., hd⟩
  | pushCas data r =>
    rw [hpc] at hs hself
    obtain ⟨nd, hr, rfl⟩ := Option.map_eq_some_iff.mp hs
    split
    · next hcas => exact h.pushed hpc hr hcas.1
    · obtain ⟨x, hx, hd⟩ := hself
      rw [hr] at hx
      cases hx
      have hren := hinv.renext s.head (.pushLoad data r) (by rw [hpc]; rfl) hr rfl trivial
      rw [← Function.update_eq_self r g] at hren
      exact h.store hr rfl hren rfl (.inl (by rw [hpc]; rfl)) (by rw [hpc]; rfl) (.inl rfl)
        ⟨_, Function.update_self .., hd⟩
  | increasing old_head =>
    rw [hpc, Stack.advance] at hs
    split at hs
    · cases hs
    · split at hs
      · next he =>
        subst he
        split at hs
        · next hp =>
          cases hs
          exact h.goto (t := t) .returnNull rfl (hinv.increaseNull _ hpc hp hp) rfl
            (by rw [hpc]; rfl) trivial rfl rfl rfl
        · next p hp =>
          cases hs
          refine h.increase hpc hp ?_ _
          have hle := hb.head.2
          simp only at hn
          omega
      · cases hs
        exact h.goto (t := t) (.increasing s.head) rfl
          (hinv.goto (t := t) rfl rfl rfl hinv.spine (by rw [hpc]; rfl) trivial) rfl
          (by rw [hpc]; rfl) trivial rfl rfl rfl
  | held old_head r =>
    rw [hpc] at hs hlocal
    obtain ⟨nd, hr, rfl⟩ := Option.map_eq_some_iff.mp hs
    exact h.goto (t := t) (.popping old_head r nd.next) rfl
      (hinv.goto (t := t) rfl rfl rfl hinv.spine (by rw [hpc]; rfl) ⟨hlocal, nd, hr, rfl⟩) rfl
      (by rw [hpc]; rfl) trivial rfl rfl rfl
  | popping old_head r next =>
    rw [hpc, Stack.advance] at hs
    split at hs
    · next he =>
      subst he
      cases hs
      exact h.popped hpc
    · cases hs
      exact h.goto (t := t) (.leaving s.head r) rfl
        (hinv.goto (t := t) rfl rfl rfl hinv.spine (by rw [hpc]; rfl) trivial) rfl
        (by rw [hpc]; rfl) trivial rfl rfl rfl
  | leaving old_head r =>
    rw [hpc] at hs
    obtain ⟨nd, hr, rfl⟩ := Option.map_eq_some_iff.mp hs
    exact h.leave hpc hr
  | loadCount old_head r =>
    rw [hpc] at hs
    obtain ⟨nd, hr, rfl⟩ := Option.map_eq_some_iff.mp hs
    exact h.goto (t := t) (.deleteLeft old_head r) rfl
      (hinv.goto (t := t) rfl rfl rfl hinv.spine (by rw [hpc]; rfl) trivial) rfl
      (by rw [hpc]; rfl) trivial rfl rfl rfl
  | deleteLeft old_head r =>
    rw [hpc] at hs
    obtain ⟨nd, hr, rfl⟩ := Option.map_eq_some_iff.mp hs
    exact h.deleted (t := t) (.increasing old_head) (by rw [hpc]; rfl) rfl
      (fun _ _ => trivial) (.inl (by rw [hpc]; rfl)) (by rw [hpc]; rfl) fun _ => trivial
  | taking e r =>
    rw [hpc] at hs hself
    obtain ⟨nd, hr, rfl⟩ := Option.map_eq_some_iff.mp hs
    obtain ⟨v, x, hw, hx, hd⟩ := hself
    rw [hr] at hx
    cases hx
    have htake := hinv.take hpc hr
    rw [← Function.update_eq_self r g] at htake
    exact h.store hr rfl htake rfl (.inr (by rw [hpc]; rfl)) (by rw [hpc]; rfl)
      (.inr ((hinv.roles t r .taker).mp (by rw [hpc]; rfl))) ⟨v, hw, hd⟩
  | counting e r res =>
    rw [hpc, Stack.advance] at hs
    split at hs
    · cases hs
    · obtain ⟨nd, hr, rfl⟩ := Option.map_eq_some_iff.mp hs
      exact h.count hpc hr
  | deletePopped r res =>
    rw [hpc] at hs hself
    obtain ⟨nd, hr, rfl⟩ := Option.map_eq_some_iff.mp hs
    exact h.deleted (t := t) (.returning r res) (by rw [hpc]; rfl) rfl
      (fun _ _ => trivial) (.inr (by rw [hpc]; rfl)) (by rw [hpc]; rfl) fun _ => hself
  | returning r res =>
    rw [hpc] at hs
    cases hs
    exact h.return hpc
  | returnNull =>
    rw [hpc] at hs
    cases hs
    exact h.goto (t := t) .idle rfl
      (hinv.goto (t := t) rfl rfl rfl hinv.spine (by rw [hpc]; rfl) trivial) rfl
      (by rw [hpc]; rfl) trivial rfl rfl rfl

theorem Track.step (h : Track g stack w s) (hb : Bounded s) (hs : step s a = some s')
    (hn : s'.increments < 2 ^ 31 - 2) : Tracked s' := by
  cases a with
  | push t data p =>
    rw [Stack.step] at hs
    split at hs
    · next hpc hp =>
      cases hs
      exact h.push hpc hp
    · cases hs
  | pop t =>
    rw [Stack.step] at hs
    split at hs
    · next hpc =>
      cases hs
      exact h.goto (t := t) (.increasing s.head) rfl
        (h.inv.goto (t := t) rfl rfl rfl h.inv.spine (by rw [hpc]; rfl) trivial) rfl
        (by rw [hpc]; rfl) trivial rfl rfl rfl
    · cases hs
  | next t b => exact h.advance hb hs hn

/-- In a run with few increments the records agree with every state. -/
lemma tracked_of_exec {as : List (Action τ π α)} (hs : exec Stack.step init as = some s)
    (hn : s.increments < 2 ^ 31 - 2) : Tracked s ∧ Bounded s := by
  have h := inv_of_always (P := fun _ _ _ => True)
    (I := fun _ s => Bounded s ∧ (s.increments < 2 ^ 31 - 2 → Tracked s))
    ⟨bounded_init, fun _ => tracked_init⟩ ?_ (fun _ _ _ _ _ _ => trivial) hs
  · exact ⟨h.2 hn, h.1⟩
  · rintro _ t a u ⟨hb, ht⟩ - hu
    obtain ⟨hb', hle⟩ := hb.step hu
    refine ⟨hb', fun hlt => ?_⟩
    obtain ⟨g, stack, w, h⟩ := ht (by omega)
    exact h.step hb hu hlt

end MmrService.Stack
