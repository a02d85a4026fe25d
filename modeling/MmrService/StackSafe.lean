import MmrService.StackRuns

/-!
Every run of the stack.

Each value is returned once at most and none is lost, each node taken off is deleted once, when
the last thread lets go of it, and no thread looks into a node that is deleted, as long as the
loops of `pop` pass fewer than `2 ^ 31 - 2` times. The number of calls of `pop` says nothing
about that: two of them can keep each other in the loop.
-/

namespace MmrService.Stack

open Transition

variable {τ π α : Type} [DecidableEq τ] [DecidableEq π] {s : State τ π α} {a : Action τ π α}
  {g : Ref π → Record τ} {stack : List (Ref π)} {w : Ref π → Life τ α}

/-- The nodes met from a pointer. -/
inductive Reach (s : State τ π α) : CountedNodePtr π → Ref π → Prop
  | here {c : CountedNodePtr π} {r : Ref π} {nd : Node π α} (hc : c.ptr = some r.ptr)
    (hr : s.node r = some nd) : Reach s c r
  | next {c : CountedNodePtr π} {r q : Ref π} {nd : Node π α} (hc : c.ptr = some r.ptr)
    (hr : s.node r = some nd) (hq : Reach s nd.next q) : Reach s c q

omit [DecidableEq τ] [DecidableEq π] in
lemma reach_iff {c : CountedNodePtr π} {l : List (Ref π)} (h : Spine s.node g c l) (q : Ref π) :
    Reach s c q ↔ q ∈ l := by
  constructor
  · intro hq
    induction hq generalizing l with
    | here hc hr =>
      cases l with
      | nil =>
        rw [show _ = none from h] at hc
        cases hc
      | cons r l =>
        obtain ⟨rfl, nd, hn, -⟩ := h
        rw [node_inj hr hn (by simpa using hc.symm)]
        exact List.mem_cons_self
    | next hc hr _ ih =>
      cases l with
      | nil =>
        rw [show _ = none from h] at hc
        cases hc
      | cons r l =>
        obtain ⟨rfl, nd, hn, hl⟩ := h
        obtain rfl := node_inj hr hn (by simpa using hc.symm)
        rw [hr] at hn
        cases hn
        exact .tail _ (ih hl)
  · intro hq
    induction l generalizing c with
    | nil => cases hq
    | cons r l ih =>
      obtain ⟨rfl, nd, hn, hl⟩ := h
      rcases List.mem_cons.mp hq with rfl | hq
      · exact .here rfl hn
      · exact .next rfl hn (ih hl hq)

/-- The value a thread took off the stack and has not returned, with its node. -/
def State.hand (s : State τ π α) (t : τ) : Option (Ref π × Option α) :=
  match s.pc t with
  | .taking _ r => some (r, (s.node r).bind Node.data)
  | .counting _ r res => some (r, res)
  | .deletePopped r res => some (r, res)
  | .returning r res => some (r, res)
  | _ => none

/-- What was returned was pushed and is returned once; what was pushed is returned, with a
thread about to return it, or on the stack. A node is deleted once and only off the stack, and
one off the stack is deleted or with a thread that still has to let go of it. -/
structure Sound (s : State τ π α) : Prop where
  pushed_once : (s.pushed.map Prod.fst).Nodup
  returned_once : (s.returned.map Prod.fst).Nodup
  returned_pushed : ∀ r res, (r, res) ∈ s.returned → ∃ v, res = some v ∧ (r, v) ∈ s.pushed
  none_lost : ∀ r v, (r, v) ∈ s.pushed → (r, some v) ∈ s.returned ∨
    (∃ t, s.hand t = some (r, some v)) ∨
    Reach s s.head r ∧ ∃ nd, s.node r = some nd ∧ nd.data = some v
  deleted_once : s.deleted.Nodup
  deleted_popped : ∀ r ∈ s.deleted, r ∈ s.pushed.map Prod.fst ∧ ¬ Reach s s.head r
  popped_deleted : ∀ r ∈ s.pushed.map Prod.fst, ¬ Reach s s.head r →
    r ∈ s.deleted ∨ ∃ t ρ, (s.pc t).role = some (r, ρ)

omit [DecidableEq τ] [DecidableEq π] in
lemma Track.hand (h : Track g stack w s) {r : Ref π} {v : α} (hw : w r = .taken t v) :
    s.hand t = some (r, some v) := by
  have hc := h.values.carried t r v hw
  have hv := h.values.values t
  unfold State.hand
  cases hpc : s.pc t with
  | taking e q =>
    rw [hpc] at hc hv
    obtain rfl := Option.some.inj hc
    obtain ⟨v', nd, hw', hr, hd⟩ := hv
    rw [hw] at hw'
    cases hw'
    simp [hr, hd]
  | counting e q res =>
    rw [hpc] at hc hv
    obtain rfl := Option.some.inj hc
    obtain ⟨v', hw', rfl⟩ := hv
    rw [hw] at hw'
    cases hw'
    rfl
  | deletePopped q res =>
    rw [hpc] at hc hv
    obtain rfl := Option.some.inj hc
    obtain ⟨v', hw', rfl⟩ := hv
    rw [hw] at hw'
    cases hw'
    rfl
  | returning q res =>
    rw [hpc] at hc hv
    obtain rfl := Option.some.inj hc
    obtain ⟨v', hw', rfl⟩ := hv
    rw [hw] at hw'
    cases hw'
    rfl
  | _ =>
    rw [hpc] at hc
    cases hc

omit [DecidableEq τ] [DecidableEq π] in
/-- A node off the stack that is not gone is with a thread. -/
lemma Track.held (h : Track g stack w s) {r : Ref π} (hk : (g r).phase.stage = .popped) :
    ∃ t ρ, (s.pc t).role = some (r, ρ) := by
  have hgood := h.inv.good r
  have hroles := fun t ρ => h.inv.roles t r ρ
  generalize g r = d at hk hgood hroles
  generalize s.node r = n at hgood
  cases hgood with
  | taken nd t e H => exact ⟨t, .taker, (hroles t .taker).mpr rfl⟩
  | settled nd e H hc he hH =>
    obtain ⟨t, ht⟩ := hH
    exact ⟨t, .holder, (hroles t .holder).mpr ⟨ht, nofun⟩⟩
  | dying nd t e => exact ⟨t, .deleter, (hroles t .deleter).mpr rfl⟩
  | _ => cases hk

omit [DecidableEq τ] [DecidableEq π] in
lemma Track.sound (h : Track g stack w s) : Sound s := by
  have hreach := reach_iff h.inv.spine
  have hkeys : ∀ r, r ∈ s.pushed.map Prod.fst ↔ ∃ v, (w r).value = some v := by
    intro r
    simp [← h.lists.pushed.mem]
  refine ⟨h.lists.pushed.nodup, h.lists.returned.nodup, ?_, ?_, h.lists.deleted_nodup, ?_, ?_⟩
  · intro r res hr
    obtain ⟨v, rfl, hw⟩ := (h.lists.returned.mem r res).mp hr
    exact ⟨v, rfl, (h.lists.pushed.mem r v).mpr (by rw [hw]; rfl)⟩
  · intro r v hr
    have hv := (h.lists.pushed.mem r v).mp hr
    have hf := h.values.fits r
    cases hw : w r with
    | unpushed =>
      rw [hw] at hv
      cases hv
    | here x =>
      rw [hw] at hv hf
      obtain rfl := Option.some.inj hv
      exact .inr (.inr ⟨(hreach r).mpr ((h.inv.stacked r).mp (stage_stacked.mp hf)),
        h.values.data r x hw⟩)
    | taken t x =>
      rw [hw] at hv
      obtain rfl := Option.some.inj hv
      exact .inr (.inl ⟨t, h.hand hw⟩)
    | back x =>
      rw [hw] at hv
      obtain rfl := Option.some.inj hv
      exact .inl ((h.lists.returned.mem r _).mpr ⟨x, rfl, hw⟩)
  · intro r hr
    have hphase := (h.lists.deleted r).mp hr
    refine ⟨(hkeys r).mpr ?_, ?_⟩
    · have hf := h.values.fits r
      rw [hphase] at hf
      cases hw : w r with
      | unpushed =>
        rw [hw] at hf
        cases hf
      | _ => exact ⟨_, rfl⟩
    · rw [hreach, ← h.inv.stacked, hphase]
      exact nofun
  · intro r hr hnot
    rw [hreach, ← h.inv.stacked] at hnot
    obtain ⟨v, hv⟩ := (hkeys r).mp hr
    have hf := h.values.fits r
    have hk : (g r).phase.stage = .popped ∨ (g r).phase.stage = .gone := by
      cases hw : w r with
      | unpushed =>
        rw [hw] at hv
        cases hv
      | here x =>
        rw [hw] at hf
        exact absurd (stage_stacked.mp hf) hnot
      | taken t x =>
        rw [hw] at hf
        exact hf
      | back x =>
        rw [hw] at hf
        exact hf
    rcases hk with hk | hk
    · exact .inr (h.held hk)
    · exact .inl ((h.lists.deleted r).mpr (stage_gone.mp hk))

/-- No thread is stuck: no count is too large, and the nodes looked into are there. -/
lemma Track.progress (h : Track g stack w s) (hb : Bounded s) (hn : s.increments < 2 ^ 31 - 2)
    (ha : Enabled s a) : (Stack.step s a).isSome := by
  have hnode : ∀ t r ρ, (s.pc t).role = some (r, ρ) → ∃ nd, s.node r = some nd :=
    fun t r ρ hr => h.inv.node_of_role hr
  cases a with
  | push t data p =>
    obtain ⟨hpc, hp⟩ := ha
    simp [Stack.step, hpc, hp]
  | pop t =>
    rw [Enabled] at ha
    simp [Stack.step, ha]
  | next t b =>
    rw [Enabled] at ha
    have hcounts := hb.pcs t
    rw [Stack.step]
    cases hpc : s.pc t with
    | idle => exact absurd hpc ha
    | increasing c =>
      have hc := hcounts c.external_count (by rw [hpc]; exact List.mem_cons_self)
      have hint : IsInt (c.external_count + 1) := by
        obtain ⟨h0, h1⟩ := hc
        exact ⟨by omega, by omega⟩
      rw [Stack.advance, if_neg (not_not.mpr hint)]
      split
      · split <;> rfl
      · rfl
    | popping c r next =>
      rw [Stack.advance]
      split <;> rfl
    | counting e r res =>
      have he := hcounts e (by rw [hpc]; exact List.mem_cons_self)
      obtain ⟨nd, hr⟩ := hnode t r _ (by rw [hpc]; rfl)
      have hint : ¬ (¬ IsInt (e - 2) ∨ ¬ IsInt (-(e - 2))) := by
        obtain ⟨h0, h1⟩ := he
        rw [not_or, not_not, not_not]
        exact ⟨⟨by omega, by omega⟩, by omega, by omega⟩
      rw [Stack.advance, if_neg hint, hr]
      rfl
    | returning r res => rfl
    | returnNull => rfl
    | pushLoad data r =>
      obtain ⟨nd, hr⟩ := hnode t r _ (by rw [hpc]; rfl)
      rw [Stack.advance, hr]
      rfl
    | pushCas data r =>
      obtain ⟨nd, hr⟩ := hnode t r _ (by rw [hpc]; rfl)
      rw [Stack.advance, hr]
      rfl
    | held c r =>
      obtain ⟨nd, hr⟩ := hnode t r _ (by rw [hpc]; rfl)
      rw [Stack.advance, hr]
      rfl
    | leaving c r =>
      obtain ⟨nd, hr⟩ := hnode t r _ (by rw [hpc]; rfl)
      rw [Stack.advance, hr]
      rfl
    | loadCount c r =>
      obtain ⟨nd, hr⟩ := hnode t r _ (by rw [hpc]; rfl)
      rw [Stack.advance, hr]
      rfl
    | deleteLeft c r =>
      obtain ⟨nd, hr⟩ := hnode t r _ (by rw [hpc]; rfl)
      rw [Stack.advance, hr]
      rfl
    | taking e r =>
      obtain ⟨nd, hr⟩ := hnode t r _ (by rw [hpc]; rfl)
      rw [Stack.advance, hr]
      rfl
    | deletePopped r res =>
      obtain ⟨nd, hr⟩ := hnode t r _ (by rw [hpc]; rfl)
      rw [Stack.advance, hr]
      rfl

/-- **Every run of the stack** with fewer than `2 ^ 31 - 2` increments of the count of the head:
no value is lost or returned twice, nodes are deleted once, and no thread is stuck at a node
that is gone. -/
theorem stack_sound (as : List (Action τ π α)) (s : State τ π α)
    (hs : exec step init as = some s) (hn : s.increments < 2 ^ 31 - 2) :
    Sound s ∧ ∀ a, Enabled s a → (step s a).isSome := by
  obtain ⟨⟨g, stack, w, h⟩, hb⟩ := tracked_of_exec hs hn
  exact ⟨h.sound, fun a ha => h.progress hb hn ha⟩

/-- The run of a `push` and a `pop`. -/
theorem one_pop_sound : ∃ s : State Bool Unit ℕ,
    exec step init ([.push false 7 (), .next false false, .pop true] ++
      .replicate 7 (.next true false)) = some s ∧
    s.returned = [(⟨(), 0⟩, some 7)] ∧ s.deleted = [⟨(), 0⟩] ∧
    (Sound s ∧ ∀ a, Enabled s a → (step s a).isSome) := by
  have h : (exec step (init : State Bool Unit ℕ)
      ([.push false 7 (), .next false false, .pop true] ++ .replicate 7 (.next true false))).map
      (fun s => (s.returned, s.deleted, s.increments)) =
        some ([(⟨(), 0⟩, some 7)], [⟨(), 0⟩], 1) := by
    decide +kernel
  obtain ⟨s, hs, he⟩ := Option.map_eq_some_iff.mp h
  simp only [Prod.mk.injEq] at he
  obtain ⟨hr, hd, hn⟩ := he
  exact ⟨s, hs, hr, hd, stack_sound _ s hs (by rw [hn]; norm_num)⟩

/-! ### Two calls of `pop` for ever -/

/-- A stack of one node, with the count `e` at the head and `i` in the node, and two threads. -/
def rivals (e i : ℤ) (n : ℕ) (b : Bool) (x y : Pc Unit ℕ) : State Bool Unit ℕ where
  head := ⟨e, some ()⟩
  mem _ := some ⟨some 7, i, ⟨0, none⟩, 0⟩
  pc t := if t = b then x else y
  serial := 1
  pushed := [(⟨(), 0⟩, 7)]
  returned := []
  deleted := []
  pops := 2
  increments := n

variable {e i : ℤ} {n : ℕ} {b : Bool} {x y : Pc Unit ℕ}

lemma rivals_swap : rivals e i n b x y = rivals e i n (!b) y x := by
  have hpc : (fun t => if t = b then x else y) = fun t => if t = !b then y else x := by
    funext t
    cases t <;> cases b <;> rfl
  rw [rivals, hpc, rivals]

lemma update_rival (x' : Pc Unit ℕ) :
    Function.update (fun t => if t = b then x else y) b x' = fun t => if t = b then x' else y := by
  funext t
  cases t <;> cases b <;> rfl

lemma rivals_goto (x' : Pc Unit ℕ) : (rivals e i n b x y).goto b x' = rivals e i n b x' y := by
  rw [State.goto, rivals, update_rival, rivals]

lemma rivals_increase (hi : IsInt (e + 1)) :
    step (rivals e i n b (.increasing ⟨e, some ()⟩) y) (.next b false) =
      some (rivals (e + 1) i (n + 1) b (.held ⟨e + 1, some ()⟩ ⟨(), 0⟩) y) := by
  have hpc : (rivals e i n b (.increasing ⟨e, some ()⟩) y).pc b = .increasing ⟨e, some ()⟩ :=
    if_pos rfl
  rw [step, hpc, advance, if_neg (not_not.mpr hi), if_pos (by rfl)]
  simp only [State.goto, rivals, update_rival]
  rfl

lemma rivals_read {c : CountedNodePtr Unit} :
    step (rivals e i n b (.held c ⟨(), 0⟩) y) (.next b false) =
      some (rivals e i n b (.popping c ⟨(), 0⟩ ⟨0, none⟩) y) := by
  have hpc : (rivals e i n b (.held c ⟨(), 0⟩) y).pc b = .held c ⟨(), 0⟩ := if_pos rfl
  rw [step, hpc]
  exact congrArg some (rivals_goto _)

lemma rivals_miss {c next : CountedNodePtr Unit} {r : Ref Unit} (hc : c.external_count ≠ e) :
    step (rivals e i n b (.popping c r next) y) (.next b false) =
      some (rivals e i n b (.leaving ⟨e, some ()⟩ r) y) := by
  have hpc : (rivals e i n b (.popping c r next) y).pc b = .popping c r next := if_pos rfl
  have hne : (rivals e i n b (.popping c r next) y).head ≠ c := by
    intro he
    exact hc (congrArg CountedNodePtr.external_count he).symm
  rw [step, hpc, advance, if_neg hne]
  exact congrArg some (rivals_goto _)

lemma rivals_leave {c : CountedNodePtr Unit} (hi : i ≠ 1) (hint : IsInt (i - 1)) :
    step (rivals e i n b (.leaving c ⟨(), 0⟩) y) (.next b false) =
      some (rivals e (i - 1) n b (.increasing c) y) := by
  have hpc : (rivals e i n b (.leaving c ⟨(), 0⟩) y).pc b = .leaving c ⟨(), 0⟩ := if_pos rfl
  have hadd : fetch_add i (-1) = i - 1 := fetch_add_eq hint
  have hmem : ∀ nd : Option (Node Unit ℕ), ∀ f : Unit → Option (Node Unit ℕ),
      Function.update f () nd = fun _ => nd := fun nd f => funext fun _ => rfl
  rw [step, hpc, advance,
    show (rivals e i n b _ y).node ⟨(), 0⟩ = some ⟨some 7, i, ⟨0, none⟩, 0⟩ from rfl]
  simp only [Option.map_some, hadd, if_neg hi, State.goto, State.store, rivals, update_rival, hmem]

/-- A round: one takes hold of the head, and the compare-and-exchange of the other fails. -/
lemma rivals_round (hi : i < 1) (hint : IsInt (i - 1)) (he : IsInt (e + 1)) :
    exec step (rivals e i n b (.held ⟨e, some ()⟩ ⟨(), 0⟩) (.increasing ⟨e, some ()⟩))
      [.next (!b) false, .next b false, .next b false, .next b false] =
      some (rivals (e + 1) (i - 1) (n + 1) (!b) (.held ⟨e + 1, some ()⟩ ⟨(), 0⟩)
        (.increasing ⟨e + 1, some ()⟩)) := by
  rw [rivals_swap, exec_cons, rivals_increase he, Option.bind_some, rivals_swap, Bool.not_not,
    exec_cons, rivals_read, Option.bind_some, exec_cons, rivals_miss (by simp), Option.bind_some,
    exec_cons, rivals_leave hi.ne hint, Option.bind_some, exec_nil, rivals_swap]

/-- The threads when both have called `pop` on a stack of one node. -/
def start : Bool → Pc Unit ℕ :=
  Function.update (Function.update (Function.update (Function.update (Function.update
    (Function.update (fun _ => .idle) false (.pushCas 7 ⟨(), 0⟩)) false .idle) false
    (.increasing ⟨1, some ()⟩)) true (.increasing ⟨1, some ()⟩)) false
    (.held ⟨2, some ()⟩ ⟨(), 0⟩)) true (.increasing ⟨2, some ()⟩)

/-- Both take hold of the head, one after the other. -/
lemma rivals_start : exec step init [.push false 7 (), .next false false, .pop false, .pop true,
      .next false false, .next true false] =
    some (rivals 2 0 1 false (.held ⟨2, some ()⟩ ⟨(), 0⟩) (.increasing ⟨2, some ()⟩)) := by
  have hpc : ∀ t, start t = if t = false then .held ⟨2, some ()⟩ ⟨(), 0⟩ else
      .increasing ⟨2, some ()⟩ := by
    intro t
    cases t
    · rfl
    · rfl
  rw [rivals, ← funext hpc]
  rfl

/-- As many rounds as the count allows. -/
lemma rivals_rounds (k : ℕ) (hk : k + 2 < 2 ^ 31) :
    ∃ as b, exec step init as = some (rivals (k + 2) (-k) (k + 1) b
      (.held ⟨k + 2, some ()⟩ ⟨(), 0⟩) (.increasing ⟨k + 2, some ()⟩)) := by
  induction k with
  | zero => exact ⟨_, false, rivals_start⟩
  | succ k ih =>
    obtain ⟨as, b, h⟩ := ih (by omega)
    refine ⟨as ++ [.next (!b) false, .next b false, .next b false, .next b false], !b, ?_⟩
    have hk2 : ((k + 1 : ℕ) : ℤ) + 2 = k + 2 + 1 := by
      push_cast
      ring
    have hk0 : -((k + 1 : ℕ) : ℤ) = -k - 1 := by
      push_cast
      ring
    rw [exec_append, h, Option.bind_some,
      rivals_round (by omega) ⟨by omega, by omega⟩ ⟨by omega, by omega⟩, hk2, hk0]

/-- Two calls of `pop` are enough for the count of the head to get too large. -/
theorem two_pops_overflow : ∃ (as : List (Action Bool Unit ℕ)) (s : State Bool Unit ℕ),
    exec step init as = some s ∧ s.pops = 2 ∧ ∃ a, Enabled s a ∧ step s a = none := by
  obtain ⟨as, b, h⟩ := rivals_rounds (2 ^ 31 - 3) (by norm_num)
  refine ⟨as, _, h, rfl, .next (!b) false, ?_, ?_⟩
  · rw [rivals_swap]
    simp [Enabled, rivals]
  · rw [rivals_swap]
    have hint : ¬ IsInt (((2 ^ 31 - 3 : ℕ) : ℤ) + 2 + 1) := by
      rw [IsInt]
      norm_num
    rw [step, show (rivals _ _ _ (!b) _ _).pc (!b) = _ from if_pos rfl, advance, if_pos hint]

end MmrService.Stack
