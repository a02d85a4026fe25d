import MmrService.StackLockFree
import Mathlib.Data.Finset.Card

/-!
The counts of a node and the threads that hold it.

A node is pushed, taken off the stack by one thread, and held by any number of them in
between; a record beside each node says how far it is and who holds it. The two counts agree
with the record in every state, whatever the threads do, so a node that is held is there.
-/

namespace MmrService.Stack

open Transition SplitCount

variable {τ π α : Type}

/-- How far a node is: not made, not yet pushed by the thread that made it, on the stack, taken
off by a thread that has not counted yet, counted and still held, left by all and about to be
deleted by a thread, and deleted. -/
inductive Phase (τ : Type)
  | unborn
  | fresh (t : τ)
  | stacked
  | taken (t : τ)
  | settled
  | dying (t : τ)
  | gone

/-- The record of a node: how far it is, the count in the word that leads to it, and who holds
it. -/
structure Record (τ : Type) where
  phase : Phase τ
  ext : ℤ
  holders : Finset τ

/-- What a thread does with a node. -/
inductive Role
  | pusher
  | holder
  | taker
  | deleter

def Pc.role : Pc π α → Option (Ref π × Role)
  | .pushLoad _ r => some (r, .pusher)
  | .pushCas _ r => some (r, .pusher)
  | .held _ r => some (r, .holder)
  | .popping _ r _ => some (r, .holder)
  | .leaving _ r => some (r, .holder)
  | .taking _ r => some (r, .taker)
  | .counting _ r _ => some (r, .taker)
  | .loadCount _ r => some (r, .deleter)
  | .deleteLeft _ r => some (r, .deleter)
  | .deletePopped r _ => some (r, .deleter)
  | _ => none

/-- The role of a thread by the record. -/
def Has (d : Record τ) (t : τ) : Role → Prop
  | .pusher => d.phase = .fresh t
  | .holder => t ∈ d.holders ∧ d.phase ≠ .taken t
  | .taker => d.phase = .taken t
  | .deleter => d.phase = .dying t

/-- A node and its record. -/
inductive Good : Option (Node π α) → Record τ → Prop
  | unborn (e : ℤ) : Good none ⟨.unborn, e, ∅⟩
  | fresh (nd : Node π α) (t : τ) (e : ℤ) (hi : nd.internal_count = 0) :
    Good (some nd) ⟨.fresh t, e, ∅⟩
  | stacked (nd : Node π α) (e : ℤ) (H : Finset τ) (hc : Attached e nd.internal_count H.card)
    (he : e < 2 ^ 31) : Good (some nd) ⟨.stacked, e, H⟩
  | taken (nd : Node π α) (t : τ) (e : ℤ) (H : Finset τ)
    (hc : Attached e nd.internal_count H.card) (he : e < 2 ^ 31) (ht : t ∈ H) :
    Good (some nd) ⟨.taken t, e, H⟩
  | settled (nd : Node π α) (e : ℤ) (H : Finset τ) (hc : nd.internal_count = H.card)
    (he : nd.internal_count < 2 ^ 31) (hH : H.Nonempty) : Good (some nd) ⟨.settled, e, H⟩
  | dying (nd : Node π α) (t : τ) (e : ℤ) : Good (some nd) ⟨.dying t, e, ∅⟩
  | gone (e : ℤ) : Good none ⟨.gone, e, ∅⟩

/-- The nodes met from a head, each with the count in the word that leads to it. -/
def Spine (node : Ref π → Option (Node π α)) (g : Ref π → Record τ) :
    CountedNodePtr π → List (Ref π) → Prop
  | c, [] => c.ptr = none
  | c, r :: l => c = ⟨(g r).ext, some r.ptr⟩ ∧ ∃ nd, node r = some nd ∧ Spine node g nd.next l

/-- What a thread remembers of a node. -/
def Local (node : Ref π → Option (Node π α)) (g : Ref π → Record τ) : Pc π α → Prop
  | .held old_head r => old_head.ptr = some r.ptr
  | .popping old_head r next =>
    old_head.ptr = some r.ptr ∧ ∃ nd, node r = some nd ∧ nd.next = next
  | .taking external_count r => external_count = (g r).ext
  | .counting external_count r _ => external_count = (g r).ext
  | _ => True

/-- The invariant, of the records, the nodes on the stack and the state. -/
structure Inv (g : Ref π → Record τ) (stack : List (Ref π)) (s : State τ π α) : Prop where
  good : ∀ r, Good (s.node r) (g r)
  unborn : ∀ r, s.serial ≤ r.serial → (g r).phase = .unborn
  roles : ∀ t r ρ, (s.pc t).role = some (r, ρ) ↔ Has (g r) t ρ
  spine : Spine s.node g s.head stack
  stacked : ∀ r, (g r).phase = .stacked ↔ r ∈ stack
  nodup : stack.Nodup
  locals : ∀ t, Local s.node g (s.pc t)

variable {g : Ref π → Record τ} {stack : List (Ref π)} {s s' : State τ π α} {t : τ} {r : Ref π}

/-! ### Looking up nodes -/

lemma node_eq_some {nd : Node π α} :
    s.node r = some nd ↔ s.mem r.ptr = some nd ∧ nd.serial = r.serial := by
  simp [State.node, Option.filter_eq_some_iff]

/-- There is one node at an address. -/
lemma node_inj {q : Ref π} {nd nd' : Node π α} (hr : s.node r = some nd)
    (hq : s.node q = some nd') (hp : r.ptr = q.ptr) : r = q := by
  obtain ⟨hmr, hsr⟩ := node_eq_some.mp hr
  obtain ⟨hmq, hsq⟩ := node_eq_some.mp hq
  rw [← hp, hmr] at hmq
  cases hmq
  obtain ⟨p, k⟩ := r
  obtain ⟨p', k'⟩ := q
  simp only at hp hsr hsq
  rw [hp, ← hsr, ← hsq]

lemma ref_of_node {nd : Node π α} (hr : s.node r = some nd) : s.ref r.ptr = r := by
  obtain ⟨hm, hs⟩ := node_eq_some.mp hr
  simp [State.ref, hm, hs]

/-- A change at an address is one of the node that is there. -/
lemma node_store [DecidableEq π] {nd : Node π α} (nd' : Option (Node π α))
    (hr : s.node r = some nd) (hs : ∀ x ∈ nd', x.serial = r.serial) :
    (s.store r nd').node = Function.update s.node r nd' := by
  funext q
  by_cases hq : q = r
  · subst hq
    rw [Function.update_self]
    simp only [State.node, State.store, Function.update_self]
    cases nd' with
    | none => rfl
    | some x => simpa using hs x rfl
  · rw [Function.update_of_ne hq]
    by_cases hp : q.ptr = r.ptr
    · have hne : q.serial ≠ r.serial := fun he => hq (by cases q; cases r; simp_all)
      obtain ⟨hm, hser⟩ := node_eq_some.mp hr
      have hold : s.node q = none := by
        simp [State.node, hp, hm, hser, hne.symm]
      rw [hold]
      simp only [State.node, State.store, hp, Function.update_self]
      cases nd' with
      | none => rfl
      | some x => simp [hs x rfl, hne.symm]
    · simp [State.node, State.store, Function.update_of_ne hp]

/-! ### One step at one node -/

lemma Spine.congr {node node' : Ref π → Option (Node π α)} {g' : Ref π → Record τ}
    {c : CountedNodePtr π} {l : List (Ref π)} (h : Spine node g c l)
    (hext : ∀ q ∈ l, (g' q).ext = (g q).ext)
    (hnext : ∀ q ∈ l, ∀ nd, node q = some nd → ∃ nd', node' q = some nd' ∧ nd'.next = nd.next) :
    Spine node' g' c l := by
  induction l generalizing c with
  | nil => exact h
  | cons q l ih =>
    obtain ⟨hc, nd, hq, hl⟩ := h
    obtain ⟨nd', hq', he⟩ := hnext q List.mem_cons_self nd hq
    refine ⟨by rw [hext q List.mem_cons_self]; exact hc, nd', hq', ?_⟩
    rw [he]
    exact ih hl (fun p hp => hext p (.tail _ hp)) fun p hp => hnext p (.tail _ hp)

lemma Local.congr [DecidableEq π] {node node' : Ref π → Option (Node π α)} {d : Record τ}
    {pc : Pc π α} (h : Local node g pc) (hnode : ∀ q ≠ r, node' q = node q)
    (hext : pc.role = some (r, .taker) → d.ext = (g r).ext)
    (hnext : pc.role = some (r, .holder) → ∀ nd, node r = some nd →
      ∃ nd', node' r = some nd' ∧ nd'.next = nd.next) :
    Local node' (Function.update g r d) pc := by
  have hupd : ∀ q, pc.role = some (q, .taker) → (Function.update g r d q).ext = (g q).ext := by
    intro q hq
    by_cases he : q = r
    · subst he
      rw [Function.update_self]
      exact hext hq
    · rw [Function.update_of_ne he]
  cases pc with
  | taking e q => exact Eq.trans h (hupd q rfl).symm
  | counting e q res => exact Eq.trans h (hupd q rfl).symm
  | held old q => exact h
  | popping old q next =>
    obtain ⟨hp, nd, hq, hn⟩ := h
    refine ⟨hp, ?_⟩
    by_cases he : q = r
    · subst he
      obtain ⟨nd', hq', hn'⟩ := hnext rfl nd hq
      exact ⟨nd', hq', hn'.trans hn⟩
    · exact ⟨nd, by rw [hnode q he]; exact hq, hn⟩
  | _ => trivial

section Steps

variable [DecidableEq τ] [DecidableEq π]

/-- **One step at one node**: thread `t`, which has a role with node `r` alone, changes that
node and its record. -/
theorem Inv.at (h : Inv g stack s) {d : Record τ} {stack' : List (Ref π)} {pc' : Pc π α}
    {n : Option (Node π α)} (hpc : s'.pc = Function.update s.pc t pc')
    (hnode : s'.node = Function.update s.node r n) (hserial : s.serial ≤ s'.serial)
    (hborn : r.serial < s'.serial)
    (hold : ∀ q ρ, (s.pc t).role = some (q, ρ) → q = r)
    (hnew : ∀ q ρ, pc'.role = some (q, ρ) → q = r)
    (hgood : Good n d) (ht : ∀ ρ, pc'.role = some (r, ρ) ↔ Has d t ρ)
    (hu : ∀ u ≠ t, ∀ ρ, Has d u ρ ↔ Has (g r) u ρ)
    (hspine : Spine s'.node (Function.update g r d) s'.head stack')
    (hstacked : ∀ q, (Function.update g r d q).phase = .stacked ↔ q ∈ stack')
    (hnodup : stack'.Nodup) (hlocal : Local s'.node (Function.update g r d) pc')
    (hext : ∀ u ≠ t, (g r).phase = .taken u → d.ext = (g r).ext)
    (hnext : ∀ u ≠ t, u ∈ (g r).holders → ∀ nd, s.node r = some nd →
      ∃ nd', n = some nd' ∧ nd'.next = nd.next) :
    Inv (Function.update g r d) stack' s' where
  good q := by
    by_cases hq : q = r
    · subst hq
      rw [hnode, Function.update_self, Function.update_self]
      exact hgood
    · rw [hnode, Function.update_of_ne hq, Function.update_of_ne hq]
      exact h.good q
  unborn q hq := by
    have hne : q ≠ r := by
      rintro rfl
      exact absurd hborn hq.not_gt
    rw [Function.update_of_ne hne]
    exact h.unborn q (hserial.trans hq)
  roles u q ρ := by
    by_cases hq : q = r
    · subst hq
      rw [Function.update_self, hpc]
      by_cases hut : u = t
      · subst hut
        rw [Function.update_self]
        exact ht ρ
      · rw [Function.update_of_ne hut, h.roles u q ρ]
        exact (hu u hut ρ).symm
    · rw [Function.update_of_ne hq, ← h.roles u q ρ, hpc]
      by_cases hut : u = t
      · subst hut
        rw [Function.update_self]
        exact iff_of_false (fun hr => hq (hnew q ρ hr)) fun hr => hq (hold q ρ hr)
      · rw [Function.update_of_ne hut]
  spine := hspine
  stacked := hstacked
  nodup := hnodup
  locals u := by
    rw [hpc]
    by_cases hut : u = t
    · subst hut
      rw [Function.update_self]
      exact hlocal
    · rw [Function.update_of_ne hut]
      refine (h.locals u).congr (fun q hq => by rw [hnode, Function.update_of_ne hq])
        (fun hr => hext u hut ((h.roles u r _).mp hr)) fun hr nd hnd => ?_
      obtain ⟨nd', hn, he⟩ := hnext u hut ((h.roles u r _).mp hr).1 nd hnd
      exact ⟨nd', by rw [hnode, Function.update_self, hn], he⟩

omit [DecidableEq τ] [DecidableEq π] in
/-- A node that is there was made before. -/
lemma Inv.born (h : Inv g stack s) {nd : Node π α} (hr : s.node r = some nd) :
    r.serial < s.serial := by
  by_contra hle
  have hphase := h.unborn r (not_lt.mp hle)
  have hgood := h.good r
  rw [hr] at hgood
  generalize g r = d at hphase hgood
  cases hgood <;> cases hphase

/-- One that leaves the stack as it is. -/
theorem Inv.at_kept (h : Inv g stack s) {d : Record τ} {pc' : Pc π α} {nd nd' : Node π α}
    (hpc : s'.pc = Function.update s.pc t pc')
    (hnode : s'.node = Function.update s.node r (some nd')) (hr : s.node r = some nd)
    (hserial : s'.serial = s.serial) (hhead : s'.head = s.head)
    (hold : ∀ q ρ, (s.pc t).role = some (q, ρ) → q = r)
    (hnew : ∀ q ρ, pc'.role = some (q, ρ) → q = r)
    (hgood : Good (some nd') d) (ht : ∀ ρ, pc'.role = some (r, ρ) ↔ Has d t ρ)
    (hu : ∀ u ≠ t, ∀ ρ, Has d u ρ ↔ Has (g r) u ρ)
    (hphase : d.phase = .stacked ↔ (g r).phase = .stacked) (hext : d.ext = (g r).ext)
    (hnext : (∃ u, (g r).phase = .fresh u) ∨ nd'.next = nd.next)
    (hlocal : Local s'.node (Function.update g r d) pc') :
    Inv (Function.update g r d) stack s' := by
  have hheld : (g r).phase = .stacked ∨ (∃ u, u ∈ (g r).holders) → nd'.next = nd.next := by
    intro hr'
    rcases hnext with ⟨u, hu⟩ | hnext
    · have hg := h.good r
      rw [hr] at hg
      generalize g r = d at hg hu hr'
      cases hg with
      | fresh =>
        rcases hr' with hr' | ⟨v, hv⟩
        · cases hr'
        · exact absurd hv (Finset.notMem_empty v)
      | _ => cases hu
    · exact hnext
  refine h.at hpc hnode hserial.ge (hserial ▸ h.born hr) hold hnew hgood ht hu ?_ ?_ h.nodup hlocal
    (fun _ _ _ => hext) fun u _ hu x hx => ?_
  · rw [hhead, hnode]
    refine h.spine.congr (fun q _ => ?_) fun q hq x hx => ?_
    · by_cases he : q = r
      · rw [he, Function.update_self, hext]
      · rw [Function.update_of_ne he]
    · by_cases he : q = r
      · subst he
        rw [hr] at hx
        cases hx
        exact ⟨nd', Function.update_self .., hheld (.inl ((h.stacked q).mpr hq))⟩
      · exact ⟨x, by rw [Function.update_of_ne he, hx], rfl⟩
  · intro q
    by_cases he : q = r
    · rw [he, Function.update_self, hphase, h.stacked]
    · rw [Function.update_of_ne he, h.stacked]
  · rw [hr] at hx
    cases hx
    exact ⟨nd', rfl, hheld (.inr ⟨u, hu⟩)⟩

omit [DecidableEq π] in
/-- A step of a thread alone. -/
lemma Inv.goto (h : Inv g stack s) {pc' : Pc π α} (hpc : s'.pc = Function.update s.pc t pc')
    (hnode : s'.node = s.node) (hserial : s'.serial = s.serial)
    (hspine : Spine s.node g s'.head stack) (hrole : pc'.role = (s.pc t).role)
    (hlocal : Local s.node g pc') : Inv g stack s' where
  good q := by rw [hnode]; exact h.good q
  unborn q hq := h.unborn q (hserial ▸ hq)
  roles u q ρ := by
    rw [hpc, ← h.roles]
    by_cases hut : u = t
    · rw [hut, Function.update_self, hrole]
    · rw [Function.update_of_ne hut]
  spine := by rw [hnode]; exact hspine
  stacked := h.stacked
  nodup := h.nodup
  locals u := by
    rw [hpc, hnode]
    by_cases hut : u = t
    · rw [hut, Function.update_self]
      exact hlocal
    · rw [Function.update_of_ne hut]
      exact h.locals u

/-! ### The steps -/

omit [DecidableEq τ] [DecidableEq π] in
lemma inv_init : Inv (fun _ => (⟨.unborn, 0, ∅⟩ : Record τ)) [] (init : State τ π α) where
  good r := .unborn 0
  unborn _ _ := rfl
  roles t r ρ := by
    refine iff_of_false (fun h => by cases h) fun h => ?_
    cases ρ with
    | holder => exact absurd h.1 (Finset.notMem_empty t)
    | _ => cases h
  spine := rfl
  stacked r := iff_of_false (fun h => by cases h) List.not_mem_nil
  nodup := List.nodup_nil
  locals _ := trivial

omit [DecidableEq τ] in
/-- A new node at an address without one. -/
lemma node_new {p : π} (nd : Node π α) (hp : s.mem p = none) (hs : nd.serial = s.serial) :
    ({ s with mem := Function.update s.mem p (some nd) } : State τ π α).node =
      Function.update s.node ⟨p, s.serial⟩ (some nd) := by
  funext q
  by_cases hq : q.ptr = p
  · by_cases hk : q.serial = s.serial
    · have he : q = ⟨p, s.serial⟩ := by
        rw [← hq, ← hk]
      rw [he, Function.update_self]
      simp [State.node, hs]
    · have he : q ≠ ⟨p, s.serial⟩ := fun he => hk (by rw [he])
      rw [Function.update_of_ne he]
      have hk' : ¬ s.serial = q.serial := fun h => hk h.symm
      simp [State.node, hq, hp, hs, hk']
  · have he : q ≠ ⟨p, s.serial⟩ := fun he => hq (by rw [he])
    rw [Function.update_of_ne he]
    simp [State.node, Function.update_of_ne hq]

end Steps

end MmrService.Stack
