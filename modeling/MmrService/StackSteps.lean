import MmrService.StackCounts

/-!
What each step of `push` and `pop` does to the records of the nodes.

A step changes the record of one node at most: pushing and popping move it on, taking hold of
the head and letting go change its holders, and the last one to let go deletes it.
-/

namespace MmrService.Stack

open Transition SplitCount

variable {τ π α : Type} {g : Ref π → Record τ} {stack : List (Ref π)} {s : State τ π α} {t : τ}
  {r : Ref π} {nd : Node π α}

/-! ### What is known of a node -/

lemma Good.congr {d : Record τ} {nd' : Node π α} (h : Good (some nd) d)
    (hi : nd'.internal_count = nd.internal_count) : Good (some nd') d := by
  cases h with
  | fresh _ t e hi' => exact .fresh nd' t e (hi.trans hi')
  | stacked _ e H hc he => exact .stacked nd' e H (hi ▸ hc) he
  | taken _ t e H hc he ht => exact .taken nd' t e H (hi ▸ hc) he ht
  | settled _ e H hc he hH => exact .settled nd' e H (hi ▸ hc) (hi ▸ he) hH
  | dying _ t e => exact .dying nd' t e

/-- A node some thread has a role with is there. -/
lemma Inv.node_of_role (h : Inv g stack s) {ρ : Role} (hr : (s.pc t).role = some (r, ρ)) :
    ∃ nd, s.node r = some nd := by
  have hhas := (h.roles t r ρ).mp hr
  have hgood := h.good r
  generalize g r = d at hhas hgood
  generalize s.node r = n at hgood ⊢
  cases hgood with
  | unborn => cases ρ <;> simp [Has] at hhas
  | gone => cases ρ <;> simp [Has] at hhas
  | _ => exact ⟨_, rfl⟩

lemma Inv.null (h : Inv g stack s) (hp : s.head.ptr = none) : stack = [] := by
  have hsp := h.spine
  cases stack with
  | nil => rfl
  | cons q l =>
    rw [hsp.1] at hp
    cases hp

/-- The node at the head is the first of the stack. -/
lemma Inv.top (h : Inv g stack s) {p : π} (hp : s.head.ptr = some p) :
    ∃ r l nd, stack = r :: l ∧ r.ptr = p ∧ s.node r = some nd ∧ s.head = ⟨(g r).ext, some p⟩ ∧
      Spine s.node g nd.next l := by
  have hsp := h.spine
  cases stack with
  | nil =>
    rw [show s.head.ptr = none from hsp] at hp
    cases hp
  | cons r l =>
    obtain ⟨hc, nd, hr, hl⟩ := hsp
    rw [hc] at hp
    cases hp
    exact ⟨r, l, nd, rfl, rfl, hr, hc, hl⟩

lemma fetch_add_eq {i d : ℤ} (h : IsInt (i + d)) : fetch_add i d = i + d := by
  obtain ⟨hl, hu⟩ := h
  exact Int.bmod_eq_of_le (by omega) (by omega)

variable [DecidableEq τ] [DecidableEq π]

omit [DecidableEq τ] in
lemma node_keep (hr : s.node r = some nd) : s.node = Function.update s.node r (some nd) := by
  rw [← hr, Function.update_eq_self]

/-! ### Making a node and pushing it -/

omit [DecidableEq τ] [DecidableEq π] in
/-- A node that is not on the stack is not met from the head. -/
lemma Spine.frame [DecidableEq π] {node : Ref π → Option (Node π α)} {c : CountedNodePtr π}
    {l : List (Ref π)} {n : Option (Node π α)} {d : Record τ} (h : Spine node g c l) (hr : r ∉ l) :
    Spine (Function.update node r n) (Function.update g r d) c l := by
  refine h.congr (fun q hq => ?_) fun q hq nd hnd => ⟨nd, ?_, rfl⟩
  · rw [Function.update_of_ne (by rintro rfl; exact hr hq)]
  · rw [Function.update_of_ne (by rintro rfl; exact hr hq), hnd]

omit [DecidableEq τ] in
lemma stacked_frame (h : Inv g stack s) {d : Record τ} (hr : (g r).phase ≠ .stacked)
    (hd : d.phase ≠ .stacked) (q : Ref π) :
    (Function.update g r d q).phase = .stacked ↔ q ∈ stack := by
  by_cases hq : q = r
  · rw [hq, Function.update_self]
    exact iff_of_false hd fun hm => hr ((h.stacked r).mpr hm)
  · rw [Function.update_of_ne hq]
    exact h.stacked q

/-- The call of `push`. -/
lemma Inv.push (h : Inv g stack s) {p : π} {data : α} (hpc : s.pc t = .idle) (hp : s.mem p = none) :
    Inv (Function.update g ⟨p, s.serial⟩ ⟨.fresh t, 0, ∅⟩) stack
      { s with
        mem := Function.update s.mem p (some ⟨some data, 0, s.head, s.serial⟩)
        pc := Function.update s.pc t (.pushCas data ⟨p, s.serial⟩)
        serial := s.serial + 1 } := by
  have hphase := h.unborn ⟨p, s.serial⟩ le_rfl
  have hhold : (g ⟨p, s.serial⟩).holders = ∅ := by
    have hgood := h.good ⟨p, s.serial⟩
    generalize g ⟨p, s.serial⟩ = d at hphase hgood
    generalize s.node _ = n at hgood
    cases hgood with
    | unborn => rfl
    | _ => cases hphase
  have hnode := node_new (s := s) ⟨some data, 0, s.head, s.serial⟩ hp rfl
  have hnot : (⟨p, s.serial⟩ : Ref π) ∉ stack := by
    rw [← h.stacked, hphase]
    exact nofun
  refine h.at (t := t) rfl hnode (Nat.le_succ _) (Nat.lt_succ_self _) ?_ ?_ (.fresh _ t 0 rfl) ?_
    ?_ ?_ (stacked_frame h (by rw [hphase]; exact nofun) nofun) h.nodup trivial ?_ ?_
  · rw [hpc]
    exact nofun
  · intro q ρ hq
    cases hq
    rfl
  · intro ρ
    cases ρ <;> simp [Pc.role, Has]
  · intro u hu ρ
    cases ρ <;> simp [Has, hphase, hhold, hu.symm]
  · have hsp := h.spine.frame (n := some ⟨some data, 0, s.head, s.serial⟩) (d := ⟨.fresh t, 0, ∅⟩)
      hnot
    rw [← hnode] at hsp
    exact hsp
  · intro u hu ht
    rw [hphase] at ht
    cases ht
  · intro u hu hm
    rw [hhold] at hm
    exact absurd hm (Finset.notMem_empty u)

/-- The thread that made a node writes its next pointer. -/
lemma Inv.renext (h : Inv g stack s) (c : CountedNodePtr π) (pc' : Pc π α)
    (hrole : (s.pc t).role = some (r, .pusher)) (hr : s.node r = some nd)
    (hrole' : pc'.role = some (r, .pusher)) (hlocal : Local (Function.update s.node r
      (some { nd with next := c })) g pc') :
    Inv g stack ((s.store r (some { nd with next := c })).goto t pc') := by
  have hphase : (g r).phase = .fresh t := (h.roles t r .pusher).mp hrole
  have hgood : Good (some { nd with next := c }) (g r) := by
    have hgood := h.good r
    rw [hr] at hgood
    exact hgood.congr rfl
  have hnode := node_store (some { nd with next := c }) hr
    (fun x hx => by cases hx; exact (node_eq_some.mp hr).2)
  rw [← hnode] at hlocal
  rw [← Function.update_eq_self r g]
  refine h.at_kept (t := t) rfl hnode hr rfl rfl ?_ ?_ hgood ?_
    (fun _ _ _ => Iff.rfl) Iff.rfl rfl (.inl ⟨t, hphase⟩) ?_
  · intro q ρ hq
    rw [hrole] at hq
    cases hq
    rfl
  · intro q ρ hq
    rw [hrole'] at hq
    cases hq
    rfl
  · intro ρ
    rw [hrole', ← h.roles t r ρ, hrole]
  · rw [Function.update_eq_self]
    exact hlocal

/-- The compare-and-exchange of `push`. -/
lemma Inv.pushed (h : Inv g stack s) {data : α} (hpc : s.pc t = .pushCas data r)
    (hr : s.node r = some nd) (hhead : s.head = nd.next) (l : List (Ref π × α)) :
    Inv (Function.update g r ⟨.stacked, 1, ∅⟩) (r :: stack)
      { s.goto t .idle with
        head := ⟨1, some r.ptr⟩
        pushed := l } := by
  have hphase : (g r).phase = .fresh t := (h.roles t r .pusher).mp (by rw [hpc]; rfl)
  have hnot : r ∉ stack := by
    rw [← h.stacked, hphase]
    exact nofun
  obtain ⟨hhold, hint⟩ : (g r).holders = ∅ ∧ nd.internal_count = 0 := by
    have hgood := h.good r
    rw [hr] at hgood
    generalize g r = d at hphase hgood
    cases hgood with
    | fresh _ u e hi => exact ⟨rfl, hi⟩
    | _ => cases hphase
  have hnode := node_keep hr
  refine h.at (t := t) (n := some nd) rfl hnode le_rfl (h.born hr) ?_ nofun
    (.stacked nd 1 ∅ ?_ (by norm_num)) ?_ ?_ ?_ ?_ (List.nodup_cons.mpr ⟨hnot, h.nodup⟩) trivial
    ?_ ?_
  · intro q ρ hq
    rw [hpc] at hq
    cases hq
    rfl
  · rw [hint]
    exact Attached.new
  · intro ρ
    cases ρ <;> simp [Pc.role, Has]
  · intro u hu ρ
    cases ρ <;> simp [Has, hphase, hhold, hu.symm]
  · refine ⟨by rw [Function.update_self], nd, hr, ?_⟩
    have hsp := h.spine.frame (n := some nd) (d := ⟨.stacked, 1, ∅⟩) hnot
    rw [← hnode, hhead] at hsp
    exact hsp
  · intro q
    by_cases hq : q = r
    · rw [hq, Function.update_self]
      exact iff_of_true rfl List.mem_cons_self
    · rw [Function.update_of_ne hq, h.stacked, List.mem_cons]
      exact (or_iff_right hq).symm
  · intro u _ hu
    rw [hphase] at hu
    cases hu
  · intro u _ hu
    rw [hhold] at hu
    exact absurd hu (Finset.notMem_empty u)

/-! ### Taking hold of the head -/

omit [DecidableEq π] in
/-- `increase_head_count` of an empty stack. -/
lemma Inv.increaseNull (h : Inv g stack s) {old_head c : CountedNodePtr π} (n : ℕ)
    (hpc : s.pc t = .increasing old_head) (hnull : s.head.ptr = none) (hc : c.ptr = none) :
    Inv g stack { s.goto t .returnNull with
      head := c
      increments := n } := by
  have hstack := h.null hnull
  refine h.goto (t := t) rfl rfl rfl ?_ (by rw [hpc]; rfl) trivial
  rw [hstack]
  exact hc

/-- `increase_head_count` with a node at the head. -/
lemma Inv.increase (h : Inv g (r :: stack) s) {old_head : CountedNodePtr π} (n : ℕ)
    (hpc : s.pc t = .increasing old_head) (hr : s.node r = some nd)
    (hsp : Spine s.node g nd.next stack) (he : (g r).ext + 1 < 2 ^ 31) :
    Inv (Function.update g r ⟨.stacked, (g r).ext + 1, insert t (g r).holders⟩) (r :: stack)
      { s.goto t (.held ⟨(g r).ext + 1, some r.ptr⟩ r) with
        head := ⟨(g r).ext + 1, some r.ptr⟩
        increments := n } := by
  have hphase : (g r).phase = .stacked := (h.stacked r).mpr List.mem_cons_self
  have hrole : (s.pc t).role = none := by rw [hpc]; rfl
  have hnot : r ∉ stack := (List.nodup_cons.mp h.nodup).1
  have hfree : t ∉ (g r).holders := by
    intro hm
    have hr := (h.roles t r .holder).mpr ⟨hm, by rw [hphase]; exact nofun⟩
    rw [hrole] at hr
    cases hr
  have hcount : Attached (g r).ext nd.internal_count (g r).holders.card := by
    have hgood := h.good r
    rw [hr] at hgood
    generalize g r = d at hphase hgood ⊢
    cases hgood with
    | stacked _ e H hc _ => exact hc
    | _ => cases hphase
  have hnode := node_keep hr
  refine h.at (t := t) (n := some nd) rfl hnode le_rfl (h.born hr) ?_ ?_
    (.stacked nd _ _ ?_ he) ?_ ?_ ?_ ?_ h.nodup rfl ?_ ?_
  · intro q ρ hq
    rw [hrole] at hq
    cases hq
  · intro q ρ hq
    cases hq
    rfl
  · rw [Finset.card_insert_of_notMem hfree]
    exact hcount.acquire
  · intro ρ
    cases ρ <;> simp [Pc.role, Has]
  · intro u hu ρ
    cases ρ <;> simp [Has, hphase, hu]
  · refine ⟨by rw [Function.update_self], nd, hr, ?_⟩
    have hsp' := hsp.frame (n := some nd)
      (d := ⟨.stacked, (g r).ext + 1, insert t (g r).holders⟩) hnot
    rw [← hnode] at hsp'
    exact hsp'
  · intro q
    by_cases hq : q = r
    · rw [hq, Function.update_self]
      exact iff_of_true rfl List.mem_cons_self
    · rw [Function.update_of_ne hq, h.stacked]
  · intro u _ hu
    rw [hphase] at hu
    cases hu
  · intro u _ _ x hx
    rw [hr] at hx
    exact ⟨nd, rfl, by cases hx; rfl⟩

/-! ### Taking the head off -/

/-- The compare-and-exchange of `pop`: the node it takes off is the one it holds. -/
lemma Inv.popped (h : Inv g stack s) {next : CountedNodePtr π}
    (hpc : s.pc t = .popping s.head r next) :
    ∃ l, stack = r :: l ∧ s.head.external_count = (g r).ext ∧
      Inv (Function.update g r { g r with phase := .taken t }) l
        { s.goto t (.taking s.head.external_count r) with head := next } := by
  have hlocal := h.locals t
  rw [hpc] at hlocal
  obtain ⟨hp, nd, hr, hnext⟩ := hlocal
  obtain ⟨q, l, nd', hl, hq, hqn, hhead, hsp⟩ := h.top hp
  have hrq : q = r := node_inj hqn hr hq
  subst hrq
  rw [hr] at hqn
  cases hqn
  subst hl
  have hphase : (g q).phase = .stacked := (h.stacked q).mpr List.mem_cons_self
  have hmem : t ∈ (g q).holders := ((h.roles t q .holder).mp (by rw [hpc]; rfl)).1
  have hext : s.head.external_count = (g q).ext := by rw [hhead]
  have hnot : q ∉ l := (List.nodup_cons.mp h.nodup).1
  have hgood : Good (some nd) { g q with phase := .taken t } := by
    have hgood := h.good q
    rw [hr] at hgood
    generalize g q = d at hphase hgood hmem ⊢
    cases hgood with
    | stacked _ e H hc he => exact .taken nd t e H hc he hmem
    | _ => cases hphase
  have hnode := node_keep hr
  refine ⟨l, rfl, hext, ?_⟩
  refine h.at (t := t) (n := some nd) rfl hnode le_rfl (h.born hr) ?_ ?_ hgood ?_ ?_ ?_ ?_
    (List.nodup_cons.mp h.nodup).2 ?_ ?_ ?_
  · intro q' ρ hq
    rw [hpc] at hq
    cases hq
    rfl
  · intro q' ρ hq
    cases hq
    rfl
  · intro ρ
    cases ρ <;> simp [Pc.role, Has]
  · intro u hu ρ
    cases ρ <;> simp [Has, hphase, hu.symm]
  · have hsp' := hsp.frame (n := some nd) (d := { g q with phase := .taken t }) hnot
    rw [← hnode, hnext] at hsp'
    exact hsp'
  · intro q'
    by_cases hq : q' = q
    · rw [hq, Function.update_self]
      exact iff_of_false nofun hnot
    · rw [Function.update_of_ne hq, h.stacked, List.mem_cons]
      exact or_iff_right hq
  · rw [show Local _ _ _ = (s.head.external_count = _) from rfl, Function.update_self]
    exact hext
  · exact fun _ _ _ => rfl
  · intro u _ _ x hx
    rw [hr] at hx
    exact ⟨nd, rfl, by cases hx; rfl⟩

/-- The thread that took a node off takes its data. -/
lemma Inv.take (h : Inv g stack s) {e : ℤ} (hpc : s.pc t = .taking e r) (hr : s.node r = some nd) :
    Inv g stack
      ((s.store r (some { nd with data := (none : Option α) })).goto t
        (.counting e r nd.data)) := by
  have hphase : (g r).phase = .taken t := (h.roles t r .taker).mp (by rw [hpc]; rfl)
  have hlocal := h.locals t
  rw [hpc] at hlocal
  have hgood : Good (some { nd with data := (none : Option α) }) (g r) := by
    have hgood := h.good r
    rw [hr] at hgood
    exact hgood.congr rfl
  have hnode := node_store (some { nd with data := (none : Option α) }) hr
    (fun x hx => by cases hx; exact (node_eq_some.mp hr).2)
  rw [← Function.update_eq_self r g]
  refine h.at_kept (t := t) rfl hnode hr rfl rfl ?_ ?_ hgood ?_
    (fun _ _ _ => Iff.rfl) Iff.rfl rfl (.inr rfl) ?_
  · intro q ρ hq
    rw [hpc] at hq
    cases hq
    rfl
  · intro q ρ hq
    cases hq
    rfl
  · intro ρ
    rw [← h.roles t r ρ, hpc]
    rfl
  · rw [Function.update_eq_self]
    exact hlocal

/-! ### Letting go -/

/-- Whether a node is on the stack, before and after. -/
inductive Stage
  | new
  | stacked
  | popped
  | gone
  deriving DecidableEq

def Phase.stage : Phase τ → Stage
  | .unborn => .new
  | .fresh _ => .new
  | .stacked => .stacked
  | .taken _ => .popped
  | .settled => .popped
  | .dying _ => .popped
  | .gone => .gone

omit [DecidableEq τ] [DecidableEq π] in
@[simp] lemma stage_stacked {p : Phase τ} : p.stage = .stacked ↔ p = .stacked := by
  cases p <;> simp [Phase.stage]

omit [DecidableEq τ] [DecidableEq π] in
@[simp] lemma stage_gone {p : Phase τ} : p.stage = .gone ↔ p = .gone := by
  cases p <;> simp [Phase.stage]

/-- A node whose count is the number of its holders, after thread `t` let go. -/
def leftBy (t : τ) (e : ℤ) (H : Finset τ) : Record τ :=
  if H = ∅ then ⟨.dying t, e, ∅⟩ else ⟨.settled, e, H⟩

omit [DecidableEq π] in
lemma good_leftBy {e : ℤ} {H : Finset τ} (hc : nd.internal_count = H.card)
    (hb : nd.internal_count < 2 ^ 31) : Good (some nd) (leftBy t e H) := by
  rw [leftBy]
  split
  · exact .dying nd t e
  · next hH => exact .settled nd e H hc hb (Finset.nonempty_iff_ne_empty.mpr hH)

lemma has_leftBy {e : ℤ} {H : Finset τ} {ρ : Role} (ht : t ∉ H) :
    Has (leftBy t e H) t ρ ↔ H = ∅ ∧ ρ = .deleter := by
  rw [leftBy]
  split
  · next hH => cases ρ <;> simp [Has, hH]
  · next hH => cases ρ <;> simp [Has, hH, ht]

lemma has_leftBy_of_ne {e : ℤ} {H : Finset τ} {ρ : Role} {u : τ} (hu : u ≠ t) :
    Has (leftBy t e H) u ρ ↔ u ∈ H ∧ ρ = .holder := by
  rw [leftBy]
  split
  · next hH => cases ρ <;> simp [Has, hH, hu.symm]
  · cases ρ <;> simp [Has]

@[simp] lemma leftBy_ext (e : ℤ) (H : Finset τ) : (leftBy t e H).ext = e := by
  rw [leftBy]
  split <;> rfl

@[simp] lemma leftBy_stage (e : ℤ) (H : Finset τ) : (leftBy t e H).phase.stage = .popped := by
  rw [leftBy]
  split <;> rfl

/-- A record after a thread let go, and whether it is to delete the node. -/
structure Left (d d' : Record τ) (t : τ) (last : Prop) : Prop where
  self : ∀ ρ, Has d' t ρ ↔ last ∧ ρ = .deleter
  others : ∀ u ≠ t, ∀ ρ, Has d' u ρ ↔ Has d u ρ
  ext : d'.ext = d.ext
  stage : d'.phase.stage = d.phase.stage

omit [DecidableEq π] in
/-- A holder lets go. -/
lemma Good.leave {d : Record τ} (h : Good (some nd) d) (hhas : Has d t .holder) :
    ∃ d', Good (some { nd with internal_count := fetch_add nd.internal_count (-1) }) d' ∧
      Left d d' t (nd.internal_count = 1) := by
  obtain ⟨hm, hnot⟩ := hhas
  cases h with
  | stacked _ e H hc he =>
    rw [← Finset.card_erase_add_one hm] at hc
    have hle := hc.one_le
    obtain ⟨hc', hne⟩ := hc.release
    obtain ⟨hsum, hneg⟩ := hc'
    have hadd : fetch_add nd.internal_count (-1) = nd.internal_count - 1 :=
      fetch_add_eq ⟨by omega, by omega⟩
    refine ⟨⟨.stacked, e, H.erase t⟩, .stacked _ e _ ?_ he, ?_, ?_, rfl, rfl⟩
    · rw [hadd]
      exact ⟨hsum, hneg⟩
    · intro ρ
      cases ρ <;> simp [Has, hne]
    · intro u hu ρ
      cases ρ <;> simp [Has, hu]
  | taken _ v e H hc he hv =>
    have hvt : v ≠ t := fun he => hnot (by rw [he])
    rw [← Finset.card_erase_add_one hm] at hc
    obtain ⟨hc', hne⟩ := hc.release
    obtain ⟨hsum, hneg⟩ := hc'
    have hadd : fetch_add nd.internal_count (-1) = nd.internal_count - 1 :=
      fetch_add_eq ⟨by omega, by omega⟩
    refine ⟨⟨.taken v, e, H.erase t⟩,
      .taken _ v e _ ?_ he (Finset.mem_erase_of_ne_of_mem hvt hv), ?_, ?_, rfl, rfl⟩
    · rw [hadd]
      exact ⟨hsum, hneg⟩
    · intro ρ
      cases ρ <;> simp [Has, hne, hvt]
    · intro u hu ρ
      cases ρ <;> simp [Has, hu]
  | settled _ e H hc he hH =>
    rw [← Finset.card_erase_add_one hm] at hc
    obtain ⟨hsum, hlast⟩ := release_settled hc
    have hadd : fetch_add nd.internal_count (-1) = nd.internal_count - 1 :=
      fetch_add_eq ⟨by omega, by omega⟩
    refine ⟨leftBy t e (H.erase t), good_leftBy (hadd.trans hsum) ?_, fun ρ => ?_, ?_,
      leftBy_ext e _, leftBy_stage e _⟩
    · rw [show (fetch_add nd.internal_count (-1) < 2 ^ 31) = _ from rfl, hadd]
      omega
    · rw [has_leftBy (Finset.notMem_erase t H), hlast, Finset.card_eq_zero]
    · intro u hu ρ
      rw [has_leftBy_of_ne hu, Finset.mem_erase]
      cases ρ <;> simp [Has, hu]
  | _ => exact absurd hm (Finset.notMem_empty t)

omit [DecidableEq π] in
/-- The thread that took a node off adds the count of the head to that of the node. -/
lemma Good.count {d : Record τ} (h : Good (some nd) d) (hhas : Has d t .taker) :
    ∃ d', Good (some { nd with internal_count := fetch_add nd.internal_count (d.ext - 2) }) d' ∧
      Left d d' t (nd.internal_count = -(d.ext - 2)) := by
  have hphase : d.phase = .taken t := hhas
  cases h with
  | taken _ v e H hc he hm =>
    cases hphase
    rw [← Finset.card_erase_add_one hm] at hc
    have hle := hc.one_le
    obtain ⟨hsum, hlast⟩ := hc.settle
    have hadd : fetch_add nd.internal_count (e - 2) = nd.internal_count + (e - 2) :=
      fetch_add_eq ⟨by omega, by omega⟩
    refine ⟨leftBy t e (H.erase t), good_leftBy (hadd.trans hsum) ?_, fun ρ => ?_, ?_,
      leftBy_ext e _, leftBy_stage e _⟩
    · rw [show (fetch_add nd.internal_count (e - 2) < 2 ^ 31) = _ from rfl, hadd]
      omega
    · rw [has_leftBy (Finset.notMem_erase t H), hlast, Finset.card_eq_zero]
    · intro u hu ρ
      rw [has_leftBy_of_ne hu, Finset.mem_erase]
      cases ρ <;> simp [Has, hu, hu.symm]
  | _ => cases hphase

/-- `fetch_add` by a thread that lets go of a node. -/
lemma Inv.left (h : Inv g stack s) {d : Record τ} {pc' : Pc π α} {i : ℤ} {ρ : Role}
    (hrole : (s.pc t).role = some (r, ρ)) (hr : s.node r = some nd)
    (hgood : Good (some { nd with internal_count := i }) d) {last : Prop} [Decidable last]
    (hleft : Left (g r) d t last)
    (hpc : pc'.role = if last then some (r, .deleter) else none)
    (hlocal : ∀ n (g' : Ref π → Record τ), Local n g' pc') :
    Inv (Function.update g r d) stack
      ((s.store r (some { nd with internal_count := i })).goto t pc') := by
  have hnode := node_store (some { nd with internal_count := i }) hr
    (fun x hx => by cases hx; exact (node_eq_some.mp hr).2)
  refine h.at_kept (t := t) rfl hnode hr rfl rfl ?_ ?_
    hgood ?_ hleft.others ?_ hleft.ext (.inr rfl) (hlocal _ _)
  · intro q ρ' hq
    rw [hrole] at hq
    cases hq
    rfl
  · intro q ρ' hq
    rw [hpc] at hq
    split at hq
    · cases hq
      rfl
    · cases hq
  · intro ρ'
    rw [hleft.self, hpc]
    split
    · next hl => simp [hl, eq_comm]
    · next hl => simp [hl]
  · rw [← stage_stacked, hleft.stage, stage_stacked]

/-- `delete`. -/
lemma Inv.deleted (h : Inv g stack s) {pc' : Pc π α} (hrole : (s.pc t).role = some (r, .deleter))
    (hpc : pc'.role = none) (hlocal : ∀ n (g' : Ref π → Record τ), Local n g' pc')
    (l : List (Ref π)) :
    Inv (Function.update g r ⟨.gone, 0, ∅⟩) stack
      { (s.store r none).goto t pc' with deleted := l } := by
  obtain ⟨nd, hr⟩ := h.node_of_role hrole
  have hphase : (g r).phase = .dying t := (h.roles t r .deleter).mp hrole
  have hhold : (g r).holders = ∅ := by
    have hgood := h.good r
    rw [hr] at hgood
    generalize g r = d at hphase hgood
    cases hgood with
    | dying => rfl
    | _ => cases hphase
  have hnot : r ∉ stack := by
    rw [← h.stacked, hphase]
    exact nofun
  have hnode : (s.store r none).node = Function.update s.node r none := node_store none hr nofun
  refine h.at (t := t) (n := none) rfl hnode le_rfl (h.born hr) ?_ ?_ (.gone 0) ?_ ?_ ?_
    (stacked_frame h (by rw [hphase]; exact nofun) nofun) h.nodup (hlocal _ _) ?_ ?_
  · intro q ρ hq
    rw [hrole] at hq
    cases hq
    rfl
  · intro q ρ hq
    rw [hpc] at hq
    cases hq
  · intro ρ
    rw [hpc]
    cases ρ <;> simp [Has]
  · intro u hu ρ
    cases ρ <;> simp [Has, hphase, hhold, hu.symm]
  · have hsp := h.spine.frame (n := none) (d := ⟨.gone, 0, ∅⟩) hnot
    rw [← hnode] at hsp
    exact hsp
  · intro u _ hu
    rw [hphase] at hu
    cases hu
  · intro u _ hu
    rw [hhold] at hu
    exact absurd hu (Finset.notMem_empty u)

end MmrService.Stack
