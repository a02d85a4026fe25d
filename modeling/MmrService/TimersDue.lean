import MmrService.TimersLife

/-!
The timers that are made pending are those that are due.

A round takes the timer at the root, which no other timer is before. It runs out, or its time is
moved by whole periods until it is past; either way it is not due any more, and the other timers
are as before.
-/

namespace MmrService.Timers

open Heap

variable {l l' : hloop} {t now : ℕ} {v w : htimeout} {busy : List ℕ} {s : Finset ℕ}

/-! ### The next time -/

/-- The first time of the timer that is past. -/
def nextTime (next period now : ℕ) : ℕ := next + ((now - next) / period + 1) * period

lemma advance_eq {next period : ℕ} (hp : 0 < period) (h : next ≤ now) :
    advance next period now = .ok (nextTime next period now) := by
  induction hm : (now - next) / period using Nat.strongRecOn generalizing next with
  | ind m ih =>
    rw [advance, if_pos h, if_neg (by omega)]
    by_cases hnext : next + period ≤ now
    · have hdiv : (now - next) / period = (now - (next + period)) / period + 1 := by
        rw [show now - next = now - (next + period) + period by omega, Nat.add_div_right _ hp]
      rw [ih _ (by omega) hnext rfl, nextTime, nextTime, hdiv]
      congr 1
      ring
    · have hdiv : (now - next) / period = 0 := Nat.div_eq_of_lt (by omega)
      rw [advance, if_neg hnext, nextTime, hdiv, Nat.zero_add, Nat.one_mul]

/-- It is past, and one period before it is not. -/
lemma nextTime_spec {next period : ℕ} (hp : 0 < period) (h : next ≤ now) :
    now < nextTime next period now ∧ nextTime next period now ≤ now + period := by
  rw [nextTime, Nat.add_mul, Nat.one_mul]
  have hdiv := Nat.div_add_mod' (now - next) period
  have hmod := Nat.mod_lt (now - next) hp
  omega

/-! ### One round -/

/-- A timer that has had its turn. -/
def fired (now : ℕ) (v : htimeout) : htimeout :=
  { v with
    pending := true
    destroy := decide (countdown v.repeats = 0)
    repeats := countdown v.repeats
    next_timeout :=
      if countdown v.repeats = 0 then v.next_timeout
      else nextTime v.next_timeout (v.timeout * 1000) now }

/-- A timer in memory changes, and not the time that it is in the heap with. -/
lemma Inv.put (i : Inv busy s l) (ht : l.timer t = some v) (hw : Mem.Sound busy t w)
    (hd : w.destroy = v.destroy) (hk : w.next_timeout = v.next_timeout) :
    Inv busy s (l.put t w) := by
  have hrunning : Mem.running s t w = s := by
    ext x
    rw [Mem.mem_running, hd]
    by_cases hx : x = t
    · subst hx
      simp [i.mem.mem, ht]
    · simp [hx]
  have hm := i.mem.set (i.notMem_freed ht) hw
    (i.mem.below t (by rw [ht]; exact Option.some_ne_none v)) le_rfl (by omega)
  rw [hrunning] at hm
  exact ⟨valid_put_of_eq i.valid (hk.trans (key_eq ht).symm), i.room, i.count, hm⟩

lemma Inv.running_root (i : Inv busy s l) (hroot : l.timers.root = some t)
    (ht : l.timer t = some v) : v.destroy = false := by
  obtain ⟨v', hv', hd⟩ := (i.mem.mem t).mp (i.valid.root.2 t hroot).1
  rw [ht] at hv'
  rwa [Option.some.inj hv']

lemma card_running_le (ht : t ∈ s) : (Mem.running s t v).card ≤ s.card := by
  refine Finset.card_le_card fun x hx => ?_
  obtain ⟨rfl, -⟩ | ⟨-, hx⟩ := Mem.mem_running.mp hx
  · exact ht
  · exact hx

/-- The timer at the root runs out, or is put back with a time that is past. -/
lemma Inv.turn (i : Inv busy s l) (hroot : l.timers.root = some t) (ht : l.timer t = some v)
    (hdue : v.next_timeout ≤ now) :
    ∃ h n w, turn l t v now = .ok ({ l with timers := h, ntimers := n }.put t w) ∧
      w = { v with
        destroy := decide (v.repeats = 0)
        next_timeout := if v.repeats = 0 then v.next_timeout
          else nextTime v.next_timeout (v.timeout * 1000) now } ∧
      Valid (l.put t w).key h (Mem.running s t w) ∧ n = (Mem.running s t w).card := by
  have hts : t ∈ s := (i.valid.root.2 t hroot).1
  have hd := i.running_root hroot ht
  have hperiod := i.mem.period t v ht
  rw [Timers.turn]
  by_cases hr : v.repeats = 0
  · obtain ⟨h, n, hunlink, hv, hn⟩ := i.unlink ht
    refine ⟨h, n, { v with destroy := true }, ?_, ?_, ?_, ?_⟩
    · rw [if_pos hr, hunlink]
    · simp only [hr, decide_true, if_pos]
    · rw [Mem.running, if_pos rfl]
      exact valid_put (l := { l with timers := h }) hv (Finset.notMem_erase t s)
    · rw [Mem.running, if_pos rfl, hn]
  · obtain ⟨h, hheap, hv⟩ := withHeap_dequeue i.valid hroot
    set w : htimeout := { v with next_timeout := nextTime v.next_timeout (v.timeout * 1000) now }
    have hv₁ : Valid (({ l with timers := h } : hloop).put t w).key h (s.erase t) :=
      valid_put (l := { l with timers := h }) hv (Finset.notMem_erase t s)
    obtain ⟨h', hheap', hv₂⟩ := withHeap_insert (l := ({ l with timers := h } : hloop).put t w) hv₁
      (Finset.notMem_erase t s) (i.card_erase_ne hts)
    have hrun : Mem.running s t w = insert t (s.erase t) := by
      rw [Mem.running, if_neg (by rw [show w.destroy = false from hd]; exact Bool.false_ne_true),
        Finset.insert_erase hts, Finset.insert_eq_of_mem hts]
    refine ⟨h', l.ntimers, w, ?_, ?_, ?_, ?_⟩
    · rw [if_neg hr, rearm, hheap, ok_bind, advance_eq (by omega) hdue, ok_bind]
      exact hheap'
    · simp only [hr, decide_false, if_neg, not_false_eq_true, w, hd]
    · rw [hrun]
      exact hv₂
    · rw [hrun, Finset.insert_erase hts]
      exact i.count

/-- The timer at the root has its turn. -/
lemma Inv.expire (i : Inv l.pendings s l) (hroot : l.timers.root = some t)
    (ht : l.timer t = some v) (hdue : v.next_timeout ≤ now) (hp : v.pending = false) :
    ∃ l', expire l t v now = .ok l' ∧ Inv l'.pendings (Mem.running s t (fired now v)) l' ∧
      l'.pendings = t :: l.pendings ∧
      l'.timer = Function.update l.timer t (some (fired now v)) := by
  have hsound := i.mem.sound ht
  set v₁ : htimeout := { v with repeats := countdown v.repeats }
  have i₁ : Inv l.pendings s (l.put t v₁) :=
    i.put ht ⟨hsound.active, hsound.doomed, hsound.queued, hsound.period⟩ rfl rfl
  have ht₁ : (l.put t v₁).timer t = some v₁ := Function.update_self ..
  obtain ⟨h, n, w, hturn, hw, hvalid, hcount⟩ := i₁.turn hroot ht₁ hdue
  have hfired : { w with pending := true } = fired now v := by rw [hw]; rfl
  have hwp : w.pending = false := by rw [hw]; exact hp
  have hrun : Mem.running s t w = Mem.running s t (fired now v) := by rw [← hfired]; rfl
  rw [hrun] at hvalid hcount
  set l₂ : hloop := { l with timers := h, ntimers := n }.put t w
  have ht₂ : l₂.timer t = some w := Function.update_self ..
  have hstep : Timers.expire l t v now = l₂.EVENT_PENDING t := by
    rw [Timers.expire]
    change (Timers.turn (l.put t v₁) t v₁ now >>= _) = _
    rw [hturn, ok_bind]
    simp only [hloop.put, Function.update_idem, l₂]
  refine ⟨{ l₂.put t { w with pending := true } with pendings := t :: l.pendings }, ?_,
    ⟨?_, (card_running_le (i.valid.root.2 t hroot).1).trans i.room, hcount, ?_⟩, rfl, ?_⟩
  · rw [hstep, hloop.EVENT_PENDING, get_eq ht₂, ok_bind, hwp]
    rfl
  · have hkey : ((l.put t v₁).put t w).key = l₂.key := by
      funext x
      simp only [hloop.key, put_timer, Function.update_idem, l₂]
    rw [hkey] at hvalid
    exact valid_put_of_eq (l := l₂) hvalid (key_eq ht₂).symm
  · have hne : l.timer t ≠ none := by rw [ht]; exact Option.some_ne_none v
    have halive : ∀ x ∈ t :: l.pendings, l.timer x ≠ none := by
      rintro x (_ | ⟨_, hx⟩)
      · exact hne
      · exact i.mem.alive x hx
    have hm := (i.mem.process (fun x y hx hy => List.mem_cons_of_mem t (i.mem.queued x y hx hy))
      halive).set (v := fired now v) (i.notMem_freed ht)
      ⟨fun _ => i.mem.active t v ht (i.running_root hroot ht), fun _ => rfl,
        fun _ => List.mem_cons_self, hsound.period⟩
      (i.mem.below t hne) le_rfl (by omega)
    change Mem _ _ (Function.update (Function.update l.timer t (some w)) t _) _ _
    rw [Function.update_idem, hfired]
    exact hm
  · change Function.update (Function.update l.timer t (some w)) t _ = _
    rw [Function.update_idem, hfired]

/-! ### All rounds -/

/-- The timer runs, and its time has come. -/
def Due (now : ℕ) (l : hloop) (t : ℕ) : Prop :=
  ∃ v, l.timer t = some v ∧ v.destroy = false ∧ v.next_timeout ≤ now

lemma Inv.due_iff (i : Inv busy s l) : Due now l t ↔ t ∈ s ∧ l.key t ≤ now := by
  rw [i.mem.mem]
  constructor
  · rintro ⟨v, ht, hd, hn⟩
    exact ⟨⟨v, ht, hd⟩, by rwa [key_eq ht]⟩
  · rintro ⟨⟨v, ht, hd⟩, hn⟩
    exact ⟨v, ht, hd, by rwa [key_eq ht] at hn⟩

/-- The timers in memory, with those that are due at `now` after their turn. -/
def firedAt (now : ℕ) (l : hloop) (t : ℕ) : Option htimeout :=
  (l.timer t).map fun v => if v.destroy = false ∧ v.next_timeout ≤ now then fired now v else v

lemma firedAt_of_due (ht : l.timer t = some v) (hd : v.destroy = false)
    (hn : v.next_timeout ≤ now) : firedAt now l t = some (fired now v) := by
  rw [firedAt, ht, Option.map_some, if_pos ⟨hd, hn⟩]

lemma firedAt_of_not_due (h : ¬ Due now l t) : firedAt now l t = l.timer t := by
  rw [firedAt]
  cases ht : l.timer t with
  | none => rfl
  | some v => rw [Option.map_some, if_neg fun hc => h ⟨v, ht, hc.1, hc.2⟩]

/-- After its turn a timer is not due, and the others are as before. -/
lemma due_fired {l₁ : hloop} (hperiod : 0 < v.timeout) (hdue : v.next_timeout ≤ now)
    (h : l₁.timer = Function.update l.timer t (some (fired now v))) (x : ℕ) :
    Due now l₁ x ↔ x ≠ t ∧ Due now l x := by
  rw [Due, h]
  by_cases hx : x = t
  · subst hx
    rw [Function.update_self]
    refine ⟨?_, fun hc => absurd rfl hc.1⟩
    rintro ⟨w, hw, hd, hn⟩
    obtain rfl := Option.some.inj hw
    have hr : ¬ countdown v.repeats = 0 := of_decide_eq_false hd
    change (if countdown v.repeats = 0 then v.next_timeout else _) ≤ now at hn
    rw [if_neg hr] at hn
    exact absurd (nextTime_spec (by omega) hdue).1 (not_lt.mpr hn)
  · rw [Function.update_of_ne hx]
    exact ⟨fun hc => ⟨hx, hc⟩, fun hc => hc.2⟩

/-- The timers that are due at `now` were made pending, in front of the events that were. -/
structure Passed (now : ℕ) (l : hloop) (s' : Finset ℕ) (q : List ℕ) (l' : hloop) : Prop where
  inv : Inv l'.pendings s' l'
  pendings : l'.pendings = q ++ l.pendings
  mem : ∀ t, t ∈ q ↔ Due now l t
  nodup : q.Nodup
  timer : l'.timer = firedAt now l
  done : ∀ t, ¬ Due now l' t

lemma Inv.passed (i : Inv l.pendings s l) (hall : ∀ t, ¬ Due now l t) : Passed now l s [] l where
  inv := i
  pendings := rfl
  mem t := ⟨fun ht => absurd ht List.not_mem_nil, fun ht => absurd ht (hall t)⟩
  nodup := List.nodup_nil
  timer := funext fun t => (firedAt_of_not_due (hall t)).symm
  done := hall

section

variable {l₁ l' : hloop} {s₁ s' : Finset ℕ} {q : List ℕ} (ht : l.timer t = some v)
  (hd : v.destroy = false) (hdue : v.next_timeout ≤ now) (hperiod : 0 < v.timeout)
  (htimer : l₁.timer = Function.update l.timer t (some (fired now v)))

include ht hd hdue hperiod htimer

/-- Before the others a timer had its turn. -/
lemma Passed.cons (hpend : l₁.pendings = t :: l.pendings) (p : Passed now l₁ s' q l') :
    Passed now l s' (q ++ [t]) l' := by
  have hdue₁ := due_fired hperiod hdue htimer
  constructor
  case inv => exact p.inv
  case pendings =>
    rw [p.pendings, hpend, List.append_assoc]
    rfl
  case mem =>
    intro x
    rw [List.mem_append, List.mem_singleton, p.mem, hdue₁]
    constructor
    · rintro (hx | rfl)
      · exact hx.2
      · exact ⟨v, ht, hd, hdue⟩
    · intro hx
      by_cases hxt : x = t
      · exact .inr hxt
      · exact .inl ⟨hxt, hx⟩
  case nodup =>
    refine List.nodup_append.mpr ⟨p.nodup, List.nodup_singleton t, ?_⟩
    intro x hx y hy
    rw [List.mem_singleton.mp hy]
    exact ((hdue₁ x).mp ((p.mem x).mp hx)).1
  case timer =>
    rw [p.timer]
    funext x
    by_cases hxt : x = t
    · subst hxt
      rw [firedAt_of_due ht hd hdue, firedAt_of_not_due fun hc => ((hdue₁ x).mp hc).1 rfl,
        htimer, Function.update_self]
    · rw [firedAt, firedAt, htimer, Function.update_of_ne hxt]
  case done => exact p.done

/-- After a turn fewer timers are due. -/
lemma card_due_lt (i : Inv busy s l) {busy₁ : List ℕ} (i₁ : Inv busy₁ s₁ l₁) :
    (s₁.filter (l₁.key · ≤ now)).card < (s.filter (l.key · ≤ now)).card := by
  have hdue₁ := due_fired hperiod hdue htimer
  refine Finset.card_lt_card (Finset.ssubset_iff_subset_ne.mpr ⟨fun x hx => ?_, fun heq => ?_⟩)
  · rw [Finset.mem_filter, ← i₁.due_iff] at hx
    rw [Finset.mem_filter, ← i.due_iff]
    exact ((hdue₁ x).mp hx).2
  · have hmem : t ∈ s.filter (l.key · ≤ now) := by
      rw [Finset.mem_filter, ← i.due_iff]
      exact ⟨v, ht, hd, hdue⟩
    rw [← heq, Finset.mem_filter, ← i₁.due_iff] at hmem
    exact ((hdue₁ t).mp hmem).1 rfl

end

/-- The loop over the heap ends within a round for each timer that is due and one more. -/
lemma Inv.process_timers (now fuel : ℕ) (i : Inv l.pendings s l)
    (hnot : ∀ t ∈ l.pendings, ¬ Due now l t) (hfuel : (s.filter (l.key · ≤ now)).card < fuel) :
    ∃ l' s' q, process_timers now fuel l = .ok l' ∧ Passed now l s' q l' := by
  induction fuel generalizing l s with
  | zero => omega
  | succ fuel ih =>
    rw [Timers.process_timers]
    cases hroot : l.timers.root with
    | none =>
      refine ⟨l, s, [], rfl, i.passed fun t ht => ?_⟩
      have hs := i.due_iff.mp ht
      rw [i.valid.root.1.mp hroot] at hs
      exact absurd hs.1 (Finset.notMem_empty t)
    | some t =>
      obtain ⟨hts, hmin⟩ := i.valid.root.2 t hroot
      obtain ⟨v, ht, hd⟩ := (i.mem.mem t).mp hts
      dsimp only
      rw [get_eq ht, ok_bind]
      split_ifs with hlt
      · -- no key is less than that of the root
        refine ⟨l, s, [], rfl, i.passed fun x hx => ?_⟩
        obtain ⟨hxs, hxn⟩ := i.due_iff.mp hx
        have hle := hmin x hxs
        rw [key_eq ht] at hle
        omega
      · have hdue : v.next_timeout ≤ now := not_lt.mp hlt
        have hperiod := i.mem.period t v ht
        have hp : v.pending = false := by
          by_contra hp
          exact hnot t (i.mem.queued t v ht (Bool.eq_true_of_not_eq_false hp)) ⟨v, ht, hd, hdue⟩
        obtain ⟨l₁, hexp, i₁, hpend, htimer⟩ := i.expire hroot ht hdue hp
        have hdue₁ := due_fired hperiod hdue htimer
        have hnot₁ : ∀ x ∈ l₁.pendings, ¬ Due now l₁ x := by
          rw [hpend]
          rintro x (_ | ⟨_, hx⟩)
          · exact fun hc => ((hdue₁ t).mp hc).1 rfl
          · exact fun hc => hnot x hx ((hdue₁ x).mp hc).2
        have hlt := card_due_lt ht hd hdue hperiod htimer i i₁
        obtain ⟨l', s', q, hrun, p⟩ := ih i₁ hnot₁ (hlt.trans_le (Nat.le_of_lt_succ hfuel))
        exact ⟨l', s', q ++ [t], by rw [hexp, ok_bind, hrun],
          p.cons ht hd hdue hperiod htimer hpend⟩

/-- What the loop makes pending when no event is. -/
lemma Inv.hloop_process_timers (i : Inv [] s l) (hl : l.pendings = []) :
    ∃ l' s', hloop_process_timers l = .ok l' ∧ Passed l.cur_hrtime l s' l'.pendings l' := by
  rw [Timers.hloop_process_timers]
  rw [← hl] at i
  split_ifs with h0
  · have hs : s = ∅ := Finset.card_eq_zero.mp (i.count.symm.trans h0)
    refine ⟨l, s, rfl, ?_⟩
    rw [hl]
    refine i.passed fun t ht => ?_
    have hmem := (i.due_iff.mp ht).1
    rw [hs] at hmem
    exact Finset.notMem_empty t hmem
  · obtain ⟨hsize, -⟩ := i.valid
    obtain ⟨l', s', q, hrun, p⟩ := i.process_timers l.cur_hrtime (l.timers.nelts + 1)
      (by rw [hl]; exact fun t ht => absurd ht List.not_mem_nil)
      (by rw [hsize]; exact Nat.lt_succ_of_le (Finset.card_filter_le ..))
    have hq : l'.pendings = q := by rw [p.pendings, hl, List.append_nil]
    exact ⟨l', s', hrun, hq ▸ p⟩

/-! ### Runs -/

/-- An event is pending no more, and is freed if it is marked. -/
lemma Inv.finish {cur : ℕ} {next : List ℕ} (i : Inv (cur :: next) s l)
    (hcur : cur ∉ next) : ∃ l' s', finish l cur = .ok l' ∧ Inv next s' l' := by
  obtain ⟨v, ht⟩ := Option.ne_none_iff_exists'.mp (i.mem.alive cur List.mem_cons_self)
  have hne : l.timer cur ≠ none := by rw [ht]; exact Option.some_ne_none v
  have hrest : ∀ x ∈ cur :: next, x ≠ cur → x ∈ next := fun x hx hxc =>
    (List.mem_cons.mp hx).resolve_left hxc
  set w : htimeout := { v with pending := false }
  have hw : (l.put cur w).timer cur = some w := Function.update_self ..
  have hvalid : Valid (l.put cur w).key l.timers s := valid_put_of_eq i.valid (key_eq ht).symm
  rw [Timers.finish, get_eq ht, ok_bind]
  change ∃ l' s', (if v.destroy then (l.put cur w).EVENT_DEL cur else .ok (l.put cur w)) = .ok l' ∧
    _
  split_ifs with hd
  · have hs : cur ∉ s := fun hmem => by
      obtain ⟨v', hv', hd'⟩ := (i.mem.mem cur).mp hmem
      rw [ht] at hv'
      rw [Option.some.inj hv', hd'] at hd
      exact Bool.false_ne_true hd
    obtain ⟨l', hdel, htimers, hfresh, hntimers, -, hcases⟩ := EVENT_DEL_cases hw
    obtain ⟨hp, -⟩ | ⟨-, hfreed, htimer⟩ := hcases
    · exact absurd hp Bool.false_ne_true
    · have hupd : l'.timer = Function.update l.timer cur none :=
        htimer.trans (Function.update_idem ..)
      have hm := i.mem.free hne hcur (fun x hx => List.mem_cons_of_mem cur hx) hrest
      rw [Finset.erase_eq_of_notMem hs] at hm
      refine ⟨l', s, hdel, ?_, i.room, hntimers.trans i.count, ?_⟩
      · rw [htimers]
        refine hvalid.congr fun x hx => ?_
        have hxc : x ≠ cur := by
          rintro rfl
          exact hs hx
        rw [hloop.key, hloop.key, hupd, put_timer, Function.update_of_ne hxc,
          Function.update_of_ne hxc]
      · rw [hupd, hfresh, hfreed]
        exact hm
  · have hsound := i.mem.sound ht
    have hm := (i.put (w := w) ht ⟨hsound.active, fun hc => absurd hc hd,
      fun hc => absurd hc Bool.false_ne_true, hsound.period⟩ rfl rfl).mem
    refine ⟨l.put cur w, s, rfl, hvalid, i.room, i.count, hm.process (fun x y hx hp => ?_)
      fun x hx => hm.alive x (List.mem_cons_of_mem cur hx)⟩
    refine hrest x (hm.queued x y hx hp) ?_
    rintro rfl
    rw [hw] at hx
    rw [← Option.some.inj hx] at hp
    exact Bool.false_ne_true hp

/-- One event has its turn. -/
lemma Inv.processOne {cur : ℕ} {next : List ℕ} (i : Inv (cur :: next) s l)
    (hnodup : (cur :: next).Nodup) (cb : ℕ → List Call)
    (hfair : ∀ v, l.timer cur = some v → v.pending = true →
      fairCalls (cur :: next) l (turnCalls cb cur v) = true) :
    processOne cb l cur = .error .misuse ∨
      ∃ l' s', processOne cb l cur = .ok l' ∧ Inv next s' l' := by
  obtain ⟨v, ht⟩ := Option.ne_none_iff_exists'.mp (i.mem.alive cur List.mem_cons_self)
  rw [Timers.processOne, get_eq ht, ok_bind]
  split_ifs with hp
  · obtain hmis | ⟨l₁, s₁, hok, i₁, -⟩ := i.calls (turnCalls cb cur v) (hfair v ht hp)
    · rw [hmis]
      exact .inl rfl
    · rw [hok, ok_bind]
      exact .inr (i₁.finish (List.nodup_cons.mp hnodup).1)
  · refine .inr ⟨l, s, rfl, i.valid, i.room, i.count, i.mem.process (fun x y hx hy => ?_)
      fun x hx => i.mem.alive x (List.mem_cons_of_mem cur hx)⟩
    refine (List.mem_cons.mp (i.mem.queued x y hx hy)).resolve_left ?_
    rintro rfl
    rw [ht] at hx
    rw [← Option.some.inj hx] at hy
    exact hp hy

lemma Inv.process_pendings (cb : ℕ → List Call) :
    ∀ {next : List ℕ} {l : hloop} {s : Finset ℕ}, Inv next s l → next.Nodup →
      fairPendings cb next l = true →
      process_pendings cb next l = .error .misuse ∨
        ∃ l' s', process_pendings cb next l = .ok l' ∧ Inv [] s' l' ∧ l'.pendings = []
  | [], l, s, i, _, _ => .inr ⟨_, s, rfl, ⟨i.valid, i.room, i.count, i.mem⟩, rfl⟩
  | cur :: next, l, s, i, hnodup, hfair => by
    rw [fairPendings, Bool.and_eq_true] at hfair
    obtain ⟨hcur, hrest⟩ := hfair
    rw [Timers.process_pendings]
    obtain hmis | ⟨l₁, s₁, hok, i₁⟩ := i.processOne hnodup cb fun v ht hp => by
      rw [ht, Option.all_some, hp] at hcur
      exact hcur
    · rw [hmis]
      exact .inl rfl
    · rw [hok] at hrest ⊢
      exact process_pendings cb i₁ (List.nodup_cons.mp hnodup).2 hrest

lemma Inv.act (i : Inv [] s l) (hl : l.pendings = []) (a : Action) (hfair : fairAct l a = true) :
    act l a = .error .misuse ∨
      ∃ l' s', act l a = .ok l' ∧ Inv [] s' l' ∧ l'.pendings = [] := by
  cases a with
  | call c =>
    obtain hmis | ⟨l', s', hok, i', hp⟩ := i.call c hfair
    · exact .inl hmis
    · exact .inr ⟨l', s', hok, i', hp.trans hl⟩
  | events now cb =>
    have i₀ : Inv [] s { l with cur_hrtime := now } := ⟨i.valid, i.room, i.count, i.mem⟩
    obtain ⟨l₁, s₁, hok, p⟩ := i₀.hloop_process_timers hl
    rw [fairAct, hok] at hfair
    rw [Timers.act, hloop_process_events, hok, ok_bind]
    exact p.inv.process_pendings cb p.nodup hfair

/-- A fair run keeps the invariant, unless the program misuses a timer. -/
lemma Inv.run (i : Inv [] s l) (hl : l.pendings = []) (as : List Action)
    (hfair : fairRun l as = true) :
    run l as = .error .misuse ∨ ∃ l' s', run l as = .ok l' ∧ Inv [] s' l' ∧ l'.pendings = [] := by
  induction as generalizing l s with
  | nil => exact .inr ⟨l, s, rfl, i, hl⟩
  | cons a as ih =>
    obtain ⟨ha, hrest⟩ := Transition.check_cons.mp hfair
    rw [Timers.run, List.foldlM_cons]
    obtain hmis | ⟨l₁, s₁, hok, i₁, hl₁⟩ := i.act hl a ha
    · rw [hmis]
      exact .inl rfl
    · rw [hok, ok_bind]
      exact ih i₁ hl₁ (hrest l₁ (congrArg Except.toOption hok))

lemma exists_inv {now : ℕ} {as : List Action} (hfair : fairRun (hloop_init now) as = true)
    (h : run (hloop_init now) as = .ok l) : ∃ s, Inv [] s l ∧ l.pendings = [] := by
  obtain hmis | ⟨l', s, hok, i, hl⟩ := (inv_init now).run rfl as hfair
  · rw [hmis] at h
    cases h
  · rw [hok] at h
    obtain rfl := Except.ok.inj h
    exact ⟨s, i, hl⟩

/-- Outside of a round the timers in memory are those that run. -/
lemma Inv.mem_iff (i : Inv [] s l) (t : ℕ) : t ∈ s ↔ l.timer t ≠ none := by
  rw [i.mem.mem]
  constructor
  · rintro ⟨v, ht, -⟩
    rw [ht]
    exact Option.some_ne_none v
  · intro hne
    obtain ⟨v, ht⟩ := Option.ne_none_iff_exists'.mp hne
    refine ⟨v, ht, ?_⟩
    by_contra hd
    have hp := i.mem.doomed t v ht (Bool.eq_true_of_not_eq_false hd)
    exact absurd (i.mem.queued t v ht hp) List.not_mem_nil

/-- **A round of the loop.** In every state that a fair run reaches the timers that are due are
made pending, each of them once: its count is taken down, and it runs out or its time moves to
the first one that is past. No other timer changes, and none is due then. -/
theorem process_timers_due (start : ℕ) (as : List Action)
    (hfair : fairRun (hloop_init start) as = true) (l : hloop)
    (h : run (hloop_init start) as = .ok l) (now : ℕ) :
    ∃ l', hloop_process_timers { l with cur_hrtime := now } = .ok l' ∧
      (∀ t, t ∈ l'.pendings ↔ Due now l t) ∧ l'.pendings.Nodup ∧
      (∀ t v, l.timer t = some v → Due now l t → l'.timer t = some (fired now v)) ∧
      (∀ t, ¬ Due now l t → l'.timer t = l.timer t) ∧ ∀ t, ¬ Due now l' t := by
  obtain ⟨s, i, hl⟩ := exists_inv hfair h
  have i₀ : Inv [] s { l with cur_hrtime := now } := ⟨i.valid, i.room, i.count, i.mem⟩
  obtain ⟨l', s', hok, p⟩ := i₀.hloop_process_timers hl
  refine ⟨l', hok, p.mem, p.nodup, fun t v ht hdue => ?_, fun t hnot => ?_, p.done⟩
  · obtain ⟨v', ht', hd, hn⟩ := hdue
    obtain rfl := Option.some.inj (ht.symm.trans ht')
    rw [p.timer]
    exact firedAt_of_due (l := { l with cur_hrtime := now }) ht hd hn
  · rw [p.timer]
    exact firedAt_of_not_due (l := { l with cur_hrtime := now }) hnot

/-- A timer of 5 ms is pending after 5 ms. -/
theorem process_timers_due_five :
    ∃ l l', run (hloop_init 0) [.call (.add 0 5 1)] = .ok l ∧
      hloop_process_timers { l with cur_hrtime := 5000 } = .ok l' ∧ 0 ∈ l'.pendings := by
  obtain ⟨l', hok, hmem, -⟩ := process_timers_due 0 [.call (.add 0 5 1)] (by decide) _ rfl 5000
  exact ⟨_, l', rfl, hok, (hmem 0).mpr ⟨_, rfl, rfl, le_rfl⟩⟩

/-! ### The end -/

/-- The clean-up frees every timer of the heap. -/
lemma cleanup_freed {fuel : ℕ} (hv : Valid l.key l.timers s)
    (hroom : s.card ≤ INT_MAX) (hm : Mem [] s l.timer l.fresh l.freed) (hfuel : s.card < fuel) :
    ∃ l', hloop_cleanup fuel l = .ok l' ∧ l'.freed.Nodup ∧ ∀ t, t ∈ l'.freed ↔ t < l.fresh := by
  induction fuel generalizing l s with
  | zero => omega
  | succ fuel ih =>
    rw [hloop_cleanup]
    cases hroot : l.timers.root with
    | none =>
      refine ⟨l, rfl, hm.once, fun t => ?_⟩
      rw [hm.freed, and_iff_left_iff_imp]
      intro _
      by_contra hne
      have ht := (Inv.mem_iff (l := { l with ntimers := s.card })
        ⟨hv.congr fun _ _ => rfl, hroom, rfl, hm⟩ t).mpr hne
      rw [hv.root.1.mp hroot] at ht
      exact Finset.notMem_empty t ht
    | some t =>
      have hts := (hv.root.2 t hroot).1
      have hpos := Finset.card_pos.mpr ⟨t, hts⟩
      obtain ⟨v, ht, -⟩ := (hm.mem t).mp hts
      obtain ⟨h, hheap, hv'⟩ := withHeap_dequeue hv hroot
      dsimp only
      rw [hheap, ok_bind, hloop.free, get_eq (l := { l with timers := h }) ht, ok_bind, ok_bind]
      refine ih (s := s.erase t) (hv'.congr fun x hx => ?_)
        ((Finset.card_erase_le).trans hroom)
        (hm.free (by rw [ht]; exact Option.some_ne_none v) List.not_mem_nil (fun _ => id)
          fun _ hx _ => hx) (by rw [Finset.card_erase_of_mem hts]; omega)
      simp only [hloop.key, Function.update_of_ne (Finset.ne_of_mem_erase hx)]

/-- **The life of a timer.** However a program adds, resets and deletes timers, from outside and
from the callbacks of any rounds, in a fair run that does not call with a freed timer no timer is
read, written or freed after it was freed, no null pointer is followed, no assertion fails and
every loop ends. At any time between the rounds the heap has the timers in memory, `ntimers` is
their number and the others were freed once; after the clean-up every timer was freed once. -/
theorem timers_freed_once (start : ℕ) (as : List Action)
    (hfair : fairRun (hloop_init start) as = true) :
    run (hloop_init start) as ≠ .error .fault ∧
      ∀ l, run (hloop_init start) as = .ok l →
        (∃ s, Valid l.key l.timers s ∧ (∀ t, t ∈ s ↔ l.timer t ≠ none) ∧ l.ntimers = s.card) ∧
        l.freed.Nodup ∧ (∀ t, t ∈ l.freed ↔ t < l.fresh ∧ l.timer t = none) ∧
        ∃ l', hloop_cleanup (l.timers.nelts + 1) l = .ok l' ∧
          l'.freed.Perm (List.range l.fresh) := by
  constructor
  · obtain hmis | ⟨l', -, hok, -⟩ := (inv_init start).run rfl as hfair
    · rw [hmis]
      exact fun h => by cases h
    · rw [hok]
      exact fun h => by cases h
  · intro l h
    obtain ⟨s, i, -⟩ := exists_inv hfair h
    refine ⟨⟨s, i.valid, i.mem_iff, i.count⟩, i.mem.once, i.mem.freed, ?_⟩
    obtain ⟨l', hok, hnodup, hall⟩ := cleanup_freed i.valid i.room i.mem
      (show s.card < l.timers.nelts + 1 by rw [i.valid.1]; exact Nat.lt_succ_self _)
    refine ⟨l', hok, (List.perm_ext_iff_of_nodup hnodup List.nodup_range).mpr fun t => ?_⟩
    rw [hall, List.mem_range]

/-- A timer of 5 ms is called once, and its callback adds another one, resets it, so that it
runs again, and deletes the other one, which is not pending. -/
theorem timers_freed_once_callback :
    ∃ l l', run (hloop_init 0) [.call (.add 0 5 1),
        .events 5000 fun _ => [.add 5000 7 1, .reset 0 9, .del 1]] = .ok l ∧
      l.freed = [1] ∧ hloop_cleanup (l.timers.nelts + 1) l = .ok l' ∧
      l'.freed.Perm (List.range 2) := by
  obtain ⟨l, hl⟩ := (⟨_, rfl⟩ : ∃ l, run (hloop_init 0) [.call (.add 0 5 1),
    .events 5000 fun _ => [.add 5000 7 1, .reset 0 9, .del 1]] = .ok l)
  obtain ⟨-, -, -, l', hok, hperm⟩ := (timers_freed_once 0 _ (by decide)).2 l hl
  cases hl
  exact ⟨_, l', rfl, rfl, hok, hperm⟩

/-- A timer that is reset in its callback and then deleted there is freed, and used and freed
again where the loop takes its mark as pending. -/
example :
    fairRun (hloop_init 0) [.call (.add 0 5 1), .events 5000 fun _ => [.reset 0 9, .del 0]] =
        false ∧
      run (hloop_init 0) [.call (.add 0 5 1), .events 5000 fun _ => [.reset 0 9, .del 0]] =
        .error .fault := ⟨by decide, rfl⟩

end MmrService.Timers
