import MmrService.StackSteps

/-!
The values on their way through the stack.

A value is in a node on the stack, then with the thread that took the node off, and then it is
returned. Who has it is told beside the records of the counts, and agrees with them.
-/

namespace MmrService.Stack

open Transition

variable {τ π α : Type}

/-- Where the value of a node is: not pushed, on the stack, with a thread, returned. -/
inductive Life (τ α : Type)
  | unpushed
  | here (v : α)
  | taken (t : τ) (v : α)
  | back (v : α)

def Life.value : Life τ α → Option α
  | .unpushed => none
  | .here v => some v
  | .taken _ v => some v
  | .back v => some v

/-- Where the value is and how far the node is. -/
def Life.Fits : Life τ α → Stage → Prop
  | .unpushed, k => k = .new
  | .here _, k => k = .stacked
  | .taken _ _, k => k = .popped ∨ k = .gone
  | .back _, k => k = .popped ∨ k = .gone

@[simp] lemma Life.fits_new {x : Life τ α} : x.Fits .new ↔ x = .unpushed := by
  cases x <;> simp [Life.Fits]

@[simp] lemma Life.fits_stacked {x : Life τ α} : x.Fits .stacked ↔ ∃ v, x = .here v := by
  cases x <;> simp [Life.Fits]

lemma Life.Fits.gone {x : Life τ α} (h : x.Fits .popped) : x.Fits .gone := by
  cases x <;> simp [Life.Fits] at h ⊢

lemma Life.Fits.not_here {x : Life τ α} {k : Stage} (h : x.Fits k) (hk : k ≠ .stacked) (v : α) :
    x ≠ .here v := by
  rintro rfl
  exact hk h

/-- The node whose value a thread is to return. -/
def Pc.carries : Pc π α → Option (Ref π)
  | .taking _ r => some r
  | .counting _ r _ => some r
  | .deletePopped r _ => some r
  | .returning r _ => some r
  | _ => none

/-- The value a thread is about to push or to return. -/
def Value (node : Ref π → Option (Node π α)) (w : Ref π → Life τ α) (t : τ) : Pc π α → Prop
  | .pushLoad v r => ∃ nd, node r = some nd ∧ nd.data = some v
  | .pushCas v r => ∃ nd, node r = some nd ∧ nd.data = some v
  | .taking _ r => ∃ v nd, w r = .taken t v ∧ node r = some nd ∧ nd.data = some v
  | .counting _ r res => ∃ v, w r = .taken t v ∧ res = some v
  | .deletePopped r res => ∃ v, w r = .taken t v ∧ res = some v
  | .returning r res => ∃ v, w r = .taken t v ∧ res = some v
  | _ => True

/-- The values are where they are said to be. -/
structure Values (g : Ref π → Record τ) (w : Ref π → Life τ α) (s : State τ π α) : Prop where
  fits : ∀ r, (w r).Fits (g r).phase.stage
  data : ∀ r v, w r = .here v → ∃ nd, s.node r = some nd ∧ nd.data = some v
  carried : ∀ t r v, w r = .taken t v → (s.pc t).carries = some r
  values : ∀ t, Value s.node w t (s.pc t)

/-- A list with one entry for each key that has one. -/
structure Logged {κ β : Type} (l : List (κ × β)) (P : κ → β → Prop) : Prop where
  mem : ∀ k b, (k, b) ∈ l ↔ P k b
  nodup : (l.map Prod.fst).Nodup

/-- What was pushed, returned and deleted. -/
structure Lists (g : Ref π → Record τ) (w : Ref π → Life τ α) (s : State τ π α) : Prop where
  pushed : Logged s.pushed fun r v => (w r).value = some v
  returned : Logged s.returned fun r res => ∃ v, res = some v ∧ w r = .back v
  deleted : ∀ r, r ∈ s.deleted ↔ (g r).phase = .gone
  deleted_nodup : s.deleted.Nodup

variable {g : Ref π → Record τ} {w : Ref π → Life τ α} {stack : List (Ref π)} {s s' : State τ π α}
  {t : τ} {r : Ref π}

/-! ### One step at one node -/

section Values

variable [DecidableEq τ] [DecidableEq π] {d : Record τ} {x : Life τ α} {pc' : Pc π α}

omit [DecidableEq τ] in
/-- What another thread carries is not touched by a step at node `r`. -/
lemma Value.congr {node node' : Ref π → Option (Node π α)} {u : τ} {pc : Pc π α}
    (h : Value node w u pc) (hnode : ∀ q ≠ r, node' q = node q)
    (hx : ∀ v, w r = .taken u v → x = .taken u v)
    (hdata : pc.role = some (r, .pusher) ∨ pc.role = some (r, .taker) →
      ∀ nd, node r = some nd → ∃ nd', node' r = some nd' ∧ nd'.data = nd.data) :
    Value node' (Function.update w r x) u pc := by
  have hupd : ∀ q v, w q = .taken u v → Function.update w r x q = .taken u v := by
    intro q v hq
    by_cases he : q = r
    · subst he
      rw [Function.update_self]
      exact hx v hq
    · rw [Function.update_of_ne he, hq]
  have hnd : ∀ q, (pc.role = some (q, .pusher) ∨ pc.role = some (q, .taker)) → ∀ nd v,
      node q = some nd → nd.data = some v → ∃ nd', node' q = some nd' ∧ nd'.data = some v := by
    intro q hq nd v hn hv
    by_cases he : q = r
    · subst he
      obtain ⟨nd', hn', hd⟩ := hdata hq nd hn
      exact ⟨nd', hn', hd.trans hv⟩
    · exact ⟨nd, (hnode q he).trans hn, hv⟩
  cases pc with
  | pushLoad v q =>
    obtain ⟨nd, hn, hv⟩ := h
    exact hnd q (.inl rfl) nd v hn hv
  | pushCas v q =>
    obtain ⟨nd, hn, hv⟩ := h
    exact hnd q (.inl rfl) nd v hn hv
  | taking e q =>
    obtain ⟨v, nd, hw, hn, hv⟩ := h
    obtain ⟨nd', hn', hv'⟩ := hnd q (.inr rfl) nd v hn hv
    exact ⟨v, nd', hupd q v hw, hn', hv'⟩
  | counting e q res =>
    obtain ⟨v, hw, hv⟩ := h
    exact ⟨v, hupd q v hw, hv⟩
  | deletePopped q res =>
    obtain ⟨v, hw, hv⟩ := h
    exact ⟨v, hupd q v hw, hv⟩
  | returning q res =>
    obtain ⟨v, hw, hv⟩ := h
    exact ⟨v, hupd q v hw, hv⟩
  | _ => trivial

/-- **One step at one node**, where the value of the node is with thread `t` or where it was. -/
theorem Values.at (hv : Values g w s) (h : Inv g stack s) (hpc : s'.pc = Function.update s.pc t pc')
    (hnode : ∀ q ≠ r, s'.node q = s.node q) (hfits : x.Fits d.phase.stage)
    (hcarries : ∀ q ≠ r, (s.pc t).carries ≠ some q)
    (hx : ∀ u ≠ t, ∀ v, w r = .taken u v ↔ x = .taken u v)
    (ht : ∀ v, x = .taken t v → pc'.carries = some r)
    (hhere : ∀ v, x = .here v → ∃ nd, s'.node r = some nd ∧ nd.data = some v)
    (hdata : (∀ nd, s.node r = some nd → ∃ nd', s'.node r = some nd' ∧ nd'.data = nd.data) ∨
      ∀ u ≠ t, (g r).phase ≠ .fresh u ∧ (g r).phase ≠ .taken u)
    (hself : Value s'.node (Function.update w r x) t pc') :
    Values (Function.update g r d) (Function.update w r x) s' where
  fits q := by
    by_cases hq : q = r
    · rw [hq, Function.update_self, Function.update_self]
      exact hfits
    · rw [Function.update_of_ne hq, Function.update_of_ne hq]
      exact hv.fits q
  data q v hw := by
    by_cases hq : q = r
    · subst hq
      rw [Function.update_self] at hw
      exact hhere v hw
    · rw [Function.update_of_ne hq] at hw
      rw [hnode q hq]
      exact hv.data q v hw
  carried u q v hw := by
    rw [hpc]
    by_cases hq : q = r
    · subst hq
      rw [Function.update_self] at hw
      by_cases hu : u = t
      · subst hu
        rw [Function.update_self]
        exact ht v hw
      · rw [Function.update_of_ne hu]
        exact hv.carried u q v ((hx u hu v).mpr hw)
    · rw [Function.update_of_ne hq] at hw
      have hc := hv.carried u q v hw
      have hu : u ≠ t := by
        rintro rfl
        exact hcarries q hq hc
      rw [Function.update_of_ne hu]
      exact hc
  values u := by
    rw [hpc]
    by_cases hu : u = t
    · subst hu
      rw [Function.update_self]
      exact hself
    · rw [Function.update_of_ne hu]
      refine (hv.values u).congr hnode (fun v => (hx u hu v).mp) fun hr => ?_
      rcases hdata with hdata | hdata
      · exact hdata
      · rcases hr with hr | hr
        · exact absurd ((h.roles u r .pusher).mp hr) (hdata u hu).1
        · exact absurd ((h.roles u r .taker).mp hr) (hdata u hu).2

/-- One that leaves the value where it was. -/
lemma Values.at_kept (hv : Values g w s) (h : Inv g stack s)
    (hpc : s'.pc = Function.update s.pc t pc') (hnode : ∀ q ≠ r, s'.node q = s.node q)
    (hfits : (w r).Fits d.phase.stage) (hcarries : ∀ q ≠ r, (s.pc t).carries ≠ some q)
    (ht : ∀ v, w r = .taken t v → pc'.carries = some r)
    (hdata : (∀ nd, s.node r = some nd → ∃ nd', s'.node r = some nd' ∧ nd'.data = nd.data) ∨
      (∀ v, w r ≠ .here v) ∧ ∀ u ≠ t, (g r).phase ≠ .fresh u ∧ (g r).phase ≠ .taken u)
    (hself : Value s'.node w t pc') : Values (Function.update g r d) w s' := by
  rw [← Function.update_eq_self r w] at hself ⊢
  refine hv.at h hpc hnode hfits hcarries (fun _ _ _ => Iff.rfl) ht (fun v hw => ?_)
    (hdata.imp_right And.right) hself
  rcases hdata with hdata | ⟨hne, -⟩
  · obtain ⟨nd, hr, hd⟩ := hv.data r v hw
    obtain ⟨nd', hr', hd'⟩ := hdata nd hr
    exact ⟨nd', hr', hd'.trans hd⟩
  · exact absurd hw (hne v)

omit [DecidableEq π] in
/-- A step of a thread alone. -/
lemma Values.goto (hv : Values g w s) (hpc : s'.pc = Function.update s.pc t pc')
    (hnode : s'.node = s.node) (hcarries : pc'.carries = (s.pc t).carries)
    (hself : Value s.node w t pc') : Values g w s' where
  fits := hv.fits
  data := by
    rw [hnode]
    exact hv.data
  carried u q v hw := by
    rw [hpc, ← hv.carried u q v hw]
    by_cases hu : u = t
    · rw [hu, Function.update_self, hcarries]
    · rw [Function.update_of_ne hu]
  values u := by
    rw [hpc, hnode]
    by_cases hu : u = t
    · rw [hu, Function.update_self]
      exact hself
    · rw [Function.update_of_ne hu]
      exact hv.values u

end Values

/-! ### The lists -/

lemma Logged.congr {κ β : Type} {l : List (κ × β)} {P P' : κ → β → Prop} (h : Logged l P)
    (hP : ∀ k b, P' k b ↔ P k b) : Logged l P' :=
  ⟨fun k b => (h.mem k b).trans (hP k b).symm, h.nodup⟩

lemma Logged.append {κ β : Type} {l : List (κ × β)} {P P' : κ → β → Prop} {k : κ} {b : β}
    (h : Logged l P) (hk : ∀ b, ¬ P k b) (hP : ∀ k' b', P' k' b' ↔ P k' b' ∨ k' = k ∧ b' = b) :
    Logged (l ++ [(k, b)]) P' where
  mem k' b' := by
    rw [hP, ← h.mem, List.mem_append, List.mem_singleton, Prod.mk.injEq]
  nodup := by
    rw [List.map_append, List.nodup_append]
    refine ⟨h.nodup, List.nodup_singleton _, fun a ha c hc => ?_⟩
    obtain ⟨⟨a', b'⟩, hm, rfl⟩ := List.mem_map.mp ha
    obtain rfl := List.mem_singleton.mp hc
    rintro rfl
    exact hk b' ((h.mem _ _).mp hm)

section Lists

variable [DecidableEq π] {d : Record τ} {x : Life τ α}

lemma gone_update (hd : d.phase = .gone ↔ (g r).phase = .gone) (q : Ref π) :
    (Function.update g r d q).phase = .gone ↔ (g q).phase = .gone := by
  by_cases hq : q = r
  · rw [hq, Function.update_self]
    exact hd
  · rw [Function.update_of_ne hq]

/-- A step that logs nothing. -/
lemma Lists.keep (h : Lists g w s) (hp : s'.pushed = s.pushed) (hr : s'.returned = s.returned)
    (hdel : s'.deleted = s.deleted) (hvalue : x.value = (w r).value)
    (hback : ∀ v, x = .back v ↔ w r = .back v) (hd : d.phase = .gone ↔ (g r).phase = .gone) :
    Lists (Function.update g r d) (Function.update w r x) s' where
  pushed := by
    rw [hp]
    refine h.pushed.congr fun q v => ?_
    by_cases hq : q = r
    · rw [hq, Function.update_self, hvalue]
    · rw [Function.update_of_ne hq]
  returned := by
    rw [hr]
    refine h.returned.congr fun q res => ?_
    by_cases hq : q = r
    · simp only [hq, Function.update_self, hback]
    · rw [Function.update_of_ne hq]
  deleted q := by
    rw [hdel, gone_update hd]
    exact h.deleted q
  deleted_nodup := hdel ▸ h.deleted_nodup

lemma Lists.same (h : Lists g w s) (hp : s'.pushed = s.pushed) (hr : s'.returned = s.returned)
    (hdel : s'.deleted = s.deleted) (hd : d.phase = .gone ↔ (g r).phase = .gone) :
    Lists (Function.update g r d) w s' := by
  have hk := h.keep (r := r) (x := w r) hp hr hdel rfl (fun _ => Iff.rfl) hd
  rw [Function.update_eq_self] at hk
  exact hk

lemma Lists.push (h : Lists g w s) {v : α} (hw : w r = .unpushed)
    (hp : s'.pushed = s.pushed ++ [(r, v)]) (hr : s'.returned = s.returned)
    (hdel : s'.deleted = s.deleted) (hd : d.phase = .gone ↔ (g r).phase = .gone) :
    Lists (Function.update g r d) (Function.update w r (.here v)) s' where
  pushed := by
    rw [hp]
    refine h.pushed.append (fun v' hv => by simp [hw, Life.value] at hv) fun q v' => ?_
    by_cases hq : q = r
    · rw [hq, Function.update_self, hw]
      simp [Life.value, eq_comm]
    · simp [hq]
  returned := by
    rw [hr]
    refine h.returned.congr fun q res => ?_
    by_cases hq : q = r
    · rw [hq, Function.update_self, hw]
      simp
    · rw [Function.update_of_ne hq]
  deleted q := by
    rw [hdel, gone_update hd]
    exact h.deleted q
  deleted_nodup := hdel ▸ h.deleted_nodup

lemma Lists.return (h : Lists g w s) {v : α} (hw : w r = .taken t v)
    (hp : s'.pushed = s.pushed) (hr : s'.returned = s.returned ++ [(r, some v)])
    (hdel : s'.deleted = s.deleted) : Lists g (Function.update w r (.back v)) s' where
  pushed := by
    rw [hp]
    refine h.pushed.congr fun q v' => ?_
    by_cases hq : q = r
    · rw [hq, Function.update_self, hw]
      rfl
    · rw [Function.update_of_ne hq]
  returned := by
    rw [hr]
    refine h.returned.append (fun res hv => by simp [hw] at hv) fun q res => ?_
    by_cases hq : q = r
    · rw [hq, Function.update_self, hw]
      simp
    · simp [hq]
  deleted q := by
    rw [hdel]
    exact h.deleted q
  deleted_nodup := hdel ▸ h.deleted_nodup

lemma Lists.delete (h : Lists g w s) (hp : s'.pushed = s.pushed)
    (hr : s'.returned = s.returned) (hdel : s'.deleted = s.deleted ++ [r])
    (hold : (g r).phase ≠ .gone) (hd : d.phase = .gone) : Lists (Function.update g r d) w s' where
  pushed := hp ▸ h.pushed
  returned := hr ▸ h.returned
  deleted q := by
    rw [hdel, List.mem_append, List.mem_singleton, h.deleted]
    by_cases hq : q = r
    · rw [hq, Function.update_self]
      exact iff_of_true (.inr rfl) hd
    · rw [Function.update_of_ne hq]
      exact or_iff_left hq
  deleted_nodup := by
    rw [hdel, List.nodup_append]
    refine ⟨h.deleted_nodup, List.nodup_singleton r, fun a ha c hc => ?_⟩
    obtain rfl := List.mem_singleton.mp hc
    rintro rfl
    exact hold ((h.deleted a).mp ha)

end Lists

end MmrService.Stack
