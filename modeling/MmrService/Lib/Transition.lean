import Mathlib.Data.List.Basic
import Mathlib.Data.List.Induction
import Mathlib.Tactic.Common

/-!
Runs of a partial step function, and properties of every step of a run.

A run is a list of actions; an action that is not enabled, or whose effect is undefined,
has no successor. A property of the steps of a run may look at the actions before it, so
that a condition can speak of what happened earlier and not only of the state.
-/

namespace Transition

variable {σ α : Type*} (step : σ → α → Option σ)

/-- The state after a list of actions. -/
def exec (s : σ) (as : List α) : Option σ := as.foldlM step s

@[simp] lemma exec_nil (s : σ) : exec step s [] = some s := rfl

lemma exec_cons (s : σ) (a : α) (as : List α) :
    exec step s (a :: as) = (step s a).bind fun t => exec step t as := rfl

lemma exec_append (s : σ) (as bs : List α) :
    exec step s (as ++ bs) = (exec step s as).bind fun t => exec step t bs := by
  simp only [exec, List.foldlM_append]; rfl

lemma exec_snoc (s : σ) (as : List α) (a : α) :
    exec step s (as ++ [a]) = (exec step s as).bind fun t => step t a := by
  rw [exec_append]
  congr 1; funext t
  rw [exec_cons]
  cases step t a <;> rfl

variable {step}

lemma exec_snoc_some {s u : σ} {as : List α} {a : α} (h : exec step s (as ++ [a]) = some u) :
    ∃ t, exec step s as = some t ∧ step t a = some u := by
  rw [exec_snoc] at h
  exact Option.bind_eq_some_iff.mp h

variable (step)

/-- `P` holds at every action of the run, of the actions before it and the state it meets. -/
def Always (P : List α → σ → α → Prop) (s : σ) (as : List α) : Prop :=
  ∀ h a r t, as = h ++ a :: r → exec step s h = some t → P h t a

variable {step} {P Q : List α → σ → α → Prop} {I : List α → σ → Prop} {s t : σ}

lemma Always.nil : Always step P s [] := fun h a r _ he => by simp at he

lemma Always.left {as bs : List α} (h : Always step P s (as ++ bs)) : Always step P s as :=
  fun g a r t he => h g a (r ++ bs) t (by simp [he])

lemma Always.last {as : List α} {a : α} (h : Always step P s (as ++ [a]))
    (he : exec step s as = some t) : P as t a :=
  h as a [] t rfl he

/-- A condition on states and actions along a run, at its first action and behind it. -/
lemma Always.uncons {R : σ → α → Prop} {a : α} {as : List α}
    (h : Always step (fun _ => R) s (a :: as)) :
    R s a ∧ ∀ t, step s a = some t → Always step (fun _ => R) t as := by
  refine ⟨h [] a as s rfl rfl, fun t ht g b r u he hu => ?_⟩
  refine h (a :: g) b r u (by rw [he]; rfl) ?_
  rw [exec_cons, ht]
  exact hu

/-- **The run rule**: what the steps meeting `P` preserve holds of the state reached. -/
theorem inv_of_always (h0 : I [] s)
    (hstep : ∀ h t a u, I h t → P h t a → step t a = some u → I (h ++ [a]) u)
    {as : List α} (hP : Always step P s as) (he : exec step s as = some t) : I as t := by
  induction as using List.reverseRecOn generalizing t with
  | nil => simp only [exec_nil, Option.some.injEq] at he; exact he ▸ h0
  | append_singleton as a ih =>
    obtain ⟨u, hu, hs⟩ := exec_snoc_some he
    exact hstep as u a t (ih hP.left hu) (hP.last hu) hs

/-- A property that the invariant and the condition give at one step holds along the run. -/
theorem always_of_inv (h0 : I [] s)
    (hstep : ∀ h t a u, I h t → P h t a → step t a = some u → I (h ++ [a]) u)
    (hPQ : ∀ h t a, I h t → P h t a → Q h t a)
    {as : List α} (hP : Always step P s as) : Always step Q s as := by
  intro h a r t he ht
  subst he
  exact hPQ h t a (inv_of_always h0 hstep hP.left ht) (hP h a r t rfl ht)

/-- Two properties that agree under an invariant hold along the same runs. -/
theorem always_congr (h0 : I [] s)
    (hstep : ∀ h t a u, I h t → P h t a → step t a = some u → I (h ++ [a]) u)
    (hPQ : ∀ h t a, I h t → (P h t a ↔ Q h t a))
    (as : List α) : Always step P s as ↔ Always step Q s as :=
  ⟨always_of_inv h0 hstep fun h t a hi => (hPQ h t a hi).mp,
    always_of_inv h0 (fun h t a u hi hq => hstep h t a u hi ((hPQ h t a hi).mpr hq))
      fun h t a hi => (hPQ h t a hi).mpr⟩

/-! ### Properties of the states of a run -/

variable (step) in
/-- `R` holds of every state of the run. -/
def Throughout (R : σ → Prop) (s : σ) (as : List α) : Prop :=
  ∀ h r t, as = h ++ r → exec step s h = some t → R t

/-- Where, under an invariant of the system, a step from a state in `R` stays in `R` exactly
when it meets `C`, a run stays in `R` exactly when its steps meet `C`. -/
theorem throughout_iff {J R : σ → Prop} {C : σ → α → Prop} (hJ : J s) (hR : R s)
    (hinv : ∀ t a u, J t → step t a = some u → J u)
    (hstep : ∀ t a u, J t → R t → step t a = some u → (R u ↔ C t a))
    (hnone : ∀ t a, step t a = none → C t a) (as : List α) :
    Throughout step R s as ↔ Always step (fun _ => C) s as := by
  constructor
  · intro h g a r t he ht
    have hJt : J t := inv_of_always (P := fun _ _ _ => True) (I := fun _ => J) hJ
      (fun _ t a u hi _ hs => hinv t a u hi hs) (fun _ _ _ _ _ _ => trivial) ht
    cases hs : step t a with
    | none => exact hnone t a hs
    | some u =>
      refine (hstep t a u hJt (h g (a :: r) t he ht) hs).mp (h (g ++ [a]) r u (by simp [he]) ?_)
      rw [exec_snoc, ht]
      exact hs
  · intro h g r t he ht
    subst he
    refine (inv_of_always (P := fun _ => C) (I := fun _ t => J t ∧ R t) ⟨hJ, hR⟩ ?_ h.left ht).2
    intro _ t a u hi hc hs
    exact ⟨hinv t a u hi.1 hs, (hstep t a u hi.1 hi.2 hs).mpr hc⟩

/-! ### Progress -/

/-- Where every state of an invariant that has not come to the goal has a step that keeps the
invariant and lowers a measure, the goal is reached from each of them. -/
theorem exists_run {I G : σ → Prop} (rank : σ → ℕ)
    (h : ∀ s, I s → ¬ G s → ∃ a t, step s a = some t ∧ I t ∧ rank t < rank s) (hs : I s) :
    ∃ as t, exec step s as = some t ∧ I t ∧ G t := by
  induction hn : rank s using Nat.strongRecOn generalizing s with
  | ind n ih =>
    by_cases hg : G s
    · exact ⟨[], s, rfl, hs, hg⟩
    · obtain ⟨a, u, hu, hi, hlt⟩ := h s hs hg
      obtain ⟨as, t, ht, hit, hgt⟩ := ih (rank u) (hn ▸ hlt) hi rfl
      exact ⟨a :: as, t, by rw [exec_cons, hu]; exact ht, hit, hgt⟩

/-! ### Checking a condition along a given run -/

variable (step) in
/-- Evaluate a condition on states and actions along a run. -/
def check (q : σ → α → Bool) : σ → List α → Bool
  | _, [] => true
  | s, a :: as => q s a && (step s a).elim true fun t => check q t as

lemma check_cons {q : σ → α → Bool} {a : α} {as : List α} :
    check step q s (a :: as) = true ↔
      q s a = true ∧ ∀ t, step s a = some t → check step q t as = true := by
  rw [check, Bool.and_eq_true]
  cases step s a with
  | none => simp
  | some t => simp

lemma always_of_check {q : σ → α → Bool} {R : σ → α → Prop} (hq : ∀ s a, q s a = true → R s a)
    {as : List α} (hc : check step q s as = true) : Always step (fun _ => R) s as := by
  induction as generalizing s with
  | nil => exact Always.nil
  | cons b bs ih =>
    simp only [check, Bool.and_eq_true] at hc
    intro h a r t he ht
    cases h with
    | nil =>
      simp only [exec_nil, Option.some.injEq] at ht
      rw [List.nil_append, List.cons.injEq] at he
      rw [← ht, ← he.1]; exact hq s b hc.1
    | cons c h =>
      rw [List.cons_append, List.cons.injEq] at he
      obtain ⟨rfl, he⟩ := he
      rw [exec_cons] at ht
      obtain ⟨u, hu, ht⟩ := Option.bind_eq_some_iff.mp ht
      rw [hu] at hc
      exact ih hc.2 h a r t he ht

end Transition
