import Mathlib.Logic.Function.Basic
import Mathlib.Logic.Relation
import Mathlib.Tactic.Common

/-!
Mutual exclusion: a mutex is the thread that holds it, and threads are told inside or outside
their critical sections by their program counters.
-/

namespace Mutex

variable {τ ρ : Type*} [DecidableEq τ]

/-- The threads inside the critical section are the holder of the mutex. -/
def Owned (m : Option τ) (inside : ρ → Bool) (pc : τ → ρ) : Prop :=
  ∀ t, inside (pc t) = true ↔ m = some t

variable {m : Option τ} {inside : ρ → Bool} {pc : τ → ρ} {t u : τ} {p : ρ}

omit [DecidableEq τ] in
lemma Owned.holder (h : Owned m inside pc) (ht : inside (pc t) = true) : m = some t := (h t).mp ht

omit [DecidableEq τ] in
/-- Two threads are not inside together. -/
lemma Owned.unique (h : Owned m inside pc) (ht : inside (pc t) = true)
    (hu : inside (pc u) = true) : t = u :=
  Option.some.inj ((h.holder ht).symm.trans (h.holder hu))

/-- A thread that enters takes a free mutex. -/
lemma Owned.lock (h : Owned none inside pc) (hp : inside p = true) :
    Owned (some t) inside (Function.update pc t p) := by
  intro u
  rw [Function.update_apply]
  split_ifs with hu
  · simp [hp, hu]
  · rw [h u]
    simp [Ne.symm hu]

/-- A thread that leaves frees the mutex it holds. -/
lemma Owned.unlock (h : Owned m inside pc) (ht : inside (pc t) = true) (hp : inside p = false) :
    Owned none inside (Function.update pc t p) := by
  intro u
  rw [Function.update_apply]
  split_ifs with hu
  · simp [hp]
  · rw [h u, h.holder ht]
    simp [Ne.symm hu]

/-- A thread that stays on its side changes nothing. -/
lemma Owned.stay (h : Owned m inside pc) (hp : inside p = inside (pc t)) :
    Owned m inside (Function.update pc t p) := by
  intro u
  rw [Function.update_apply]
  split_ifs with hu
  · rw [hu, hp, h t]
  · exact h u

/-! ### Waiting -/

/-- Where each thread that waits for another ranks above it, none waits for itself through
others. -/
theorem acyclic_of_rank {σ : Type*} {waits : σ → σ → Prop} (rank : σ → ℕ)
    (h : ∀ t u, waits t u → rank u < rank t) (t : σ) : ¬ Relation.TransGen waits t t := by
  intro hc
  have hlt : Relation.TransGen (fun a b => b < a) (rank t) (rank t) := hc.lift rank h
  rw [Relation.transGen_eq_self] at hlt
  exact Nat.lt_irrefl _ hlt

end Mutex
