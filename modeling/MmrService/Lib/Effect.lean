import Mathlib.Data.List.Basic
import Mathlib.Tactic.Common

/-!
Programs over a state, and what holds where they leave it.

A program comes back with a value, comes back with an exception, or does not come back: what
is undefined and what waits for ever has no outcome. A statement about the outcomes of a
program is a postcondition for each of the two ways back, or a relation between the state it
was started in and the one it leaves behind.
-/

namespace Effect

variable {ε σ α β γ : Type}

/-- What a program comes to, and the state then. -/
inductive Out (ε σ α : Type) where
  | done (a : α) (s : σ)
  | threw (e : ε) (s : σ)
  | stuck

namespace Out

def bind : Out ε σ α → (α → σ → Out ε σ β) → Out ε σ β
  | done a s, f => f a s
  | threw e s, _ => threw e s
  | stuck, _ => stuck

@[simp] lemma done_bind (a : α) (s : σ) (f : α → σ → Out ε σ β) : (done a s).bind f = f a s := rfl

@[simp] lemma threw_bind (e : ε) (s : σ) (f : α → σ → Out ε σ β) :
    (threw e s).bind f = threw e s := rfl

@[simp] lemma stuck_bind (f : α → σ → Out ε σ β) : (stuck : Out ε σ α).bind f = stuck := rfl

lemma bind_assoc (r : Out ε σ α) (f : α → σ → Out ε σ β) (g : β → σ → Out ε σ γ) :
    (r.bind f).bind g = r.bind fun a s => (f a s).bind g := by
  cases r <;> rfl

/-- A program that comes back does so with `P`, or with an exception and `Q`. -/
def Post (P : α → σ → Prop) (Q : ε → σ → Prop) : Out ε σ α → Prop
  | done a s => P a s
  | threw e s => Q e s
  | stuck => True

variable {P P' : α → σ → Prop} {Q Q' : ε → σ → Prop} {r : Out ε σ α}

@[simp] lemma post_done {a : α} {s : σ} : (done a s).Post P Q ↔ P a s := Iff.rfl

@[simp] lemma post_threw {e : ε} {s : σ} : (threw e s).Post P Q ↔ Q e s := Iff.rfl

@[simp] lemma post_stuck : (stuck : Out ε σ α).Post P Q := trivial

lemma Post.imp (h : r.Post P Q) (hP : ∀ a s, P a s → P' a s) (hQ : ∀ e s, Q e s → Q' e s) :
    r.Post P' Q' := by
  cases r with
  | done a s => exact hP a s h
  | threw e s => exact hQ e s h
  | stuck => trivial

lemma Post.and (h : r.Post P Q) (h' : r.Post P' Q') :
    r.Post (fun a s => P a s ∧ P' a s) fun e s => Q e s ∧ Q' e s := by
  cases r with
  | done a s => exact ⟨h, h'⟩
  | threw e s => exact ⟨h, h'⟩
  | stuck => trivial

/-- A sequence meets what its second part meets after every outcome of the first. -/
lemma Post.bind {P : α → σ → Prop} {R : β → σ → Prop} {f : α → σ → Out ε σ β}
    (h : r.Post P Q) (hf : ∀ a s, P a s → (f a s).Post R Q) : (r.bind f).Post R Q := by
  cases r with
  | done a s => exact hf a s h
  | threw e s => exact h
  | stuck => trivial

end Out

/-- A computation on a state. -/
abbrev Prog (ε σ α : Type) := σ → Out ε σ α

instance : Monad (Prog ε σ) where
  pure a := fun s => .done a s
  bind x f := fun s => (x s).bind f

@[simp] lemma pure_apply (a : α) (s : σ) : (pure a : Prog ε σ α) s = .done a s := rfl

@[simp] lemma bind_apply (x : Prog ε σ α) (f : α → Prog ε σ β) (s : σ) :
    (x >>= f) s = (x s).bind f := rfl

/-- A sequence comes back with a value where both of its parts do. -/
lemma bind_eq_done {x : Prog ε σ α} {f : α → Prog ε σ β} {s u : σ} {b : β} :
    (x >>= f) s = .done b u ↔ ∃ a t, x s = .done a t ∧ f a t = .done b u := by
  rw [bind_apply]
  constructor
  · intro h
    cases hx : x s with
    | done a t => rw [hx] at h; exact ⟨a, t, rfl, h⟩
    | threw e t => rw [hx] at h; cases h
    | stuck => rw [hx] at h; cases h
  · rintro ⟨a, t, hx, h⟩
    rw [hx]
    exact h

namespace Prog

def get : Prog ε σ σ := fun s => .done s s

def modify (f : σ → σ) : Prog ε σ Unit := fun s => .done () (f s)

def throw (e : ε) : Prog ε σ α := fun s => .threw e s

/-- What has no outcome. -/
def stuck : Prog ε σ α := fun _ => .stuck

/-- `try` and a handler of every exception. -/
def tryCatch (x : Prog ε σ α) (handler : ε → Prog ε σ α) : Prog ε σ α := fun s =>
  match x s with
  | .done a t => .done a t
  | .threw e t => handler e t
  | .stuck => .stuck

/-- A loop over a list, which an exception ends. -/
def forEach (f : α → Prog ε σ Unit) : List α → Prog ε σ Unit
  | [] => pure ()
  | a :: as => do
    f a
    forEach f as

@[simp] lemma get_apply (s : σ) : (get : Prog ε σ σ) s = .done s s := rfl

@[simp] lemma modify_apply (f : σ → σ) (s : σ) :
    (modify f : Prog ε σ Unit) s = .done () (f s) := rfl

@[simp] lemma throw_apply (e : ε) (s : σ) : (throw e : Prog ε σ α) s = .threw e s := rfl

@[simp] lemma stuck_apply (s : σ) : (stuck : Prog ε σ α) s = .stuck := rfl

@[simp] lemma forEach_nil (f : α → Prog ε σ Unit) (s : σ) : forEach f [] s = .done () s := rfl

lemma forEach_cons (f : α → Prog ε σ Unit) (a : α) (as : List α) (s : σ) :
    forEach f (a :: as) s = (f a s).bind fun _ t => forEach f as t := rfl

/-! ### Relations that a program keeps -/

/-- Every state the program leaves is in the relation with the one it was started in. -/
def Keeps (R : σ → σ → Prop) (x : Prog ε σ α) : Prop :=
  ∀ s, (x s).Post (fun _ t => R s t) fun _ t => R s t

variable {R : σ → σ → Prop} [IsPreorder σ R]

lemma Keeps.pure (a : α) : Keeps R (Pure.pure a : Prog ε σ α) := refl_of R

lemma Keeps.get : Keeps R (Prog.get : Prog ε σ σ) := refl_of R

lemma Keeps.throw (e : ε) : Keeps R (Prog.throw e : Prog ε σ α) := refl_of R

omit [IsPreorder σ R] in
lemma Keeps.stuck : Keeps R (Prog.stuck : Prog ε σ α) := fun _ => trivial

lemma Keeps.bind {x : Prog ε σ α} {f : α → Prog ε σ β} (hx : Keeps R x)
    (hf : ∀ a, Keeps R (f a)) : Keeps R (x >>= f) := by
  intro s
  have h := hx s
  rw [bind_apply]
  cases hs : x s with
  | done a t =>
    rw [hs] at h
    exact (hf a t).imp (fun _ _ => trans_of R h) fun _ _ => trans_of R h
  | threw e t => rw [hs] at h; exact h
  | stuck => trivial

omit [IsPreorder σ R] in
lemma Keeps.modify {f : σ → σ} (hf : ∀ s, R s (f s)) : Keeps R (Prog.modify f : Prog ε σ Unit) :=
  hf

lemma Keeps.forEach {f : α → Prog ε σ Unit} {as : List α} (hf : ∀ a ∈ as, Keeps R (f a)) :
    Keeps R (Prog.forEach f as) := by
  induction as with
  | nil => exact Keeps.pure ()
  | cons a as ih =>
    exact Keeps.bind (hf a List.mem_cons_self) fun _ => ih fun b hb => hf b (.tail _ hb)

lemma Keeps.tryCatch {x : Prog ε σ α} {handler : ε → Prog ε σ α} (hx : Keeps R x)
    (hh : ∀ e, Keeps R (handler e)) : Keeps R (Prog.tryCatch x handler) := by
  intro s
  have h := hx s
  unfold Prog.tryCatch
  cases hs : x s with
  | done a t => rw [hs] at h; exact h
  | threw e t =>
    rw [hs] at h
    exact (hh e t).imp (fun _ _ => trans_of R h) fun _ _ => trans_of R h
  | stuck => trivial

omit [IsPreorder σ R] in
lemma Keeps.done {x : Prog ε σ α} (h : Keeps R x) {s t : σ} {a : α} (hx : x s = .done a t) :
    R s t := by
  have hs := h s
  rwa [hx] at hs

/-! ### Parts of a state -/

/-- A part of the state is left as it is. -/
def Same {τ : Type} (f : σ → τ) (s t : σ) : Prop := f t = f s

instance instIsPreorderSame {τ : Type} (f : σ → τ) : IsPreorder σ (Same f) where
  refl _ := rfl
  trans _ _ _ h g := Eq.trans g h

end Prog

end Effect
