import MmrService.Lib.Word
import Mathlib.Data.List.Perm.Basic
import Mathlib.Data.List.Count

/-!
Numbers drawn from counters that wrap.

Each drawer has a counter of `w` bits that starts at `0` and is increased before a number is
drawn from it. The numbers drawn are told with their drawer and a name for each; they are
nonzero and distinct as long as no drawer draws `2 ^ w` of them.
-/

namespace Tickets

variable {ι ρ : Type*} [DecidableEq ρ]

/-- How many numbers a drawer has drawn. -/
def drawn (l : List (ι × ρ × ℕ)) (p : ρ) : ℕ := l.countP fun e => decide (e.2.1 = p)

/-- The counters and the numbers drawn from them. -/
structure Drawn (w : ℕ) (last : ρ → ℕ) (l : List (ι × ρ × ℕ)) : Prop where
  count : ∀ p, last p = drawn l p % 2 ^ w
  wrapped : ∀ p, 2 ^ w ≤ drawn l p → ∃ e ∈ l, e.2.1 = p ∧ e.2.2 = 0
  below : ∀ p, drawn l p < 2 ^ w → ∀ e ∈ l, e.2.1 = p → 0 < e.2.2 ∧ e.2.2 ≤ drawn l p
  distinct : ∀ p, drawn l p < 2 ^ w → ∀ e ∈ l, ∀ f ∈ l, e.2.1 = p → f.2.1 = p →
    e.2.2 = f.2.2 → e = f

variable {w : ℕ} {last : ρ → ℕ} {l l' : List (ι × ρ × ℕ)} {i : ι} {p : ρ}

lemma drawn_perm (h : l.Perm l') (p : ρ) : drawn l p = drawn l' p := h.countP_eq _

lemma drawn_cons (i : ι) (p q : ρ) (n : ℕ) (l : List (ι × ρ × ℕ)) :
    drawn ((i, p, n) :: l) q = drawn l q + if p = q then 1 else 0 := by
  simp [drawn, List.countP_cons]

lemma Drawn.nil (w : ℕ) : Drawn w (fun _ : ρ => 0) ([] : List (ι × ρ × ℕ)) where
  count p := by simp [drawn]
  wrapped p h := absurd h (by simp [drawn])
  below p _ e he := by cases he
  distinct p _ e he := by cases he

lemma Drawn.perm (h : Drawn w last l) (hp : l'.Perm l) : Drawn w last l' where
  count p := by rw [drawn_perm hp, h.count]
  wrapped p hw := by
    obtain ⟨e, he, hr⟩ := h.wrapped p (drawn_perm hp p ▸ hw)
    exact ⟨e, hp.mem_iff.mpr he, hr⟩
  below p hw e he hep := by
    rw [drawn_perm hp] at hw ⊢
    exact h.below p hw e (hp.mem_iff.mp he) hep
  distinct p hw e he f hf := by
    rw [drawn_perm hp] at hw
    exact h.distinct p hw e (hp.mem_iff.mp he) f (hp.mem_iff.mp hf)

/-- The next number that `p` draws. -/
theorem Drawn.draw (h : Drawn w last l) (i : ι) (p : ρ) :
    Drawn w (Function.update last p (Word.add w (last p) 1))
      ((i, p, Word.add w (last p) 1) :: l) := by
  have hnum : Word.add w (last p) 1 = (drawn l p + 1) % 2 ^ w := by
    rw [Word.add, h.count, Nat.mod_add_mod]
  refine ⟨fun q => ?_, fun q hq => ?_, fun q hq e he hep => ?_, fun q hq e he f hf hep hfp hn => ?_⟩
  · rw [drawn_cons]
    by_cases hqp : q = p
    · rw [hqp, Function.update_self, if_pos rfl, hnum]
    · rw [Function.update_of_ne hqp, if_neg (Ne.symm hqp), h.count, Nat.add_zero]
  · rw [drawn_cons] at hq
    by_cases hold : 2 ^ w ≤ drawn l q
    · obtain ⟨e, he, hr⟩ := h.wrapped q hold
      exact ⟨e, .tail _ he, hr⟩
    · split_ifs at hq with hpq
      · subst hpq
        refine ⟨_, List.mem_cons_self, rfl, ?_⟩
        rw [hnum, show drawn l p + 1 = 2 ^ w by omega, Nat.mod_self]
      · omega
  · rw [drawn_cons] at hq ⊢
    rcases List.mem_cons.mp he with rfl | he
    · obtain rfl : p = q := hep
      rw [if_pos rfl] at hq ⊢
      simp only [hnum, Nat.mod_eq_of_lt hq]
      exact ⟨Nat.succ_pos _, le_rfl⟩
    · obtain ⟨h0, hle⟩ := h.below q (by omega) e he hep
      exact ⟨h0, by omega⟩
  · rw [drawn_cons] at hq
    have hnew : ∀ e ∈ l, e.2.1 = q → p = q → e.2.2 ≠ Word.add w (last p) 1 := by
      intro e he hep hpq
      rw [if_pos hpq] at hq
      obtain ⟨-, hle⟩ := h.below q (by omega) e he hep
      rw [hnum, hpq, Nat.mod_eq_of_lt hq]
      omega
    rcases List.mem_cons.mp he with rfl | he
    · rcases List.mem_cons.mp hf with rfl | hf
      · rfl
      · exact absurd hn.symm (hnew f hf hfp hep)
    · rcases List.mem_cons.mp hf with rfl | hf
      · exact absurd hn (hnew e he hep hfp)
      · exact h.distinct q (by omega) e he f hf hep hfp hn

/-- **No number is zero** exactly as long as no drawer has drawn `2 ^ w`. -/
theorem Drawn.nonzero_iff (h : Drawn w last l) :
    (∀ e ∈ l, e.2.2 ≠ 0) ↔ ∀ p, drawn l p < 2 ^ w := by
  constructor
  · intro hne p
    by_contra hp
    obtain ⟨e, he, -, h0⟩ := h.wrapped p (not_lt.mp hp)
    exact hne e he h0
  · intro hlt e he
    exact (h.below _ (hlt _) e he rfl).1.ne'

end Tickets
