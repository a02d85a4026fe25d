import MmrService.JsonBounds

/-!
Which texts `load` accepts: those of the parser's grammar, with anything behind the root.
-/

namespace MmrService.Json

open Scan

variable {N : Numbers} {str : List UInt8} {v : Value N.Double} {o : ℕ}

/-- An error is never empty. -/
lemma load_throw_ne (jsonRoot : Value N.Double) {e : List UInt8}
    (h : parse_next N str (turns str) 0 = .throw e o) :
    ∃ e', e' ≠ [] ∧ load N str jsonRoot = .ok (e', jsonRoot) o := by
  obtain ⟨place, hl⟩ := load_throw jsonRoot h
  exact ⟨_, by simp [text], hl⟩

/-- An accepted text is one of the grammar. -/
theorem load_accepts (jsonRoot : Value N.Double) :
    (∃ o, load N str jsonRoot = .ok ([], v) o) ↔ ∃ t, Reads N str v t := by
  have hstart : At str 0 str := .start str
  have hturns : str.length < turns str := Nat.lt_succ_self _
  constructor
  · rintro ⟨o, h⟩
    have hspec := parse_next_spec (N := N) hstart hturns
    rcases hp : parse_next N str (turns str) 0 with ⟨w, o'⟩ | ⟨e, o'⟩ | i | _
    · rw [load_ok jsonRoot hp] at h
      rw [hp] at hspec
      obtain ⟨t, -, hr, -⟩ := hspec
      simp only [Res.ok.injEq, Prod.mk.injEq, true_and] at h
      exact ⟨t, h.1 ▸ hr⟩
    · obtain ⟨e', hne, hl⟩ := load_throw_ne jsonRoot hp
      rw [hl] at h
      simp only [Res.ok.injEq, Prod.mk.injEq] at h
      exact absurd h.1.1 hne
    · rw [load, hp] at h
      cases h
    · rw [load, hp] at h
      cases h
  · rintro ⟨t, hr⟩
    obtain ⟨o, hp, -⟩ := hr.parse hstart hturns
    exact ⟨o, load_ok jsonRoot hp⟩

end MmrService.Json
