import Mathlib.Tactic.Common
import Mathlib.Tactic.Ring

/-!
Reference counts in two parts.

An object is reached through one word, which counts how often it was taken hold of, and has a
count of its own for those that have let go. While the word is there the two parts together
give the number of holders; when the word is taken away its part is added to the other one,
which then is the number of holders. A word that was never counted up stands at `1`.
-/

namespace SplitCount

variable {ext int : ℤ} {n : ℕ}

/-- The counts of an object with `n` holders, while its word is there. -/
def Attached (ext int : ℤ) (n : ℕ) : Prop := ext - 1 + int = n ∧ int ≤ 0

lemma Attached.new : Attached 1 0 0 := ⟨rfl, le_rfl⟩

lemma Attached.one_le (h : Attached ext int n) : n + 1 ≤ ext := by
  obtain ⟨hn, hle⟩ := h
  omega

lemma Attached.acquire (h : Attached ext int n) : Attached (ext + 1) int (n + 1) := by
  obtain ⟨hn, hle⟩ := h
  refine ⟨?_, hle⟩
  push_cast
  omega

/-- Letting go does not look like the last one to do so. -/
lemma Attached.release (h : Attached ext int (n + 1)) : Attached ext (int - 1) n ∧ int ≠ 1 := by
  obtain ⟨hn, hle⟩ := h
  push_cast at hn
  exact ⟨⟨by omega, by omega⟩, by omega⟩

/-- The holder that takes the word away adds its part, but for its own and the first. -/
lemma Attached.settle (h : Attached ext int (n + 1)) :
    int + (ext - 2) = n ∧ (int = -(ext - 2) ↔ n = 0) := by
  obtain ⟨hn, -⟩ := h
  push_cast at hn
  constructor
  · omega
  · omega

/-- Without the word the last holder to let go finds a `1`. -/
lemma release_settled (h : int = (n + 1 : ℕ)) : int - 1 = n ∧ (int = 1 ↔ n = 0) := by
  push_cast at h
  constructor
  · omega
  · omega

end SplitCount
