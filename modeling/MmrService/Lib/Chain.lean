import Mathlib.Data.List.Nodup
import Mathlib.Tactic.Common

/-!
Chains of links: the cells met by following a link function from a head to an end mark.

This is a singly linked list whose links live in the cells themselves. The order of the
cells is a list; pushing and popping change its head, and a change of a link that is not on
the chain changes nothing.
-/

namespace Chain

variable {α : Type*}

/-- Following `next` from `h` meets the cells of `l` in order and ends at `stop`. -/
def Linked (next : α → α) (stop : α) : α → List α → Prop
  | h, [] => h = stop
  | h, i :: l => h = i ∧ i ≠ stop ∧ Linked next stop (next i) l

variable {next next' : α → α} {stop h i : α} {l : List α}

@[simp] lemma linked_nil : Linked next stop h [] ↔ h = stop := Iff.rfl

@[simp] lemma linked_cons :
    Linked next stop h (i :: l) ↔ h = i ∧ i ≠ stop ∧ Linked next stop (next i) l := Iff.rfl

/-- Links outside the chain do not matter. -/
lemma Linked.congr (hc : Linked next stop h l) (hn : ∀ i ∈ l, next' i = next i) :
    Linked next' stop h l := by
  induction l generalizing h with
  | nil => exact hc
  | cons a r ih =>
    obtain ⟨rfl, hs, hr⟩ := hc
    refine ⟨rfl, hs, ?_⟩
    rw [hn h (List.mem_cons_self ..)]
    exact ih hr fun i hi => hn i (List.mem_cons_of_mem _ hi)

/-- Popping: a head that is not the end mark is the first cell, and its link the new head. -/
lemma Linked.pop (hc : Linked next stop h l) (hs : h ≠ stop) :
    ∃ r, l = h :: r ∧ Linked next stop (next h) r := by
  cases l with
  | nil => exact absurd hc hs
  | cons a r =>
    obtain ⟨rfl, -, hr⟩ := hc
    exact ⟨r, rfl, hr⟩

/-- Pushing: a cell whose link is the old head becomes the new head. -/
lemma Linked.push (hc : Linked next stop h l) (hi : next i = h) (hs : i ≠ stop) :
    Linked next stop i (i :: l) := ⟨rfl, hs, by rw [hi]; exact hc⟩

end Chain
