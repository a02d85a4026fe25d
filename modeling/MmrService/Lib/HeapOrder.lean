import Mathlib.Data.Nat.Init
import Mathlib.Data.Set.Function
import Mathlib.Logic.Equiv.Basic
import Mathlib.Order.Interval.Set.Defs
import Mathlib.Tactic.Common

/-!
Heap order on the positions of a binary tree.

The positions are `1`, .., `n`, and the children of `i` are `2 * i` and `2 * i + 1`. An item
that is out of order at one position is exchanged with its parent while it is before it, or
with the lesser child while it is not before both; either way the order is restored, and the
items are the same.
-/

namespace HeapOrder

variable {κ α : Type*} [LinearOrder κ] {k : ℕ → κ} {n i : ℕ}

/-- No item is before its parent. -/
def Ordered (k : ℕ → κ) (n : ℕ) : Prop := ∀ j, 2 ≤ j → j ≤ n → k (j / 2) ≤ k j

/-- The root is least. -/
lemma Ordered.root_le (h : Ordered k n) : ∀ j, 1 ≤ j → j ≤ n → k 1 ≤ k j := by
  intro j
  induction j using Nat.strongRecOn with
  | ind j ih =>
    intro hj hn
    by_cases h1 : j = 1
    · rw [h1]
    · calc k 1 ≤ k (j / 2) := ih (j / 2) (by omega) (by omega) (by omega)
        _ ≤ k j := h j (by omega) hn

/-- Order but for position `i`: between its parent and its children there is order. -/
structure Nearly (k : ℕ → κ) (n i : ℕ) : Prop where
  away : ∀ j, 2 ≤ j → j ≤ n → j ≠ i → j / 2 ≠ i → k (j / 2) ≤ k j
  past : 2 ≤ i → ∀ j, j ≤ n → j / 2 = i → k (i / 2) ≤ k j

/-- The children of `i` are not before it. -/
def Below (k : ℕ → κ) (n i : ℕ) : Prop := ∀ j, j ≤ n → j / 2 = i → k i ≤ k j

lemma Nearly.ordered (h : Nearly k n i) (hb : Below k n i) (hup : 2 ≤ i → k (i / 2) ≤ k i) :
    Ordered k n := by
  intro j hj hn
  by_cases hji : j = i
  · subst hji
    exact hup hj
  · by_cases hp : j / 2 = i
    · rw [hp]
      exact hb j hn hp
    · exact h.away j hj hn hji hp

/-! ### Exchanges -/

/-- The items at two positions are exchanged. -/
def swapped (a : ℕ → α) (i j : ℕ) : ℕ → α := fun x => a (Equiv.swap i j x)

variable {a : ℕ → α} {j : ℕ}

@[simp] lemma swapped_left : swapped a i j i = a j := by rw [swapped, Equiv.swap_apply_left]

@[simp] lemma swapped_right : swapped a i j j = a i := by rw [swapped, Equiv.swap_apply_right]

lemma swapped_of_ne {x : ℕ} (hi : x ≠ i) (hj : x ≠ j) : swapped a i j x = a x := by
  rw [swapped, Equiv.swap_apply_of_ne_of_ne hi hj]

lemma swapped_comm (a : ℕ → α) (i j : ℕ) : swapped a i j = swapped a j i := by
  funext x
  rw [swapped, swapped, Equiv.swap_comm]

/-- `x` is at one of the positions up to `n`. -/
def Holds (a : ℕ → α) (n : ℕ) (x : α) : Prop := ∃ j, 1 ≤ j ∧ j ≤ n ∧ a j = x

/-- No item is at two of the positions up to `n`. -/
def Distinct (a : ℕ → α) (n : ℕ) : Prop :=
  ∀ i j, 1 ≤ i → i ≤ n → 1 ≤ j → j ≤ n → a i = a j → i = j

lemma swap_mem {x : ℕ} (hi : 1 ≤ i ∧ i ≤ n) (hj : 1 ≤ j ∧ j ≤ n) (hx : 1 ≤ x ∧ x ≤ n) :
    1 ≤ Equiv.swap i j x ∧ Equiv.swap i j x ≤ n := by
  rw [Equiv.swap_apply_def]
  split_ifs
  · exact hj
  · exact hi
  · exact hx

lemma holds_swapped (hi : 1 ≤ i ∧ i ≤ n) (hj : 1 ≤ j ∧ j ≤ n) {x : α} :
    Holds (swapped a i j) n x ↔ Holds a n x := by
  constructor
  · rintro ⟨y, h1, hn, rfl⟩
    obtain ⟨h1', hn'⟩ := swap_mem hi hj ⟨h1, hn⟩
    exact ⟨_, h1', hn', rfl⟩
  · rintro ⟨y, h1, hn, rfl⟩
    obtain ⟨h1', hn'⟩ := swap_mem hi hj ⟨h1, hn⟩
    exact ⟨_, h1', hn', by rw [swapped, Equiv.swap_apply_self]⟩

lemma Distinct.swapped (h : Distinct a n) (hi : 1 ≤ i ∧ i ≤ n) (hj : 1 ≤ j ∧ j ≤ n) :
    Distinct (swapped a i j) n := by
  intro x y hx hxn hy hyn heq
  obtain ⟨hx', hxn'⟩ := swap_mem hi hj ⟨hx, hxn⟩
  obtain ⟨hy', hyn'⟩ := swap_mem hi hj ⟨hy, hyn⟩
  exact (Equiv.swap i j).injective (h _ _ hx' hxn' hy' hyn' heq)

/-- The item at `i` was before its parent, and is exchanged with it. -/
lemma Nearly.up (h : Nearly k n i) (hi : 2 ≤ i) (hn : i ≤ n)
    (hlt : k i < k (i / 2)) :
    Nearly (swapped k i (i / 2)) n (i / 2) ∧ Below (swapped k i (i / 2)) n (i / 2) := by
  refine ⟨⟨fun j hj hjn hji hjp => ?_, fun h2 j hjn hjp => ?_⟩, fun j hjn hjp => ?_⟩
  · by_cases hjc : j / 2 = i
    · -- a child of `i`, where the parent is now
      rw [hjc, swapped_left, swapped_of_ne (by omega) hji]
      exact h.past hi j hjn hjc
    · rw [swapped_of_ne hjc hjp, swapped_of_ne (by omega) hji]
      exact h.away j hj hjn (by omega) hjc
  · have hgrand : k (i / 2 / 2) ≤ k (i / 2) := h.away (i / 2) h2 (by omega) (by omega) (by omega)
    rw [swapped_of_ne (by omega) (by omega)]
    by_cases hji : j = i
    · rw [hji, swapped_left]
      exact hgrand
    · rw [swapped_of_ne hji (by omega)]
      have hsib := h.away j (by omega) hjn hji (by omega)
      rw [hjp] at hsib
      exact hgrand.trans hsib
  · rw [swapped_right]
    by_cases hji : j = i
    · rw [hji, swapped_left]
      exact hlt.le
    · rw [swapped_of_ne hji (by omega)]
      have hsib := h.away j (by omega) hjn hji (by omega)
      rw [hjp] at hsib
      exact hlt.le.trans hsib

/-! ### Sifting -/

/-- Exchange the item at `i` with its parent while it is before it. -/
def siftUp (key : α → κ) (a : ℕ → α) (i : ℕ) : ℕ → α :=
  if 2 ≤ i ∧ key (a i) < key (a (i / 2)) then siftUp key (swapped a i (i / 2)) (i / 2) else a
termination_by i
decreasing_by omega

theorem ordered_siftUp (key : α → κ) (a : ℕ → α) (i : ℕ) (hn : i ≤ n)
    (h : Nearly (fun j => key (a j)) n i) (hb : Below (fun j => key (a j)) n i) :
    Ordered (fun j => key (siftUp key a i j)) n := by
  induction a, i using siftUp.induct key with
  | case1 a i hc ih =>
    rw [siftUp, if_pos hc]
    obtain ⟨h', hb'⟩ := h.up hc.1 hn hc.2
    exact ih (by omega) h' hb'
  | case2 a i hc =>
    rw [siftUp, if_neg hc]
    exact h.ordered hb fun h2 => not_lt.mp fun hlt => hc ⟨h2, hlt⟩

lemma holds_siftUp (key : α → κ) (a : ℕ → α) (i : ℕ) (hn : i ≤ n) {x : α} :
    Holds (siftUp key a i) n x ↔ Holds a n x := by
  induction a, i using siftUp.induct key with
  | case1 a i hc ih =>
    rw [siftUp, if_pos hc, ih (by omega)]
    exact holds_swapped (by omega) (by omega)
  | case2 a i hc => rw [siftUp, if_neg hc]

/-- `e` where it is before the item at `c`, if there is one, and `c` otherwise. -/
def pick (k : ℕ → κ) (n e c : ℕ) : ℕ := if c ≤ n then (if k e < k c then e else c) else e

/-- The least of `i` and its children. -/
def est (k : ℕ → κ) (n i : ℕ) : ℕ := pick k n (pick k n i (2 * i)) (2 * i + 1)

lemma pick_eq_or (k : ℕ → κ) (n e c : ℕ) : pick k n e c = e ∨ pick k n e c = c ∧ c ≤ n := by
  rw [pick]
  split_ifs with h
  · exact .inl rfl
  · exact .inr ⟨rfl, h⟩
  · exact .inl rfl

lemma key_pick_le (k : ℕ → κ) (n e c : ℕ) : k (pick k n e c) ≤ k e := by
  rw [pick]
  split_ifs with h hlt
  · exact le_rfl
  · exact not_lt.mp hlt
  · exact le_rfl

lemma key_pick_le_right (k : ℕ → κ) (e : ℕ) {c : ℕ} (h : c ≤ n) : k (pick k n e c) ≤ k c := by
  rw [pick, if_pos h]
  split_ifs with hlt
  · exact hlt.le
  · exact le_rfl

lemma est_cases (k : ℕ → κ) (n i : ℕ) :
    est k n i = i ∨ (est k n i = 2 * i ∨ est k n i = 2 * i + 1) ∧ est k n i ≤ n := by
  rw [est]
  obtain h | ⟨h, hn⟩ := pick_eq_or k n (pick k n i (2 * i)) (2 * i + 1)
  · rw [h]
    obtain h' | ⟨h', hn⟩ := pick_eq_or k n i (2 * i)
    · exact .inl h'
    · exact .inr ⟨.inl h', h'.trans_le hn⟩
  · exact .inr ⟨.inr h, h.trans_le hn⟩

lemma key_est_le_child (k : ℕ → κ) (hj : j ≤ n) (hp : j / 2 = i) : k (est k n i) ≤ k j := by
  obtain rfl | rfl : j = 2 * i ∨ j = 2 * i + 1 := by omega
  · exact (key_pick_le k n _ _).trans (key_pick_le_right k i hj)
  · exact key_pick_le_right k _ hj

/-- The item at `i` is exchanged with the lesser child. -/
lemma Nearly.down (h : Nearly k n i) (hi : 1 ≤ i) (hne : est k n i ≠ i) :
    Nearly (swapped k i (est k n i)) n (est k n i) := by
  obtain heq | ⟨hchild, hen⟩ := est_cases k n i
  · exact absurd heq hne
  have hpar : est k n i / 2 = i := by omega
  refine ⟨fun j hj hjn hje hjp => ?_, fun h2 j hjn hjp => ?_⟩
  · by_cases hji : j = i
    · subst hji
      rw [swapped_left, swapped_of_ne (by omega) (by omega)]
      exact h.past hj _ hen hpar
    · rw [swapped_of_ne hji hje]
      by_cases hjc : j / 2 = i
      · rw [hjc, swapped_left]
        exact key_est_le_child k hjn hjc
      · rw [swapped_of_ne hjc hjp]
        exact h.away j hj hjn hji hjc
  · rw [hpar, swapped_left, swapped_of_ne (by omega) (by omega)]
    have hold := h.away j (by omega) hjn (by omega) (by omega)
    rwa [hjp] at hold

/-- Exchange the item at `i` with the lesser child until it is before both; where it ends. -/
def siftDown (key : α → κ) (n : ℕ) (a : ℕ → α) (i : ℕ) : (ℕ → α) × ℕ :=
  if est (fun j => key (a j)) n i = i ∨ i = 0 then (a, i)
  else siftDown key n (swapped a i (est (fun j => key (a j)) n i)) (est (fun j => key (a j)) n i)
termination_by n - i
decreasing_by
  have := est_cases (fun j => key (a j)) n i
  omega

theorem nearly_siftDown (key : α → κ) (a : ℕ → α) (i : ℕ) (hi : 1 ≤ i)
    (h : Nearly (fun j => key (a j)) n i) :
    Nearly (fun j => key ((siftDown key n a i).1 j)) n (siftDown key n a i).2 ∧
      Below (fun j => key ((siftDown key n a i).1 j)) n (siftDown key n a i).2 := by
  induction a, i using siftDown.induct key n with
  | case1 a i hc =>
    rw [siftDown, if_pos hc]
    have heq := hc.resolve_right (by omega)
    refine ⟨h, fun j hjn hjp => ?_⟩
    have hle := key_est_le_child (fun j => key (a j)) hjn hjp
    rwa [heq] at hle
  | case2 a i hc ih =>
    rw [siftDown, if_neg hc]
    have hcases := est_cases (fun j => key (a j)) n i
    exact ih (by omega) (h.down hi fun heq => hc (.inl heq))

lemma siftDown_le (key : α → κ) (a : ℕ → α) (i : ℕ) (hi : 1 ≤ i) (hn : i ≤ n) :
    1 ≤ (siftDown key n a i).2 ∧ (siftDown key n a i).2 ≤ n := by
  induction a, i using siftDown.induct key n with
  | case1 a i hc =>
    rw [siftDown, if_pos hc]
    exact ⟨hi, hn⟩
  | case2 a i hc ih =>
    rw [siftDown, if_neg hc]
    have hcases := est_cases (fun j => key (a j)) n i
    exact ih (by omega) (by omega)

lemma holds_siftDown (key : α → κ) (a : ℕ → α) (i : ℕ) (hi : 1 ≤ i) (hn : i ≤ n) {x : α} :
    Holds (siftDown key n a i).1 n x ↔ Holds a n x := by
  induction a, i using siftDown.induct key n with
  | case1 a i hc => rw [siftDown, if_pos hc]
  | case2 a i hc ih =>
    have hcases := est_cases (fun j => key (a j)) n i
    rw [siftDown, if_neg hc, ih (by omega) (by omega)]
    exact holds_swapped ⟨hi, hn⟩ (by omega)

/-! ### Putting an item in, and taking one out -/

/-- An item behind the last one. -/
lemma Ordered.nearly_append (h : Ordered k n) (x : κ) :
    Nearly (Function.update k (n + 1) x) (n + 1) (n + 1) ∧
      Below (Function.update k (n + 1) x) (n + 1) (n + 1) := by
  refine ⟨⟨fun j hj hjn hji _ => ?_, fun _ j hjn hjp => by omega⟩, fun j hjn hjp => by omega⟩
  rw [Function.update_of_ne (by omega), Function.update_of_ne hji]
  exact h j hj (by omega)

/-- The last item in place of the one at `i`. -/
lemma Ordered.nearly_replace (h : Ordered k (n + 1)) (x : κ) :
    Nearly (Function.update k i x) n i := by
  refine ⟨fun j hj hjn hji hjp => ?_, fun h2 j hjn hjp => ?_⟩
  · rw [Function.update_of_ne hjp, Function.update_of_ne hji]
    exact h j hj (by omega)
  · rw [Function.update_of_ne (by omega), Function.update_of_ne (by omega)]
    have hchild := h j (by omega) (by omega)
    rw [hjp] at hchild
    exact (h i h2 (by omega)).trans hchild

end HeapOrder
