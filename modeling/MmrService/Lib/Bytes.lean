import Mathlib.Data.List.Basic
import Mathlib.Order.Lattice
import Mathlib.Tactic.Common
import Mathlib.Tactic.Ring

/-!
Buffers of a fixed length, and the bytes of a number.
-/

namespace Bytes

variable {α : Type*}

/-! ### Cells at an offset -/

/-- The `n` cells at `i`. -/
def slice (buf : List α) (i n : ℕ) : List α := (buf.drop i).take n

/-- The buffer with `bs` stored at `i`. -/
def patch (buf : List α) (i : ℕ) (bs : List α) : List α :=
  buf.take i ++ bs ++ buf.drop (i + bs.length)

lemma length_slice {buf : List α} {i n : ℕ} (h : i + n ≤ buf.length) :
    (slice buf i n).length = n := by
  simp only [slice, List.length_take, List.length_drop]
  omega

lemma length_patch {buf bs : List α} {i : ℕ} (h : i + bs.length ≤ buf.length) :
    (patch buf i bs).length = buf.length := by
  simp only [patch, List.length_append, List.length_take, List.length_drop]
  omega

lemma slice_add (buf : List α) (i a b : ℕ) :
    slice buf i (a + b) = slice buf i a ++ slice buf (i + a) b := by
  unfold slice
  rw [List.take_add, List.drop_drop]

lemma take_slice (buf : List α) (i : ℕ) {n k : ℕ} (h : k ≤ n) :
    (slice buf i n).take k = slice buf i k := by
  unfold slice
  rw [List.take_take, Nat.min_eq_left h]

lemma drop_slice (buf : List α) (i n k : ℕ) :
    (slice buf i n).drop k = slice buf (i + k) (n - k) := by
  unfold slice
  rw [List.drop_take, List.drop_drop]

lemma slice_append (pre bs post : List α) :
    slice (pre ++ bs ++ post) pre.length bs.length = bs := by
  unfold slice
  rw [List.append_assoc, List.drop_left, List.take_left]

/-- The cells at an offset, what is before them and what is behind. -/
lemma exists_split {buf : List α} {i n : ℕ} (h : i + n ≤ buf.length) :
    ∃ pre bs post, buf = pre ++ bs ++ post ∧ pre.length = i ∧ bs.length = n := by
  refine ⟨buf.take i, slice buf i n, buf.drop (i + n), ?_, ?_, length_slice h⟩
  · unfold slice
    rw [List.append_assoc, ← List.drop_drop, List.take_append_drop, List.take_append_drop]
  · rw [List.length_take]
    omega

lemma slice_eq (pre post : List α) {buf bs : List α} {i n : ℕ} (h : buf = pre ++ bs ++ post)
    (hi : pre.length = i) (hn : bs.length = n) : slice buf i n = bs := by
  rw [h, ← hi, ← hn, slice_append]

lemma slice_append_left {as : List α} (bs : List α) {i n : ℕ} (h : i + n ≤ as.length) :
    slice (as ++ bs) i n = slice as i n := by
  unfold slice
  rw [List.drop_append_of_le_length (by omega), List.take_append_of_le_length
    (by rw [List.length_drop]; omega)]

lemma slice_append_right (as bs : List α) (i n : ℕ) :
    slice (as ++ bs) (as.length + i) n = slice bs i n := by
  unfold slice
  rw [List.drop_length_add_append]

lemma patch_append_right (as bs cs : List α) (i : ℕ) :
    patch (as ++ bs) (as.length + i) cs = as ++ patch bs i cs := by
  unfold patch
  rw [List.take_length_add_append, Nat.add_assoc, List.drop_length_add_append, List.append_assoc,
    List.append_assoc, List.append_assoc]

lemma patch_append (pre post : List α) {bs cs : List α} (h : cs.length = bs.length) :
    patch (pre ++ bs ++ post) pre.length cs = pre ++ cs ++ post := by
  unfold patch
  rw [List.append_assoc pre bs post, List.take_left, h, ← List.length_append, ← List.append_assoc,
    List.drop_left]

lemma slice_patch_self {buf bs : List α} {i n : ℕ} (h : i + n ≤ buf.length) (hn : bs.length = n) :
    slice (patch buf i bs) i n = bs := by
  have hlen : (buf.take i).length = i := by rw [List.length_take]; omega
  have hs := slice_append (buf.take i) bs (buf.drop (i + bs.length))
  rw [hlen, hn] at hs
  unfold patch
  rw [hn]
  exact hs

/-- A store leaves the cells in front of it. -/
lemma take_patch {buf bs : List α} {i k : ℕ} (hk : k ≤ i) (hi : i ≤ buf.length) :
    (patch buf i bs).take k = buf.take k := by
  unfold patch
  rw [List.append_assoc, List.take_append_of_le_length (by rw [List.length_take]; omega),
    List.take_take, Nat.min_eq_left hk]

/-- The cells up to within a store. -/
lemma take_patch_append {buf : List α} {i : ℕ} (bs cs : List α) (hi : i ≤ buf.length) :
    (patch buf i (bs ++ cs)).take (i + bs.length) = buf.take i ++ bs := by
  have hlen : (buf.take i ++ bs).length = i + bs.length := by
    rw [List.length_append, List.length_take]
    omega
  unfold patch
  rw [← List.append_assoc, List.append_assoc, ← hlen, List.take_left]

/-- A store leaves the cells after it. -/
lemma slice_patch_after {buf bs : List α} {i j n : ℕ} (hb : i + bs.length ≤ buf.length)
    (hj : i + bs.length ≤ j) : slice (patch buf i bs) j n = slice buf j n := by
  have hlen : (buf.take i ++ bs).length = i + bs.length := by
    rw [List.length_append, List.length_take]; omega
  unfold slice patch
  rw [List.drop_append, List.drop_of_length_le (by omega), List.nil_append, hlen,
    List.drop_drop, show i + bs.length + (j - (i + bs.length)) = j by omega]

/-- A store leaves the cells before it. -/
lemma slice_patch_before {buf bs : List α} {i j n : ℕ} (hb : i + bs.length ≤ buf.length)
    (hj : j + n ≤ i) : slice (patch buf i bs) j n = slice buf j n := by
  have hlen : (buf.take i).length = i := by rw [List.length_take]; omega
  unfold slice patch
  rw [List.append_assoc, List.drop_append_of_le_length (by omega), List.take_append_of_le_length
    (by rw [List.length_drop]; omega), List.drop_take, List.take_take]
  congr 1
  omega

/-- The cells of a buffer with a store. -/
lemma getElem?_patch {buf bs : List α} {i j : ℕ} (h : i + bs.length ≤ buf.length) :
    (patch buf i bs)[j]? =
      if i ≤ j ∧ j < i + bs.length then bs[j - i]? else buf[j]? := by
  have hlen : (buf.take i).length = i := by rw [List.length_take]; omega
  unfold patch
  rw [List.append_assoc]
  rcases Nat.lt_or_ge j i with hlt | hge
  · rw [if_neg (by omega), List.getElem?_append_left (by omega), List.getElem?_take_of_lt hlt]
  · rw [List.getElem?_append_right (by omega), hlen]
    rcases Nat.lt_or_ge (j - i) bs.length with hin | hout
    · rw [if_pos (by omega), List.getElem?_append_left hin]
    · rw [if_neg (by omega), List.getElem?_append_right hout, List.getElem?_drop]
      congr 1
      omega

/-- What stands before the first `z`: it has none itself, and one stands behind it. -/
lemma takeWhile_ne_iff [DecidableEq α] {z : α} {xs ys : List α} :
    z ∈ xs ∧ xs.takeWhile (· ≠ z) = ys ↔ (∃ rest, xs = ys ++ z :: rest) ∧ z ∉ ys := by
  induction xs generalizing ys with
  | nil => simp
  | cons x xs ih =>
    rcases eq_or_ne x z with rfl | hx
    · rw [List.takeWhile_cons_of_neg (by simp)]
      constructor
      · rintro ⟨-, rfl⟩
        exact ⟨⟨xs, rfl⟩, by simp⟩
      · rintro ⟨⟨rest, h⟩, hy⟩
        refine ⟨by simp, ?_⟩
        cases ys with
        | nil => rfl
        | cons y ys => exact absurd (List.cons.inj h).1 fun h => hy (by simp [h])
    · rw [List.takeWhile_cons_of_pos (by simpa using hx), List.mem_cons, or_iff_right hx.symm]
      constructor
      · rintro ⟨hz, rfl⟩
        obtain ⟨⟨rest, h⟩, hy⟩ := ih.mp ⟨hz, rfl⟩
        refine ⟨⟨rest, ?_⟩, ?_⟩
        · rw [List.cons_append, ← h]
        · simpa [hx.symm] using hy
      · rintro ⟨⟨rest, h⟩, hy⟩
        cases ys with
        | nil => exact absurd (List.cons.inj h).1 hx
        | cons y ys =>
          obtain ⟨rfl, hxs⟩ := List.cons.inj h
          obtain ⟨hz, ht⟩ := ih.mpr ⟨⟨rest, hxs⟩, fun hmem => hy (List.mem_cons_of_mem _ hmem)⟩
          exact ⟨hz, by rw [ht]⟩

/-- A search finds the first occurrence. -/
lemma idxOf?_append_cons [DecidableEq α] {x : α} {l : List α} (h : x ∉ l) (rest : List α) :
    (l ++ x :: rest).idxOf? x = some l.length := by
  rw [List.idxOf?_eq_some_iff]
  refine ⟨by simp, by simp, fun j hj => ?_⟩
  rw [List.getElem_append_left hj]
  exact fun he => h (he ▸ List.getElem_mem hj)

/-! ### The order of bytes -/

instance instLinearOrderByte : LinearOrder UInt8 where
  le_refl := UInt8.le_refl
  le_trans _ _ _ := UInt8.le_trans
  le_antisymm _ _ := UInt8.le_antisymm
  le_total := UInt8.le_total
  lt_iff_le_not_ge a b := by
    rw [UInt8.le_iff_toNat_le, UInt8.le_iff_toNat_le, UInt8.lt_iff_toNat_lt]
    omega
  toDecidableLE _ _ := inferInstance
  toDecidableEq _ _ := inferInstance
  toDecidableLT _ _ := inferInstance

/-! ### The bytes of a number -/

/-- The low `k` bytes of a number, the lowest first. -/
def toLE : ℕ → ℕ → List UInt8
  | 0, _ => []
  | k + 1, n => UInt8.ofNat n :: toLE k (n / 256)

/-- The number of some bytes, the lowest first. -/
def ofLE : List UInt8 → ℕ
  | [] => 0
  | b :: bs => b.toNat + 256 * ofLE bs

@[simp] lemma length_toLE (k n : ℕ) : (toLE k n).length = k := by
  induction k generalizing n with
  | zero => rfl
  | succ k ih => rw [toLE, List.length_cons, ih]

lemma ofLE_toLE (k n : ℕ) : ofLE (toLE k n) = n % 256 ^ k := by
  induction k generalizing n with
  | zero => rw [pow_zero, Nat.mod_one]; rfl
  | succ k ih =>
    rw [toLE, ofLE, ih, pow_succ', Nat.mod_mul, UInt8.toNat_ofNat']

lemma toLE_ofLE (bs : List UInt8) : toLE bs.length (ofLE bs) = bs := by
  induction bs with
  | nil => rfl
  | cons b bs ih =>
    have hb : b.toNat < 256 := b.toNat_lt
    have hlow : UInt8.ofNat (b.toNat + 256 * ofLE bs) = b := by
      rw [← UInt8.toNat_inj, UInt8.toNat_ofNat']
      omega
    rw [List.length_cons, toLE, ofLE, hlow, show (b.toNat + 256 * ofLE bs) / 256 = ofLE bs by omega,
      ih]

lemma ofLE_lt (bs : List UInt8) : ofLE bs < 256 ^ bs.length := by
  induction bs with
  | nil => exact Nat.one_pos
  | cons b bs ih =>
    have hb : b.toNat < 256 := b.toNat_lt
    rw [ofLE, List.length_cons, pow_succ]
    omega

end Bytes
