import Mathlib.Data.Int.Basic
import Mathlib.Data.Nat.Cast.Order.Basic
import Mathlib.Tactic.Common
import Mathlib.Tactic.Ring

/-!
Fixed-width unsigned arithmetic on natural numbers, and the conversions between signed and
unsigned values of one width.
-/

namespace Word

/-- Addition modulo `2 ^ w`. -/
def add (w a b : ℕ) : ℕ := (a + b) % 2 ^ w

/-- Subtraction modulo `2 ^ w`. -/
def sub (w a b : ℕ) : ℕ := (a + (2 ^ w - b % 2 ^ w)) % 2 ^ w

/-- The unsigned value of `w` bits that a signed value is stored as. -/
def ofInt (w : ℕ) (x : ℤ) : ℕ := (x % 2 ^ w).toNat

/-- The signed value of the low `w` bits of a number. -/
def toInt (w n : ℕ) : ℤ := Int.bmod n (2 ^ w)

lemma add_of_lt {w a b : ℕ} (h : a + b < 2 ^ w) : add w a b = a + b := Nat.mod_eq_of_lt h

lemma sub_of_le {w a b : ℕ} (hb : b ≤ a) (ha : a < 2 ^ w) : sub w a b = a - b := by
  have hb' : b % 2 ^ w = b := Nat.mod_eq_of_lt (by omega)
  rw [sub, hb', show a + (2 ^ w - b) = (a - b) + 2 ^ w by omega, Nat.add_mod_right,
    Nat.mod_eq_of_lt (by omega)]

/-- A sum modulo `2 ^ w` stays one when a term is added. -/
lemma add_mod (w a b : ℕ) : add w (a % 2 ^ w) b = (a + b) % 2 ^ w := by
  rw [add, Nat.mod_add_mod]

/-- A sum modulo `2 ^ w` stays one when a term is taken away. -/
lemma sub_mod (w a b : ℕ) : sub w ((b + a) % 2 ^ w) b = a % 2 ^ w := by
  have hlt : b % 2 ^ w < 2 ^ w := Nat.mod_lt _ (Nat.two_pow_pos w)
  have hsplit : b + a + (2 ^ w - b % 2 ^ w) = a + (2 ^ w + b / 2 ^ w * 2 ^ w) := by
    have hb := Nat.div_add_mod' b (2 ^ w)
    omega
  rw [sub, Nat.mod_add_mod, hsplit, ← Nat.add_assoc, Nat.add_mul_mod_self_right,
    Nat.add_mod_right]

lemma ofInt_lt (w : ℕ) (x : ℤ) : ofInt w x < 2 ^ w := by
  have hp : (0 : ℤ) < 2 ^ w := Int.pow_pos (by omega)
  have h := Int.emod_lt_of_pos x hp
  have h0 := Int.emod_nonneg x hp.ne'
  have hc : ((ofInt w x : ℕ) : ℤ) < ((2 ^ w : ℕ) : ℤ) := by
    rw [ofInt, Int.toNat_of_nonneg h0]; push_cast; exact h
  exact_mod_cast hc

lemma ofInt_natCast {w n : ℕ} (h : n < 2 ^ w) : ofInt w n = n := by
  have : ((n : ℤ) % 2 ^ w) = ((n % 2 ^ w : ℕ) : ℤ) := by push_cast; rfl
  rw [ofInt, this, Int.toNat_natCast, Nat.mod_eq_of_lt h]

lemma toInt_natCast {w n : ℕ} (h : 2 * n < 2 ^ w) : toInt w n = n := by
  unfold toInt
  exact Int.bmod_eq_of_le (by omega) (by omega)

lemma toInt_of_ge {w n : ℕ} (h : 2 ^ w ≤ 2 * n) (hn : n < 2 ^ w) :
    toInt w n = (n : ℤ) - 2 ^ w := by
  unfold toInt
  have hp : ((2 ^ w : ℕ) : ℤ) = 2 ^ w := by push_cast; rfl
  rw [Int.bmod_def, Int.emod_eq_of_lt (by omega) (by omega), if_neg (by omega), hp]

lemma toInt_ofInt {w : ℕ} {x : ℤ} (hlo : -2 ^ w ≤ 2 * x) (hhi : 2 * x < 2 ^ w) :
    toInt w (ofInt w x) = x := by
  have hp : (0 : ℤ) < 2 ^ w := Int.pow_pos (by omega)
  have hcast : ((ofInt w x : ℕ) : ℤ) = x % 2 ^ w := by
    rw [ofInt, Int.toNat_of_nonneg (Int.emod_nonneg x hp.ne')]
  have hpow : (((2 ^ w : ℕ)) : ℤ) = 2 ^ w := by push_cast; rfl
  unfold toInt
  rw [hcast, ← hpow, Int.emod_bmod]
  exact Int.bmod_eq_of_le (by rw [hpow]; omega) (by rw [hpow]; omega)

lemma two_mul_toInt_lt {w : ℕ} (hw : w ≠ 0) (n : ℕ) : 2 * toInt w n < 2 ^ w := by
  obtain ⟨k, rfl⟩ := Nat.exists_eq_succ_of_ne_zero hw
  have h := Int.bmod_lt (x := n) (m := 2 ^ (k + 1)) (Nat.two_pow_pos _)
  have hpow : (((2 ^ (k + 1) : ℕ)) : ℤ) = 2 * 2 ^ k := by push_cast; ring
  rw [hpow] at h
  unfold toInt
  generalize Int.bmod n (2 ^ (k + 1)) = x at h ⊢
  rw [pow_succ']
  generalize (2 : ℤ) ^ k = y at h ⊢
  omega

lemma ofInt_toInt {w n : ℕ} (h : n < 2 ^ w) : ofInt w (toInt w n) = n := by
  have hpow : (((2 ^ w : ℕ)) : ℤ) = 2 ^ w := by push_cast; rfl
  unfold ofInt toInt
  rw [← hpow, Int.bmod_emod, ← Int.natCast_emod, Int.toNat_natCast, Nat.mod_eq_of_lt h]

/-- A signed value that is not negative is the number itself. -/
lemma eq_of_toInt {w n k : ℕ} (h : n < 2 ^ w) (hk : toInt w n = k) : n = k := by
  have hpow : (((2 ^ w : ℕ)) : ℤ) = 2 ^ w := by push_cast; rfl
  have hn := ofInt_toInt h
  have hle := Int.bmod_lt (x := n) (m := 2 ^ w) (Nat.two_pow_pos w)
  unfold toInt at hk
  rw [hk] at hle
  rw [toInt, hk, ofInt_natCast (by omega)] at hn
  exact hn.symm

end Word
