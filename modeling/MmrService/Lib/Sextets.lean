import Mathlib.Data.List.Basic
import Mathlib.Tactic.Common

/-!
Bytes as six-bit digits.

Three bytes are four digits. One or two bytes at the end are two or three digits, the last of
them filled up with zero bits. A text has a character for each digit, and padding up to a
multiple of four.
-/

namespace Sextets

variable {α : Type*}

/-- The digits of some bytes. -/
def digits : List UInt8 → List ℕ
  | [] => []
  | [a] => [a.toNat / 4, a.toNat % 4 * 16]
  | [a, b] => [a.toNat / 4, a.toNat % 4 * 16 + b.toNat / 16, b.toNat % 16 * 4]
  | a :: b :: c :: x => a.toNat / 4 :: (a.toNat % 4 * 16 + b.toNat / 16) ::
      (b.toNat % 16 * 4 + c.toNat / 64) :: c.toNat % 64 :: digits x

/-- The bytes of some digits; bits that do not fill a byte are dropped. -/
def bytes : List ℕ → List UInt8
  | [] => []
  | [_] => []
  | [s, t] => [UInt8.ofNat (s * 4 + t / 16)]
  | [s, t, u] => [UInt8.ofNat (s * 4 + t / 16), UInt8.ofNat (t % 16 * 16 + u / 4)]
  | s :: t :: u :: v :: ds => UInt8.ofNat (s * 4 + t / 16) :: UInt8.ofNat (t % 16 * 16 + u / 4) ::
      UInt8.ofNat (u % 4 * 64 + v) :: bytes ds

/-- How many characters of padding stand behind the digits of `n` bytes. -/
def padding (n : ℕ) : ℕ := (3 - n % 3) % 3

/-- The text of some bytes. -/
def encode (char : ℕ → α) (pad : α) (x : List UInt8) : List α :=
  (digits x).map char ++ List.replicate (padding x.length) pad

lemma digits_lt (x : List UInt8) : ∀ d ∈ digits x, d < 64 := by
  induction x using digits.induct with
  | case1 => simp [digits]
  | case2 a =>
    have ha := a.toNat_lt
    simp only [digits, List.forall_mem_cons, List.not_mem_nil, false_imp_iff, implies_true,
      and_true]
    omega
  | case3 a b =>
    have ha := a.toNat_lt
    have hb := b.toNat_lt
    simp only [digits, List.forall_mem_cons, List.not_mem_nil, false_imp_iff, implies_true,
      and_true]
    omega
  | case4 a b c x ih =>
    have ha := a.toNat_lt
    have hb := b.toNat_lt
    have hc := c.toNat_lt
    simp only [digits, List.forall_mem_cons]
    exact ⟨by omega, by omega, by omega, by omega, ih⟩

/-- The digits are read back. -/
lemma bytes_digits (x : List UInt8) : bytes (digits x) = x := by
  have hbyte : ∀ (a : UInt8) (n : ℕ), n = a.toNat → UInt8.ofNat n = a := by
    rintro a n rfl
    exact UInt8.ofNat_toNat
  induction x using digits.induct with
  | case1 => rfl
  | case2 a =>
    have ha := a.toNat_lt
    rw [digits, bytes, hbyte a _ (by omega)]
  | case3 a b =>
    have ha := a.toNat_lt
    have hb := b.toNat_lt
    rw [digits, bytes, hbyte a _ (by omega), hbyte b _ (by omega)]
  | case4 a b c x ih =>
    have ha := a.toNat_lt
    have hb := b.toNat_lt
    have hc := c.toNat_lt
    rw [digits, bytes, ih, hbyte a _ (by omega), hbyte b _ (by omega), hbyte c _ (by omega)]

/-- The padding fills the last group up. -/
lemma length_digits (x : List UInt8) :
    (digits x).length + padding x.length = (x.length + 2) / 3 * 4 := by
  unfold padding
  induction x using digits.induct with
  | case1 => rfl
  | case2 a => simp [digits]
  | case3 a b => simp [digits]
  | case4 a b c x ih =>
    simp only [digits, List.length_cons]
    omega

lemma length_encode (char : ℕ → α) (pad : α) (x : List UInt8) :
    (encode char pad x).length = (x.length + 2) / 3 * 4 := by
  rw [encode, List.length_append, List.length_map, List.length_replicate, length_digits]

end Sextets
