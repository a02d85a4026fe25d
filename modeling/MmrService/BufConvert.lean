import MmrService.Lib.Bytes
import Mathlib.Data.List.Induction

/-!
What a build of the program fixes about integers, and the buffer routines that depend on it:
`flipData` and `adler32`.
-/

namespace MmrService.BufConvert

/-- The byte order, the width of `unsigned long` and the sign of `char` of a build. -/
structure Machine where
  bigEndian : Bool
  ulongBits : ℕ
  charSigned : Bool
  ulong_width : ulongBits = 32 ∨ ulongBits = 64

/-- The two little-endian builds. -/
def linux64 : Machine := ⟨false, 64, true, .inr rfl⟩

def windows : Machine := ⟨false, 32, true, .inl rfl⟩

namespace Machine

variable (m : Machine)

/-- The bytes of an integer of `k` bytes in memory. -/
def store (k n : ℕ) : List UInt8 :=
  if m.bigEndian then (Bytes.toLE k n).reverse else Bytes.toLE k n

/-- The integer that some bytes are in memory. -/
def load (bs : List UInt8) : ℕ := Bytes.ofLE (if m.bigEndian then bs.reverse else bs)

@[simp] lemma length_store (k n : ℕ) : (m.store k n).length = k := by
  unfold store; split_ifs <;> simp

lemma load_store (k n : ℕ) : m.load (m.store k n) = n % 256 ^ k := by
  unfold load store
  split_ifs
  · rw [List.reverse_reverse, Bytes.ofLE_toLE]
  · rw [Bytes.ofLE_toLE]

lemma store_load (bs : List UInt8) : m.store bs.length (m.load bs) = bs := by
  unfold load store
  split_ifs
  · have h := Bytes.toLE_ofLE bs.reverse
    rw [List.length_reverse] at h
    rw [h, List.reverse_reverse]
  · exact Bytes.toLE_ofLE bs

lemma load_lt (bs : List UInt8) : m.load bs < 256 ^ bs.length := by
  unfold load
  split_ifs
  · have h := Bytes.ofLE_lt bs.reverse
    rw [List.length_reverse] at h
    exact h
  · exact Bytes.ofLE_lt bs

end Machine

/-! ### `flipData` -/

/-- The loop: the bytes at `start` and `stop` change places until the two meet. -/
def flipLoop : ℕ → List UInt8 → ℕ → ℕ → List UInt8
  | 0, buf, _, _ => buf
  | fuel + 1, buf, start, stop =>
    if start < stop then
      let temp := buf.getD start 0
      flipLoop fuel ((buf.set start (buf.getD stop 0)).set stop temp) (start + 1) (stop - 1)
    else buf

def flipData (buf : List UInt8) : List UInt8 :=
  if buf.length < 2 then buf else flipLoop buf.length buf 0 (buf.length - 1)

lemma flipLoop_swap (pre mid post : List UInt8) (a b : UInt8) :
    ((pre ++ (a :: (mid ++ [b])) ++ post).set pre.length b).set (pre.length + mid.length + 1) a =
      (pre ++ [b]) ++ mid ++ ([a] ++ post) := by
  rw [List.append_assoc, List.set_append_right _ _ le_rfl, Nat.sub_self, List.cons_append,
    List.set_cons_zero, List.set_append_right _ _ (by omega),
    show pre.length + mid.length + 1 - pre.length = mid.length + 1 by omega,
    List.set_cons_succ, List.append_assoc, List.set_append_right _ _ le_rfl, Nat.sub_self]
  simp

/-- The loop reverses what lies between its two ends. -/
lemma flipLoop_eq (l : List UInt8) : ∀ (fuel : ℕ) (pre post : List UInt8), l.length ≤ fuel →
    flipLoop fuel (pre ++ l ++ post) pre.length (pre.length + l.length - 1) =
      pre ++ l.reverse ++ post := by
  induction l using List.bidirectionalRec with
  | nil =>
    intro fuel pre post _
    cases fuel with
    | zero => rfl
    | succ fuel => rw [flipLoop, if_neg (by simp)]; rfl
  | singleton a =>
    intro fuel pre post _
    cases fuel with
    | zero => rfl
    | succ fuel => rw [flipLoop, if_neg (by simp)]; rfl
  | cons_append a mid b ih =>
    intro fuel pre post hf
    rw [List.length_cons, List.length_append, List.length_singleton] at hf ⊢
    cases fuel with
    | zero => omega
    | succ fuel =>
      have hstop : pre.length + (mid.length + 1 + 1) - 1 = pre.length + mid.length + 1 := by omega
      have ha : (pre ++ (a :: (mid ++ [b])) ++ post).getD pre.length 0 = a := by simp
      have hb : (pre ++ (a :: (mid ++ [b])) ++ post).getD (pre.length + mid.length + 1) 0 = b := by
        rw [show pre ++ (a :: (mid ++ [b])) ++ post = (pre ++ a :: mid) ++ (b :: post) by simp,
          List.getD_eq_getElem?_getD, List.getElem?_append_right (by simp; omega)]
        simp [show pre.length + mid.length + 1 - (pre.length + (mid.length + 1)) = 0 by omega]
      rw [hstop, flipLoop, if_pos (by omega)]
      simp only [ha, hb, flipLoop_swap]
      have := ih fuel (pre ++ [b]) ([a] ++ post) (by omega)
      rw [List.length_append, List.length_singleton] at this
      rw [show pre.length + mid.length + 1 - 1 = pre.length + 1 + mid.length - 1 by omega, this]
      simp

lemma flipData_eq (buf : List UInt8) : flipData buf = buf.reverse := by
  unfold flipData
  split_ifs with h
  · match buf, h with
    | [], _ => rfl
    | [_], _ => rfl
  · have := flipLoop_eq buf buf.length [] [] le_rfl
    simpa using this

/-! ### `adler32` -/

def BASE : ℕ := 65521
def NMAX : ℕ := 5552

/-- The value of a `char`. -/
def charValue (signed : Bool) (c : UInt8) : ℤ :=
  if signed ∧ 128 ≤ c.toNat then (c.toNat : ℤ) - 256 else c.toNat

/-- `int32_t adler` and `unsigned long sum2` of `w` bits. -/
structure Sums (w : ℕ) where
  adler : BitVec 32
  sum2 : BitVec w

namespace Sums

variable {w : ℕ} (signed : Bool)

/-- One byte: `adler` is signed, and is converted when it is added to `sum2`. -/
def DO1 (s : Sums w) (c : UInt8) : Sums w where
  adler := s.adler + BitVec.ofInt 32 (charValue signed c)
  sum2 := s.sum2 + (s.adler + BitVec.ofInt 32 (charValue signed c)).signExtend w

def DO16 (s : Sums w) (buf : List UInt8) : Sums w := (buf.take 16).foldl (DO1 signed) s

/-- `n` times `DO16`, moving on in the buffer. -/
def loop16 : ℕ → Sums w → List UInt8 → Sums w × List UInt8
  | 0, s, buf => (s, buf)
  | n + 1, s, buf => loop16 n (DO16 signed s buf) (buf.drop 16)

/-- `MOD(adler)`, where `BASE` is unsigned, and `MOD(sum2)`. -/
def MOD (s : Sums w) : Sums w where
  adler := s.adler % BitVec.ofNat 32 BASE
  sum2 := s.sum2 % BitVec.ofNat w BASE

/-- `adler | (sum2 << 16)`, returned as an `int32_t`. -/
def recombined (s : Sums w) : ℤ :=
  ((s.adler.signExtend w ||| s.sum2 <<< 16).setWidth 32).toInt

/-- The blocks of `NMAX` bytes; the fuel is the length of the buffer. -/
def blocks : ℕ → Sums w → List UInt8 → Sums w × List UInt8
  | 0, s, buf => (s, buf)
  | fuel + 1, s, buf =>
    if NMAX ≤ buf.length then
      let (s, buf) := loop16 signed (NMAX / 16) s buf
      blocks fuel s.MOD buf
    else (s, buf)

end Sums

/-- `if (a >= BASE) a -= BASE`, a comparison of unsigned numbers. -/
def subBase {w : ℕ} (a : BitVec w) : BitVec w :=
  if BASE ≤ a.toNat then a - BitVec.ofNat w BASE else a

/-- `buf` is the `len` bytes the routine reads, fewer than `2 ^ 32`, at a pointer that is not
null. -/
def adler32 (m : Machine) (buf : List UInt8) : ℤ :=
  let s : Sums m.ulongBits := ⟨1, 0⟩
  match buf with
  | [c] =>
    let adler := subBase (s.adler + BitVec.ofInt 32 (charValue m.charSigned c))
    Sums.recombined ⟨adler, subBase (s.sum2 + adler.signExtend m.ulongBits)⟩
  | _ =>
    if buf.length < 16 then
      let s := buf.foldl (Sums.DO1 m.charSigned) s
      Sums.recombined ⟨subBase s.adler, s.sum2 % BitVec.ofNat m.ulongBits BASE⟩
    else
      let (s, rest) := Sums.blocks m.charSigned buf.length s buf
      if rest.length = 0 then s.recombined
      else
        let (s, tail) := Sums.loop16 m.charSigned (rest.length / 16) s rest
        (tail.foldl (Sums.DO1 m.charSigned) s).MOD.recombined

/-- The result is an `int32_t`. -/
lemma adler32_range (m : Machine) (buf : List UInt8) :
    -2 ^ 32 ≤ 2 * adler32 m buf ∧ 2 * adler32 m buf < 2 ^ 32 := by
  have hrec : ∀ s : Sums m.ulongBits, -2 ^ 32 ≤ 2 * s.recombined ∧ 2 * s.recombined < 2 ^ 32 := by
    intro s
    unfold Sums.recombined
    generalize (s.adler.signExtend m.ulongBits ||| s.sum2 <<< 16).setWidth 32 = x
    have h1 := BitVec.le_toInt x
    have h2 := BitVec.toInt_lt (x := x)
    omega
  unfold adler32
  split
  · exact hrec _
  · split_ifs
    · exact hrec _
    · simp only
      split_ifs
      · exact hrec _
      · exact hrec _

end MmrService.BufConvert
