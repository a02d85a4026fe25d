import MmrService.BufConvert
import Mathlib.Tactic.Linarith

/-!
`adler32` over the integers.

Between two reductions both sums are sums of integers: `adler` stays small, and `sum2` stays
within `2 ^ 32` of zero. A reduction takes a negative `sum2` modulo `2 ^ w` first, which is
where the width of `unsigned long` shows.
-/

namespace MmrService.BufConvert

lemma charValue_range (signed : Bool) (c : UInt8) :
    -128 ≤ charValue signed c ∧ charValue signed c ≤ 255 := by
  have hc : c.toNat < 256 := c.toNat_lt
  unfold charValue
  split_ifs <;> omega

/-- One byte, over the integers. -/
def addByte (signed : Bool) (p : ℤ × ℤ) (c : UInt8) : ℤ × ℤ :=
  (p.1 + charValue signed c, p.2 + (p.1 + charValue signed c))

/-- The two sums over some bytes, from `p`. -/
def intSums (signed : Bool) (p : ℤ × ℤ) (bs : List UInt8) : ℤ × ℤ := bs.foldl (addByte signed) p

/-! ### Bounds -/

lemma intSums_fst_range (signed : Bool) (bs : List UInt8) (p : ℤ × ℤ) :
    p.1 - 128 * bs.length ≤ (intSums signed p bs).1 ∧
      (intSums signed p bs).1 ≤ p.1 + 255 * bs.length := by
  induction bs generalizing p with
  | nil => simp [intSums]
  | cons c bs ih =>
    have hc := charValue_range signed c
    have h := ih (addByte signed p c)
    have h1 : (addByte signed p c).1 = p.1 + charValue signed c := rfl
    rw [h1] at h
    simp only [intSums, List.foldl_cons, List.length_cons] at h ⊢
    push_cast
    omega

/-- The triangular numbers bound the second sum. -/
lemma intSums_snd_range (signed : Bool) (bs : List UInt8) (p : ℤ × ℤ) :
    2 * (p.2 + p.1 * bs.length) - 128 * (bs.length * (bs.length + 1)) ≤
        2 * (intSums signed p bs).2 ∧
      2 * (intSums signed p bs).2 ≤
        2 * (p.2 + p.1 * bs.length) + 255 * (bs.length * (bs.length + 1)) := by
  induction bs generalizing p with
  | nil => simp [intSums]
  | cons c bs ih =>
    have hc := charValue_range signed c
    have h := ih (addByte signed p c)
    have h1 : (addByte signed p c).1 = p.1 + charValue signed c := rfl
    have h2 : (addByte signed p c).2 = p.2 + (p.1 + charValue signed c) := rfl
    rw [h1, h2] at h
    simp only [intSums, List.foldl_cons, List.length_cons] at h ⊢
    generalize (bs.foldl (addByte signed) (addByte signed p c)).2 = t at *
    generalize charValue signed c = x at *
    push_cast
    have hn : (0 : ℤ) ≤ bs.length := Int.natCast_nonneg _
    generalize (bs.length : ℤ) = n at *
    have hlo : 0 ≤ (x + 128) * (n + 1) := mul_nonneg (by omega) (by omega)
    have hhi : 0 ≤ (255 - x) * (n + 1) := mul_nonneg (by omega) (by omega)
    constructor
    · linarith [h.1]
    · linarith [h.2]

/-- The second sum is the start value and a part that does not depend on it. -/
lemma intSums_shift (signed : Bool) (bs : List UInt8) (a s : ℤ) :
    intSums signed (a, s) bs =
      ((intSums signed (a, 0) bs).1, s + (intSums signed (a, 0) bs).2) := by
  have h : ∀ (bs : List UInt8) (a s t : ℤ), intSums signed (a, s + t) bs =
      ((intSums signed (a, s) bs).1, (intSums signed (a, s) bs).2 + t) := by
    intro bs
    induction bs with
    | nil => intro a s t; rfl
    | cons c bs ih =>
      intro a s t
      have hstep : addByte signed (a, s + t) c =
          (a + charValue signed c, s + (a + charValue signed c) + t) := by
        unfold addByte
        simp only [Prod.mk.injEq, true_and]
        ring
      change intSums signed (addByte signed (a, s + t) c) bs = _
      rw [hstep, ih]
      rfl
  have := h bs a 0 s
  rw [zero_add] at this
  rw [this, add_comm s]

/-! ### The machine sums follow the integer sums -/

variable {w : ℕ}

/-- Machine sums that are the integers `p`, cut to their widths. -/
structure Tracks (s : Sums w) (p : ℤ × ℤ) : Prop where
  adler : s.adler = BitVec.ofInt 32 p.1
  sum2 : s.sum2 = BitVec.ofInt w p.2

lemma signExtend_ofInt {a : ℤ} (hlo : -2 ^ 31 ≤ a) (hhi : a < 2 ^ 31) :
    (BitVec.ofInt 32 a).signExtend w = BitVec.ofInt w a := by
  have h : (BitVec.ofInt 32 a).toInt = a := by
    rw [BitVec.toInt_ofInt]
    exact Int.bmod_eq_of_le (by omega) (by omega)
  unfold BitVec.signExtend
  rw [h]

lemma Tracks.DO1 {signed : Bool} {s : Sums w} {p : ℤ × ℤ} (h : Tracks s p) {c : UInt8}
    (hlo : -2 ^ 31 ≤ p.1 + charValue signed c) (hhi : p.1 + charValue signed c < 2 ^ 31) :
    Tracks (Sums.DO1 signed s c) (addByte signed p c) where
  adler := by
    unfold Sums.DO1 addByte
    simp only [h.adler, BitVec.ofInt_add]
  sum2 := by
    unfold Sums.DO1 addByte
    simp only [h.adler, h.sum2]
    rw [← BitVec.ofInt_add, signExtend_ofInt hlo hhi, ← BitVec.ofInt_add]

/-- Over a stretch of bytes in which `adler` cannot overflow. -/
lemma Tracks.foldl (signed : Bool) (bs : List UInt8) {s : Sums w} {p : ℤ × ℤ} (h : Tracks s p)
    (hlo : -2 ^ 31 ≤ p.1 - 128 * bs.length) (hhi : p.1 + 255 * bs.length < 2 ^ 31) :
    Tracks (bs.foldl (Sums.DO1 signed) s) (intSums signed p bs) := by
  induction bs generalizing s p with
  | nil => exact h
  | cons c bs ih =>
    have hc := charValue_range signed c
    simp only [List.length_cons] at hlo hhi
    push_cast at hlo hhi
    have h1 : (addByte signed p c).1 = p.1 + charValue signed c := rfl
    exact ih (h.DO1 (by omega) (by omega)) (by rw [h1]; omega) (by rw [h1]; omega)

/-- `MOD` of both sums: each is taken modulo its width first. -/
def reduceSums (w : ℕ) (p : ℤ × ℤ) : ℤ × ℤ :=
  (p.1 % 2 ^ 32 % BASE, p.2 % 2 ^ w % BASE)

lemma ofInt_mod {w : ℕ} (hw : 17 ≤ w) (x : ℤ) :
    BitVec.ofInt w x % BitVec.ofNat w BASE = BitVec.ofInt w (x % 2 ^ w % BASE) := by
  have hpow : 2 ^ 17 ≤ 2 ^ w := Nat.pow_le_pow_right (by omega) hw
  have hbase : BASE = 65521 := rfl
  have hp : (0 : ℤ) < 2 ^ w := Int.pow_pos (by omega)
  have hnat : ((2 ^ w : ℕ) : ℤ) = 2 ^ w := by push_cast; rfl
  have h1 : 0 ≤ x % 2 ^ w := Int.emod_nonneg x hp.ne'
  have h2 : x % 2 ^ w < 2 ^ w := Int.emod_lt_of_pos x hp
  have h3 : 0 ≤ x % 2 ^ w % BASE := Int.emod_nonneg _ (by decide)
  have h4 : x % 2 ^ w % BASE < BASE := Int.emod_lt_of_pos _ (by decide)
  refine BitVec.eq_of_toNat_eq ?_
  rw [BitVec.toNat_umod, BitVec.toNat_ofInt, BitVec.toNat_ofInt, BitVec.toNat_ofNat,
    Nat.mod_eq_of_lt (show BASE < 2 ^ w by omega), hnat,
    Int.emod_eq_of_lt (a := x % 2 ^ w % BASE) h3 (by omega)]
  have h5 := Int.toNat_of_nonneg h1
  have h6 := Int.toNat_of_nonneg h3
  refine Int.ofNat_inj.mp ?_
  rw [h6, Int.natCast_emod, h5]

lemma Tracks.MOD {s : Sums w} {p : ℤ × ℤ} (hw : 17 ≤ w) (h : Tracks s p) :
    Tracks s.MOD (reduceSums w p) where
  adler := by
    unfold Sums.MOD reduceSums
    simp only [h.adler]
    exact ofInt_mod (by omega) p.1
  sum2 := by
    unfold Sums.MOD reduceSums
    simp only [h.sum2]
    exact ofInt_mod hw p.2

/-! ### Blocks -/

/-- The blocks between two reductions: `NMAX` bytes each, and what is left. -/
def cut : ℕ → List UInt8 → List (List UInt8)
  | 0, _ => []
  | fuel + 1, buf =>
    if buf = [] then [] else buf.take NMAX :: cut fuel (buf.drop NMAX)

/-- A block and the reduction behind it. -/
def blockStep (signed : Bool) (s : Sums w) (block : List UInt8) : Sums w :=
  (block.foldl (Sums.DO1 signed) s).MOD

lemma loop16_eq (signed : Bool) (n : ℕ) (s : Sums w) (buf : List UInt8) :
    Sums.loop16 signed n s buf =
      ((buf.take (16 * n)).foldl (Sums.DO1 signed) s, buf.drop (16 * n)) := by
  induction n generalizing s buf with
  | zero => rfl
  | succ n ih =>
    rw [Sums.loop16, ih, Sums.DO16, ← List.foldl_append, List.drop_drop,
      show 16 * (n + 1) = 16 + 16 * n by ring, List.take_add]

/-- The unrolled loop and the loop behind it go through all bytes. -/
lemma loop16_rest (signed : Bool) (n : ℕ) (s : Sums w) (buf : List UInt8) :
    (Sums.loop16 signed n s buf).2.foldl (Sums.DO1 signed) (Sums.loop16 signed n s buf).1 =
      buf.foldl (Sums.DO1 signed) s := by
  rw [loop16_eq, ← List.foldl_append, List.take_append_drop]

lemma blocks_eq (signed : Bool) (fuel : ℕ) (s : Sums w) (buf : List UInt8)
    (h : buf.length ≤ fuel) : (cut fuel buf).foldl (blockStep signed) s =
      if (Sums.blocks signed fuel s buf).2.length = 0 then (Sums.blocks signed fuel s buf).1
      else blockStep signed (Sums.blocks signed fuel s buf).1
        (Sums.blocks signed fuel s buf).2 := by
  have hmax : NMAX = 5552 := rfl
  induction fuel generalizing s buf with
  | zero =>
    have hnil : buf = [] := List.length_eq_zero_iff.mp (by omega)
    subst hnil
    rfl
  | succ fuel ih =>
    rw [Sums.blocks, cut]
    by_cases hnil : buf = []
    · subst hnil; rfl
    rw [if_neg hnil, List.foldl_cons]
    by_cases hlong : NMAX ≤ buf.length
    · have h16 : Sums.loop16 signed (NMAX / 16) s buf =
          ((buf.take NMAX).foldl (Sums.DO1 signed) s, buf.drop NMAX) := loop16_eq signed _ s buf
      rw [if_pos hlong, h16]
      exact ih _ _ (by rw [List.length_drop]; omega)
    · have hpos : buf.length ≠ 0 := fun he => hnil (List.length_eq_zero_iff.mp he)
      have hdrop : buf.drop NMAX = [] := List.drop_of_length_le (by omega)
      have hcut : cut fuel ([] : List UInt8) = [] := by cases fuel <;> rfl
      rw [if_neg hlong, List.take_of_length_le (by omega), hdrop, hcut]
      simp only [List.foldl_nil, if_neg hpos]

/-- From 16 bytes on the checksum is that of the blocks. -/
lemma adler32_long (m : Machine) {buf : List UInt8} (h : 16 ≤ buf.length) :
    adler32 m buf = Sums.recombined
      ((cut buf.length buf).foldl (blockStep m.charSigned) (⟨1, 0⟩ : Sums m.ulongBits)) := by
  rw [blocks_eq _ _ _ _ le_rfl]
  unfold adler32
  split
  · simp at h
  · rw [if_neg (by omega)]
    simp only
    split_ifs with hrest
    · rfl
    · rw [loop16_rest]
      rfl

lemma adler32_short (m : Machine) {buf : List UInt8} (h1 : buf.length ≠ 1)
    (h : buf.length < 16) : adler32 m buf = Sums.recombined
      ⟨subBase (buf.foldl (Sums.DO1 m.charSigned) (⟨1, 0⟩ : Sums m.ulongBits)).adler,
        (buf.foldl (Sums.DO1 m.charSigned) (⟨1, 0⟩ : Sums m.ulongBits)).sum2 %
          BitVec.ofNat m.ulongBits BASE⟩ := by
  unfold adler32
  split
  · simp at h1
  · rw [if_pos h]

lemma length_le_of_mem_cut {fuel : ℕ} {buf block : List UInt8} (h : block ∈ cut fuel buf) :
    block.length ≤ NMAX := by
  induction fuel generalizing buf with
  | zero => simp [cut] at h
  | succ fuel ih =>
    rw [cut] at h
    split_ifs at h
    · simp at h
    · rcases List.mem_cons.mp h with rfl | h
      · rw [List.length_take]; omega
      · exact ih h

/-! ### Reductions -/

/-- Both sums reduced. -/
def Reduced (p : ℤ × ℤ) : Prop := (0 ≤ p.1 ∧ p.1 < BASE) ∧ 0 ≤ p.2 ∧ p.2 < BASE

lemma reduced_reduceSums (w : ℕ) (p : ℤ × ℤ) : Reduced (reduceSums w p) :=
  ⟨⟨Int.emod_nonneg _ (by decide), Int.emod_lt_of_pos _ (by decide)⟩,
    Int.emod_nonneg _ (by decide), Int.emod_lt_of_pos _ (by decide)⟩

/-- The reduced sums behind a block, over the integers. -/
def intBlock (w : ℕ) (signed : Bool) (p : ℤ × ℤ) (block : List UInt8) : ℤ × ℤ :=
  reduceSums w (intSums signed p block)

lemma Tracks.block {signed : Bool} {s : Sums w} {p : ℤ × ℤ} (hw : 17 ≤ w) (h : Tracks s p)
    (hp : Reduced p) {block : List UInt8} (hb : block.length ≤ NMAX) :
    Tracks (blockStep signed s block) (intBlock w signed p block) := by
  have hbase : BASE = 65521 := rfl
  have hmax : NMAX = 5552 := rfl
  obtain ⟨⟨h1, h2⟩, -⟩ := hp
  exact (foldl signed block h (by omega) (by omega)).MOD hw

lemma Tracks.blocks (signed : Bool) {blocks : List (List UInt8)} {s : Sums w} {p : ℤ × ℤ}
    (hw : 17 ≤ w) (h : Tracks s p) (hp : Reduced p) (hb : ∀ b ∈ blocks, b.length ≤ NMAX) :
    Tracks (blocks.foldl (blockStep signed) s) (blocks.foldl (intBlock w signed) p) ∧
      Reduced (blocks.foldl (intBlock w signed) p) := by
  induction blocks generalizing s p with
  | nil => exact ⟨h, hp⟩
  | cons b blocks ih =>
    exact ih (h.block hw hp (hb b (by simp))) (reduced_reduceSums w _)
      fun c hc => hb c (by simp [hc])

end MmrService.BufConvert
