import MmrService.AdlerBuilds
import MmrService.Lib.Word
import Mathlib.Tactic.LinearCombination

/-!
`adler32` and the checksum of RFC 1950.

Where `char` is unsigned they are the same. Where it is signed a byte from 128 on counts 256
less, in `sum2` once for itself and for each byte behind it, and a sum that is negative when it
is reduced counts a power of two more. The two differ unless these errors cancel.
-/

namespace MmrService.BufConvert

/-! ### The checksum of RFC 1950 -/

/-- One byte, taken as unsigned. -/
def rfcStep (p : ℕ × ℕ) (c : UInt8) : ℕ × ℕ :=
  ((p.1 + c.toNat) % 65521, (p.2 + (p.1 + c.toNat) % 65521) % 65521)

/-- `b * 65536 + a`, where `a` starts at 1 and `b` at 0. -/
def rfcAdler32 (buf : List UInt8) : ℕ :=
  let p := buf.foldl rfcStep (1, 0)
  p.2 * 65536 + p.1

/-- Both sums are congruent to the integer sums of unsigned bytes. -/
lemma rfc_modEq (bs : List UInt8) {p : ℕ × ℕ} {q : ℤ × ℤ} (h1 : (p.1 : ℤ) ≡ q.1 [ZMOD BASE])
    (h2 : (p.2 : ℤ) ≡ q.2 [ZMOD BASE]) :
    ((bs.foldl rfcStep p).1 : ℤ) ≡ (intSums false q bs).1 [ZMOD BASE] ∧
      ((bs.foldl rfcStep p).2 : ℤ) ≡ (intSums false q bs).2 [ZMOD BASE] := by
  induction bs generalizing p q with
  | nil => exact ⟨h1, h2⟩
  | cons c bs ih =>
    have ha : ((rfcStep p c).1 : ℤ) ≡ (addByte false q c).1 [ZMOD BASE] := by
      change (((p.1 + c.toNat) % 65521 : ℕ) : ℤ) ≡ q.1 + c.toNat [ZMOD BASE]
      rw [Int.natCast_emod, Nat.cast_add]
      exact (Int.mod_modEq _ _).trans (h1.add_right _)
    have hb : ((rfcStep p c).2 : ℤ) ≡ (addByte false q c).2 [ZMOD BASE] := by
      change (((p.2 + (rfcStep p c).1) % 65521 : ℕ) : ℤ) ≡ q.2 + (addByte false q c).1 [ZMOD BASE]
      rw [Int.natCast_emod, Nat.cast_add]
      exact (Int.mod_modEq _ _).trans (h2.add ha)
    exact ih ha hb

lemma rfc_lt (bs : List UInt8) {p : ℕ × ℕ} (h1 : p.1 < 65521) (h2 : p.2 < 65521) :
    (bs.foldl rfcStep p).1 < 65521 ∧ (bs.foldl rfcStep p).2 < 65521 := by
  induction bs generalizing p with
  | nil => exact ⟨h1, h2⟩
  | cons c bs ih => exact ih (Nat.mod_lt _ (by omega)) (Nat.mod_lt _ (by omega))

lemma eq_iff_modEq {x y : ℤ} (hx : 0 ≤ x ∧ x < BASE) (hy : 0 ≤ y ∧ y < BASE) :
    x = y ↔ x ≡ y [ZMOD BASE] := by
  unfold Int.ModEq
  rw [Int.emod_eq_of_lt hx.1 hx.2, Int.emod_eq_of_lt hy.1 hy.2]

lemma intSums_unsigned_nonneg {bs : List UInt8} {p : ℤ × ℤ} (hp : 0 ≤ p.1 ∧ 0 ≤ p.2) :
    0 ≤ (intSums false p bs).1 ∧ 0 ≤ (intSums false p bs).2 := by
  induction bs generalizing p with
  | nil => exact hp
  | cons c bs ih =>
    refine ih ?_
    simp only [addByte, charValue, Bool.false_eq_true, false_and, if_false]
    omega

/-! ### What signed bytes take away -/

/-- How many bytes are from 128 on. -/
def highCount (bs : List UInt8) : ℕ := bs.countP (128 ≤ ·.toNat)

/-- Each of them counted once for itself and once for every byte behind it. -/
def highWeight : List UInt8 → ℕ
  | [] => 0
  | c :: bs => (if 128 ≤ c.toNat then bs.length + 1 else 0) + highWeight bs

/-- The sums are linear in the pair they start from. -/
lemma intSums_add (signed : Bool) (bs : List UInt8) (p : ℤ × ℤ) (d e : ℤ) :
    intSums signed (p.1 + d, p.2 + e) bs =
      ((intSums signed p bs).1 + d, (intSums signed p bs).2 + e + d * bs.length) := by
  induction bs generalizing p e with
  | nil => simp [intSums]
  | cons c bs ih =>
    have hstep : addByte signed (p.1 + d, p.2 + e) c =
        ((addByte signed p c).1 + d, (addByte signed p c).2 + (e + d)) := by
      unfold addByte
      refine Prod.ext ?_ ?_
      · simp only
        ring
      · simp only
        ring
    change intSums signed (addByte signed (p.1 + d, p.2 + e) c) bs = _
    rw [hstep, ih]
    refine Prod.ext rfl ?_
    change (intSums signed (addByte signed p c) bs).2 + (e + d) + d * bs.length =
      (intSums signed (addByte signed p c) bs).2 + e + d * (bs.length + 1 : ℕ)
    push_cast
    ring

lemma intSums_append (signed : Bool) (p : ℤ × ℤ) (bs bs' : List UInt8) :
    intSums signed p (bs ++ bs') = intSums signed (intSums signed p bs) bs' :=
  List.foldl_append

lemma intSums_modEq (signed : Bool) (bs : List UInt8) {p q : ℤ × ℤ} (h1 : p.1 ≡ q.1 [ZMOD BASE])
    (h2 : p.2 ≡ q.2 [ZMOD BASE]) : (intSums signed p bs).1 ≡ (intSums signed q bs).1 [ZMOD BASE] ∧
      (intSums signed p bs).2 ≡ (intSums signed q bs).2 [ZMOD BASE] := by
  obtain ⟨d, hd⟩ := h1.dvd
  obtain ⟨e, he⟩ := h2.dvd
  have hq : q = (p.1 + BASE * d, p.2 + BASE * e) :=
    Prod.ext (show q.1 = p.1 + BASE * d by linear_combination hd)
      (show q.2 = p.2 + BASE * e by linear_combination he)
  rw [hq, intSums_add]
  constructor
  · exact Int.modEq_iff_dvd.mpr ⟨d, by ring⟩
  · exact Int.modEq_iff_dvd.mpr ⟨e + d * bs.length, by ring⟩

lemma charValue_signed (c : UInt8) :
    charValue true c = charValue false c - if 128 ≤ c.toNat then 256 else 0 := by
  unfold charValue
  split_ifs <;> simp_all

/-- Signed sums are the unsigned ones less 256 for each high byte. -/
lemma intSums_signed (bs : List UInt8) (p : ℤ × ℤ) :
    intSums true p bs = ((intSums false p bs).1 - 256 * highCount bs,
      (intSums false p bs).2 - 256 * highWeight bs) := by
  induction bs generalizing p with
  | nil => simp [intSums, highCount, highWeight]
  | cons c bs ih =>
    have hstep : addByte true p c =
        ((addByte false p c).1 + -(if 128 ≤ c.toNat then 256 else 0),
          (addByte false p c).2 + -(if 128 ≤ c.toNat then 256 else 0)) := by
      unfold addByte
      rw [charValue_signed]
      refine Prod.ext ?_ ?_
      · simp only
        ring
      · simp only
        ring
    change intSums true (addByte true p c) bs = _
    rw [hstep, intSums_add, ih]
    refine Prod.ext ?_ ?_
    · change (intSums false (addByte false p c) bs).1 - 256 * highCount bs + _ =
        (intSums false (addByte false p c) bs).1 - 256 * highCount (c :: bs)
      rw [highCount, highCount, List.countP_cons]
      simp only [decide_eq_true_eq]
      push_cast
      split_ifs
      · ring
      · ring
    · change (intSums false (addByte false p c) bs).2 - 256 * highWeight bs + _ + _ =
        (intSums false (addByte false p c) bs).2 - 256 * highWeight (c :: bs)
      rw [highWeight]
      split_ifs
      · push_cast
        ring
      · push_cast
        ring

lemma highCount_eq_zero_iff {bs : List UInt8} :
    highCount bs = 0 ↔ ∀ c ∈ bs, c.toNat < 128 := by
  simp [highCount]

lemma highWeight_eq_zero {bs : List UInt8} (h : highCount bs = 0) : highWeight bs = 0 := by
  rw [highCount_eq_zero_iff] at h
  induction bs with
  | nil => rfl
  | cons c bs ih =>
    rw [List.forall_mem_cons] at h
    rw [highWeight, if_neg (by omega), ih h.2]

/-! ### The two halves of the result -/

/-- Sums below `2 ^ 16` are put side by side. -/
lemma recombined_ofNat {w a b : ℕ} (hw : 32 ≤ w) (ha : a < 2 ^ 16) (hb : b < 2 ^ 16) :
    Sums.recombined (⟨BitVec.ofNat 32 a, BitVec.ofNat w b⟩ : Sums w) =
      Word.toInt 32 (b * 65536 + a) := by
  have hpow : 2 ^ 32 ≤ 2 ^ w := Nat.pow_le_pow_right (by omega) hw
  rw [recombined_eq hw, BitVec.toInt_eq_toNat_bmod, BitVec.toNat_or, BitVec.toNat_shiftLeft,
    BitVec.toNat_setWidth, BitVec.toNat_ofNat, BitVec.toNat_ofNat,
    Nat.mod_eq_of_lt (show b < 2 ^ w by omega), Nat.mod_eq_of_lt (show b < 2 ^ 32 by omega),
    Nat.mod_eq_of_lt (show a < 2 ^ 32 by omega), Nat.shiftLeft_eq,
    Nat.mod_eq_of_lt (show b * 2 ^ 16 < 2 ^ 32 by omega), Nat.or_comm, ← Nat.shiftLeft_eq,
    ← Nat.shiftLeft_add_eq_or_of_lt ha, Nat.shiftLeft_eq]
  rfl

/-- The lower half is that of `adler`. -/
lemma recombined_low {w : ℕ} (hw : 32 ≤ w) (s : Sums w) :
    s.recombined % 65536 = s.adler.toNat % 65536 := by
  have hdvd : (65536 : ℤ) ∣ ((2 ^ 32 : ℕ) : ℤ) := by decide
  have hshift : ∀ x : ℕ, x <<< 16 % 2 ^ 32 % 2 ^ 16 = 0 := by
    intro x
    rw [Nat.shiftLeft_eq]
    omega
  rw [recombined_eq hw, BitVec.toInt_eq_toNat_bmod, ← Int.emod_emod_of_dvd _ hdvd, Int.bmod_emod,
    Int.emod_emod_of_dvd _ hdvd, BitVec.toNat_or, BitVec.toNat_shiftLeft]
  have hlow := Nat.or_mod_two_pow (a := s.adler.toNat)
    (b := (s.sum2.setWidth 32).toNat <<< 16 % 2 ^ 32) (n := 16)
  rw [hshift, Nat.or_zero] at hlow
  exact_mod_cast hlow

lemma toInt_low (n : ℕ) : Word.toInt 32 n % 65536 = n % 65536 := by
  have hdvd : (65536 : ℤ) ∣ ((2 ^ 32 : ℕ) : ℤ) := by decide
  rw [Word.toInt, ← Int.emod_emod_of_dvd _ hdvd, Int.bmod_emod, Int.emod_emod_of_dvd _ hdvd]

/-- Two pairs that fit are the same number only if they are the same pair. -/
lemma toInt_pair {a b a' b' : ℕ} (ha : a < 65536) (hb : b < 65536) (ha' : a' < 65536)
    (hb' : b' < 65536) : Word.toInt 32 (b * 65536 + a) = Word.toInt 32 (b' * 65536 + a') ↔
      a = a' ∧ b = b' := by
  constructor
  · intro h
    have hn := congrArg (Word.ofInt 32) h
    rw [Word.ofInt_toInt (by omega), Word.ofInt_toInt (by omega)] at hn
    omega
  · rintro ⟨rfl, rfl⟩
    rfl

/-! ### Up to 15 bytes -/

/-- The lower half of a sum of signed bytes behind `subBase` is not that of the unsigned ones. -/
lemma subBase_low {a : ℤ} {k : ℕ} (hlo : -1920 ≤ a) (hk : 0 < k) (hk' : k ≤ 15)
    (hhi : a + 256 * k < BASE) :
    ((subBase (BitVec.ofInt 32 a)).toNat : ℤ) % 65536 ≠ (a + 256 * k) % 65536 := by
  have hbase : BASE = 65521 := rfl
  unfold subBase
  rcases le_or_gt 0 a with ha | ha
  · have hnat : (BitVec.ofInt 32 a).toNat = a.toNat := by
      rw [ofInt_nonneg ha, BitVec.toNat_ofNat]
      omega
    rw [if_neg (by omega), hnat]
    omega
  · have hnat : (BitVec.ofInt 32 a).toNat = (2 ^ 32 + a).toNat := by
      rw [BitVec.toNat_ofInt]
      congr 1
      rw [← Int.add_emod_left]
      exact Int.emod_eq_of_lt (by omega) (by omega)
    rw [if_pos (by omega), BitVec.toNat_sub, hnat, BitVec.toNat_ofNat, hbase]
    omega

lemma Sums.eta {w : ℕ} (s : Sums w) : (⟨s.adler, s.sum2⟩ : Sums w) = s := rfl

section

variable (m : Machine) {buf : List UInt8}

lemma tracks_start {w : ℕ} : Tracks (⟨1, 0⟩ : Sums w) (1, 0) := ⟨by simp, by simp⟩

lemma width_le : 32 ≤ m.ulongBits := by
  rcases m.ulong_width with h | h <;> omega

/-- The lower half of the result. -/
lemma adler32_low (h : buf.length < 16) : adler32 m buf % 65536 =
    (subBase (BitVec.ofInt 32 (intSums m.charSigned (1, 0) buf).1)).toNat % 65536 := by
  have hfst := intSums_fst_range m.charSigned buf (1, 0)
  have ht := tracks_start.foldl m.charSigned buf (w := m.ulongBits) (by omega) (by omega)
  by_cases h1 : buf.length = 1
  · obtain ⟨c, rfl⟩ := List.length_eq_one_iff.mp h1
    change Sums.recombined ⟨subBase _, _⟩ % 65536 = _
    rw [recombined_low (width_le m), ← ht.adler]
    rfl
  · rw [adler32_short m h1 h, recombined_low (width_le m), ← ht.adler]

/-- Sums that need no reduction are the halves of the result. -/
lemma adler32_small (h : buf.length < 16) {a b : ℕ}
    (hsum : intSums m.charSigned (1, 0) buf = ((a : ℤ), (b : ℤ))) (ha : a < BASE) (hb : b < BASE) :
    adler32 m buf = Word.toInt 32 (b * 65536 + a) := by
  have hbase : BASE = 65521 := rfl
  have hw := width_le m
  have hpow : 2 ^ 32 ≤ 2 ^ m.ulongBits := Nat.pow_le_pow_right (by omega) hw
  have hfst := intSums_fst_range m.charSigned buf (1, 0)
  have ht := tracks_start.foldl m.charSigned buf (w := m.ulongBits) (by omega) (by omega)
  rw [hsum] at ht
  have hadler := ht.adler
  have hsum2 := ht.sum2
  simp only [BitVec.ofInt_natCast] at hadler hsum2
  have hsub : ∀ {w x : ℕ}, x < BASE → x < 2 ^ w →
      subBase (BitVec.ofNat w x) = BitVec.ofNat w x := by
    intro w x hx hxw
    rw [subBase, BitVec.toNat_ofNat, Nat.mod_eq_of_lt hxw, if_neg (by omega)]
  by_cases h1 : buf.length = 1
  · obtain ⟨c, rfl⟩ := List.length_eq_one_iff.mp h1
    have hs : (0 : BitVec m.ulongBits) + (List.foldl (Sums.DO1 m.charSigned)
        (⟨1, 0⟩ : Sums m.ulongBits) [c]).adler.signExtend _ = BitVec.ofNat _ b := hsum2
    change Sums.recombined ⟨subBase (List.foldl (Sums.DO1 m.charSigned)
      (⟨1, 0⟩ : Sums m.ulongBits) [c]).adler, subBase (0 + (subBase (List.foldl
      (Sums.DO1 m.charSigned) (⟨1, 0⟩ : Sums m.ulongBits) [c]).adler).signExtend _)⟩ = _
    rw [hadler] at hs
    rw [hadler, hsub ha (by omega), hs, hsub hb (by omega),
      recombined_ofNat hw (by omega) (by omega)]
  · have hmod : BitVec.ofNat m.ulongBits b % BitVec.ofNat m.ulongBits BASE =
        BitVec.ofNat m.ulongBits b := by
      refine BitVec.eq_of_toNat_eq ?_
      rw [BitVec.toNat_umod, BitVec.toNat_ofNat, BitVec.toNat_ofNat,
        Nat.mod_eq_of_lt (show b < 2 ^ m.ulongBits by omega),
        Nat.mod_eq_of_lt (show BASE < 2 ^ m.ulongBits by omega), Nat.mod_eq_of_lt hb]
    rw [adler32_short m h1 h, hadler, hsum2, hsub ha (by omega), hmod,
      recombined_ofNat hw (by omega) (by omega)]

/-- **Up to 15 bytes**: a single byte from 128 on makes the difference. -/
lemma adler32_rfc_short (h : buf.length < 16) :
    adler32 m buf = Word.toInt 32 (rfcAdler32 buf) ↔ m.charSigned = false ∨ highCount buf = 0 := by
  have hbase : BASE = 65521 := rfl
  have hpos : 0 ≤ (intSums false (1, 0) buf).1 ∧ 0 ≤ (intSums false (1, 0) buf).2 :=
    intSums_unsigned_nonneg (by decide)
  have hfst := intSums_fst_range false buf (1, 0)
  have hsnd := intSums_snd_range false buf (1, 0)
  have hn : (buf.length : ℤ) ≤ 15 := by omega
  have hsq : (buf.length : ℤ) * (buf.length + 1) ≤ 15 * 16 :=
    mul_le_mul hn (by omega) (by omega) (by omega)
  have hmod := rfc_modEq buf (p := (1, 0)) (q := (1, 0)) rfl rfl
  have hlt := rfc_lt buf (p := (1, 0)) (by omega) (by omega)
  rw [← eq_iff_modEq (by omega) (by omega), ← eq_iff_modEq (by omega) (by omega)] at hmod
  obtain ⟨ha, hb⟩ := hmod
  have hsum : intSums false (1, 0) buf = (((buf.foldl rfcStep (1, 0)).1 : ℤ),
      ((buf.foldl rfcStep (1, 0)).2 : ℤ)) := Prod.ext ha.symm hb.symm
  constructor
  · intro heq
    by_contra hne
    obtain ⟨hsigned, hhigh⟩ := not_or.mp hne
    rw [Bool.not_eq_false] at hsigned
    have hk : highCount buf ≤ buf.length := List.countP_le_length
    have hsig : (intSums true (1, 0) buf).1
        = (intSums false (1, 0) buf).1 - 256 * highCount buf := by
      rw [intSums_signed]
    have hfst' := intSums_fst_range true buf (1, 0)
    have hlow := adler32_low m h
    rw [heq, toInt_low, hsigned] at hlow
    refine subBase_low (a := (intSums true (1, 0) buf).1) (k := highCount buf) (by omega)
      (by omega) (by omega) (by omega) ?_
    rw [← hlow, hsig, sub_add_cancel, ← ha, rfcAdler32]
    push_cast
    omega
  · intro hcase
    refine adler32_small m h ?_ (by omega) (by omega)
    rcases hcase with hsigned | hhigh
    · rw [hsigned, hsum]
    · cases m.charSigned
      · exact hsum
      · rw [intSums_signed, hhigh, highWeight_eq_zero hhigh, hsum]
        simp

end

/-! ### From 16 bytes on -/

lemma cut_flatten (fuel : ℕ) (buf : List UInt8) (h : buf.length ≤ fuel) :
    (cut fuel buf).flatten = buf := by
  have hmax : NMAX = 5552 := rfl
  induction fuel generalizing buf with
  | zero => exact (List.length_eq_zero_iff.mp (by omega)).symm
  | succ fuel ih =>
    rw [cut]
    split_ifs with hnil
    · exact hnil.symm
    · have hpos := List.length_pos_iff.mpr hnil
      rw [List.flatten_cons, ih _ (by rw [List.length_drop]; omega), List.take_append_drop]

/-- How many blocks end on a negative first sum. -/
def firstWraps : ℤ → List (List UInt8) → ℕ
  | _, [] => 0
  | a, b :: bs => (if (intSums true (a, 0) b).1 < 0 then 1 else 0) +
      firstWraps ((intSums true (a, 0) b).1 % 2 ^ 32 % BASE) bs

/-- Each of them counted once for every byte behind it. -/
def wrapWeights : ℤ → List (List UInt8) → ℕ
  | _, [] => 0
  | a, b :: bs => (if (intSums true (a, 0) b).1 < 0 then bs.flatten.length else 0) +
      wrapWeights ((intSums true (a, 0) b).1 % 2 ^ 32 % BASE) bs

/-- The first sum over blocks of signed bytes, and what it contributes to the second one. -/
lemma blocks_signed (bs : List (List UInt8)) {a a' : ℤ} (ha : 0 ≤ a ∧ a < BASE)
    (haa' : a ≡ a' [ZMOD BASE]) (hb : ∀ b ∈ bs, b.length ≤ NMAX) :
    blockFirst a bs ≡
        (intSums true (a', 0) bs.flatten).1 + 2 ^ 32 * firstWraps a bs [ZMOD BASE] ∧
      blockTotal a bs ≡
        (intSums true (a', 0) bs.flatten).2 + 2 ^ 32 * wrapWeights a bs [ZMOD BASE] := by
  have hbase : BASE = 65521 := rfl
  have hmax : NMAX = 5552 := rfl
  induction bs generalizing a a' with
  | nil =>
    refine ⟨?_, ?_⟩
    · simpa [blockFirst, firstWraps, intSums] using haa'
    · simp [blockTotal, wrapWeights, intSums, Int.ModEq.refl]
  | cons b bs ih =>
    have hlen := hb b (by simp)
    have hrange := intSums_fst_range true b (a, 0)
    have hwrap := emod_two_pow (le_refl 32) (t := (intSums true (a, 0) b).1) (by omega) (by omega)
    have hnext : (intSums true (a, 0) b).1 % 2 ^ 32 % BASE ≡ (intSums true (a, 0) b).1 +
        2 ^ 32 * (if (intSums true (a, 0) b).1 < 0 then 1 else 0) [ZMOD BASE] := by
      rw [hwrap]
      exact Int.mod_modEq _ _
    obtain ⟨h1, h2⟩ := ih ⟨Int.emod_nonneg _ (by decide), Int.emod_lt_of_pos _ (by decide)⟩ hnext
      fun c hc => hb c (by simp [hc])
    obtain ⟨k, hk⟩ := haa'.dvd
    obtain ⟨k1, hk1⟩ := h1.dvd
    obtain ⟨k2, hk2⟩ := h2.dvd
    rw [blockFirst, blockTotal, firstWraps, wrapWeights]
    generalize hn : (if (intSums true (a, 0) b).1 < 0 then (1 : ℤ) else 0) = n at *
    have hflat : intSums true (a', 0) (b :: bs).flatten =
        ((intSums true ((intSums true (a, 0) b).1 + 2 ^ 32 * n, 0) bs.flatten).1 +
            (BASE * k - 2 ^ 32 * n),
          (intSums true ((intSums true (a, 0) b).1 + 2 ^ 32 * n, 0) bs.flatten).2 +
            ((intSums true (a, 0) b).2 + BASE * k * b.length) +
            (BASE * k - 2 ^ 32 * n) * bs.flatten.length) := by
      rw [List.flatten_cons, intSums_append, show ((a', 0) : ℤ × ℤ) =
        ((a, (0 : ℤ)).1 + BASE * k, (a, (0 : ℤ)).2 + 0) from
          Prod.ext (show a' = a + BASE * k by linear_combination hk) rfl,
        intSums_add true b (a, 0), ← intSums_add true bs.flatten (_, 0)]
      refine congrArg (fun p => intSums true p bs.flatten) (Prod.ext ?_ ?_)
      · simp only
        ring
      · simp only
        ring
    rw [hflat]
    refine ⟨Int.modEq_iff_dvd.mpr ⟨k + k1, ?_⟩, Int.modEq_iff_dvd.mpr
      ⟨k * b.length + k * bs.flatten.length + k2, ?_⟩⟩
    · have hcast : (((if (intSums true (a, 0) b).1 < 0 then 1 else 0) : ℕ) : ℤ) = n := by
        rw [← hn]
        split_ifs <;> rfl
      simp only
      rw [Nat.cast_add, hcast]
      linear_combination hk1
    · have hcast : (((if (intSums true (a, 0) b).1 < 0 then bs.flatten.length else 0) : ℕ) : ℤ) =
          n * bs.flatten.length := by
        rw [← hn]
        split_ifs <;> simp
      simp only
      rw [Nat.cast_add, hcast]
      linear_combination hk2

/-- Over blocks of unsigned bytes nothing goes negative. -/
lemma blocks_unsigned {w : ℕ} (hw : 32 ≤ w) (bs : List (List UInt8)) {p q : ℤ × ℤ}
    (hp : Reduced p) (h1 : p.1 ≡ q.1 [ZMOD BASE]) (h2 : p.2 ≡ q.2 [ZMOD BASE])
    (hb : ∀ b ∈ bs, b.length ≤ NMAX) :
    (bs.foldl (intBlock w false) p).1 ≡ (intSums false q bs.flatten).1 [ZMOD BASE] ∧
      (bs.foldl (intBlock w false) p).2 ≡ (intSums false q bs.flatten).2 [ZMOD BASE] := by
  have hbase : BASE = 65521 := rfl
  have hmax : NMAX = 5552 := rfl
  induction bs generalizing p q with
  | nil => exact ⟨h1, h2⟩
  | cons b bs ih =>
    have hlen := hb b (by simp)
    obtain ⟨hpos1, hpos2⟩ : 0 ≤ (intSums false p b).1 ∧ 0 ≤ (intSums false p b).2 :=
      intSums_unsigned_nonneg ⟨hp.1.1, hp.2.1⟩
    have hrange := intSums_fst_range false b p
    have hwrap1 := emod_two_pow (le_refl 32) (t := (intSums false p b).1) (by omega)
      (by have := hp.1.2; omega)
    have hbound := @intSums_snd_bound false p hp b hlen
    have hwrap2 := emod_two_pow hw hbound.1 hbound.2
    rw [if_neg (by omega), mul_zero, add_zero] at hwrap1 hwrap2
    obtain ⟨hq1, hq2⟩ := intSums_modEq false b h1 h2
    rw [List.flatten_cons, intSums_append, List.foldl_cons]
    refine ih (reduced_reduceSums w _) ?_ ?_ fun c hc => hb c (by simp [hc])
    · change (intSums false p b).1 % 2 ^ 32 % BASE ≡ _ [ZMOD BASE]
      rw [hwrap1]
      exact (Int.mod_modEq _ _).trans hq1
    · change (intSums false p b).2 % 2 ^ w % BASE ≡ _ [ZMOD BASE]
      rw [hwrap2]
      exact (Int.mod_modEq _ _).trans hq2

lemma error_cancels {x y : ℤ} {e e' : ℕ} (h : x ≡ y - e + e' [ZMOD BASE]) :
    x ≡ y [ZMOD BASE] ↔ e' ≡ e [MOD BASE] := by
  obtain ⟨k, hk⟩ := h.dvd
  rw [← Int.natCast_modEq_iff, Int.modEq_iff_dvd, Int.modEq_iff_dvd,
    show y - x = (e - e') + BASE * k by linear_combination hk]
  exact Int.dvd_add_left (Int.dvd_mul_right _ _)

/-- The errors of signed bytes cancel in both sums. -/
def SignsCancel (w : ℕ) (buf : List UInt8) : Prop :=
  let bs := cut buf.length buf
  2 ^ 32 * firstWraps 1 bs ≡ 256 * highCount buf [MOD BASE] ∧
    2 ^ 32 * wrapWeights 1 bs + 2 ^ w * negBlocks w (1, 0) bs ≡ 256 * highWeight buf [MOD BASE]

/-- **From 16 bytes on**. -/
lemma adler32_rfc_long (m : Machine) {buf : List UInt8} (h : 16 ≤ buf.length) :
    adler32 m buf = Word.toInt 32 (rfcAdler32 buf) ↔
      m.charSigned = false ∨ SignsCancel m.ulongBits buf := by
  have hbase : BASE = 65521 := rfl
  have hw := width_le m
  have hlens : ∀ b ∈ cut buf.length buf, b.length ≤ NMAX := fun b => length_le_of_mem_cut
  have hflat := cut_flatten buf.length buf le_rfl
  have hmod := rfc_modEq buf (p := (1, 0)) (q := (1, 0)) rfl rfl
  have hlt := rfc_lt buf (p := (1, 0)) (by omega) (by omega)
  obtain ⟨ht, hred⟩ := tracks_start.blocks m.charSigned (w := m.ulongBits) (by omega)
    reduced_start hlens
  have hpair : adler32 m buf = Word.toInt 32 (rfcAdler32 buf) ↔
      ((cut buf.length buf).foldl (intBlock m.ulongBits m.charSigned) (1, 0)).1 ≡
          (intSums false (1, 0) buf).1 [ZMOD BASE] ∧
        ((cut buf.length buf).foldl (intBlock m.ulongBits m.charSigned) (1, 0)).2 ≡
          (intSums false (1, 0) buf).2 [ZMOD BASE] := by
    rw [adler32_long m h, ← Sums.eta (List.foldl _ _ _), ht.adler, ht.sum2]
    generalize (cut buf.length buf).foldl (intBlock m.ulongBits m.charSigned) (1, 0) = p at *
    obtain ⟨h1, h2⟩ := hred
    rw [ofInt_nonneg h1.1, ofInt_nonneg h2.1, recombined_ofNat hw (by omega) (by omega), rfcAdler32,
      toInt_pair (by omega) (by omega) (by omega) (by omega)]
    have heq1 := eq_iff_modEq h1 (y := (buf.foldl rfcStep (1, 0)).1) (by omega)
    have heq2 := eq_iff_modEq h2 (y := (buf.foldl rfcStep (1, 0)).2) (by omega)
    refine and_congr ?_ ?_
    · rw [show p.1.toNat = (buf.foldl rfcStep (1, 0)).1 ↔
        p.1 = ((buf.foldl rfcStep (1, 0)).1 : ℤ) by omega, heq1]
      exact ⟨fun h => h.trans hmod.1, fun h => h.trans hmod.1.symm⟩
    · rw [show p.2.toNat = (buf.foldl rfcStep (1, 0)).2 ↔
        p.2 = ((buf.foldl rfcStep (1, 0)).2 : ℤ) by omega, heq2]
      exact ⟨fun h => h.trans hmod.2, fun h => h.trans hmod.2.symm⟩
  rw [hpair]
  cases hsigned : m.charSigned
  · refine iff_of_true ?_ (.inl rfl)
    have hun := blocks_unsigned hw (cut buf.length buf) (q := (1, 0)) reduced_start rfl rfl hlens
    rwa [hflat] at hun
  · rw [Bool.true_eq_false, false_or]
    have hone : (1 : ℤ) ≡ 1 [ZMOD BASE] := rfl
    obtain ⟨h1, h2⟩ := blocks_signed (cut buf.length buf) reduced_start.1 hone hlens
    have h3 := foldl_intBlock_snd hw (cut buf.length buf) reduced_start hlens
    rw [hflat, intSums_signed] at h1 h2
    rw [foldl_intBlock_fst]
    refine and_congr (error_cancels ?_) (error_cancels ?_)
    · push_cast
      exact h1
    · push_cast
      have h4 := h3.trans ((h2.add_left 0).add_right _)
      rw [zero_add, add_assoc] at h4
      exact h4

/-- Bytes below 128 leave no errors. -/
lemma wraps_ascii {bs : List (List UInt8)} (h : ∀ b ∈ bs, ∀ c ∈ b, c.toNat < 128) {a : ℤ}
    (ha : 0 ≤ a) : firstWraps a bs = 0 ∧ wrapWeights a bs = 0 := by
  induction bs generalizing a with
  | nil => exact ⟨rfl, rfl⟩
  | cons b bs ih =>
    have hsum := (intSums_ascii (h b (by simp)) (p := (a, 0)) ⟨ha, le_rfl⟩).1
    obtain ⟨h1, h2⟩ := ih (fun d hd => h d (by simp [hd])) (Int.emod_nonneg
      ((intSums true (a, 0) b).1 % 2 ^ 32) (by decide : (BASE : ℤ) ≠ 0))
    rw [firstWraps, wrapWeights, h1, h2, if_neg (by omega), if_neg (by omega)]
    exact ⟨rfl, rfl⟩

lemma signsCancel_ascii (w : ℕ) {buf : List UInt8} (h : highCount buf = 0) : SignsCancel w buf := by
  have hlow := highCount_eq_zero_iff.mp h
  have hcut : ∀ b ∈ cut buf.length buf, ∀ c ∈ b, c.toNat < 128 :=
    fun b hb c hc => hlow c (mem_of_mem_cut hb hc)
  obtain ⟨h1, h2⟩ := wraps_ascii hcut (a := 1) (by omega)
  have h3 := negBlocks_ascii (w := w) hcut reduced_start
  refine ⟨?_, ?_⟩
  · rw [h1, h]
    rfl
  · rw [h2, h3, highWeight_eq_zero h]
    rfl

/-- **The checksum of RFC 1950**: it is computed exactly by a build whose `char` is unsigned,
for bytes that are all below 128, or, from 16 bytes on, where the errors of the signed bytes
cancel modulo 65521. -/
theorem adler32_rfc_iff (m : Machine) (buf : List UInt8) :
    adler32 m buf = Word.toInt 32 (rfcAdler32 buf) ↔ m.charSigned = false ∨
      (∀ c ∈ buf, c.toNat < 128) ∨ 16 ≤ buf.length ∧ SignsCancel m.ulongBits buf := by
  rw [← highCount_eq_zero_iff]
  rcases lt_or_ge buf.length 16 with h | h
  · rw [adler32_rfc_short m h]
    refine or_congr_right ⟨.inl, ?_⟩
    rintro (hhigh | ⟨hlong, -⟩)
    · exact hhigh
    · omega
  · rw [adler32_rfc_long m h]
    refine or_congr_right ⟨fun hc => .inr ⟨h, hc⟩, ?_⟩
    rintro (hhigh | ⟨-, hc⟩)
    · exact signsCancel_ascii _ hhigh
    · exact hc

/-- One byte from 128 on. -/
theorem adler32_ne_rfc : adler32 linux64 [128] ≠ Word.toInt 32 (rfcAdler32 [128]) ∧
    adler32 windows [128] ≠ Word.toInt 32 (rfcAdler32 [128]) := by
  decide

end MmrService.BufConvert
