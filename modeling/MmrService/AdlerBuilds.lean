import MmrService.AdlerSums
import MmrService.ProtoEndian
import Mathlib.Data.Int.ModEq

/-!
`adler32` in the Windows build and in the Linux build.

`char` is signed in both, so `sum2` can go negative before a reduction; it is then reduced
modulo `2 ^ 32` in one build and modulo `2 ^ 64` in the other, and these differ modulo 65521.
-/

namespace MmrService.BufConvert

/-! ### The halves of the result -/

lemma recombined_eq {w : ℕ} (hw : 32 ≤ w) (s : Sums w) :
    s.recombined = (s.adler ||| s.sum2.setWidth 32 <<< 16).toInt := by
  unfold Sums.recombined
  congr 1
  refine BitVec.eq_of_getLsbD_eq fun i hi => ?_
  have hiw : i < w := by omega
  have hi' : i - 16 < 32 := by omega
  simp only [BitVec.getLsbD_setWidth, BitVec.getLsbD_or, BitVec.getLsbD_signExtend,
    BitVec.getLsbD_shiftLeft, hi, hi', hiw, decide_true, Bool.true_and, if_true]

lemma or_halves {u l k : ℕ} (hl : l < 2 ^ 16) :
    (65536 * u + l) ||| (65536 * k) = 65536 * (u ||| k) + l := by
  have hshift : ∀ x : ℕ, 65536 * x = x <<< 16 := fun x => by rw [Nat.shiftLeft_eq]; ring
  rw [hshift, hshift, hshift, Nat.shiftLeft_add_eq_or_of_lt hl, Nat.shiftLeft_add_eq_or_of_lt hl,
    Nat.shiftLeft_or_distrib, Nat.or_assoc, Nat.or_comm l, Nat.or_assoc]

/-- The second sums show in the result only through the upper half of `adler`. -/
lemma recombined_eq_iff {w w' : ℕ} (hw : 32 ≤ w) (hw' : 32 ≤ w') (s : Sums w) (s' : Sums w')
    (k k' : ℕ) (ha : s.adler = s'.adler) (hs : s.sum2 = BitVec.ofNat w k)
    (hs' : s'.sum2 = BitVec.ofNat w' k') (hk : k < 65536) (hk' : k' < 65536) :
    s.recombined = s'.recombined ↔
      s.adler.toNat / 65536 ||| k = s.adler.toNat / 65536 ||| k' := by
  have hlow : ∀ {v x : ℕ}, 32 ≤ v → x < 65536 →
      (s.adler ||| (BitVec.ofNat v x).setWidth 32 <<< 16).toNat =
        65536 * (s.adler.toNat / 65536 ||| x) + s.adler.toNat % 65536 := by
    intro v x hv hx
    have hpow : 2 ^ 32 ≤ 2 ^ v := Nat.pow_le_pow_right (by omega) hv
    have hsplit := Nat.div_add_mod s.adler.toNat 65536
    rw [BitVec.toNat_or, BitVec.toNat_shiftLeft, BitVec.toNat_setWidth, BitVec.toNat_ofNat,
      Nat.mod_eq_of_lt (show x < 2 ^ v by omega), Nat.mod_eq_of_lt (show x < 2 ^ 32 by omega),
      Nat.shiftLeft_eq, Nat.mod_eq_of_lt (show x * 2 ^ 16 < 2 ^ 32 by omega),
      show x * 2 ^ 16 = 65536 * x by ring]
    conv_lhs => rw [← hsplit]
    exact or_halves (Nat.mod_lt _ (by omega))
  rw [recombined_eq hw, recombined_eq hw', BitVec.toInt_inj, ← BitVec.toNat_inj, ← ha, hs, hs',
    hlow hw hk, hlow hw' hk']
  constructor <;> intro h <;> omega

lemma or_ones {k : ℕ} (h : k < 65536) : 65535 ||| k = 65535 := by
  have h1 : 65535 ≤ 65535 ||| k := Nat.left_le_or
  have h2 : 65535 ||| k < 2 ^ 16 := Nat.or_lt_two_pow (by omega) h
  omega

lemma or_even_ones {k : ℕ} (h : k < 65536) : 65534 ||| k = 65534 + k % 2 := by
  have h1 : 65534 ≤ 65534 ||| k := Nat.left_le_or
  have h2 : 65534 ||| k < 2 ^ 16 := Nat.or_lt_two_pow (by omega) h
  have h3 : (65534 ||| k) % 2 ^ 1 = (65534 % 2 ^ 1) ||| (k % 2 ^ 1) := Nat.or_mod_two_pow
  rw [show 65534 % 2 ^ 1 = 0 by decide, Nat.zero_or] at h3
  omega

/-! ### The sum over all blocks -/

/-- How many blocks end, in a build with a `w`-bit `unsigned long`, on a negative second sum. -/
def negBlocks (w : ℕ) : ℤ × ℤ → List (List UInt8) → ℕ
  | _, [] => 0
  | p, b :: bs =>
    (if (intSums true p b).2 < 0 then 1 else 0) + negBlocks w (intBlock w true p b) bs

/-- The second sums of the blocks, each from zero. -/
def blockTotal : ℤ → List (List UInt8) → ℤ
  | _, [] => 0
  | a, b :: bs =>
    (intSums true (a, 0) b).2 + blockTotal ((intSums true (a, 0) b).1 % 2 ^ 32 % BASE) bs

/-- The first sum behind the blocks. -/
def blockFirst : ℤ → List (List UInt8) → ℤ
  | a, [] => a
  | a, b :: bs => blockFirst ((intSums true (a, 0) b).1 % 2 ^ 32 % BASE) bs

/-- A block's second sum does not leave the range of an unsigned 32-bit number and its negative. -/
lemma intSums_snd_bound {signed : Bool} {p : ℤ × ℤ} (hp : Reduced p) {b : List UInt8}
    (hb : b.length ≤ NMAX) :
    -2 ^ 32 ≤ (intSums signed p b).2 ∧ (intSums signed p b).2 < 2 ^ 32 := by
  have hbase : BASE = 65521 := rfl
  have hmax : NMAX = 5552 := rfl
  obtain ⟨⟨h1, h2⟩, h3, h4⟩ := hp
  have hrange := intSums_snd_range signed b p
  have hn : (b.length : ℤ) ≤ 5552 := by omega
  have hn0 : (0 : ℤ) ≤ b.length := Int.natCast_nonneg _
  generalize (b.length : ℤ) = n at *
  have ha : 0 ≤ p.1 * n := mul_nonneg h1 hn0
  have ha' : p.1 * n ≤ 65520 * 5552 := mul_le_mul (by omega) hn hn0 (by omega)
  have hsq : n * (n + 1) ≤ 5552 * 5553 := mul_le_mul hn (by omega) (by omega) (by omega)
  generalize p.1 * n = x at *
  generalize n * (n + 1) = y at *
  omega

lemma emod_two_pow {w : ℕ} (hw : 32 ≤ w) {t : ℤ} (hlo : -2 ^ 32 ≤ t) (hhi : t < 2 ^ 32) :
    t % 2 ^ w = t + 2 ^ w * (if t < 0 then 1 else 0) := by
  have hpow : 2 ^ 32 ≤ 2 ^ w := Nat.pow_le_pow_right (by omega) hw
  have hcast : ((2 ^ w : ℕ) : ℤ) = 2 ^ w := by push_cast; rfl
  have hpow' : (2 : ℤ) ^ 32 ≤ 2 ^ w := by rw [← hcast]; exact_mod_cast hpow
  split_ifs with h
  · rw [mul_one, ← Int.add_emod_right]
    exact Int.emod_eq_of_lt (by omega) (by omega)
  · rw [mul_zero, add_zero]
    exact Int.emod_eq_of_lt (by omega) (by omega)

lemma foldl_intBlock_fst (w : ℕ) (bs : List (List UInt8)) (p : ℤ × ℤ) :
    (bs.foldl (intBlock w true) p).1 = blockFirst p.1 bs := by
  induction bs generalizing p with
  | nil => rfl
  | cons b bs ih =>
    have h : (intBlock w true p b).1 = (intSums true (p.1, 0) b).1 % 2 ^ 32 % BASE := by
      unfold intBlock reduceSums
      rw [← Prod.mk.eta (p := p), intSums_shift]
    rw [List.foldl_cons, ih, h, blockFirst]

/-- Each negative block adds `2 ^ w` to the second sum. -/
lemma foldl_intBlock_snd {w : ℕ} (hw : 32 ≤ w) (bs : List (List UInt8)) {p : ℤ × ℤ}
    (hp : Reduced p) (hb : ∀ b ∈ bs, b.length ≤ NMAX) :
    (bs.foldl (intBlock w true) p).2 ≡
      p.2 + blockTotal p.1 bs + 2 ^ w * negBlocks w p bs [ZMOD BASE] := by
  induction bs generalizing p with
  | nil => simp [blockTotal, negBlocks, Int.ModEq.refl]
  | cons b bs ih =>
    obtain ⟨hlo, hhi⟩ := intSums_snd_bound hp (hb b (by simp))
    have hsplit : (intSums true p b).2 = p.2 + (intSums true (p.1, 0) b).2 := by
      rw [← Prod.mk.eta (p := p), intSums_shift]
    have hfirst : (intBlock w true p b).1 = (intSums true (p.1, 0) b).1 % 2 ^ 32 % BASE := by
      unfold intBlock reduceSums
      rw [← Prod.mk.eta (p := p), intSums_shift]
    have hsnd : (intBlock w true p b).2 ≡
        (intSums true p b).2 + 2 ^ w * (if (intSums true p b).2 < 0 then 1 else 0) [ZMOD BASE] := by
      rw [← emod_two_pow hw hlo hhi]
      exact Int.mod_modEq _ _
    have hrest := ih (reduced_reduceSums w (intSums true p b)) fun c hc => hb c (by simp [hc])
    rw [List.foldl_cons, blockTotal, negBlocks, ← hfirst]
    refine hrest.trans ?_
    refine ((hsnd.add_right _).add_right _).trans ?_
    rw [hsplit]
    push_cast
    split_ifs <;> ring_nf <;> exact Int.ModEq.refl _

/-! ### The two builds -/

/-- Where the two builds get the same checksum. Up to 15 bytes: the second sum does not go
negative, or the first does and covers the difference up. From 16 bytes on: the numbers of
blocks whose second sum goes negative match modulo 65521. -/
def SignsAgree (buf : List UInt8) : Prop :=
  if buf.length < 16 then
    0 ≤ (intSums true (1, 0) buf).2 ∨ (intSums true (1, 0) buf).1 < 0 ∧
      (-15 ≤ (intSums true (1, 0) buf).1 ∨ -225 ≤ (intSums true (1, 0) buf).2)
  else negBlocks 32 (1, 0) (cut buf.length buf) % BASE =
    225 * negBlocks 64 (1, 0) (cut buf.length buf) % BASE

lemma ofInt_nonneg {w : ℕ} {x : ℤ} (h : 0 ≤ x) : BitVec.ofInt w x = BitVec.ofNat w x.toNat := by
  obtain ⟨n, rfl⟩ := Int.eq_ofNat_of_zero_le h
  rw [Int.toNat_natCast, BitVec.ofInt_natCast]

lemma reduced_start : Reduced (1, 0) := by
  have hbase : BASE = 65521 := rfl
  unfold Reduced
  omega

/-- Second sums that differ by multiples of `2 ^ 32` and of `2 ^ 64`: modulo 65521 these are
225 and its square. -/
lemma eq_iff_of_modEq {x y t : ℤ} {n k : ℕ} (hx : 0 ≤ x ∧ x < BASE) (hy : 0 ≤ y ∧ y < BASE)
    (h : x ≡ t + 2 ^ 32 * n [ZMOD BASE]) (h' : y ≡ t + 2 ^ 64 * k [ZMOD BASE]) :
    x = y ↔ n % BASE = 225 * k % BASE := by
  have h32 : (2 : ℤ) ^ 32 ≡ 225 [ZMOD BASE] := by decide
  have h64 : (2 : ℤ) ^ 64 ≡ 225 * 225 [ZMOD BASE] := by decide
  have hxn : x ≡ t + 225 * n [ZMOD BASE] := h.trans ((h32.mul_right _).add_left _)
  have hyk : y ≡ t + 225 * (225 * k : ℕ) [ZMOD BASE] := by
    rw [show t + 225 * ((225 * k : ℕ) : ℤ) = t + 225 * 225 * k by push_cast; ring]
    exact h'.trans ((h64.mul_right _).add_left _)
  have hxy : x = y ↔ x ≡ y [ZMOD BASE] := by
    constructor
    · rintro rfl; exact Int.ModEq.refl _
    · intro he
      unfold Int.ModEq at he
      rwa [Int.emod_eq_of_lt hx.1 hx.2, Int.emod_eq_of_lt hy.1 hy.2] at he
  rw [hxy]
  constructor
  · intro he
    have hmul : (225 * n : ℕ) ≡ 225 * (225 * k) [MOD BASE] := by
      rw [← Int.natCast_modEq_iff]
      push_cast at hyk ⊢
      apply Int.ModEq.add_left_cancel' t
      calc t + 225 * (n : ℤ) ≡ x [ZMOD BASE] := hxn.symm
        _ ≡ y [ZMOD BASE] := he
        _ ≡ t + 225 * (225 * k) [ZMOD BASE] := hyk
    exact Nat.ModEq.cancel_left_of_coprime (by decide) hmul
  · intro he
    have hmul : (n : ℤ) ≡ (225 * k : ℕ) [ZMOD BASE] := Int.natCast_modEq_iff.mpr he
    calc x ≡ t + 225 * n [ZMOD BASE] := hxn
      _ ≡ t + 225 * (225 * k : ℕ) [ZMOD BASE] := (hmul.mul_left 225).add_left t
      _ ≡ y [ZMOD BASE] := hyk.symm

lemma adler32_long_iff {buf : List UInt8} (h : 16 ≤ buf.length) :
    adler32 windows buf = adler32 linux64 buf ↔
      negBlocks 32 (1, 0) (cut buf.length buf) % BASE =
        225 * negBlocks 64 (1, 0) (cut buf.length buf) % BASE := by
  have hbase : BASE = 65521 := rfl
  have hlens : ∀ b ∈ cut buf.length buf, b.length ≤ NMAX := fun b => length_le_of_mem_cut
  have hstart : ∀ {w : ℕ}, Tracks (⟨1, 0⟩ : Sums w) (1, 0) :=
    ⟨by simp, by simp⟩
  rw [adler32_long windows h, adler32_long linux64 h]
  generalize hcs : cut buf.length buf = cs at *
  obtain ⟨t32, r32⟩ := Tracks.blocks true (by omega : 17 ≤ 32) hstart reduced_start hlens
  obtain ⟨t64, r64⟩ := Tracks.blocks true (by omega : 17 ≤ 64) hstart reduced_start hlens
  have hfst : (cs.foldl (intBlock 32 true) (1, 0)).1 = (cs.foldl (intBlock 64 true) (1, 0)).1 := by
    rw [foldl_intBlock_fst, foldl_intBlock_fst]
  have h32 := foldl_intBlock_snd (le_refl 32) cs reduced_start hlens
  have h64 := foldl_intBlock_snd (by omega : 32 ≤ 64) cs reduced_start hlens
  rw [← eq_iff_of_modEq r32.2 r64.2 h32 h64]
  generalize cs.foldl (intBlock 32 true) (1, 0) = p at *
  generalize cs.foldl (intBlock 64 true) (1, 0) = q at *
  obtain ⟨⟨h1, h2⟩, h3, h4⟩ := r32
  obtain ⟨-, h5, h6⟩ := r64
  have hhigh : (cs.foldl (blockStep true) (⟨1, 0⟩ : Sums 32)).adler.toNat / 65536 = 0 := by
    rw [t32.adler, ofInt_nonneg h1, BitVec.toNat_ofNat]
    omega
  have hiff := recombined_eq_iff (le_refl 32) (by omega : 32 ≤ 64) _ _ _ _
    (t32.adler.trans (hfst ▸ t64.adler.symm)) (t32.sum2.trans (ofInt_nonneg h3))
    (t64.sum2.trans (ofInt_nonneg h5)) (by omega) (by omega)
  rw [hhigh, Nat.zero_or, Nat.zero_or] at hiff
  refine hiff.trans ?_
  omega

/-- The upper half of `adler` behind `subBase`, for a sum of at most 15 bytes: a negative sum
counts as one above `BASE`. -/
lemma subBase_high {a : ℤ} (hlo : -1920 ≤ a) (hhi : a < BASE) :
    (subBase (BitVec.ofInt 32 a)).toNat / 65536 =
      if 0 ≤ a then 0 else if -15 ≤ a then 65535 else 65534 := by
  have hbase : BASE = 65521 := rfl
  unfold subBase
  by_cases ha : 0 ≤ a
  · rw [ofInt_nonneg ha, BitVec.toNat_ofNat, if_neg (by omega), BitVec.toNat_ofNat, if_pos ha]
    omega
  · have hnat : (BitVec.ofInt 32 a).toNat = (2 ^ 32 + a).toNat := by
      rw [BitVec.toNat_ofInt]
      congr 1
      rw [← Int.add_emod_left]
      exact Int.emod_eq_of_lt (by omega) (by omega)
    rw [hnat, if_pos (by omega), BitVec.toNat_sub, hnat, BitVec.toNat_ofNat, if_neg ha, hbase]
    split_ifs <;> omega

lemma adler32_short_iff {buf : List UInt8} (h1 : buf.length ≠ 1) (h : buf.length < 16) :
    adler32 windows buf = adler32 linux64 buf ↔
      0 ≤ (intSums true (1, 0) buf).2 ∨ (intSums true (1, 0) buf).1 < 0 ∧
        (-15 ≤ (intSums true (1, 0) buf).1 ∨ -225 ≤ (intSums true (1, 0) buf).2) := by
  have hbase : BASE = 65521 := rfl
  have hstart : ∀ {w : ℕ}, Tracks (⟨1, 0⟩ : Sums w) (1, 0) :=
    ⟨by simp, by simp⟩
  have hfst := intSums_fst_range true buf (1, 0)
  have hsnd := intSums_snd_range true buf (1, 0)
  have t32 := Tracks.foldl true buf (w := 32) hstart (by omega) (by omega)
  have t64 := Tracks.foldl true buf (w := 64) hstart (by omega) (by omega)
  have hn : (buf.length : ℤ) ≤ 15 := by omega
  have hsq : (buf.length : ℤ) * (buf.length + 1) ≤ 15 * 16 :=
    mul_le_mul hn (by omega) (by omega) (by omega)
  rw [adler32_short windows h1 h, adler32_short linux64 h1 h]
  generalize intSums true (1, 0) buf = p at *
  have hmod : ∀ (w : ℕ), 0 ≤ p.2 % 2 ^ w % BASE ∧ p.2 % 2 ^ w % BASE < BASE := fun w =>
    ⟨Int.emod_nonneg _ (by decide), Int.emod_lt_of_pos _ (by decide)⟩
  obtain ⟨hlo32, hhi32⟩ := hmod 32
  obtain ⟨hlo64, hhi64⟩ := hmod 64
  have hiff := recombined_eq_iff (le_refl 32) (by omega : 32 ≤ 64)
    (⟨subBase (buf.foldl (Sums.DO1 true) (⟨1, 0⟩ : Sums 32)).adler,
      (buf.foldl (Sums.DO1 true) (⟨1, 0⟩ : Sums 32)).sum2 % BitVec.ofNat 32 BASE⟩)
    (⟨subBase (buf.foldl (Sums.DO1 true) (⟨1, 0⟩ : Sums 64)).adler,
      (buf.foldl (Sums.DO1 true) (⟨1, 0⟩ : Sums 64)).sum2 % BitVec.ofNat 64 BASE⟩)
    (p.2 % 2 ^ 32 % BASE).toNat (p.2 % 2 ^ 64 % BASE).toNat
    (by simp only [t32.adler, t64.adler])
    (by simp only [t32.sum2]; rw [ofInt_mod (by omega), ofInt_nonneg hlo32])
    (by simp only [t64.sum2]; rw [ofInt_mod (by omega), ofInt_nonneg hlo64])
    (by omega) (by omega)
  refine hiff.trans ?_
  simp only [t32.adler]
  rw [subBase_high (by omega) (by omega)]
  have hlo : -15360 ≤ p.2 := by omega
  have hhi : p.2 < 65521 := by omega
  rcases le_or_gt 0 p.2 with hpos | hneg
  · have h32 : p.2 % 2 ^ 32 = p.2 := Int.emod_eq_of_lt hpos (by omega)
    have h64 : p.2 % 2 ^ 64 = p.2 := Int.emod_eq_of_lt hpos (by omega)
    rw [h32, h64]
    exact ⟨fun _ => Or.inl hpos, fun _ => rfl⟩
  · -- a negative sum: 225 above it in one build and 50625 in the other
    have h32 : (p.2 % 2 ^ 32 % BASE).toNat =
        if -225 ≤ p.2 then (p.2 + 225).toNat else (p.2 + 65746).toNat := by
      rw [emod_two_pow (le_refl 32) (by omega) (by omega), if_pos hneg, hbase]
      split_ifs <;> omega
    have h64 : (p.2 % 2 ^ 64 % BASE).toNat = (p.2 + 50625).toNat := by
      rw [emod_two_pow (by omega) (by omega) (by omega), if_pos hneg, hbase]
      omega
    have hk32 : (p.2 % 2 ^ 32 % BASE).toNat < 65536 := by omega
    have hk64 : (p.2 % 2 ^ 64 % BASE).toNat < 65536 := by omega
    split_ifs with ha ha'
    · rw [Nat.zero_or, Nat.zero_or, h32, h64]
      split_ifs <;> omega
    · rw [or_ones hk32, or_ones hk64]
      omega
    · rw [or_even_ones hk32, or_even_ones hk64, h32, h64]
      split_ifs <;> omega

lemma adler32_builds_iff {buf : List UInt8} (h1 : buf.length ≠ 1) :
    adler32 windows buf = adler32 linux64 buf ↔ SignsAgree buf := by
  unfold SignsAgree
  split_ifs with h
  · exact adler32_short_iff h1 h
  · exact adler32_long_iff (not_lt.mp h)

/-- Plain ASCII is not affected. -/
lemma intSums_ascii {bs : List UInt8} (h : ∀ c ∈ bs, c.toNat < 128) {p : ℤ × ℤ}
    (hp : 0 ≤ p.1 ∧ 0 ≤ p.2) : 0 ≤ (intSums true p bs).1 ∧ 0 ≤ (intSums true p bs).2 := by
  induction bs generalizing p with
  | nil => exact hp
  | cons c bs ih =>
    have hc : charValue true c = c.toNat := if_neg fun hge => by
      have := h c (by simp)
      omega
    refine ih (fun d hd => h d (by simp [hd])) ?_
    unfold addByte
    simp only [hc]
    omega

lemma negBlocks_ascii {w : ℕ} {blocks : List (List UInt8)}
    (h : ∀ b ∈ blocks, ∀ c ∈ b, c.toNat < 128) {p : ℤ × ℤ} (hp : Reduced p) :
    negBlocks w p blocks = 0 := by
  induction blocks generalizing p with
  | nil => rfl
  | cons b blocks ih =>
    have hsum := intSums_ascii (h b (by simp)) ⟨hp.1.1, hp.2.1⟩
    have hrest := ih (fun d hd => h d (by simp [hd])) (reduced_reduceSums w (intSums true p b))
    rw [negBlocks, if_neg (by omega), zero_add]
    exact hrest

lemma mem_of_mem_cut {fuel : ℕ} {buf block : List UInt8} {c : UInt8} (h : block ∈ cut fuel buf)
    (hc : c ∈ block) : c ∈ buf := by
  induction fuel generalizing buf with
  | zero => simp [cut] at h
  | succ fuel ih =>
    rw [cut] at h
    split_ifs at h
    · simp at h
    · rcases List.mem_cons.mp h with rfl | h
      · exact List.mem_of_mem_take hc
      · exact List.mem_of_mem_drop (ih h)

/-- **ASCII**: on bytes below 128 the builds agree, whatever the length. -/
theorem adler32_ascii {buf : List UInt8} (h1 : buf.length ≠ 1) (h : ∀ c ∈ buf, c.toNat < 128) :
    adler32 windows buf = adler32 linux64 buf := by
  rw [adler32_builds_iff h1]
  unfold SignsAgree
  have hcut : ∀ b ∈ cut buf.length buf, ∀ c ∈ b, c.toNat < 128 :=
    fun b hb c hc => h c (mem_of_mem_cut hb hc)
  split_ifs
  · exact Or.inl (intSums_ascii h (by decide)).2
  · rw [negBlocks_ascii hcut reduced_start, negBlocks_ascii hcut reduced_start]

/-! ### Frames between the builds -/

open ProtoCodec

variable {π : Protobuf}

/-- Both builds compute the same checksum over a frame, and neither turns the other's frame down
for its checksum. -/
def ChecksAgree (protoMsg : ProtoRpcMessage π) : Prop :=
  ∃ sent sent' buf buf', codingToBuf windows protoMsg = some (.ERR_NONE, sent, buf) ∧
    codingToBuf linux64 protoMsg = some (.ERR_NONE, sent', buf') ∧
    adler32 windows (covered buf) = adler32 linux64 (covered buf) ∧
    (∀ r, decoded linux64 π buf = some r → r.1 ≠ .ERR_CHECK_SUM) ∧
    ∀ r, decoded windows π buf' = some r → r.1 ≠ .ERR_CHECK_SUM

lemma frameBody_builds (n : ℕ) (name payload : List UInt8) :
    frameBody windows n name payload = frameBody linux64 n name payload := by
  unfold frameBody
  simp only [wire_congr (show windows.bigEndian = linux64.bigEndian from rfl)]

/-- **Builds**: a frame crosses between the Windows build and the Linux build exactly when the
signs of the sums over what its checksum covers agree. -/
theorem checksAgree_iff {protoMsg : ProtoRpcMessage π} {message : π.Message}
    {payload : List UInt8} (hmsg : protoMsg.protoMsgPtr = some message)
    (henc : Encodable message payload) : ChecksAgree protoMsg ↔
      SignsAgree (frameBody linux64 protoMsg.ulSequeNum (π.GetTypeName message) payload) := by
  have hlen := length_frameBody linux64 protoMsg.ulSequeNum (π.GetTypeName message) payload
  have hbody := frameBody_builds protoMsg.ulSequeNum (π.GetTypeName message) payload
  have hwin := codingToBuf_eq hmsg henc windows
  have hlin := codingToBuf_eq hmsg henc linux64
  rw [← adler32_builds_iff (by omega)]
  constructor
  · rintro ⟨sent, sent', buf, buf', hw, -, hsum, -⟩
    rw [hwin] at hw
    simp only [Option.some.injEq, Prod.mk.injEq, true_and] at hw
    obtain ⟨-, rfl⟩ := hw
    rwa [covered_frame henc.total, hbody] at hsum
  · intro hsum
    have hsame : frame windows protoMsg.ulSequeNum (π.GetTypeName message) payload =
        frame linux64 protoMsg.ulSequeNum (π.GetTypeName message) payload := by
      unfold frame
      rw [hbody, hsum, wire_congr (show windows.bigEndian = linux64.bigEndian from rfl)]
    refine ⟨_, _, _, _, hwin, hlin, ?_, ?_, ?_⟩
    · rw [covered_frame henc.total, hbody, hsum]
    · rw [hsame, decoded_frame henc.total]
      exact fun r => decodedFrame_ne_checkSum
    · rw [← hsame, decoded_frame henc.total]
      exact fun r => decodedFrame_ne_checkSum

/-- A message with a text field of ten Chinese characters. -/
def chineseText : List UInt8 := [10, 30] ++ (List.replicate 10 [228, 184, 173]).flatten

def chineseCall : ProtoRpcMessage (rawProtobuf [[112, 46, 65]]) :=
  ⟨7, 0, [], 0, some ([112, 46, 65], chineseText), 0⟩

lemma chineseText_encodable :
    Encodable (π := rawProtobuf [[112, 46, 65]]) ([112, 46, 65], chineseText) chineseText :=
  ⟨by decide, by decide, by decide⟩

theorem chineseCall_checksAgree_iff :
    ChecksAgree chineseCall ↔ SignsAgree (frameBody linux64 7 [112, 46, 65] chineseText) := by
  have hmsg : chineseCall.protoMsgPtr = some ([112, 46, 65], chineseText) := rfl
  have h := checksAgree_iff hmsg chineseText_encodable
  exact h

/-- The builds compute different checksums over it. -/
theorem chineseCall_checks_differ : ¬ ChecksAgree chineseCall := by
  rintro ⟨sent, sent', buf, buf', hw, -, hsum, -⟩
  have hne : (codingToBuf windows chineseCall).map (fun r =>
      decide (adler32 windows (covered r.2.2) = adler32 linux64 (covered r.2.2))) = some false := by
    decide +kernel
  rw [hw] at hne
  simp [hsum] at hne

end MmrService.BufConvert
