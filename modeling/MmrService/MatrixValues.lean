import MmrService.MatrixFits

/-!
`Matrix::setValue`: which element it sets, and which others.

The guard lets the row and the column behind the last one pass. A column behind the last one
is the first of the next row; a row behind the last one is not an element.
-/

namespace MmrService.Matrices

open Transition

variable {sizeofTy ulExpiredTime ulMaxCache : ℕ} {memory memory' : Memory} {m : Matrix}
  {s : State} {r c r' c' : UInt32} {value : List UInt8}

variable (sizeofTy) in
/-- A call returns true exactly for an element, which it sets and no other; one that returns
false changes nothing. -/
def SetsValue (memory : Memory) (m : Matrix) (r c : UInt32) (value : List UInt8) : Prop :=
  ∃ done memory', m.setValue sizeofTy memory r c value = some (done, memory') ∧
    (done = true ↔ m.InRange r c) ∧
    (done = true → m.get sizeofTy memory' r c = some value ∧
      ∀ r' c', m.InRange r' c' → (r', c') ≠ (r, c) →
        m.get sizeofTy memory' r' c' = m.get sizeofTy memory r' c') ∧
    (done = false → memory' = memory) ∧ memory'.allocator = memory.allocator ∧
    ∀ p, m.m_ptrBegin ≠ some p → memory'.bytes p = memory.bytes p

variable (sizeofTy) in
/-- The guard refuses the indices, or they are those of an element that is inside the storage
and shares its place with no other one, unless it has the value already. -/
def SetSafe (memory : Memory) (m : Matrix) (r c : UInt32) (value : List UInt8) : Prop :=
  (m.m_ulRowCount < r ∨ m.m_ulColCount < c) ∨
    (m.InRange r c ∧ ((m.flatIndex r c).toNat + 1) * sizeofTy ≤ m.storage memory ∧
      ∀ r' c', m.InRange r' c' → (r', c') ≠ (r, c) → m.flatIndex r' c' = m.flatIndex r c →
        m.get sizeofTy memory r c = some value)

/-! ### Reading and storing -/

lemma get_eq {p : ℕ} {block : List UInt8} (hp : m.m_ptrBegin = some p)
    (hblock : memory.bytes p = some block) (h : m.InRange r c) :
    m.get sizeofTy memory r c =
      if ((m.flatIndex r c).toNat + 1) * sizeofTy ≤ block.length then
        some (Bytes.slice block ((m.flatIndex r c).toNat * sizeofTy) sizeofTy)
      else none := by
  simp only [Matrix.get, hp, Option.bind_eq_bind, Option.bind_some, hblock, h, true_and]

/-- Elements at one place have one value. -/
lemma get_of_flatIndex (h : m.InRange r c) (h' : m.InRange r' c')
    (heq : m.flatIndex r' c' = m.flatIndex r c) :
    m.get sizeofTy memory r' c' = m.get sizeofTy memory r c := by
  simp only [Matrix.get, h, h', heq]

/-- What a store does to the elements. -/
structure Stored (sizeofTy : ℕ) (memory memory' : Memory) (m : Matrix) (r c : UInt32)
    (value : List UInt8) : Prop where
  inside : ((m.flatIndex r c).toNat + 1) * sizeofTy ≤ m.storage memory
  here : m.InRange r c → m.get sizeofTy memory' r c = some value
  there : ∀ r' c', m.InRange r' c' → m.flatIndex r' c' ≠ m.flatIndex r c →
    m.get sizeofTy memory' r' c' = m.get sizeofTy memory r' c'
  outside : ∀ p, m.m_ptrBegin ≠ some p → memory'.bytes p = memory.bytes p

lemma store_stored (hv : value.length = sizeofTy)
    (h : m.store sizeofTy memory r c value = some memory') :
    Stored sizeofTy memory memory' m r c value := by
  unfold Matrix.store at h
  simp only [Option.bind_eq_bind, Option.bind_eq_some_iff] at h
  obtain ⟨p, hp, block, hblock, h⟩ := h
  split_ifs at h with hle
  obtain rfl := Option.some.inj h
  have hfit : (m.flatIndex r c).toNat * sizeofTy + value.length ≤ block.length := by
    rw [Nat.succ_mul] at hle
    omega
  have hlen := Bytes.length_patch hfit
  refine ⟨?_, fun hin => ?_, fun r' c' hin hne => ?_, fun q hq => ?_⟩
  · rw [Matrix.storage, hp, Option.bind_some, hblock]
    exact hle
  · rw [get_eq hp (Memory.bytes_set_self ..) hin, hlen, if_pos hle,
      Bytes.slice_patch_self (by rw [Nat.succ_mul] at hle; exact hle) hv]
  · rw [get_eq hp (Memory.bytes_set_self ..) hin, get_eq hp hblock hin, hlen]
    have hidx : (m.flatIndex r' c').toNat ≠ (m.flatIndex r c).toNat :=
      fun heq => hne (UInt32.toNat_inj.mp heq)
    split_ifs with hle'
    · rcases Nat.lt_or_gt_of_ne hidx with hlt | hgt
      · have hbefore := Nat.mul_le_mul_right sizeofTy (Nat.succ_le_of_lt hlt)
        rw [Nat.succ_mul] at hbefore
        rw [Bytes.slice_patch_before hfit hbefore]
      · have hafter := Nat.mul_le_mul_right sizeofTy (Nat.succ_le_of_lt hgt)
        rw [Nat.succ_mul] at hafter
        rw [Bytes.slice_patch_after hfit (by omega)]
    · rfl
  · refine Memory.bytes_set_of_ne ?_ _ _
    rintro rfl
    exact hq hp

lemma store_some (hpos : 0 < sizeofTy)
    (h : ((m.flatIndex r c).toNat + 1) * sizeofTy ≤ m.storage memory) :
    ∃ memory', m.store sizeofTy memory r c value = some memory' := by
  obtain ⟨p, block, hp, hblock, hle⟩ := exists_block (Nat.mul_pos (Nat.succ_pos _) hpos) h
  refine Option.isSome_iff_exists.mp ?_
  simp only [Matrix.store, hp, Option.bind_eq_bind, Option.bind_some, hblock]
  rw [if_pos hle]
  rfl

/-! ### Setting a value -/

lemma setsValue_iff_of_length (hpos : 0 < sizeofTy) (hv : value.length = sizeofTy) :
    SetsValue sizeofTy memory m r c value ↔ SetSafe sizeofTy memory m r c value := by
  by_cases hguard : m.m_ulRowCount < r ∨ m.m_ulColCount < c
  · -- the indices are refused, and they are those of no element
    refine iff_of_true ⟨false, memory, ?_, ?_, by simp, by simp, rfl, fun p _ => rfl⟩ (.inl hguard)
    · rw [Matrix.setValue, if_pos hguard]
    · refine iff_of_false (by simp) ?_
      rintro ⟨hr, hc⟩
      rcases hguard with hg | hg
      · exact absurd hr (UInt32.lt_asymm hg)
      · exact absurd hc (UInt32.lt_asymm hg)
  · have hset : m.setValue sizeofTy memory r c value =
        (m.store sizeofTy memory r c value).map (true, ·) := by
      rw [Matrix.setValue, if_neg hguard]
    constructor
    · rintro ⟨done, memory', hdone, hrange, htrue, -⟩
      rw [hset] at hdone
      obtain ⟨memory₁, hstore, heq⟩ := Option.map_eq_some_iff.mp hdone
      obtain ⟨rfl, rfl⟩ := Prod.mk.inj heq
      have hin := hrange.mp rfl
      have hstored := store_stored hv hstore
      obtain ⟨hget, hothers⟩ := htrue rfl
      refine .inr ⟨hin, hstored.inside, fun r' c' hin' hne halias => ?_⟩
      rw [← get_of_flatIndex hin hin' halias, ← hothers r' c' hin' hne,
        get_of_flatIndex hin hin' halias, hget]
    · rintro (hg | ⟨hin, hinside, halone⟩)
      · exact absurd hg hguard
      · obtain ⟨memory', hstore⟩ := store_some hpos hinside
        have hstored := store_stored hv hstore
        refine ⟨true, memory', by rw [hset, hstore]; rfl, iff_of_true rfl hin, fun _ => ?_,
          by simp, (store_sameSizes hv hstore).allocator, hstored.outside⟩
        refine ⟨hstored.here hin, fun r' c' hin' hne => ?_⟩
        by_cases halias : m.flatIndex r' c' = m.flatIndex r c
        · rw [get_of_flatIndex hin hin' halias, hstored.here hin,
            get_of_flatIndex hin hin' halias, halone r' c' hin' hne halias]
        · exact hstored.there r' c' hin' halias

/-- In a matrix that fits its storage the elements share no place. -/
lemma setSafe_iff_of_fits (hfits : m.Fits sizeofTy memory) :
    SetSafe sizeofTy memory m r c value ↔
      (m.m_ulRowCount < r ∨ m.m_ulColCount < c) ∨ m.InRange r c := by
  refine or_congr_right ⟨And.left, fun hin => ⟨hin, hfits.inside r c hin, ?_⟩⟩
  intro r' c' hin' hne halias
  obtain ⟨rfl, rfl⟩ := hfits.distinct r' c' r c hin' hin halias
  exact absurd rfl hne

/-- **`setValue` does what it is for exactly if the guard refuses the indices, or they are those
of an element with a place of its own inside the storage.** For a matrix that fits its storage
that leaves the row and the column right behind the last ones, which are not refused. -/
theorem setsValue_iff (hpos : 0 < sizeofTy) {ops : List Op}
    (hs : exec (step sizeofTy) (init ulExpiredTime ulMaxCache) ops = some s) {x : ℕ}
    (hx : s.objects x = some m) (r c : UInt32) (hv : value.length = sizeofTy) :
    (SetsValue sizeofTy s.memory m r c value ↔ SetSafe sizeofTy s.memory m r c value) ∧
      (m.m_ulRowCount.toNat * m.m_ulColCount.toNat * sizeofTy + 1023 < 2 ^ 32 →
        (SetsValue sizeofTy s.memory m r c value ↔
          (m.m_ulRowCount < r ∨ m.m_ulColCount < c) ∨ m.InRange r c)) := by
  have hinv := inv_run hs
  have hiff : SetsValue sizeofTy s.memory m r c value ↔ SetSafe sizeofTy s.memory m r c value :=
    setsValue_iff_of_length hpos hv
  refine ⟨hiff, fun hsmall => hiff.trans (setSafe_iff_of_fits ?_)⟩
  exact (hinv.fits_iff_small hpos hx).mpr hsmall

/-- A matrix of two rows and three columns of four bytes. -/
def twoByThree : List Op := [.constructSized 0 2 3 ⟨1, fun _ => 0, 0, 0⟩]

lemma twoByThree_ends :
    (exec (step 4) (init 60 64) twoByThree).bind (fun s => (s.objects 0).map fun m =>
      (m.m_ulRowCount, m.m_ulColCount, m.setValue 4 s.memory 0 3 [7, 0, 0, 0] |>.map Prod.fst)) =
      some (2, 3, some true) := by
  decide +kernel

/-- The last element is set, and there is nothing to set in the third row behind the last one. -/
theorem setsValue_twoByThree :
    ∃ s m, exec (step 4) (init 60 64) twoByThree = some s ∧ s.objects 0 = some m ∧
      SetsValue 4 s.memory m 1 2 [7, 0, 0, 0] ∧ SetsValue 4 s.memory m 3 0 [7, 0, 0, 0] := by
  obtain ⟨s, hs, he⟩ := Option.bind_eq_some_iff.mp twoByThree_ends
  obtain ⟨m, hm, hshape⟩ := Option.map_eq_some_iff.mp he
  obtain ⟨hrow, hshape⟩ := Prod.mk.inj hshape
  have hcol := (Prod.mk.inj hshape).1
  have hsmall : m.m_ulRowCount.toNat * m.m_ulColCount.toNat * 4 + 1023 < 2 ^ 32 := by
    rw [hrow, hcol]
    decide
  refine ⟨s, m, hs, hm, ?_, ?_⟩
  · refine ((setsValue_iff (by decide) hs hm 1 2 rfl).2 hsmall).mpr (.inr ?_)
    rw [Matrix.InRange, hrow, hcol]
    decide
  · refine ((setsValue_iff (by decide) hs hm 3 0 rfl).2 hsmall).mpr (.inl (.inl ?_))
    rw [hrow]
    decide

/-- The column behind the last one is taken for the next row's first, and true is returned. -/
theorem twoByThree_next_row :
    ∃ s m, exec (step 4) (init 60 64) twoByThree = some s ∧ s.objects 0 = some m ∧
      ¬ SetsValue 4 s.memory m 0 3 [7, 0, 0, 0] := by
  obtain ⟨s, hs, he⟩ := Option.bind_eq_some_iff.mp twoByThree_ends
  obtain ⟨m, hm, hshape⟩ := Option.map_eq_some_iff.mp he
  obtain ⟨hrow, hshape⟩ := Prod.mk.inj hshape
  obtain ⟨hcol, htrue⟩ := Prod.mk.inj hshape
  refine ⟨s, m, hs, hm, ?_⟩
  rintro ⟨done, memory', hdone, hrange, -⟩
  rw [hdone, Option.map_some] at htrue
  have hin := hrange.mp (Option.some.inj htrue)
  rw [Matrix.InRange, hrow, hcol] at hin
  exact absurd hin (by decide)

end MmrService.Matrices
