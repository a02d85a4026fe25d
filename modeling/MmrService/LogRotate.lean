import MmrService.LogFiles
import Mathlib

/-!
What one rotation of the log files does to the directory: every numbered file goes up one
number, the log takes number one and a new log is begun. The loop goes from the largest
number down, so the name a file is given has always been left free before.
-/

namespace MmrService.LogFiles

/-- The directory after one rotation over `fileNum` numbered files. -/
structure Rotated (fs fs' : Files) (path : String) (fileNum : ℕ) : Prop where
  moved : ∀ k : ℕ, 1 ≤ k → k < fileNum → fs' (numbered path (k + 1)) = fs (numbered path k)
  first : fs' (numbered path 1) = fs path
  fresh : fs' path = some []
  kept : ∀ p bs, fs p = some bs → p ≠ numbered path fileNum → ∃ p', fs' p' = some bs
  untouched : ∀ p, p ≠ path → (∀ k : ℕ, 1 ≤ k → k ≤ fileNum → p ≠ numbered path k) →
    fs' p = fs p

/-! ### Names -/

lemma numbered_inj {path : String} {i j : ℤ} : numbered path i = numbered path j ↔ i = j := by
  constructor
  · intro h
    exact Int.repr_injective ((String.append_right_inj (path ++ ".")).mp h)
  · rintro rfl
    rfl

lemma numbered_ne_path (path : String) (i : ℤ) : numbered path i ≠ path := by
  intro h
  have hlen := congrArg String.length h
  simp only [numbered, String.length_append] at hlen
  have hdot : ".".length = 1 := rfl
  omega

/-! ### One move -/

/-- `remove` under `access` leaves the name free. -/
lemma remove_eq (fs : Files) (p : String) :
    (if access fs p then remove fs p else fs) = Function.update fs p none := by
  cases hp : fs p with
  | none =>
    have hacc : access fs p = false := by rw [access, hp]; rfl
    rw [hacc, if_neg Bool.false_ne_true, ← hp, Function.update_eq_self]
  | some bs =>
    have hacc : access fs p = true := by rw [access, hp]; rfl
    rw [hacc, if_pos rfl, remove]

/-- `rename` under `access`, to a free name, takes the content along whether the file exists
or not. -/
lemma rename_eq {fs : Files} {old new : String} (hne : old ≠ new) (hnew : fs new = none) :
    (if access fs old then rename fs old new else fs) =
      Function.update (Function.update fs new (fs old)) old none := by
  cases hold : fs old with
  | none =>
    have hacc : access fs old = false := by rw [access, hold]; rfl
    rw [hacc, if_neg Bool.false_ne_true, ← hnew, Function.update_eq_self, hnew, ← hold,
      Function.update_eq_self]
  | some bs =>
    have hacc : access fs old = true := by rw [access, hold]; rfl
    rw [hacc, if_pos rfl, rename, hold]
    exact if_neg hne

/-! ### The loop -/

/-- The loop over the numbers from `n` down: `log.(n+1)` was free, `log.1` is free after it. -/
structure Shifted (fs fs' : Files) (path : String) (n : ℕ) : Prop where
  moved : ∀ k : ℕ, 1 ≤ k → k ≤ n → fs' (numbered path (k + 1)) = fs (numbered path k)
  free : fs' (numbered path 1) = none
  untouched : ∀ p, (∀ k : ℕ, 1 ≤ k → k ≤ n + 1 → p ≠ numbered path k) → fs' p = fs p

lemma shift_shifted (path : String) (n : ℕ) : ∀ fs : Files, fs (numbered path (n + 1)) = none →
    ∃ fs', shift path n fs (numbered path (n + 1)) = (fs', numbered path 1) ∧
      Shifted fs fs' path n := by
  induction n with
  | zero =>
    intro fs hfree
    refine ⟨fs, by simp [shift], fun k h1 h0 => absurd h1 (by omega), ?_, fun p _ => rfl⟩
    simpa using hfree
  | succ n ih =>
    intro fs hfree
    have hne : numbered path ((n : ℤ) + 1) ≠ numbered path (((n + 1 : ℕ) : ℤ) + 1) := by
      intro h
      have := numbered_inj.mp h
      push_cast at this
      omega
    have hstep := rename_eq hne hfree
    -- the file one below takes the free name, and its own is free for the next
    obtain ⟨fs₁, hfs₁⟩ : ∃ fs₁, fs₁ = (if access fs (numbered path ((n : ℤ) + 1)) then
        rename fs (numbered path ((n : ℤ) + 1)) (numbered path (((n + 1 : ℕ) : ℤ) + 1))
      else fs) := ⟨_, rfl⟩
    have hshift : shift path (n + 1) fs (numbered path (((n + 1 : ℕ) : ℤ) + 1)) =
        shift path n fs₁ (numbered path ((n : ℤ) + 1)) := by rw [shift, hfs₁]
    rw [hstep] at hfs₁
    have hold : fs₁ (numbered path ((n : ℤ) + 1)) = none := by
      rw [hfs₁, Function.update_self]
    have hnew : fs₁ (numbered path (((n + 1 : ℕ) : ℤ) + 1)) = fs (numbered path ((n : ℤ) + 1)) := by
      rw [hfs₁, Function.update_of_ne hne.symm, Function.update_self]
    have hother : ∀ p, p ≠ numbered path ((n : ℤ) + 1) →
        p ≠ numbered path (((n + 1 : ℕ) : ℤ) + 1) → fs₁ p = fs p := by
      intro p hp hp'
      rw [hfs₁, Function.update_of_ne hp, Function.update_of_ne hp']
    obtain ⟨fs₂, hrest, hmoved, hfree', hunt⟩ := ih fs₁ hold
    refine ⟨fs₂, hshift.trans hrest, ?_, hfree', ?_⟩
    · intro k h1 hk
      rcases Nat.lt_or_ge n k with hlt | hle
      · -- the topmost file is not touched by the rest of the loop
        obtain rfl : k = n + 1 := by omega
        rw [hunt, hnew]
        · push_cast; rfl
        · intro j _ hj h
          have := numbered_inj.mp h
          push_cast at this
          omega
      · rw [hmoved k h1 hle]
        refine hother _ (fun h => ?_) (fun h => ?_)
        all_goals
          have := numbered_inj.mp h
          push_cast at this
          omega
    · intro p hp
      rw [hunt p (fun k h1 hk => hp k h1 (by omega))]
      have hlow := hp (n + 1) (by omega) (by omega)
      have htop := hp (n + 2) (by omega) (by omega)
      push_cast at hlow htop
      refine hother p hlow ?_
      push_cast
      rwa [add_assoc, one_add_one_eq_two]

/-! ### The whole rotation -/

/-- The log takes the name that is free at the end, and an empty log is begun. -/
lemma openApp_rename {fs : Files} {path new : String} {bs : List UInt8} (hpath : fs path = some bs)
    (hne : new ≠ path) :
    openApp (rename fs path new) path =
      Function.update (Function.update fs new (some bs)) path (some []) := by
  have hren : rename fs path new =
      Function.update (Function.update fs new (some bs)) path none := by
    rw [rename, hpath]
    exact if_neg hne.symm
  have hacc : access (rename fs path new) path = false := by
    rw [access, hren, Function.update_self]
    rfl
  rw [openApp, hacc, if_neg Bool.false_ne_true, hren, Function.update_idem]

lemma some_of_tellp {fs : Files} {path : String} {size : ℕ} (h : size < tellp fs path) :
    ∃ bs, fs path = some bs := by
  cases hp : fs path with
  | none =>
    rw [tellp, hp] at h
    exact absurd h (Nat.not_lt_zero _)
  | some bs => exact ⟨bs, rfl⟩

/-- A rotation starts from the log's largest number, which is free by then. -/
lemma fileSizeCheck_eq {fs fs₁ : Files} {path new : String} {fileNum size : ℕ}
    (hsize : size < tellp fs path) (hnum : Word.toInt 32 fileNum ≠ -2 ^ 31)
    (hshift : shift path (Word.toInt 32 fileNum - 1).toNat
      (Function.update fs (numbered path (Word.toInt 32 fileNum)) none)
      (numbered path (Word.toInt 32 fileNum)) = (fs₁, new)) :
    fileSizeCheck fs path fileNum size = some (openApp (rename fs₁ path new) path) := by
  unfold fileSizeCheck
  rw [if_neg (Nat.not_le.mpr hsize), if_neg hnum, remove_eq, hshift]

/-- For a file count that fits an `int32_t` a rotation does what it is for. -/
lemma rotated_of_lt {fs : Files} {path : String} {fileNum size : ℕ} (hpos : 1 ≤ fileNum)
    (hlt : fileNum < 2 ^ 31) (hsize : size < tellp fs path) :
    ∃ fs', fileSizeCheck fs path fileNum size = some fs' ∧ Rotated fs fs' path fileNum := by
  obtain ⟨n, rfl⟩ : ∃ n, fileNum = n + 1 := ⟨fileNum - 1, by omega⟩
  obtain ⟨bs, hbs⟩ := some_of_tellp hsize
  have hint : Word.toInt 32 (n + 1) = (n : ℤ) + 1 := by
    rw [Word.toInt_natCast (by omega)]
    push_cast
    rfl
  obtain ⟨fs₁, hshift, hmoved, -, hunt⟩ := shift_shifted path n
    (Function.update fs (numbered path (n + 1)) none) (Function.update_self ..)
  have heq : fileSizeCheck fs path (n + 1) size =
      some (openApp (rename fs₁ path (numbered path 1)) path) := by
    refine fileSizeCheck_eq hsize (by rw [hint]; omega) ?_
    rw [hint, show ((n : ℤ) + 1 - 1).toNat = n by omega, hshift]
  -- the loop has left the log itself alone
  have hpath : fs₁ path = some bs := by
    rw [hunt path fun k _ _ => (numbered_ne_path path k).symm,
      Function.update_of_ne (numbered_ne_path path _).symm, hbs]
  have hmid : ∀ k : ℕ, 1 ≤ k → k ≤ n → fs₁ (numbered path (k + 1)) = fs (numbered path k) := by
    intro k h1 hk
    rw [hmoved k h1 hk, Function.update_of_ne]
    intro h
    have := numbered_inj.mp h
    omega
  rw [openApp_rename hpath (numbered_ne_path path 1)] at heq
  obtain ⟨fs', hfs'⟩ : ∃ fs', fs' = Function.update
    (Function.update fs₁ (numbered path 1) (some bs)) path (some []) := ⟨_, rfl⟩
  rw [← hfs'] at heq
  have hup : ∀ k : ℕ, 1 ≤ k → k < n + 1 → fs' (numbered path (k + 1)) = fs (numbered path k) := by
    intro k h1 hk
    rw [hfs', Function.update_of_ne (numbered_ne_path path _), Function.update_of_ne,
      hmid k h1 (by omega)]
    intro h
    have := numbered_inj.mp h
    omega
  have hfirst : fs' (numbered path 1) = fs path := by
    rw [hfs', Function.update_of_ne (numbered_ne_path path 1), Function.update_self, hbs]
  have hother : ∀ p, p ≠ path → (∀ k : ℕ, 1 ≤ k → k ≤ n + 1 → p ≠ numbered path k) →
      fs' p = fs p := by
    intro p hp hk
    have htop := hk (n + 1) (by omega) le_rfl
    have hone := hk 1 le_rfl (by omega)
    push_cast at htop hone
    rw [hfs', Function.update_of_ne hp, Function.update_of_ne hone, hunt p hk,
      Function.update_of_ne htop]
  refine ⟨fs', heq, hup, hfirst, by rw [hfs', Function.update_self], ?_, hother⟩
  intro p cs hcs hp
  rcases Decidable.em (p = path) with rfl | hne
  · exact ⟨_, hfirst.trans hcs⟩
  · rcases Classical.em (∃ k : ℕ, 1 ≤ k ∧ k ≤ n + 1 ∧ p = numbered path k) with
      ⟨k, h1, hk, rfl⟩ | hk
    · have hkn : k ≠ n + 1 := fun h => hp (by rw [h])
      exact ⟨_, (hup k h1 (by omega)).trans hcs⟩
    · exact ⟨p, (hother p hne fun k h1 hk' h => hk ⟨k, h1, hk', h⟩).trans hcs⟩

/-! ### File counts that do not fit -/

/-- Every numbered file, and the one named with the wrapped number, holds what the log
holds. -/
structure Indistinct (fs : Files) (path : String) (fileNum : ℕ) : Prop where
  same : ∀ k : ℕ, 1 ≤ k → k ≤ fileNum → fs (numbered path k) = fs path
  wrapped : fs (numbered path (Word.toInt 32 fileNum)) = fs path

/-- A larger count becomes a negative number, and only the log is renamed. -/
lemma fileSizeCheck_wrapped {fs : Files} {path : String} {fileNum size : ℕ}
    (hge : 2 ^ 31 < fileNum) (h32 : fileNum < 2 ^ 32) (hsize : size < tellp fs path) :
    fileSizeCheck fs path fileNum size = some (Function.update
      (Function.update fs (numbered path (Word.toInt 32 fileNum)) (fs path)) path (some [])) := by
  obtain ⟨bs, hbs⟩ := some_of_tellp hsize
  have hint : Word.toInt 32 fileNum = (fileNum : ℤ) - 2 ^ 32 := Word.toInt_of_ge (by omega) h32
  have hpath : Function.update fs (numbered path (Word.toInt 32 fileNum)) none path = some bs := by
    rw [Function.update_of_ne (numbered_ne_path path _).symm, hbs]
  have hnone : (Word.toInt 32 fileNum - 1).toNat = 0 := by rw [hint]; omega
  rw [fileSizeCheck_eq hsize (by rw [hint]; omega) (by rw [hnone, shift]),
    openApp_rename hpath (numbered_ne_path path _), Function.update_idem, hbs]

/-- That is a rotation only where all these files hold the same bytes. -/
lemma rotated_wrapped_iff {fs : Files} {path : String} {fileNum : ℕ} (hge : 2 ^ 31 < fileNum)
    (h32 : fileNum < 2 ^ 32) :
    Rotated fs (Function.update (Function.update fs (numbered path (Word.toInt 32 fileNum))
      (fs path)) path (some [])) path fileNum ↔ Indistinct fs path fileNum := by
  obtain ⟨top, htop⟩ : ∃ top, top = numbered path (Word.toInt 32 fileNum) := ⟨_, rfl⟩
  rw [← htop]
  have hneg : ∀ k : ℕ, numbered path k ≠ top := by
    intro k h
    rw [htop] at h
    have := numbered_inj.mp h
    rw [Word.toInt_of_ge (by omega) h32] at this
    omega
  have hnames : ∀ k : ℕ, Function.update (Function.update fs top (fs path)) path (some [])
      (numbered path k) = fs (numbered path k) := by
    intro k
    rw [Function.update_of_ne (numbered_ne_path path k), Function.update_of_ne (hneg k)]
  have htoppath : top ≠ path := htop ▸ numbered_ne_path path _
  constructor
  · intro hr
    refine ⟨?_, ?_⟩
    · intro k h1
      induction k, h1 using Nat.le_induction with
      | base => intro _; rw [← hnames 1]; exact hr.first
      | succ k h1 ih =>
        intro hk
        have hmoved := hr.moved k h1 hk
        have hname := hnames (k + 1)
        push_cast at hname
        push_cast
        rw [← hname, hmoved, ih (by omega)]
    · rw [← htop, ← hr.untouched top htoppath fun k _ _ => (hneg k).symm,
        Function.update_of_ne htoppath, Function.update_self]
  · rintro ⟨hsame, hwrap⟩
    rw [← htop] at hwrap
    have hrest : ∀ p, p ≠ path → Function.update (Function.update fs top (fs path)) path (some [])
        p = fs p := by
      intro p hp
      rw [Function.update_of_ne hp, ← hwrap, Function.update_eq_self]
    refine ⟨?_, ?_, Function.update_self .., ?_, fun p hp _ => hrest p hp⟩
    · intro k h1 hk
      have hnext := hsame (k + 1) (by omega) hk
      push_cast at hnext
      rw [hrest _ (numbered_ne_path path _), hnext, hsame k h1 hk.le]
    · rw [hrest _ (numbered_ne_path path 1)]
      exact hsame 1 le_rfl (by omega)
    · intro p bs hp _
      rcases Decidable.em (p = path) with rfl | hne
      · exact ⟨top, by rw [hrest top htoppath, hwrap, hp]⟩
      · exact ⟨p, by rw [hrest p hne, hp]⟩

/-- **A rotation moves every file up one number exactly if the file count fits an
`int32_t`.** A larger one becomes a negative number: the log is then renamed to that and no
other file is moved, which is the same only where all these files hold the same bytes. -/
theorem rotated_iff {fs : Files} {path : String} {fileNum size : ℕ} (hpos : 1 ≤ fileNum)
    (h32 : fileNum < 2 ^ 32) (hsize : size < tellp fs path) :
    (∃ fs', fileSizeCheck fs path fileNum size = some fs' ∧ Rotated fs fs' path fileNum) ↔
      fileNum < 2 ^ 31 ∨ (fileNum ≠ 2 ^ 31 ∧ Indistinct fs path fileNum) := by
  rcases Nat.lt_trichotomy fileNum (2 ^ 31) with hlt | heq | hgt
  · exact iff_of_true (rotated_of_lt hpos hlt hsize) (Or.inl hlt)
  · refine iff_of_false ?_ ?_
    · rintro ⟨fs', h, -⟩
      have hint : Word.toInt 32 fileNum = -2 ^ 31 := by rw [heq]; rfl
      unfold fileSizeCheck at h
      rw [if_neg (Nat.not_le.mpr hsize), if_pos hint] at h
      cases h
    · rintro (hlt | ⟨hne, -⟩)
      · omega
      · exact hne heq
  · rw [fileSizeCheck_wrapped hgt h32 hsize]
    constructor
    · rintro ⟨fs', h, hr⟩
      obtain rfl := Option.some.inj h
      exact Or.inr ⟨by omega, (rotated_wrapped_iff hgt h32).mp hr⟩
    · rintro (hlt | ⟨-, hsame⟩)
      · omega
      · exact ⟨_, rfl, (rotated_wrapped_iff hgt h32).mpr hsame⟩

/-- A log with one byte and two numbered files, number one missing. -/
def gapped : Files := fun p =>
  if p = "log" then some [0]
  else if p = "log.2" then some [2]
  else if p = "log.3" then some [3]
  else none

theorem gapped_rotated :
    ∃ fs', fileSizeCheck gapped "log" 3 0 = some fs' ∧ Rotated gapped fs' "log" 3 :=
  (rotated_iff (by decide) (by decide) (by decide +kernel)).mpr (Or.inl (by decide))

/-- With `m_fileNum` at its largest value the log becomes `log.-1`, and nothing `log.1`. -/
theorem largest_not_rotated :
    ¬ ∃ fs', fileSizeCheck gapped "log" (2 ^ 32 - 1) 0 = some fs' ∧
      Rotated gapped fs' "log" (2 ^ 32 - 1) := by
  rintro ⟨fs', h, hr⟩
  have hfirst : (fileSizeCheck gapped "log" (2 ^ 32 - 1) 0).map
      (fun fs' => fs' (numbered "log" 1)) = some none := by decide +kernel
  rw [h, Option.map_some, Option.some.injEq, hr.first] at hfirst
  revert hfirst
  decide +kernel

end MmrService.LogFiles
