import Mathlib.Data.List.Basic
import Mathlib.Tactic.Common

/-!
A stream cut into packages.

A head function says what a stream begins with: a whole package, less than one, or something at
which the cutting stops. It is stable if what follows does not change what it said. Then the
stream may be cut as it comes in, piece by piece.
-/

namespace Framing

variable {α ε : Type}

/-- What a stream begins with. -/
inductive Head (ε : Type) where
  | incomplete
  | package (n : ℕ)
  | stop (e : ε)

variable {head : List α → Head ε} {s t r r' : List α} {ps qs : List (List α)} {n : ℕ} {e : ε}

structure Stable (head : List α → Head ε) : Prop where
  length {s : List α} {n : ℕ} : head s = .package n → 0 < n ∧ n ≤ s.length
  append {s : List α} (t : List α) : head s ≠ .incomplete → head (s ++ t) = head s

lemma Stable.package (hst : Stable head) (t : List α) (h : head s = .package n) :
    head (s ++ t) = .package n :=
  (hst.append t fun hs => by cases h.symm.trans hs).trans h

lemma Stable.stop (hst : Stable head) (t : List α) (h : head s = .stop e) :
    head (s ++ t) = .stop e :=
  (hst.append t fun hs => by cases h.symm.trans hs).trans h

/-- A stream is some packages and a rest that does not begin with one. -/
inductive Frames (head : List α → Head ε) : List α → List (List α) → List α → Prop
  | rest {s : List α} : (∀ n, head s ≠ .package n) → Frames head s [] s
  | next {s r : List α} {n : ℕ} {ps : List (List α)} : head s = .package n →
      Frames head (s.drop n) ps r → Frames head s (s.take n :: ps) r

namespace Frames

lemma flatten (h : Frames head s ps r) : ps.flatten ++ r = s := by
  induction h with
  | rest => rfl
  | next _ _ ih => rw [List.flatten_cons, List.append_assoc, ih, List.take_append_drop]

lemma not_package (h : Frames head s ps r) : ∀ n, head r ≠ .package n := by
  induction h with
  | rest hs => exact hs
  | next _ _ ih => exact ih

/-- There is one way to cut a stream. -/
lemma unique (h : Frames head s ps r) (h' : Frames head s qs r') : ps = qs ∧ r = r' := by
  induction h generalizing qs with
  | rest hs =>
    cases h' with
    | rest => exact ⟨rfl, rfl⟩
    | next hn => exact absurd hn (hs _)
  | next hn _ ih =>
    cases h' with
    | rest hs => exact absurd hn (hs _)
    | next hm h' =>
      obtain rfl := Head.package.inj (hn.symm.trans hm)
      obtain ⟨rfl, rfl⟩ := ih h'
      exact ⟨rfl, rfl⟩

/-- The rest and what comes after it are cut on their own. -/
lemma append (hst : Stable head) (h : Frames head s ps r) (h' : Frames head (r ++ t) qs r') :
    Frames head (s ++ t) (ps ++ qs) r' := by
  induction h with
  | rest => exact h'
  | @next s r n ps hn _ ih =>
    have hlen := (hst.length hn).2
    have hnext := next (hst.package t hn)
      (by rw [List.drop_append_of_le_length hlen]; exact ih h')
    rwa [List.take_append_of_le_length hlen] at hnext

/-- Where the cutting stopped, it stays. -/
lemma stopped (hst : Stable head) (h : Frames head s ps r) (hr : head r = .stop e)
    (t : List α) : Frames head (s ++ t) ps (r ++ t) := by
  have hstop := hst.stop t hr
  have hrest : Frames head (r ++ t) [] (r ++ t) := .rest fun n hn => by rw [hstop] at hn; cases hn
  have happ := h.append hst hrest
  rwa [List.append_nil] at happ

end Frames

/-- Every stream can be cut. -/
lemma exists_frames (hst : Stable head) (s : List α) : ∃ ps r, Frames head s ps r := by
  induction hk : s.length using Nat.strongRecOn generalizing s with
  | ind k ih =>
    cases hs : head s with
    | package n =>
      obtain ⟨hpos, hlen⟩ := hst.length hs
      obtain ⟨ps, r, h⟩ := ih (s.length - n) (by omega) (s.drop n) List.length_drop
      exact ⟨_, r, .next hs h⟩
    | incomplete => exact ⟨[], s, .rest fun n hn => by rw [hs] at hn; cases hn⟩
    | stop e => exact ⟨[], s, .rest fun n hn => by rw [hs] at hn; cases hn⟩

/-- The beginning of a stream is cut into the first of its packages. -/
lemma Frames.of_append (hst : Stable head) (h : Frames head s ps r)
    (h' : Frames head (s ++ t) qs r') : ps <+: qs := by
  obtain ⟨ps', r'', hrest⟩ := exists_frames hst (r ++ t)
  obtain ⟨rfl, -⟩ := (h.append hst hrest).unique h'
  exact List.prefix_append ps ps'

/-- Where the cutting of the beginning stopped, that of the whole stream stops. -/
lemma Frames.stop_of_append (hst : Stable head) (h : Frames head s ps r) (hr : head r = .stop e)
    (h' : Frames head (s ++ t) qs r') : head r' = .stop e := by
  obtain ⟨-, rfl⟩ := (h.stopped hst hr t).unique h'
  exact hst.stop t hr

/-- A list that is one package wherever it stands. -/
def Whole (head : List α → Head ε) (p : List α) : Prop :=
  ∀ t, head (p ++ t) = .package p.length

/-- A stream of whole packages is cut into them. -/
lemma frames_flatten (hps : ∀ p ∈ ps, Whole head p) (hr : ∀ n, head r ≠ .package n) :
    Frames head (ps.flatten ++ r) ps r := by
  induction ps with
  | nil => exact .rest hr
  | cons p ps ih =>
    have hnext := Frames.next (hps p (List.mem_cons_self ..) (ps.flatten ++ r))
      (by rw [List.drop_left]; exact ih fun q hq => hps q (List.mem_cons_of_mem _ hq))
    rwa [List.take_left, ← List.append_assoc] at hnext

/-! ### Packages of one length -/

def fixedHead (n : ℕ) (s : List α) : Head ε := if n ≤ s.length then .package n else .incomplete

lemma fixedHead_of_le (h : n ≤ s.length) : (fixedHead n s : Head ε) = .package n := if_pos h

lemma fixedHead_of_lt (h : s.length < n) : (fixedHead n s : Head ε) = .incomplete :=
  if_neg (Nat.not_le.mpr h)

lemma stable_fixedHead (hn : 0 < n) : Stable (fixedHead n : List α → Head ε) where
  length {s m} h := by
    rcases Nat.lt_or_ge s.length n with hlt | hle
    · rw [fixedHead_of_lt hlt] at h
      cases h
    · rw [fixedHead_of_le hle] at h
      cases h
      exact ⟨hn, hle⟩
  append {s} t h := by
    have hle : n ≤ s.length := Nat.not_lt.mp fun hlt => h (fixedHead_of_lt hlt)
    rw [fixedHead_of_le hle, fixedHead_of_le (by rw [List.length_append]; omega)]

/-! ### Packages that end with a delimiter -/

variable {d : List α} {limit i j : ℕ}

lemma add_length_le (hd : d ≠ []) (h : d <+: s.drop i) : i + d.length ≤ s.length := by
  have hle := h.length_le
  rw [List.length_drop] at hle
  have := List.length_pos_iff.mpr hd
  omega

/-- An occurrence does not depend on what comes after it. -/
lemma prefix_drop_append (h : i + d.length ≤ s.length) :
    d <+: (s ++ t).drop i ↔ d <+: s.drop i := by
  rw [List.drop_append_of_le_length (by omega)]
  refine ⟨fun hp => ?_, fun hp => hp.trans (List.prefix_append _ _)⟩
  exact List.prefix_of_prefix_length_le hp (List.prefix_append _ _)
    (by rw [List.length_drop]; omega)

variable [DecidableEq α]

/-- Where a list first occurs in another one. -/
def firstAt (d s : List α) : Option ℕ :=
  (List.range (s.length + 1)).find? fun i => d.isPrefixOf (s.drop i)

lemma firstAt_eq_some (hd : d ≠ []) :
    firstAt d s = some i ↔ d <+: s.drop i ∧ ∀ j < i, ¬ d <+: s.drop j := by
  simp only [firstAt, List.find?_range_eq_some, List.isPrefixOf_iff_prefix, List.mem_range,
    Bool.not_eq_eq_eq_not, Bool.not_true, ← Bool.not_eq_true]
  refine and_congr_right fun h => and_iff_right ?_
  have := add_length_le hd h
  omega

lemma firstAt_eq_none (hd : d ≠ []) : firstAt d s = none ↔ ∀ j, ¬ d <+: s.drop j := by
  simp only [firstAt, List.find?_range_eq_none, List.isPrefixOf_iff_prefix,
    Bool.not_eq_eq_eq_not, Bool.not_true, ← Bool.not_eq_true]
  refine ⟨fun h j hj => h j ?_ hj, fun h j _ => h j⟩
  have := add_length_le hd hj
  omega

lemma firstAt_append (hd : d ≠ []) (h : firstAt d s = some i) (t : List α) :
    firstAt d (s ++ t) = some i := by
  obtain ⟨hi, hj⟩ := (firstAt_eq_some hd).mp h
  have hlen := add_length_le hd hi
  refine (firstAt_eq_some hd).mpr ⟨(prefix_drop_append hlen).mpr hi, fun j hji hp => ?_⟩
  exact hj j hji ((prefix_drop_append (by omega)).mp hp)

/-- The package that ends with the first `d`, which has to end within the limit. -/
def delimiterHead (d : List α) (limit : ℕ) (e : ε) (s : List α) : Head ε :=
  match firstAt d (s.take limit) with
  | some i => .package (i + d.length)
  | none => if limit ≤ s.length then .stop e else .incomplete

lemma delimiterHead_some (h : firstAt d (s.take limit) = some i) :
    delimiterHead d limit e s = .package (i + d.length) := by
  rw [delimiterHead, h]

lemma delimiterHead_none (h : firstAt d (s.take limit) = none) :
    delimiterHead d limit e s = if limit ≤ s.length then .stop e else .incomplete := by
  rw [delimiterHead, h]

lemma delimiterHead_of_not_package (h : ∀ n, delimiterHead d limit e s ≠ .package n) :
    delimiterHead d limit e s = if limit ≤ s.length then .stop e else .incomplete := by
  cases hi : firstAt d (s.take limit) with
  | none => exact delimiterHead_none hi
  | some i => exact absurd (delimiterHead_some hi) (h _)

/-- A text in front of its delimiter is a package, whatever follows. -/
lemma whole_delimited {text : List α} (hd : d ≠ []) (hlimit : (text ++ d).length ≤ limit)
    (hnot : ∀ j < text.length, ¬ d <+: (text ++ d).drop j) :
    Whole (delimiterHead d limit e) (text ++ d) := by
  intro t
  have hfirst : firstAt d (text ++ d) = some text.length := by
    rw [firstAt_eq_some hd, List.drop_left]
    exact ⟨List.prefix_refl d, hnot⟩
  have htake : (text ++ d ++ t).take limit = text ++ d ++ t.take (limit - (text ++ d).length) := by
    rw [List.take_append, List.take_of_length_le hlimit]
  rw [delimiterHead_some (by rw [htake]; exact firstAt_append hd hfirst _), List.length_append]

lemma stable_delimiterHead (hd : d ≠ []) (limit : ℕ) (e : ε) :
    Stable (delimiterHead d limit e) where
  length {s n} h := by
    cases hi : firstAt d (s.take limit) with
    | none =>
      rw [delimiterHead_none hi] at h
      split at h <;> cases h
    | some i =>
      rw [delimiterHead_some hi] at h
      cases h
      have hlen := add_length_le hd ((firstAt_eq_some hd).mp hi).1
      have := List.length_pos_iff.mpr hd
      rw [List.length_take] at hlen
      omega
  append {s} t h := by
    cases hi : firstAt d (s.take limit) with
    | none =>
      rw [delimiterHead_none hi] at h ⊢
      have hle : limit ≤ s.length := Decidable.of_not_not fun hlt => h (if_neg hlt)
      rw [delimiterHead_none (by rw [List.take_append_of_le_length hle, hi]), if_pos hle,
        if_pos (by rw [List.length_append]; omega)]
    | some i =>
      have happ := firstAt_append hd hi (t.take (limit - s.length))
      rw [← List.take_append] at happ
      rw [delimiterHead_some happ, delimiterHead_some hi]

end Framing
