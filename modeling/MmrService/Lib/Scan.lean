import Mathlib.Data.List.Basic
import Mathlib.Data.List.Infix
import Mathlib.Tactic.Common

/-!
Reading a terminated text by position.

A text is a list of characters, and the cell behind the last one holds the terminator; the
cells behind that one are not the text's to read. A reader has one position, which it moves
without looking at the length of the text, and it returns, throws, reads a cell outside the
text, or runs out of the turns its loops are given.

What is left of the text at a position is a list, so a reader is specified by what it makes
of that list and what it leaves of it.
-/

namespace Scan

variable {ε α β κ : Type}

/-- What a reader comes to, and where it stands then. -/
inductive Res (ε α : Type) where
  | ok (a : α) (offset : ℕ)
  | throw (e : ε) (offset : ℕ)
  | outside (i : ℕ)
  | unfinished

namespace Res

def bind : Res ε α → (α → ℕ → Res ε β) → Res ε β
  | ok a o, f => f a o
  | throw e o, _ => throw e o
  | outside i, _ => outside i
  | unfinished, _ => unfinished

@[simp] lemma ok_bind (a : α) (o : ℕ) (f : α → ℕ → Res ε β) : (ok a o).bind f = f a o := rfl

@[simp] lemma throw_bind (e : ε) (o : ℕ) (f : α → ℕ → Res ε β) :
    (throw e o).bind f = throw e o := rfl

@[simp] lemma outside_bind (i : ℕ) (f : α → ℕ → Res ε β) :
    (outside i : Res ε α).bind f = outside i := rfl

/-- The result is one of `P`, or an error of `Q`, or a read outside where `R` allows it. -/
def Post (P : α → ℕ → Prop) (Q : ε → ℕ → Prop) (R : Prop) : Res ε α → Prop
  | ok a o => P a o
  | throw e o => Q e o
  | outside _ => R
  | unfinished => False

@[simp] lemma post_ok {P : α → ℕ → Prop} {Q : ε → ℕ → Prop} {R : Prop} {a : α} {o : ℕ} :
    (ok a o).Post P Q R ↔ P a o := Iff.rfl

@[simp] lemma post_throw {P : α → ℕ → Prop} {Q : ε → ℕ → Prop} {R : Prop} {e : ε} {o : ℕ} :
    (throw e o : Res ε α).Post P Q R ↔ Q e o := Iff.rfl

@[simp] lemma post_outside {P : α → ℕ → Prop} {Q : ε → ℕ → Prop} {R : Prop} {i : ℕ} :
    (outside i : Res ε α).Post P Q R ↔ R := Iff.rfl

/-- A sequence meets what its second part meets after every result of the first. -/
lemma Post.bind {P : α → ℕ → Prop} {P' : β → ℕ → Prop} {Q : ε → ℕ → Prop} {R : Prop}
    {r : Res ε α} {f : α → ℕ → Res ε β} (h : r.Post P Q R)
    (hf : ∀ a o, P a o → (f a o).Post P' Q R) : (r.bind f).Post P' Q R := by
  cases r with
  | ok a o => exact hf a o h
  | throw e o => exact h
  | outside i => exact h
  | unfinished => exact h

lemma Post.imp {P P' : α → ℕ → Prop} {Q Q' : ε → ℕ → Prop} {R R' : Prop} {r : Res ε α}
    (h : r.Post P Q R) (hP : ∀ a o, P a o → P' a o) (hQ : ∀ e o, Q e o → Q' e o)
    (hR : R → R') : r.Post P' Q' R' := by
  cases r with
  | ok a o => exact hP a o h
  | throw e o => exact hQ e o h
  | outside i => exact hR h
  | unfinished => exact h

end Res

/-- A computation that moves a position. -/
abbrev Reader (ε α : Type) := ℕ → Res ε α

instance : Monad (Reader ε) where
  pure a := fun o => .ok a o
  bind x f := fun o => (x o).bind f

@[simp] lemma pure_apply (a : α) (o : ℕ) : (pure a : Reader ε α) o = .ok a o := rfl

@[simp] lemma bind_apply (x : Reader ε α) (f : α → Reader ε β) (o : ℕ) :
    (x >>= f) o = (x o).bind f := rfl

namespace Reader

/-- The position. -/
def offset : Reader ε ℕ := fun o => .ok o o

def moveTo (i : ℕ) : Reader ε Unit := fun _ => .ok () i

def advance (k : ℕ) : Reader ε Unit := fun o => .ok () (o + k)

/-- One position back. -/
def retreat : Reader ε Unit := fun o => .ok () (o - 1)

def throw (e : ε) : Reader ε α := fun o => .throw e o

/-- A cell that is not there. -/
def outside (i : ℕ) : Reader ε α := fun _ => .outside i

/-- No turn of a loop is left. -/
def unfinished : Reader ε α := fun _ => .unfinished

def ofExcept : Except ε α → Reader ε α
  | .ok a => fun o => .ok a o
  | .error e => fun o => .throw e o

@[simp] lemma offset_apply (o : ℕ) : (offset : Reader ε ℕ) o = .ok o o := rfl

@[simp] lemma moveTo_apply (i o : ℕ) : (moveTo i : Reader ε Unit) o = .ok () i := rfl

@[simp] lemma advance_apply (k o : ℕ) : (advance k : Reader ε Unit) o = .ok () (o + k) := rfl

@[simp] lemma retreat_apply (o : ℕ) : (retreat : Reader ε Unit) o = .ok () (o - 1) := rfl

@[simp] lemma throw_apply (e : ε) (o : ℕ) : (throw e : Reader ε α) o = .throw e o := rfl

@[simp] lemma ofExcept_ok (a : α) (o : ℕ) : (ofExcept (.ok a) : Reader ε α) o = .ok a o := rfl

@[simp] lemma ofExcept_error (e : ε) (o : ℕ) :
    (ofExcept (.error e) : Reader ε α) o = .throw e o := rfl

end Reader

/-- The cell at an index, up to the terminator. -/
def cell (z : κ) (str : List κ) (i : ℕ) : Option κ := if i = str.length then some z else str[i]?

/-- The character `k` cells on. -/
def peek (z : κ) (str : List κ) (k : ℕ) : Reader ε κ := fun o =>
  match cell z str (o + k) with
  | some c => .ok c o
  | none => .outside (o + k)

/-- The character at the position, which moves on. -/
def next (z : κ) (str : List κ) : Reader ε κ := do
  let c ← peek z str 0
  Reader.advance 1
  pure c

/-! ### What is left at a position -/

/-- The position is in the text or behind it, and `s` is what is left. -/
structure At (str : List κ) (o : ℕ) (s : List κ) : Prop where
  le : o ≤ str.length
  drop : str.drop o = s

variable {str s t w : List κ} {o k : ℕ} {c z : κ}

lemma At.start (str : List κ) : At str 0 str := ⟨Nat.zero_le _, rfl⟩

lemma exists_at (h : o ≤ str.length) : ∃ s, At str o s := ⟨_, h, rfl⟩

lemma At.length (h : At str o s) : o + s.length = str.length := by
  rw [← h.drop, List.length_drop]
  have := h.le
  omega

lemma At.inj {o' : ℕ} (h : At str o s) (h' : At str o' s) : o = o' := by
  have := h.length
  have := h'.length
  omega

lemma At.skip (h : At str o (w ++ s)) : At str (o + w.length) s where
  le := by
    have := h.length
    rw [List.length_append] at this
    omega
  drop := by rw [← List.drop_drop, h.drop, List.drop_left]

lemma At.tail (h : At str o (c :: s)) : At str (o + 1) s := h.skip (w := [c])

lemma At.cell (h : At str o (w ++ c :: s)) : cell z str (o + w.length) = some c := by
  have hlen := h.length
  simp only [List.length_append, List.length_cons] at hlen
  rw [Scan.cell, if_neg (by omega), ← List.getElem?_drop, h.drop]
  simp

lemma At.cell_end (h : At str o w) : Scan.cell z str (o + w.length) = some z := by
  rw [Scan.cell, if_pos h.length]

/-- The characters ahead are the next ones, and behind them the terminator. -/
lemma At.peek_ahead (h : At str o (w ++ c :: s)) :
    (Scan.peek z str w.length : Reader ε κ) o = .ok c o := by
  simp only [Scan.peek, h.cell]

lemma At.peek_ahead_end (h : At str o w) :
    (Scan.peek z str w.length : Reader ε κ) o = .ok z o := by
  simp only [Scan.peek, h.cell_end]

lemma At.peek (h : At str o (c :: s)) : (Scan.peek z str 0 : Reader ε κ) o = .ok c o :=
  h.peek_ahead (w := [])

lemma At.peek_end (h : At str o []) : (Scan.peek z str 0 : Reader ε κ) o = .ok z o :=
  h.peek_ahead_end

lemma At.peek_outside (h : At str o []) (hk : 0 < k) (i : ℕ) :
    (Scan.peek z str i : Reader ε κ) (o + k) = .outside (o + k + i) := by
  have hlen := h.length
  rw [List.length_nil] at hlen
  have hc : Scan.cell z str (o + k + i) = none := by
    rw [Scan.cell, if_neg (by omega)]
    exact List.getElem?_eq_none (by omega)
  simp only [Scan.peek, hc]

lemma At.next (h : At str o (c :: s)) :
    (Scan.next z str : Reader ε κ) o = .ok c (o + 1) := by
  simp only [Scan.next, bind_apply, h.peek, Res.ok_bind, Reader.advance_apply, pure_apply]

lemma At.next_end (h : At str o []) : (Scan.next z str : Reader ε κ) o = .ok z (o + 1) := by
  simp only [Scan.next, bind_apply, h.peek_end, Res.ok_bind, Reader.advance_apply, pure_apply]

lemma At.next_outside (h : At str o []) (hk : 0 < k) :
    (Scan.next z str : Reader ε κ) (o + k) = .outside (o + k) := by
  simp only [Scan.next, bind_apply, h.peek_outside hk, Res.outside_bind, Nat.add_zero]

/-! ### Searching -/

variable [DecidableEq κ]

/-- The index of the first occurrence of a pattern. -/
def search (pat : List κ) : List κ → Option ℕ
  | [] => if pat = [] then some 0 else none
  | c :: s => if pat.isPrefixOf (c :: s) then some 0 else (search pat s).map (· + 1)

/-- `str.find(pat, pos)`. -/
def find (str pat : List κ) (pos : ℕ) : Option ℕ := (search pat (str.drop pos)).map (pos + ·)

omit [DecidableEq κ] in
/-- `t` is what follows the first occurrence of a pattern in `s`. -/
def First (pat s t : List κ) : Prop :=
  ∃ pre, s = pre ++ pat ++ t ∧ ∀ pre' t', s = pre' ++ pat ++ t' → pre.length ≤ pre'.length

omit [DecidableEq κ] in
lemma First.unique {pat t' : List κ} (h : First pat s t) (h' : First pat s t') : t = t' := by
  obtain ⟨pre, hs, hmin⟩ := h
  obtain ⟨pre', hs', hmin'⟩ := h'
  have hlen : pre.length = pre'.length := le_antisymm (hmin _ _ hs') (hmin' _ _ hs)
  rw [hs, List.append_assoc, List.append_assoc] at hs'
  exact List.append_cancel_left (List.append_inj hs' hlen).2

omit [DecidableEq κ] in
lemma First.length {pat : List κ} (h : First pat s t) : t.length + pat.length ≤ s.length := by
  obtain ⟨pre, hs, -⟩ := h
  rw [hs]
  simp only [List.length_append]
  omega

omit [DecidableEq κ] in
/-- The pattern does not occur in what stands before its first occurrence. -/
lemma First.exists_before {pat : List κ} (h : First pat s t) (hpat : pat ≠ []) :
    ∃ pre, s = pre ++ pat ++ t ∧ ¬ pat <:+: pre := by
  obtain ⟨pre, hs, hmin⟩ := h
  refine ⟨pre, hs, ?_⟩
  rintro ⟨a, b, rfl⟩
  have hle := hmin a (b ++ pat ++ t) (by rw [hs]; simp only [List.append_assoc])
  have hpos := List.length_pos_iff.mpr hpat
  simp only [List.length_append] at hle
  omega

omit [DecidableEq κ] in
/-- An occurrence is the first one if the pattern does not start earlier. -/
lemma first_of {pat pre : List κ} (h : ¬ pat <:+: pre ++ pat.dropLast) :
    First pat (pre ++ pat ++ t) t := by
  refine ⟨pre, rfl, fun pre' t' hs => ?_⟩
  by_contra hlt
  have hle : (pre' ++ pat).length ≤ (pre ++ pat.dropLast).length := by
    simp only [List.length_append, List.length_dropLast]
    omega
  have hpre : pre' ++ pat <+: pre ++ pat ++ t := ⟨t', hs.symm⟩
  have hdrop : pre ++ pat.dropLast <+: pre ++ pat ++ t :=
    ((List.prefix_append_right_inj _).mpr (List.dropLast_prefix pat)).trans (List.prefix_append _ _)
  exact h (((List.suffix_append _ _).isInfix).trans
    (List.prefix_of_prefix_length_le hpre hdrop hle).isInfix)

lemma search_some {pat : List κ} {i : ℕ} (h : search pat s = some i) :
    ∃ pre t, s = pre ++ pat ++ t ∧ pre.length = i ∧ First pat s t := by
  induction s generalizing i with
  | nil =>
    rw [search] at h
    split_ifs at h with hp
    obtain rfl := Option.some.inj h
    exact ⟨[], [], by simp [hp], rfl, [], by simp [hp], fun _ _ _ => Nat.zero_le _⟩
  | cons c s ih =>
    rw [search] at h
    split_ifs at h with hp
    · obtain rfl := Option.some.inj h
      obtain ⟨t, ht⟩ := List.isPrefixOf_iff_prefix.mp hp
      exact ⟨[], t, ht.symm, rfl, [], ht.symm, fun _ _ _ => Nat.zero_le _⟩
    · obtain ⟨j, hj, rfl⟩ := Option.map_eq_some_iff.mp h
      obtain ⟨pre, t, hs, hlen, pre', hs', hmin⟩ := ih hj
      refine ⟨c :: pre, t, by rw [hs]; rfl, by rw [List.length_cons, hlen], c :: pre',
        by rw [hs']; rfl, fun q u hq => ?_⟩
      cases q with
      | nil => exact absurd (List.isPrefixOf_iff_prefix.mpr ⟨u, hq.symm⟩) hp
      | cons d q =>
        have hq' : s = q ++ pat ++ u := (List.cons.inj hq).2
        simp only [List.length_cons]
        exact Nat.succ_le_succ (hmin q u hq')

lemma search_none {pat : List κ} (h : search pat s = none) (pre t : List κ) :
    s ≠ pre ++ pat ++ t := by
  induction s generalizing pre with
  | nil =>
    rw [search] at h
    split_ifs at h with hp
    intro hs
    have := congrArg List.length hs
    simp only [List.length_nil, List.length_append] at this
    exact hp (List.length_eq_zero_iff.mp (by omega))
  | cons c s ih =>
    rw [search] at h
    split_ifs at h with hp
    intro hs
    cases pre with
    | nil => exact hp (List.isPrefixOf_iff_prefix.mpr ⟨t, hs.symm⟩)
    | cons d pre => exact ih (Option.map_eq_none_iff.mp h) pre (List.cons.inj hs).2

lemma find_ge {pat : List κ} {pos i : ℕ} (h : find str pat pos = some i) : pos ≤ i := by
  obtain ⟨j, -, rfl⟩ := Option.map_eq_some_iff.mp h
  exact Nat.le_add_right _ _

/-- A search that succeeds has found the first occurrence, and there is what follows it. -/
lemma At.find_some {pat : List κ} {i : ℕ} (h : At str o s) (hf : find str pat o = some i) :
    ∃ t, First pat s t ∧ At str (i + pat.length) t := by
  rw [find, h.drop] at hf
  obtain ⟨j, hj, rfl⟩ := Option.map_eq_some_iff.mp hf
  obtain ⟨pre, t, hs, hlen, hfirst⟩ := search_some hj
  refine ⟨t, hfirst, ?_⟩
  have hat : At str (o + (pre ++ pat).length) t := At.skip (hs ▸ h)
  rw [List.length_append, hlen, ← Nat.add_assoc] at hat
  exact hat

lemma At.find_none {pat : List κ} (h : At str o s) (hf : find str pat o = none) :
    ∀ t, ¬ First pat s t := by
  rintro t ⟨pre, hs, -⟩
  rw [find, h.drop] at hf
  exact search_none (Option.map_eq_none_iff.mp hf) pre t hs

end Scan
