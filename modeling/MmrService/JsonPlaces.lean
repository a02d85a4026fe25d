import MmrService.JsonBounds
import Mathlib.Data.Nat.Count

/-!
The row and the column that `load` puts behind an error message.

The loop goes from one line end to the next until it is past the offset. It counts a line
when it finds its end, so a row is counted that ends behind the offset, and the last row of a
text, which has no end, is not.
-/

namespace MmrService.Json

open Scan

variable {N : Numbers} {str : List UInt8} {o p q n : ℕ} {v : Value N.Double}

/-! ### Lines of a text -/

/-- A line ends at a position. -/
def LineEnd (str : List UInt8) (j : ℕ) : Prop := str[j]? = some newline

instance (str : List UInt8) : DecidablePred (LineEnd str) :=
  fun j => inferInstanceAs (Decidable (str[j]? = some newline))

/-- Where the line of a position starts: behind the last line end before it. -/
def lineStart (str : List UInt8) (o : ℕ) : ℕ :=
  Nat.findGreatest (fun p => p = 0 ∨ LineEnd str (p - 1)) o

/-- The line of a position, counted from one. -/
def lineNumber (str : List UInt8) (o : ℕ) : ℕ := 1 + Nat.count (LineEnd str) o

/-- The place of a position in its line, counted from one. -/
def columnNumber (str : List UInt8) (o : ℕ) : ℕ := o - lineStart str o + 1

lemma lineEnd_lt (h : LineEnd str p) : p < str.length := by
  by_contra hle
  rw [LineEnd, List.getElem?_eq_none (by omega)] at h
  cases h

lemma count_of_no_end (hpq : p ≤ q) (h : ∀ j, p ≤ j → j < q → ¬ LineEnd str j) :
    Nat.count (LineEnd str) q = Nat.count (LineEnd str) p := by
  induction q, hpq using Nat.le_induction with
  | base => rfl
  | succ q hpq ih =>
    rw [Nat.count_succ, if_neg (h q hpq (Nat.lt_succ_self q)),
      ih fun j hj hlt => h j hj (hlt.trans (Nat.lt_succ_self q))]
    rfl

lemma lineStart_of_no_end (hpo : p ≤ o) (hp : p = 0 ∨ LineEnd str (p - 1))
    (h : ∀ j, p ≤ j → j < o → ¬ LineEnd str j) : lineStart str o = p := by
  refine Nat.findGreatest_eq_iff.mpr ⟨hpo, fun _ => hp, fun k hk hko => ?_⟩
  rintro (rfl | hend)
  · omega
  · exact h (k - 1) (by omega) (by omega) hend

/-! ### Looking for a line end -/

lemma find_lineEnd_some {i : ℕ} (h : find str [newline] p = some i) :
    p ≤ i ∧ LineEnd str i ∧ ∀ j, p ≤ j → j < i → ¬ LineEnd str j := by
  obtain ⟨k, hk, rfl⟩ := Option.map_eq_some_iff.mp h
  obtain ⟨pre, t, hs, rfl, hfirst⟩ := search_some hk
  refine ⟨Nat.le_add_right _ _, ?_, fun j hpj hj hend => ?_⟩
  · rw [LineEnd, ← List.getElem?_drop, hs, List.append_assoc,
      List.getElem?_append_right (Nat.le_refl _), Nat.sub_self]
    rfl
  · -- an earlier one would be an earlier occurrence
    obtain ⟨d, rfl⟩ := Nat.exists_eq_add_of_le hpj
    rw [LineEnd, ← List.getElem?_drop] at hend
    obtain ⟨hlt, hget⟩ := List.getElem?_eq_some_iff.mp hend
    have hsplit : str.drop p = (str.drop p).take d ++ [newline] ++ (str.drop p).drop (d + 1) := by
      rw [← hget, List.take_append_getElem, List.take_append_drop]
    obtain ⟨pre', hs', hmin⟩ := hfirst
    have hlen : pre'.length = pre.length := by
      have h1 := congrArg List.length hs
      have h2 := congrArg List.length hs'
      simp only [List.length_append] at h1 h2
      omega
    have hle := hmin _ _ hsplit
    rw [List.length_take] at hle
    omega

lemma find_lineEnd_none (h : find str [newline] p = none) (j : ℕ) (hpj : p ≤ j) :
    ¬ LineEnd str j := by
  intro hend
  obtain ⟨d, rfl⟩ := Nat.exists_eq_add_of_le hpj
  rw [LineEnd, ← List.getElem?_drop] at hend
  obtain ⟨hlt, hget⟩ := List.getElem?_eq_some_iff.mp hend
  refine search_none (Option.map_eq_none_iff.mp h) ((str.drop p).take d)
    ((str.drop p).drop (d + 1)) ?_
  rw [← hget, List.take_append_getElem, List.take_append_drop]

/-! ### What the loop finds -/

/-- The row and the column that are shown. -/
def shownPlace (str : List UInt8) (o : ℕ) : ℕ × ℕ :=
  if o = 0 then (0, 0)
  else if LineEnd str (o - 1) then (Nat.count (LineEnd str) o % 2 ^ 32, 0)
  else if (str.drop o).contains newline then
    (lineNumber str o % 2 ^ 32, columnNumber str o % 2 ^ 32)
  else (Nat.count (LineEnd str) o % 2 ^ 32, columnNumber str o % 2 ^ 32)

lemma newline_mem_drop : newline ∈ str.drop o ↔ ∃ j, o ≤ j ∧ LineEnd str j := by
  constructor
  · intro h
    obtain ⟨d, hd⟩ := List.mem_iff_getElem?.mp h
    rw [List.getElem?_drop] at hd
    exact ⟨o + d, Nat.le_add_right _ _, hd⟩
  · rintro ⟨j, hoj, hj⟩
    obtain ⟨d, rfl⟩ := Nat.exists_eq_add_of_le hoj
    rw [LineEnd, ← List.getElem?_drop] at hj
    exact List.mem_of_getElem? hj

/-- From a line's start on, the loop ends with the place it shows. -/
lemma errorPos_shown (hpo : p < o) (hp : p = 0 ∨ LineEnd str (p - 1)) (hn : str.length - p < n) :
    errorPos str o n (Nat.count (LineEnd str) p % 2 ^ 32) p o = .ok (shownPlace str o) o := by
  induction n generalizing p with
  | zero => omega
  | succ n ih =>
    rw [errorPos]
    rcases hf : find str [newline] p with _ | e
    · -- no line end is left
      have hno : ∀ j, p ≤ j → ¬ LineEnd str j := find_lineEnd_none hf
      have hstart : lineStart str o = p :=
        lineStart_of_no_end hpo.le hp fun j hj _ => hno j hj
      have hcount := count_of_no_end hpo.le fun j hj (_ : j < o) => hno j hj
      have hdrop : ¬ (str.drop o).contains newline := by
        rw [List.contains_iff_mem, newline_mem_drop]
        rintro ⟨j, hj, hend⟩
        exact hno j (hpo.le.trans hj) hend
      rw [shownPlace, if_neg (by omega), if_neg (hno _ (by omega)), if_neg hdrop, columnNumber,
        hstart, hcount]
      rfl
    · obtain ⟨hpe, hend, hno⟩ := find_lineEnd_some hf
      have hcount : Nat.count (LineEnd str) (e + 1) = Nat.count (LineEnd str) p + 1 := by
        rw [Nat.count_succ, if_pos hend, count_of_no_end hpe hno]
      have hrow : (Nat.count (LineEnd str) p % 2 ^ 32 + 1) % 2 ^ 32 =
          Nat.count (LineEnd str) (e + 1) % 2 ^ 32 := by rw [Nat.mod_add_mod, hcount]
      dsimp only
      rw [hrow]
      rcases Nat.lt_trichotomy o (e + 1) with hlt | heq | hgt
      · -- the line of the offset ends behind it
        have hstart : lineStart str o = p :=
          lineStart_of_no_end hpo.le hp fun j hj hjo => hno j hj (by omega)
        have hcount' := count_of_no_end hpo.le fun j hj (hjo : j < o) => hno j hj (by omega)
        have hdrop : (str.drop o).contains newline :=
          List.contains_iff_mem.mpr (newline_mem_drop.mpr ⟨e, by omega, hend⟩)
        rw [if_pos hlt, shownPlace, if_neg (by omega), if_neg (hno _ (by omega) (by omega)),
          if_pos hdrop, lineNumber, columnNumber, hstart, hcount', hcount, Nat.add_comm 1]
        rfl
      · -- the offset is right behind a line end
        have hlast : LineEnd str (o - 1) := by rwa [heq, Nat.add_sub_cancel]
        rw [if_neg (by omega), if_neg (by omega), shownPlace, if_neg (by omega), if_pos hlast, heq]
        rfl
      · have hlen := lineEnd_lt hend
        rw [if_neg (by omega), if_pos hgt]
        exact ih hgt (Or.inr hend) (by omega)

/-- The place an error is given. -/
lemma load_shown {e : List UInt8} (jsonRoot : Value N.Double)
    (h : parse_next N str (turns str) 0 = .throw e o) :
    load N str jsonRoot = .ok (what e ++ text "row:" ++ decimal (shownPlace str o).1 ++
      text " col:" ++ decimal (shownPlace str o).2, jsonRoot) o := by
  have hplace : (if 0 < o then errorPos str o (turns str) 0 0 o else .ok (0, 0) o) =
      Res.ok (shownPlace str o) o := by
    split_ifs with ho
    · exact errorPos_shown ho (Or.inl rfl) (by unfold turns; omega)
    · rw [shownPlace, if_pos (by omega)]
  rw [load, h]
  simp only [hplace, Res.ok_bind]

/-! ### The place shown and the place meant -/

/-- The conditions under which the place is right. -/
structure PlaceShown (str : List UInt8) (o : ℕ) : Prop where
  pos : 0 < o
  inLine : ¬ LineEnd str (o - 1)
  ends : newline ∈ str.drop o
  row : lineNumber str o < 2 ^ 32
  column : columnNumber str o < 2 ^ 32

lemma shownPlace_eq_iff :
    shownPlace str o = (lineNumber str o, columnNumber str o) ↔ PlaceShown str o := by
  have hcol : columnNumber str o ≠ 0 := Nat.succ_ne_zero _
  have hmod := Nat.mod_le (Nat.count (LineEnd str) o) (2 ^ 32)
  have hrow : lineNumber str o = 1 + Nat.count (LineEnd str) o := rfl
  constructor
  · intro h
    unfold shownPlace at h
    split_ifs at h with h0 hlast hmem
    · exact absurd (congrArg Prod.snd h).symm hcol
    · exact absurd (congrArg Prod.snd h).symm hcol
    · obtain ⟨h1, h2⟩ := Prod.mk.inj h
      exact ⟨Nat.pos_of_ne_zero h0, hlast, List.contains_iff_mem.mp hmem,
        h1 ▸ Nat.mod_lt _ (Nat.two_pow_pos 32), h2 ▸ Nat.mod_lt _ (Nat.two_pow_pos 32)⟩
    · have h1 := congrArg Prod.fst h
      dsimp only at h1
      omega
  · rintro ⟨h0, hlast, hmem, hr, hc⟩
    rw [shownPlace, if_neg h0.ne', if_neg hlast, if_pos (List.contains_iff_mem.mpr hmem),
      Nat.mod_eq_of_lt hr,
      Nat.mod_eq_of_lt hc]

lemma decimal_append_inj {a b : ℕ} {s t : List UInt8}
    (h : decimal a ++ text " " ++ s = decimal b ++ text " " ++ t) : a = b ∧ s = t := by
  have hsplit : ∀ (n : ℕ) (u : List UInt8),
      (decimal n ++ text " " ++ u).takeWhile isDigit = decimal n := by
    intro n u
    rw [List.append_assoc, List.takeWhile_append_of_pos fun c hc => isDigit_decimal hc]
    simp [text, isDigit]
  have hdec : decimal a = decimal b := by rw [← hsplit a s, h, hsplit]
  refine ⟨by rw [← ofDigits_decimal a, hdec, ofDigits_decimal], ?_⟩
  rw [hdec] at h
  exact List.append_cancel_left h

/-- **The row and the column of an error are right exactly if the offset is inside a line that
ends.** At offset zero, right behind a line end and in the last line of a text without a final
line end they are not. In every case there is an error message. -/
theorem load_place_iff {e : List UInt8} (jsonRoot : Value N.Double)
    (h : parse_next N str (turns str) 0 = .throw e o) :
    (∃ r c, load N str jsonRoot =
      .ok (what e ++ text "row:" ++ decimal r ++ text " col:" ++ decimal c, jsonRoot) o) ∧
    (load N str jsonRoot = .ok (what e ++ text "row:" ++ decimal (lineNumber str o) ++
      text " col:" ++ decimal (columnNumber str o), jsonRoot) o ↔ PlaceShown str o) := by
  have hload := load_shown jsonRoot h
  refine ⟨⟨_, _, hload⟩, ?_⟩
  rw [hload, ← shownPlace_eq_iff]
  constructor
  · intro heq
    have hmsg := congrArg Prod.fst (Res.ok.inj heq).1
    simp only [List.append_assoc, List.append_cancel_left_eq] at hmsg
    have hcol : text " col:" = text " " ++ text "col:" := rfl
    simp only [hcol, ← List.append_assoc] at hmsg
    rw [List.append_assoc, List.append_assoc (decimal (lineNumber str o) ++ _)] at hmsg
    obtain ⟨hr, hc⟩ := decimal_append_inj hmsg
    have hc' := List.append_cancel_left hc
    exact Prod.ext hr (by rw [← ofDigits_decimal (shownPlace str o).2, hc', ofDigits_decimal])
  · intro heq
    rw [heq]

/-- An unknown character in the second of three lines. -/
theorem load_place_second_line : load lp64 (text "[1,\n x\n]") .null =
    .ok (text "ERROR: Parse: Unknown starting character 'x'." ++ text "row:" ++ decimal 2 ++
      text " col:" ++ decimal 2, .null) 5 := by
  have hplace : lineNumber (text "[1,\n x\n]") 5 = 2 ∧ columnNumber (text "[1,\n x\n]") 5 = 2 := by
    decide +kernel
  have hthrow : parse_next lp64 (text "[1,\n x\n]") (turns (text "[1,\n x\n]")) 0 =
      .throw (text "ERROR: Parse: Unknown starting character 'x'.") 5 := rfl
  have hload := (load_place_iff .null hthrow).2.mpr
    ⟨by decide, by decide, by decide, by decide +kernel, by decide +kernel⟩
  rwa [hplace.1, hplace.2] at hload

/-- The same in the second of two lines, of which the last does not end: row one is shown. -/
theorem load_place_last_line :
    ¬ load lp64 (text "[1,\n x]") .null =
      .ok (text "ERROR: Parse: Unknown starting character 'x'." ++ text "row:" ++
        decimal (lineNumber (text "[1,\n x]") 5) ++ text " col:" ++
        decimal (columnNumber (text "[1,\n x]") 5), .null) 5 := by
  have hload : load lp64 (text "[1,\n x]") .null =
      .ok (text "ERROR: Parse: Unknown starting character 'x'.row:1 col:2", .null) 5 := rfl
  rw [hload]
  intro h
  have hmsg := congrArg Prod.fst (Res.ok.inj h).1
  revert hmsg
  decide +kernel

end MmrService.Json
