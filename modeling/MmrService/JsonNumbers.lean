import MmrService.JsonTokens
import Mathlib.Data.List.TakeWhile

/-!
Numbers and literals: their parser functions meet the grammar.

The loops of a number stop at the first character that does not belong to it, and take the
terminator for such a character; then the offset stands one behind the end of the text.
-/

namespace MmrService.Json

open Scan

variable {N : Numbers} {str s t : List UInt8} {o n : ℕ} {c : UInt8}

/-- A list is a run of characters with a property, and a rest that starts with another one. -/
lemma exists_run (p : UInt8 → Bool) (s : List UInt8) :
    ∃ w r, s = w ++ r ∧ (∀ d ∈ w, p d = true) ∧ ∀ d ∈ r.head?, p d = false := by
  refine ⟨s.takeWhile p, s.dropWhile p, (List.takeWhile_append_dropWhile).symm,
    fun d hd => List.mem_takeWhile_imp hd, fun d hd => ?_⟩
  have h := List.head?_dropWhile_not p s
  rw [Option.mem_def.mp hd] at h
  exact h

/-- A sign and some digits are read as the number they denote. -/
lemma strtol_digits {ds : List UInt8} (hds : ∀ d ∈ ds, isDigit d = true) (neg : Bool) :
    strtol ((if neg then [minus] else []) ++ ds) =
      if ds = [] then none else some (if neg then -(ofDigits ds : ℤ) else ofDigits ds) := by
  have htake : ds.takeWhile isDigit = ds := List.takeWhile_eq_self_iff.mpr hds
  unfold strtol
  cases neg with
  | true =>
    have hdrop : ([minus] ++ ds).dropWhile isspace = minus :: ds :=
      List.dropWhile_cons_of_neg (by decide)
    simp only [if_true, hdrop, List.head?_cons, true_or, List.tail_cons, htake]
  | false =>
    cases ds with
    | nil => rfl
    | cons d ds =>
      have hd : isDigit d = true := hds d List.mem_cons_self
      have hne : isspace d = false ∧ d ≠ minus ∧ d ≠ 43 := by
        simp only [isDigit, isspace, minus] at *
        grind
      have hdrop : (d :: ds).dropWhile isspace = d :: ds :=
        List.dropWhile_cons_of_neg (by simp [hne.1])
      simp only [Bool.false_eq_true, if_false, List.nil_append, hdrop, List.head?_cons,
        Option.some.injEq, hne.2.1, hne.2.2, or_self, htake]

/-! ### The loops -/

lemma isNumber_iff : isNumber c = true ↔ c = minus ∨ isDigit c = true ∨ c = dot := by
  simp [isNumber, or_assoc]

lemma numberLoop_run {w : List UInt8} (hw : ∀ d ∈ w, isNumber d = true) (h : At str o (w ++ s))
    (hs : ∀ d ∈ s.head?, isNumber d = false) (hn : w.length < n) (val : List UInt8)
    (isDouble : Bool) :
    numberLoop str n val isDouble o =
      .ok (val ++ w, isDouble || decide (dot ∈ w), s.headD 0) (o + w.length + 1) := by
  obtain ⟨n, rfl⟩ : ∃ m, n = m + 1 := ⟨n - 1, by omega⟩
  induction w generalizing o n val isDouble with
  | nil =>
    rw [numberLoop, bind_apply]
    cases s with
    | nil => rw [take_nil h, Res.ok_bind, if_neg (by decide), if_neg (by decide)]; simp
    | cons c s =>
      have hc : ¬ (c = minus ∨ isDigit c = true ∨ c = dot) := by
        rw [← isNumber_iff, hs c rfl]
        decide
      push Not at hc
      rw [take_cons h, Res.ok_bind, if_neg (by simp [hc.1, hc.2.1]), if_neg hc.2.2]
      simp
  | cons c w ih =>
    simp only [List.length_cons] at hn
    obtain ⟨n, rfl⟩ : ∃ m, n = m + 1 := ⟨n - 1, by omega⟩
    have htail : At str (o + 1) (w ++ s) := At.tail (c := c) h
    have ih := fun val b => ih (fun d hd => hw d (List.mem_cons_of_mem _ hd)) htail val b n
      (by omega)
    have hdot : c ≠ dot → (decide (dot ∈ w) = decide (dot ∈ c :: w)) := by
      intro hc
      simp [Ne.symm hc]
    have hlen : o + 1 + w.length + 1 = o + (c :: w).length + 1 := by
      simp only [List.length_cons]
      omega
    rw [numberLoop, bind_apply, take_cons (s := w ++ s) h, Res.ok_bind]
    split_ifs with h1 h2
    · have hc : c ≠ dot := by rintro rfl; exact absurd h1 (by decide)
      rw [ih, hdot hc, hlen, List.append_assoc, List.singleton_append]
    · rw [ih, hlen, List.append_assoc, List.singleton_append, h2]
      simp
    · rcases isNumber_iff.mp (hw c List.mem_cons_self) with hc | hc | hc
      · exact absurd (by simp [hc]) h1
      · exact absurd (by simp [hc]) h1
      · exact absurd hc h2

lemma isStop_not_isDigit (h : isStop c = true) : isDigit c = false := by
  simp only [isStop, isspace, isDigit, comma, rbracket, rbrace] at *
  grind

lemma isStop_not_isNumber (h : isStop c = true) : isNumber c = false := by
  simp only [isStop, isspace, isNumber, isDigit, minus, dot, comma, rbracket, rbrace] at *
  grind

lemma isStop_not_isExponent (h : isStop c = true) : isExponent c = false := by
  simp only [isStop, isspace, isExponent, comma, rbracket, rbrace] at *
  grind

lemma isExponent_not_isNumber (h : isExponent c = true) : isNumber c = false := by
  simp only [isExponent, Bool.or_eq_true, decide_eq_true_eq] at h
  rcases h with rfl | rfl <;> decide

/-- The digits of an exponent, and the character behind them. -/
lemma exponentLoop_run {ds : List UInt8} (hds : ∀ d ∈ ds, isDigit d = true)
    (h : At str o (ds ++ s)) (hs : ∀ d ∈ s.head?, isDigit d = false) (hn : ds.length < n)
    (exp_str : List UInt8) :
    exponentLoop str n exp_str o =
      if isStop (s.headD 0) then .ok (exp_str ++ ds) (o + ds.length + 1)
      else .throw (text "ERROR: Number: Expected a number for exponent, found '" ++
        [s.headD 0] ++ text "'.") (o + ds.length + 1) := by
  obtain ⟨n, rfl⟩ : ∃ m, n = m + 1 := ⟨n - 1, by omega⟩
  induction ds generalizing o n exp_str with
  | nil =>
    rw [exponentLoop, bind_apply]
    cases s with
    | nil =>
      rw [take_nil h, Res.ok_bind, if_neg (by decide), if_neg (by decide), if_neg (by decide)]
      rfl
    | cons c s =>
      rw [take_cons h, Res.ok_bind, if_neg (by simpa using hs c rfl), List.headD_cons]
      split_ifs <;> simp
  | cons d ds ih =>
    simp only [List.length_cons] at hn
    obtain ⟨n, rfl⟩ : ∃ m, n = m + 1 := ⟨n - 1, by omega⟩
    rw [exponentLoop, bind_apply, take_cons (s := ds ++ s) h, Res.ok_bind,
      if_pos (hds d List.mem_cons_self),
      ih (fun d hd => hds d (List.mem_cons_of_mem _ hd)) (At.tail (c := d) h) _ n (by omega),
      show o + 1 + ds.length + 1 = o + (d :: ds).length + 1 by
        simp only [List.length_cons]; omega, List.append_assoc, List.singleton_append]

lemma exponentLoop_outside (h : At str o []) {k : ℕ} (hk : 0 < k) (exp_str : List UInt8) :
    exponentLoop str (n + 1) exp_str (o + k) = .outside (o + k) := by
  have ht : take str (o + k) = .outside (o + k) := h.next_outside hk
  rw [exponentLoop, bind_apply, ht, Res.outside_bind]

/-! ### Exponents -/

/-- A mark is read as its sign, and the offset stands at the digits. -/
lemma exponent_mark {mark sign : List UInt8} (hm : Sign mark sign) (h : At str o (mark ++ s)) :
    exponent N str o = (exponentLoop str (turns str) sign (o + mark.length)).bind fun exp_str o =>
      (Reader.ofExcept (stol N exp_str) o).bind fun exp o => .ok (exp_str, exp) o := by
  cases hm with
  | plus hc =>
    rw [exponent, bind_apply, take_cons (s := s) h, Res.ok_bind, if_neg hc]
    rfl
  | minus c =>
    rw [exponent, bind_apply, take_cons (s := c :: s) h, Res.ok_bind, if_pos rfl]
    rfl

lemma exponent_cut {mark : List UInt8} (hm : mark = [] ∨ mark = [minus]) (h : At str o mark) :
    ∃ i, exponent N str o = .outside i := by
  rcases hm with rfl | rfl
  · refine ⟨o + 1, ?_⟩
    rw [exponent, bind_apply, take_nil h, Res.ok_bind, if_neg (by decide), bind_apply, pure_apply,
      Res.ok_bind]
    change (exponentLoop str (str.length + 1) [] (o + 1)).bind _ = _
    rw [exponentLoop_outside h Nat.one_pos, Res.outside_bind]
  · refine ⟨o + 1 + 1, ?_⟩
    rw [exponent, bind_apply, take_cons h, Res.ok_bind, if_pos rfl, bind_apply,
      Reader.advance_apply, Res.ok_bind, bind_apply, pure_apply, Res.ok_bind]
    change (exponentLoop str (str.length + 1) [minus] (o + 1 + 1)).bind _ = _
    rw [exponentLoop_outside h.tail Nat.one_pos, Res.outside_bind]

/-- What stands behind an `e` is a mark, or ends too early for one. -/
lemma exists_mark (s : List UInt8) :
    (∃ mark sign r, s = mark ++ r ∧ Sign mark sign) ∨ s = [] ∨ s = [minus] := by
  cases s with
  | nil => exact .inr (.inl rfl)
  | cons c s =>
    by_cases hc : c = minus
    · subst hc
      cases s with
      | nil => exact .inr (.inr rfl)
      | cons d s => exact .inl ⟨[minus, d], [minus], s, rfl, .minus d⟩
    · exact .inl ⟨[c], [], s, rfl, .plus hc⟩

lemma exponent_spec (h : At str o s) :
    (exponent N str o).Post
      (fun p o' => ∃ mark sign ds c t, s = mark ++ (ds ++ c :: t) ∧ Sign mark sign ∧
        (∀ d ∈ ds, isDigit d = true) ∧ isStop c = true ∧ p.1 = sign ++ ds ∧
        stol N (sign ++ ds) = .ok p.2 ∧ At str (o' - 1) (c :: t) ∧ 0 < o')
      (fun _ o' => str.length < o' → ∃ mark sign ds, s = mark ++ ds ∧ Sign mark sign ∧
        ∀ d ∈ ds, isDigit d = true)
      (s = [] ∨ s = [minus]) := by
  rcases exists_mark s with ⟨mark, sign, r, rfl, hm⟩ | hcut
  · obtain ⟨ds, r, rfl, hds, hr⟩ := exists_run isDigit r
    have hat : At str (o + mark.length) (ds ++ r) := h.skip
    have hlen := hat.length
    rw [List.length_append] at hlen
    rw [exponent_mark hm h, exponentLoop_run hds hat hr (by unfold turns; omega)]
    split_ifs with hc
    · -- the digits end at a character of the text, so the offset is not behind its end
      obtain ⟨c, t, rfl⟩ : ∃ c t, r = c :: t := by
        cases r with
        | nil => exact absurd hc (by decide)
        | cons c t => exact ⟨c, t, rfl⟩
      rw [List.length_cons] at hlen
      rw [Res.ok_bind]
      rcases hexp : stol N (sign ++ ds) with e | exp
      · exact fun hlt => absurd hlt (by omega)
      · exact ⟨mark, sign, ds, c, t, rfl, hm, hds, hc, rfl, hexp, hat.skip, by omega⟩
    · intro hlt
      have hnil : r = [] := List.length_eq_zero_iff.mp (by omega)
      exact ⟨mark, sign, ds, by rw [hnil, List.append_nil], hm, hds⟩
  · obtain ⟨i, hi⟩ := exponent_cut (N := N) hcut h
    rw [hi]
    exact hcut

/-! ### Numbers -/

/-- The characters of a number have been read, and the one behind them decides. -/
lemma parse_number_run {val : List UInt8} (hval : ∀ d ∈ val, isNumber d = true)
    (h : At str o (val ++ s)) (hs : ∀ d ∈ s.head?, isNumber d = false) :
    parse_number N str o =
      if isExponent (s.headD 0) then
        (exponent N str (o + val.length + 1)).bind fun p o =>
          Reader.ofExcept (numberValue N val (decide (dot ∈ val)) p.1 p.2) (o - 1)
      else if isStop (s.headD 0) then
        Reader.ofExcept (numberValue N val (decide (dot ∈ val)) [] 0) (o + val.length)
      else .throw (text "ERROR: Number: unexpected character '" ++ [s.headD 0] ++ text "'.")
        (o + val.length + 1) := by
  have hlen := h.length
  rw [List.length_append] at hlen
  rw [parse_number, bind_apply, numberLoop_run hval h hs (by unfold turns; omega), Res.ok_bind]
  simp only [List.nil_append, Bool.false_or]
  change (if isExponent (s.headD 0) = true then _ else _ : Parser _) (o + val.length + 1) = _
  split_ifs <;> rfl

lemma parse_number_spec (h : At str o s) :
    (parse_number N str o).Post (fun v o' => ∃ t, At str o' t ∧ Number N s v t)
      (fun _ o' => str.length < o' → OpenNumber s) (CutExponent s) := by
  obtain ⟨val, r, rfl, hval, hr⟩ := exists_run isNumber s
  have hlen := h.length
  rw [List.length_append] at hlen
  rw [parse_number_run hval h hr]
  -- a value is there, or the text is refused at the end of the number
  have hvalue : ∀ {p : List UInt8 × ℤ} {o' : ℕ} {c : UInt8} {t : List UInt8}, At str o' (c :: t) →
      (∀ v, numberValue N val (decide (dot ∈ val)) p.1 p.2 = .ok v →
        Number N (val ++ r) v (c :: t)) →
      (Reader.ofExcept (numberValue N val (decide (dot ∈ val)) p.1 p.2) o').Post
        (fun v o' => ∃ t, At str o' t ∧ Number N (val ++ r) v t)
        (fun _ o' => str.length < o' → OpenNumber (val ++ r)) (CutExponent (val ++ r)) := by
    intro p o' c t hat hv
    rcases hnv : numberValue N val (decide (dot ∈ val)) p.1 p.2 with e | v
    · exact fun hlt => absurd hlt (not_lt.mpr hat.le)
    · exact ⟨c :: t, hat, hv v hnv⟩
  cases r with
  | nil =>
    rw [List.append_nil]
    exact fun _ => .plain hval
  | cons c r =>
    rw [List.headD_cons]
    split_ifs with he hc
    · have hat : At str (o + val.length + 1) r := At.tail (c := c) h.skip
      refine ((exponent_spec (N := N) hat).imp (fun _ _ hp => hp) ?_ ?_).bind ?_
      · rintro e o' hp hlt
        obtain ⟨mark, sign, ds, rfl, hm, hds⟩ := hp hlt
        exact .exponent hval he hm hds
      · exact fun hcut => .mk hval he hcut
      · rintro p o' ⟨mark, sign, ds, c', t, rfl, hm, hds, hc', hp, hexp, hat', -⟩
        refine hvalue hat' fun v hv => .exponent hval he hm hds hc' hexp ?_
        rw [hp] at hv
        exact hv
    · exact hvalue (p := ([], 0)) h.skip fun v hv => .plain hval hc hv
    · rw [List.length_cons] at hlen
      exact fun hlt => absurd hlt (by simp only [Nat.not_lt]; omega)

lemma Number.parse {v : Value N.Double} (hv : Number N s v t) (h : At str o s) :
    ∃ o', parse_number N str o = .ok v o' ∧ At str o' t := by
  cases hv with
  | @plain val t c _ hval hc hnv =>
    refine ⟨o + val.length, ?_, h.skip⟩
    rw [parse_number_run hval h (by simpa using isStop_not_isNumber hc), List.headD_cons,
      isStop_not_isExponent hc, if_neg (by decide), if_pos hc, hnv]
    rfl
  | @exponent val mark sign ds t e c exp _ hval he hm hds hc hexp hnv =>
    have hat : At str (o + val.length + 1) (mark ++ (ds ++ c :: t)) := At.tail (c := e) h.skip
    have hat' : At str (o + val.length + 1 + mark.length) (ds ++ c :: t) := hat.skip
    have hlen := hat'.length
    rw [List.length_append] at hlen
    refine ⟨o + val.length + 1 + mark.length + ds.length, ?_, hat'.skip⟩
    rw [parse_number_run hval h (by simpa using isExponent_not_isNumber he), List.headD_cons,
      if_pos he, exponent_mark hm hat,
      exponentLoop_run hds hat' (by simpa using isStop_not_isDigit hc) (by unfold turns; omega),
      List.headD_cons, if_pos hc, Res.ok_bind, hexp, Reader.ofExcept_ok, Res.ok_bind, Res.ok_bind,
      hnv]
    rfl

lemma CutExponent.parse (hs : CutExponent s) (h : At str o s) :
    ∃ i, parse_number N str o = .outside i := by
  obtain ⟨hval, he, hm⟩ := hs
  obtain ⟨i, hi⟩ := exponent_cut (N := N) hm (At.tail h.skip)
  exact ⟨i, by rw [parse_number_run hval h (by simpa using isExponent_not_isNumber he),
      List.headD_cons, if_pos he, hi, Res.outside_bind]⟩

/-- A number that goes on to the end of the text takes the offset behind it, if not a read. -/
lemma OpenNumber.parse (hs : OpenNumber s) (h : At str o s) :
    (parse_number N str o).Post (fun _ _ => False) (fun _ o' => str.length < o') True := by
  cases hs with
  | plain hval =>
    have hlen := h.length
    have h' : At str o (s ++ []) := by rw [List.append_nil]; exact h
    rw [parse_number_run hval h' (by simp), List.headD_nil, if_neg (by decide),
      if_neg (by decide)]
    exact Nat.lt_of_lt_of_eq (by omega) rfl
  | cut hs =>
    obtain ⟨i, hi⟩ := hs.parse (N := N) h
    rw [hi]
    trivial
  | @exponent val mark sign ds e hval he hm hds =>
    have hat : At str (o + val.length + 1) (mark ++ ds) := At.tail (c := e) h.skip
    have hat' : At str (o + val.length + 1 + mark.length) (ds ++ []) := by
      rw [List.append_nil]
      exact hat.skip
    have hlen := hat'.length
    rw [List.append_nil] at hlen
    rw [parse_number_run hval h (by simpa using isExponent_not_isNumber he), List.headD_cons,
      if_pos he, exponent_mark hm hat,
      exponentLoop_run hds hat' (by simp) (by unfold turns; omega), List.headD_nil,
      if_neg (by decide)]
    exact Nat.lt_of_lt_of_eq (by omega) rfl

/-! ### Literals -/

lemma substr_eq (h : At str o s) (k : ℕ) : substr str k o = .ok (s.take k) o := by
  rw [substr, bind_apply, Reader.offset_apply, Res.ok_bind, if_pos h.le, pure_apply, Bytes.slice,
    h.drop]

/-- A literal is what is left, as far as it goes. -/
lemma of_take_eq {w : List UInt8} {k : ℕ} (h : s.take k = w) : ∃ t, s = w ++ t :=
  ⟨s.drop k, (List.take_append_drop k s).symm.trans (by rw [h])⟩

lemma parse_bool_spec (h : At str o s) :
    (parse_bool N str o).Post (fun v o' => ∃ t, At str o' t ∧ Token N s v t)
      (fun _ o' => o' ≤ str.length) False := by
  rw [parse_bool, bind_apply, substr_eq h, Res.ok_bind]
  split_ifs with h4
  · obtain ⟨t, rfl⟩ := of_take_eq h4
    exact ⟨t, h.skip, .true_⟩
  · rw [bind_apply, substr_eq h, Res.ok_bind]
    split_ifs with h5
    · obtain ⟨t, rfl⟩ := of_take_eq h5
      exact ⟨t, h.skip, .false_⟩
    · exact h.le

lemma parse_bool_true (h : At str o (trueText ++ t)) :
    parse_bool N str o = .ok (.boolean true) (o + 4) := by
  have heq : (trueText ++ t).take 4 = trueText := rfl
  rw [parse_bool, bind_apply, substr_eq h, Res.ok_bind, if_pos heq]
  rfl

lemma parse_bool_false (h : At str o (falseText ++ t)) :
    parse_bool N str o = .ok (.boolean false) (o + 5) := by
  have hne : (falseText ++ t).take 4 ≠ trueText := by
    rw [falseText, trueText]
    simp
  have heq : (falseText ++ t).take 5 = falseText := rfl
  rw [parse_bool, bind_apply, substr_eq h, Res.ok_bind, if_neg hne, bind_apply, substr_eq h,
    Res.ok_bind, if_pos heq]
  rfl

lemma parse_null_spec (h : At str o s) :
    (parse_null N str o).Post (fun v o' => ∃ t, At str o' t ∧ Token N s v t)
      (fun _ o' => o' ≤ str.length) False := by
  rw [parse_null, bind_apply, substr_eq h, Res.ok_bind]
  split_ifs with h4
  · exact h.le
  · obtain ⟨t, rfl⟩ := of_take_eq (not_not.mp h4)
    exact ⟨t, h.skip, .null⟩

lemma parse_null_eq (h : At str o (nullText ++ t)) :
    parse_null N str o = .ok .null (o + 4) := by
  have heq : (nullText ++ t).take 4 = nullText := rfl
  rw [parse_null, bind_apply, substr_eq h, Res.ok_bind,
    if_neg (not_not.mpr heq)]
  rfl

/-! ### Whole strings -/

lemma parse_string_spec (h : At str o (quote :: s)) :
    (parse_string N str o).Post (fun v o' => ∃ t, At str o' t ∧ Token N (quote :: s) v t)
      (fun _ o' => o' ≤ str.length) (OpenChars s) := by
  have hlen := h.length
  simp only [List.length_cons] at hlen
  refine (stringLoop_spec (n := turns str) h [] (by unfold turns; omega)).bind ?_
  rintro v o' ⟨w, t, rfl, hat, hw⟩
  exact ⟨t, hat.tail, .string hw⟩

lemma parse_string_eq {w : List UInt8} (hw : Chars s w t) (h : At str o (quote :: s)) :
    ∃ o', parse_string N str o = .ok (.string w) o' ∧ At str o' t := by
  have hlen := h.length
  simp only [List.length_cons] at hlen
  obtain ⟨o', hr, hat⟩ := stringLoop_eq hw (n := turns str) h [] (by unfold turns; omega)
  exact ⟨o' + 1, by rw [parse_string, bind_apply, hr]; rfl, hat.tail⟩

lemma parse_string_outside (hs : OpenChars s) (h : At str o (quote :: s)) :
    ∃ i, parse_string N str o = .outside i := by
  have hlen := h.length
  simp only [List.length_cons] at hlen
  obtain ⟨i, hi⟩ := stringLoop_outside hs (n := turns str) h [] (by unfold turns; omega)
  exact ⟨i, by rw [parse_string, bind_apply, hi, Res.outside_bind]⟩

end MmrService.Json
