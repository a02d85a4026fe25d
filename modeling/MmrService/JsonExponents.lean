import MmrService.JsonNumbers
import MmrService.JsonText
import MmrService.JsonBounds

/-!
What `parse_number` takes from a number: the text of the mantissa and the exponent.

Behind an `e` one character is read and dropped, which is right for a plus sign; behind a
minus sign one more is passed over. So an exponent that does not start with a plus sign
loses its first digit.
-/

namespace MmrService.Json

open Scan

variable {N : Numbers} {str s t : List UInt8} {o : ℕ} {c : UInt8}

/-! ### The parts of a number -/

variable (N) in
/-- `parse_number` up to the conversions: the text of the mantissa, whether it has a dot, the
text of the exponent and its value. -/
def numberParts (str : List UInt8) : Parser (List UInt8 × Bool × List UInt8 × ℤ) := do
  let (val, isDouble, c) ← numberLoop str (turns str) [] false
  let (exp_str, exp) ← if c = 69 || c = 101 then exponent N str
    else if isStop c then pure ([], 0)
    else Reader.throw (text "ERROR: Number: unexpected character '" ++ [c] ++ text "'.")
  Reader.retreat
  pure (val, isDouble, exp_str, exp)

/-- `parse_number` converts the parts. -/
lemma parse_number_eq (o : ℕ) : parse_number N str o =
    (numberParts N str o).bind fun p o =>
      Reader.ofExcept (numberValue N p.1 p.2.1 p.2.2.1 p.2.2.2) o := by
  rw [parse_number, numberParts, bind_apply, bind_apply]
  rcases numberLoop str (turns str) [] false o with ⟨⟨val, isDouble, c⟩, o'⟩ | ⟨e, o'⟩ | i | _
  · rw [Res.ok_bind, Res.ok_bind]
    dsimp only
    split_ifs with he hc
    · rw [bind_apply, bind_apply]
      rcases exponent N str o' with ⟨⟨exp_str, exp⟩, o''⟩ | ⟨e, o''⟩ | i | _
      · rfl
      · rfl
      · rfl
      · rfl
    · rfl
    · rfl
  · rfl
  · rfl
  · rfl

/-! ### The tokens -/

/-- A number as it is written: digits, maybe a fraction, maybe an exponent. -/
structure NumberToken where
  negative : Bool
  int : Digits
  frac : Option Digits
  exp : Option Exponent

def Digits.value (d : Digits) : ℕ := ofDigits d.render

def Exponent.value (e : Exponent) : ℤ :=
  if e.sign = some true then -(e.digits.value : ℤ) else e.digits.value

namespace NumberToken

def mantissa (x : NumberToken) : List UInt8 :=
  (if x.negative then [minus] else []) ++ (x.int.render ++ x.frac.elim [] fun f => dot :: f.render)

def render (x : NumberToken) : List UInt8 := x.mantissa ++ x.exp.elim [] Exponent.render

/-- The exponent that is written, and zero where there is none. -/
def exponent (x : NumberToken) : ℤ := x.exp.elim 0 Exponent.value

end NumberToken

/-! ### Digits -/

/-- The characters of the digits behind the first one. -/
def Digits.others (d : Digits) : List UInt8 :=
  d.more.map fun i : Fin 10 => UInt8.ofNat (48 + (i : ℕ))

lemma Digits.render_eq (d : Digits) : d.render = UInt8.ofNat (48 + (d.first : ℕ)) :: d.others := by
  obtain ⟨first, more⟩ := d
  induction more with
  | nil => rfl
  | cons i more ih =>
    have htail := congrArg List.tail ih
    refine congrArg₂ List.cons rfl (congrArg₂ List.cons rfl ?_)
    exact htail

lemma isDigit_ofNat (i : Fin 10) : isDigit (UInt8.ofNat (48 + (i : ℕ))) = true := by
  have hnat := toNat_digit i.isLt
  have hlt := i.isLt
  simp only [isDigit, Bool.and_eq_true, decide_eq_true_eq, UInt8.le_iff_toNat_le, hnat]
  exact ⟨Nat.le_add_right _ _, show 48 + (i : ℕ) ≤ 57 by omega⟩

lemma isDigit_others (d : Digits) (h : c ∈ d.others) : isDigit c = true := by
  obtain ⟨i, -, rfl⟩ := List.mem_map.mp h
  exact isDigit_ofNat i

lemma isDigit_render (d : Digits) (h : c ∈ d.render) : isDigit c = true := by
  rw [d.render_eq] at h
  rcases List.mem_cons.mp h with rfl | h
  · exact isDigit_ofNat d.first
  · exact isDigit_others d h

lemma ofDigits_cons (d : UInt8) (ds : List UInt8) :
    ofDigits (d :: ds) = (d.toNat - 48) * 10 ^ ds.length + ofDigits ds := by
  have hfold : ∀ (ds : List UInt8) (n : ℕ),
      ds.foldl (fun n d => n * 10 + (d.toNat - 48)) n = n * 10 ^ ds.length + ofDigits ds := by
    intro ds
    induction ds with
    | nil => intro n; simp [ofDigits]
    | cons e ds ih =>
      intro n
      have hstep : ofDigits (e :: ds) = (0 * 10 + (e.toNat - 48)) * 10 ^ ds.length + ofDigits ds :=
        ih _
      rw [List.foldl_cons, ih, hstep, List.length_cons]
      ring
  have hcons : ofDigits (d :: ds) = (0 * 10 + (d.toNat - 48)) * 10 ^ ds.length + ofDigits ds :=
    hfold ds _
  rw [hcons, Nat.zero_mul, Nat.zero_add]

/-- The first digit of a number is zero exactly if the others denote the same number. -/
lemma ofDigits_others_iff (d : Digits) : ofDigits d.others = d.value ↔ d.first = 0 := by
  have hvalue : d.value = (d.first : ℕ) * 10 ^ d.others.length + ofDigits d.others := by
    rw [Digits.value, d.render_eq, ofDigits_cons, toNat_digit d.first.isLt, Nat.add_sub_cancel_left]
  have hpos : 0 < 10 ^ d.others.length := Nat.pow_pos (by omega)
  rw [hvalue, Fin.ext_iff, Fin.val_zero]
  constructor
  · intro h
    rcases Nat.eq_zero_or_pos (d.first : ℕ) with h0 | h0
    · exact h0
    · have := Nat.mul_pos h0 hpos
      omega
  · intro h
    rw [h, Nat.zero_mul, Nat.zero_add]

/-! ### What is read of an exponent -/

namespace Exponent

/-- The text that is converted: without a plus sign the first digit is missing. -/
def kept (e : Exponent) : List UInt8 :=
  match e.sign with
  | some false => e.digits.render
  | some true => minus :: e.digits.others
  | none => e.digits.others

variable (N) in
/-- The exponent fits a `long`, and it has a plus sign or a zero before its other digits. -/
structure IsRead (e : Exponent) : Prop where
  inRange : N.IsLong e.value
  whole : e.sign = some false ∨ (e.digits.first = 0 ∧ e.digits.more ≠ [])

/-- Some digits of a number are converted to it. -/
lemma stol_digits_iff {ds : List UInt8} (hds : ∀ d ∈ ds, isDigit d = true) (neg : Bool) (n : ℕ) :
    stol N ((if neg then [minus] else []) ++ ds) = .ok (if neg then -(n : ℤ) else n) ↔
      N.IsLong (if neg then -(n : ℤ) else n) ∧ ofDigits ds = n ∧ ds ≠ [] := by
  rw [stol, strtol_digits hds]
  by_cases hnil : ds = []
  · simp [hnil]
  · have hinj : (if neg then -(ofDigits ds : ℤ) else ofDigits ds) = (if neg then -(n : ℤ) else n) ↔
        ofDigits ds = n := by
      cases neg <;> simp
    simp only [if_neg hnil]
    generalize (if neg then -(ofDigits ds : ℤ) else ofDigits ds) = i at hinj ⊢
    generalize (if neg then -(n : ℤ) else n) = j at hinj ⊢
    constructor
    · intro h
      split_ifs at h with hlong
      have heq := Except.ok.inj h
      exact ⟨heq ▸ hlong, hinj.mp heq, hnil⟩
    · rintro ⟨hlong, heq, -⟩
      rw [hinj.mpr heq, if_pos hlong]

lemma stol_kept_iff (e : Exponent) : stol N e.kept = .ok e.value ↔ e.IsRead N := by
  obtain ⟨capital, sign, digits⟩ := e
  have hcut : ∀ neg : Bool, ofDigits digits.others = digits.value ∧ digits.others ≠ [] ↔
      (some neg = some false ∧ neg = true) ∨ (digits.first = 0 ∧ digits.more ≠ []) := by
    intro neg
    have hnil : digits.others = [] ↔ digits.more = [] := List.map_eq_nil_iff
    rw [ofDigits_others_iff, ne_eq, hnil]
    cases neg <;> simp
  have hothers := fun d => isDigit_others (c := d) digits
  rcases sign with _ | neg
  · refine (stol_digits_iff hothers false digits.value).trans
      ⟨fun h => ⟨h.1, .inr ?_⟩, fun h => ⟨h.inRange, ?_⟩⟩
    · exact ((hcut false).mp h.2).resolve_left (by simp)
    · exact (hcut false).mpr (.inr (h.whole.resolve_left (by simp)))
  · cases neg with
    | true =>
      refine (stol_digits_iff hothers true digits.value).trans
        ⟨fun h => ⟨h.1, .inr ?_⟩, fun h => ⟨h.inRange, ?_⟩⟩
      · exact ((hcut true).mp h.2).resolve_left (by simp)
      · exact (hcut true).mpr (.inr (h.whole.resolve_left (by simp)))
    | false =>
      refine (stol_digits_iff (fun d => isDigit_render (c := d) digits) false digits.value).trans
        ⟨fun h => ⟨h.1, .inl rfl⟩, fun h => ⟨h.inRange, rfl, ?_⟩⟩
      rw [digits.render_eq]
      exact List.cons_ne_nil _ _

/-- The exponent is read up to the character behind it. -/
lemma exponent_run (e : Exponent) (hc : isStop c = true)
    (h : At str o (e.render.tail ++ c :: t)) :
    Json.exponent N str o = (Reader.ofExcept (stol N e.kept) (o + e.render.length)).bind
      fun exp o => .ok (e.kept, exp) o := by
  -- a mark, and the digits behind it
  have hrun : ∀ {mark sign ds : List UInt8}, Sign mark sign → (∀ d ∈ ds, isDigit d = true) →
      e.render.tail = mark ++ ds → e.kept = sign ++ ds →
      Json.exponent N str o = (Reader.ofExcept (stol N e.kept) (o + e.render.length)).bind
        fun exp o => .ok (e.kept, exp) o := by
    intro mark sign ds hm hds htext hkept
    rw [htext, List.append_assoc] at h
    have hat : At str (o + mark.length) (ds ++ c :: t) := h.skip
    have hlen := hat.length
    rw [List.length_append] at hlen
    have hlength : o + mark.length + ds.length + 1 = o + e.render.length := by
      have := congrArg List.length htext
      rw [List.length_append, List.length_tail] at this
      have hpos : 0 < e.render.length := by simp [Exponent.render]
      omega
    rw [exponent_mark hm h, exponentLoop_run hds hat (by simpa using isStop_not_isDigit hc)
      (by unfold turns; omega), List.headD_cons, if_pos hc, Res.ok_bind, hkept, hlength]
  obtain ⟨capital, sign, digits⟩ := e
  have hothers := fun d => isDigit_others (c := d) digits
  rcases sign with _ | neg
  · have hfirst : UInt8.ofNat (48 + (digits.first : ℕ)) ≠ minus := by
      intro heq
      have hd := isDigit_ofNat digits.first
      rw [heq] at hd
      exact absurd hd (by decide)
    exact hrun (.plus hfirst) hothers digits.render_eq rfl
  · cases neg with
    | true =>
      exact hrun (.minus _) hothers (congrArg (minus :: ·) digits.render_eq) rfl
    | false =>
      have hplus : Sign [43] [] := .plus (by decide)
      exact hrun hplus (fun d => isDigit_render (c := d) digits) rfl rfl

end Exponent

/-! ### Whole numbers -/

lemma numberParts_run {val : List UInt8} (hval : ∀ d ∈ val, isNumber d = true)
    (h : At str o (val ++ s)) (hs : ∀ d ∈ s.head?, isNumber d = false) :
    numberParts N str o =
      if isExponent (s.headD 0) then
        (exponent N str (o + val.length + 1)).bind fun p o =>
          .ok (val, decide (dot ∈ val), p.1, p.2) (o - 1)
      else if isStop (s.headD 0) then .ok (val, decide (dot ∈ val), [], 0) (o + val.length)
      else .throw (text "ERROR: Number: unexpected character '" ++ [s.headD 0] ++ text "'.")
        (o + val.length + 1) := by
  have hlen := h.length
  rw [List.length_append] at hlen
  rw [numberParts, bind_apply, numberLoop_run hval h hs (by unfold turns; omega), Res.ok_bind]
  simp only [List.nil_append, Bool.false_or]
  change (if isExponent (s.headD 0) = true then _ else _ : Parser _) (o + val.length + 1) = _
  split_ifs <;> rfl

namespace NumberToken

lemma isNumber_mantissa (x : NumberToken) (h : c ∈ x.mantissa) : isNumber c = true := by
  rw [isNumber_iff]
  rcases List.mem_append.mp h with h | h
  · split_ifs at h
    · exact .inl (List.mem_singleton.mp h)
    · cases h
  · rcases List.mem_append.mp h with h | h
    · exact .inr (.inl (isDigit_render _ h))
    · rcases hf : x.frac with _ | f
      · rw [hf] at h
        cases h
      · rw [hf] at h
        rcases List.mem_cons.mp h with rfl | h
        · exact .inr (.inr rfl)
        · exact .inr (.inl (isDigit_render _ h))

lemma dot_mem_mantissa (x : NumberToken) : decide (dot ∈ x.mantissa) = x.frac.isSome := by
  have hdigits : ∀ d : Digits, dot ∉ d.render := fun d h => absurd (isDigit_render d h) (by decide)
  have hsign : dot ∉ (if x.negative then [minus] else []) := by
    split_ifs <;> decide
  unfold mantissa
  rcases x.frac with _ | f
  · simp [hsign, hdigits]
  · simp

/-- What is found in a token: the mantissa, and of the exponent what is kept. -/
lemma numberParts_eq (x : NumberToken) (h : At str o (x.render ++ c :: t))
    (hc : isStop c = true) :
    numberParts N str o = match x.exp with
      | none => .ok (x.mantissa, x.frac.isSome, [], 0) (o + x.render.length)
      | some e => (Reader.ofExcept (stol N e.kept) (o + x.render.length + 1)).bind fun exp o =>
          .ok (x.mantissa, x.frac.isSome, e.kept, exp) (o - 1) := by
  rcases he : x.exp with _ | e
  · have hrender : x.render = x.mantissa := by rw [render, he, Option.elim_none, List.append_nil]
    rw [hrender] at h ⊢
    rw [numberParts_run (fun d => x.isNumber_mantissa) h (by simpa using isStop_not_isNumber hc),
      List.headD_cons, isStop_not_isExponent hc, if_neg (by decide), if_pos hc, dot_mem_mantissa]
  · obtain ⟨m, hm, hmark⟩ : ∃ m, isExponent m = true ∧ e.render = m :: e.render.tail := by
      refine ⟨if e.capital then 69 else 101, ?_, rfl⟩
      cases e.capital <;> rfl
    have hrender : x.render = x.mantissa ++ e.render := by rw [render, he, Option.elim_some]
    rw [hrender, List.append_assoc, hmark, List.cons_append] at h
    have hat : At str (o + x.mantissa.length + 1) (e.render.tail ++ c :: t) := At.tail h.skip
    rw [numberParts_run (fun d => x.isNumber_mantissa) h
      (by simpa using isExponent_not_isNumber hm), List.headD_cons, if_pos hm,
      e.exponent_run hc hat, dot_mem_mantissa, hrender, List.length_append,
      show o + x.mantissa.length + 1 + e.render.length =
        o + (x.mantissa.length + e.render.length) + 1 by omega]
    dsimp only
    rcases stol N e.kept with err | exp
    · rfl
    · rfl

end NumberToken

/-- **A number is taken apart as it is written exactly if its exponent fits a `long` and has a
plus sign, or a zero before its other digits.** Then the token is consumed and no more. -/
theorem parse_number_token_iff (x : NumberToken) (h : At str o (x.render ++ c :: t))
    (hc : isStop c = true) :
    parse_number N str o = ((numberParts N str o).bind fun p o =>
      Reader.ofExcept (numberValue N p.1 p.2.1 p.2.2.1 p.2.2.2) o) ∧
    ((∃ exp_str, (exp_str = [] ↔ x.exp = none) ∧ numberParts N str o =
        .ok (x.mantissa, x.frac.isSome, exp_str, x.exponent) (o + x.render.length)) ↔
      ∀ e ∈ x.exp, e.IsRead N) := by
  refine ⟨parse_number_eq o, ?_⟩
  rw [x.numberParts_eq h hc]
  rcases he : x.exp with _ | e
  · have hzero : x.exponent = 0 := by rw [NumberToken.exponent, he, Option.elim_none]
    rw [hzero]
    exact iff_of_true ⟨[], by simp, rfl⟩ (fun e he => by cases he)
  · have hval : x.exponent = e.value := by rw [NumberToken.exponent, he, Option.elim_some]
    have hall : (∀ f ∈ some e, f.IsRead N) ↔ e.IsRead N := by simp
    rw [hval, hall, ← e.stol_kept_iff]
    dsimp only
    constructor
    · rintro ⟨exp_str, -, hparts⟩
      rcases hstol : stol N e.kept with err | exp
      · rw [hstol] at hparts
        cases hparts
      · rw [hstol, Reader.ofExcept_ok, Res.ok_bind] at hparts
        have heq := (Res.ok.inj hparts).1
        simp only [Prod.mk.injEq, true_and] at heq
        rw [heq.2]
    · intro hstol
      refine ⟨e.kept, ?_, by rw [hstol]; rfl⟩
      -- no number is read of an empty text
      have hne : e.kept ≠ [] := by
        intro hnil
        rw [hnil] at hstol
        cases hstol
      simp [hne]

/-- `-12.5e+3`, and behind it the end of an array. -/
theorem parse_number_plus : ∃ exp_str,
    numberParts lp64 (text "[-12.5e+3]") 1 = .ok (text "-12.5", true, exp_str, 3) 9 := by
  have hat : At (text "[-12.5e+3]") 1
      ((⟨true, ⟨1, [2]⟩, some ⟨5, []⟩, some ⟨false, some false, ⟨3, []⟩⟩⟩ : NumberToken).render ++
        rbracket :: []) := ⟨by decide, by decide⟩
  obtain ⟨exp_str, -, h⟩ := (parse_number_token_iff (N := lp64) _ hat (by decide)).2.mpr fun e he =>
    ⟨by rw [← Option.some.inj he]; decide, .inl (by rw [← Option.some.inj he])⟩
  exact ⟨exp_str, h⟩

/-- `2e10`: the one is dropped, and the exponent is zero. -/
theorem parse_number_unsigned : ¬ ∃ exp_str,
    numberParts lp64 (text "2e10,") 0 = .ok (text "2", false, exp_str, 10) 4 := by
  rintro ⟨exp_str, h⟩
  have hparts : numberParts lp64 (text "2e10,") 0 = .ok (text "2", false, text "0", 0) 4 := rfl
  rw [hparts] at h
  have heq := (Res.ok.inj h).1
  simp only [Prod.mk.injEq] at heq
  exact absurd heq.2.2.2 (by decide)

end MmrService.Json
