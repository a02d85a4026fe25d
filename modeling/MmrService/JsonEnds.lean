import MmrService.JsonDecode
import MmrService.JsonExponents

/-!
A JSON document is read to its end.

Where the parser reads something that is written as in JSON, with no block comment that starts
with a slash, it takes for its end what is its end, whatever value it makes of it.
-/

namespace MmrService.Json

open Scan Relation

variable {N : Numbers} {s t u r : List UInt8} {v : Value N.Double} {g : Gap}

/-! ### One reading -/

lemma Reads.unique {v' : Value N.Double} {t' : List UInt8} (h : Reads N s v t)
    (h' : Reads N s v' t') : t = t' := by
  obtain ⟨o, hp, hat⟩ := h.parse (.start s) (Nat.lt_succ_self _)
  obtain ⟨o', hp', hat'⟩ := h'.parse (.start s) (Nat.lt_succ_self _)
  rw [hp, Res.ok.injEq] at hp'
  rw [← hat.drop, ← hat'.drop, hp'.2]

/-! ### Numbers -/

/-- A text starts with one run of characters with a property. -/
lemma run_unique (p : UInt8 → Bool) {w w' r r' : List UInt8} (h : w ++ r = w' ++ r')
    (hw : ∀ d ∈ w, p d = true) (hw' : ∀ d ∈ w', p d = true) (hr : ∀ d ∈ r.head?, p d = false)
    (hr' : ∀ d ∈ r'.head?, p d = false) : w = w' ∧ r = r' := by
  have htake : ∀ {a b : List UInt8}, (∀ d ∈ a, p d = true) → (∀ d ∈ b.head?, p d = false) →
      (a ++ b).takeWhile p = a := by
    intro a b ha hb
    rw [List.takeWhile_append_of_pos ha]
    cases b with
    | nil => rw [List.takeWhile_nil, List.append_nil]
    | cons d b => rw [List.takeWhile_cons_of_neg (by simp [hb d rfl]), List.append_nil]
  have heq : w = w' := by rw [← htake hw hr, h, htake hw' hr']
  exact ⟨heq, List.append_cancel_left (heq ▸ h)⟩

namespace Decimal

/-- A number up to its exponent. -/
def mantissa (n : Decimal) : List UInt8 :=
  (if n.negative then [minus] else []) ++ decimal n.int ++ n.frac.elim [] fun f => dot :: f.render

lemma render_eq (n : Decimal) : n.render = n.mantissa ++ n.exp.elim [] Exponent.render := rfl

lemma isNumber_mantissa (n : Decimal) : ∀ d ∈ n.mantissa, isNumber d = true := by
  intro d hd
  rcases List.mem_append.mp hd with hd | hd
  · rcases List.mem_append.mp hd with hd | hd
    · split_ifs at hd
      · exact isNumber_iff.mpr (.inl (List.mem_singleton.mp hd))
      · cases hd
    · exact isNumber_iff.mpr (.inr (.inl (isDigit_decimal hd)))
  · rcases hf : n.frac with _ | f
    · rw [hf] at hd
      cases hd
    · rw [hf] at hd
      rcases List.mem_cons.mp hd with rfl | hd
      · exact isNumber_iff.mpr (.inr (.inr rfl))
      · exact isNumber_iff.mpr (.inr (.inl (isDigit_render f hd)))

/-- What may follow the mantissa of a number. -/
lemma not_isNumber_exp (n : Decimal) (hr : Follows r) :
    ∀ d ∈ (n.exp.elim [] Exponent.render ++ r).head?, isNumber d = false := by
  intro d hd
  rcases he : n.exp with _ | e
  · rw [he] at hd
    exact (hr d hd).1
  · rw [he] at hd
    obtain rfl : (if e.capital then 69 else 101) = d := Option.some.inj hd
    cases e.capital <;> decide

end Decimal

lemma Follows.not_isDigit (hr : Follows r) : ∀ d ∈ r.head?, isDigit d = false := by
  intro d hd
  by_contra hdig
  have hnum := isNumber_iff.mpr (.inr (.inl (Bool.eq_true_of_not_eq_false hdig)))
  rw [(hr d hd).1] at hnum
  cases hnum

/-- The digits of an exponent end where the parser takes them to end. -/
lemma exponent_ends {e : Exponent} {mark sign ds : List UInt8} {c d : UInt8}
    (h : d :: (mark ++ (ds ++ c :: t)) = e.render ++ r) (hs : Sign mark sign)
    (hds : ∀ d ∈ ds, isDigit d = true) (hc : isStop c = true) (hr : Follows r) : c :: t = r := by
  have hstop : ∀ d ∈ (c :: t).head?, isDigit d = false := by
    rintro d ⟨⟩
    exact isStop_not_isDigit hc
  have hothers := fun d => isDigit_others (c := d) e.digits
  have hrun := fun {w : List UInt8} (hw : ∀ d ∈ w, isDigit d = true)
    (heq : ds ++ c :: t = w ++ r) => (run_unique isDigit heq hds hw hstop hr.not_isDigit).2
  have hfirst := isDigit_ofNat e.digits.first
  obtain ⟨-, h⟩ := List.cons.inj h
  change mark ++ (ds ++ c :: t) = (e.sign.elim [] _ ++ e.digits.render) ++ r at h
  rcases hsign : e.sign with _ | neg
  · rw [hsign, e.digits.render_eq] at h
    cases hs with
    | plus => exact hrun hothers (List.cons.inj h).2
    | minus =>
      rw [← (List.cons.inj h).1] at hfirst
      exact absurd hfirst (by decide)
  · rw [hsign] at h
    cases hs with
    | plus hne =>
      have hneg : neg = false := by
        by_contra hneg
        rw [Bool.eq_true_of_not_eq_false hneg] at h
        exact hne (List.cons.inj h).1
      rw [hneg] at h
      exact hrun (fun d => isDigit_render (c := d) e.digits) (List.cons.inj h).2
    | minus =>
      obtain ⟨-, h⟩ := List.cons.inj h
      change _ :: (ds ++ c :: t) = e.digits.render ++ r at h
      rw [e.digits.render_eq] at h
      exact hrun hothers (List.cons.inj h).2

/-- The parser takes a number of JSON to its end. -/
lemma Number.ends {n : Decimal} (h : Number N s v t) (hs : s = n.render ++ r) (hr : Follows r) :
    t = r := by
  have hsplit : n.render ++ r = n.mantissa ++ (n.exp.elim [] Exponent.render ++ r) := by
    rw [n.render_eq, List.append_assoc]
  rw [hsplit] at hs
  cases h with
  | @plain val t c _ hval hc _ =>
    have hstop : ∀ d ∈ (c :: t).head?, isNumber d = false := by
      rintro d ⟨⟩
      exact isStop_not_isNumber hc
    have h := (run_unique isNumber hs hval n.isNumber_mantissa hstop (n.not_isNumber_exp hr)).2
    rcases he : n.exp with _ | e
    · rw [he] at h
      exact h
    · rw [he] at h
      rw [(List.cons.inj h).1] at hc
      cases hcap : e.capital <;> rw [hcap] at hc <;> exact absurd hc (by decide)
  | @exponent val mark sign ds t e c exp _ hval he hsign hds hc _ _ =>
    have hmark : ∀ d ∈ (e :: (mark ++ (ds ++ c :: t))).head?, isNumber d = false := by
      rintro d ⟨⟩
      exact isExponent_not_isNumber he
    have h := (run_unique isNumber hs hval n.isNumber_mantissa hmark (n.not_isNumber_exp hr)).2
    rcases hexp : n.exp with _ | e'
    · rw [hexp] at h
      have hnot := (hr e (by rw [← List.nil_append r]; exact h ▸ rfl)).2
      rw [he] at hnot
      cases hnot
    · rw [hexp] at h
      exact exponent_ends h hsign hds hc hr

/-- The exponent of a JSON number has a digit. -/
lemma not_cutExponent {n : Decimal} (hr : Follows r) : ¬ CutExponent (n.render ++ r) := by
  intro h
  rw [n.render_eq, List.append_assoc] at h
  generalize hs : n.mantissa ++ (n.exp.elim [] Exponent.render ++ r) = s at h
  obtain ⟨hval, he, hm⟩ := h
  rename_i val mark e
  have hmark : ∀ d ∈ (e :: mark).head?, isNumber d = false := by
    rintro d ⟨⟩
    exact isExponent_not_isNumber he
  have h := (run_unique isNumber hs.symm hval n.isNumber_mantissa hmark
    (n.not_isNumber_exp hr)).2
  rcases hexp : n.exp with _ | e'
  · rw [hexp] at h
    have hnot := (hr e (by rw [← List.nil_append r]; exact h ▸ rfl)).2
    rw [he] at hnot
    cases hnot
  · rw [hexp] at h
    obtain ⟨-, h⟩ := List.cons.inj h
    have hfirst := isDigit_ofNat e'.digits.first
    change mark = (e'.sign.elim [] _ ++ e'.digits.render) ++ r at h
    rw [e'.digits.render_eq] at h
    rcases hm with rfl | rfl
    · rcases hsign : e'.sign with _ | neg <;> rw [hsign] at h <;> cases h
    · rcases hsign : e'.sign with _ | neg
      · rw [hsign] at h
        rw [← (List.cons.inj h).1] at hfirst
        exact absurd hfirst (by decide)
      · rw [hsign] at h
        cases (List.cons.inj h).2

/-! ### First characters -/

lemma Doc.of_lbracket {d : Doc Unescaped Decimal}
    (h : d.render grammarScript ++ r = lbracket :: s) :
    (∃ g, d = .emptyArray g ∧ s = g.render ++ rbracket :: r) ∨
      ∃ es, d = .array es ∧ s = es.render grammarScript ++ r := by
  cases d with
  | emptyArray g => exact .inl ⟨g, rfl, by simpa [Doc.render, eq_comm] using h⟩
  | array es => exact .inr ⟨es, rfl, (List.cons.inj h).2.symm⟩
  | number n =>
    obtain ⟨c, u, hc, hstart⟩ := n.head
    change n.render ++ r = _ at h
    rw [hc] at h
    rw [(List.cons.inj h).1] at hstart
    rcases hstart with hd | hd <;> exact absurd hd (by decide)
  | boolean b => cases b <;> exact absurd (List.cons.inj h).1 (by decide)
  | null => exact absurd (List.cons.inj h).1 (by decide)
  | string ps => exact absurd (List.cons.inj h).1 (by decide)
  | emptyObject g => exact absurd (List.cons.inj h).1 (by decide)
  | object ms => exact absurd (List.cons.inj h).1 (by decide)

lemma Doc.of_lbrace {d : Doc Unescaped Decimal}
    (h : d.render grammarScript ++ r = lbrace :: s) :
    (∃ g, d = .emptyObject g ∧ s = g.render ++ rbrace :: r) ∨
      ∃ ms, d = .object ms ∧ s = ms.render grammarScript ++ r := by
  cases d with
  | emptyObject g => exact .inl ⟨g, rfl, by simpa [Doc.render, eq_comm] using h⟩
  | object ms => exact .inr ⟨ms, rfl, (List.cons.inj h).2.symm⟩
  | number n =>
    obtain ⟨c, u, hc, hstart⟩ := n.head
    change n.render ++ r = _ at h
    rw [hc] at h
    rw [(List.cons.inj h).1] at hstart
    rcases hstart with hd | hd <;> exact absurd hd (by decide)
  | boolean b => cases b <;> exact absurd (List.cons.inj h).1 (by decide)
  | null => exact absurd (List.cons.inj h).1 (by decide)
  | string ps => exact absurd (List.cons.inj h).1 (by decide)
  | emptyArray g => exact absurd (List.cons.inj h).1 (by decide)
  | array es => exact absurd (List.cons.inj h).1 (by decide)

/-- A document starts with a character that is neither skipped nor closes another one. -/
lemma Doc.head (d : Doc Unescaped Decimal) : ∃ c u, d.render grammarScript = c :: u ∧
    (isspace c = false ∧ c ≠ hash ∧ c ≠ slash) ∧ c ≠ rbracket ∧ c ≠ rbrace := by
  cases d with
  | null => exact ⟨_, _, rfl, by decide⟩
  | boolean b => cases b <;> exact ⟨_, _, rfl, by decide⟩
  | number n =>
    obtain ⟨c, u, hc, hstart⟩ := n.head
    refine ⟨c, u, hc, ?_⟩
    simp only [isDigit, isspace, minus, hash, slash, rbracket, rbrace] at *
    grind
  | string ps => exact ⟨_, _, rfl, by decide⟩
  | emptyArray g => exact ⟨_, _, rfl, by decide⟩
  | array es => exact ⟨_, _, rfl, by decide⟩
  | emptyObject g => exact ⟨_, _, rfl, by decide⟩
  | object ms => exact ⟨_, _, rfl, by decide⟩

lemma Doc.skips (d : Doc Unescaped Decimal) (hg : g.Plain) :
    Skips (g.render ++ (d.render grammarScript ++ r)) (d.render grammarScript ++ r) := by
  obtain ⟨c, u, hd, hc, -⟩ := d.head
  rw [hd]
  exact Gap.skips hg hc

lemma skips_close (hg : g.Plain) :
    Skips (g.render ++ rbracket :: r) (rbracket :: r) ∧
      Skips (g.render ++ rbrace :: r) (rbrace :: r) :=
  ⟨Gap.skips hg (by decide), Gap.skips hg (by decide)⟩

section

variable (g g' h h' : Gap) (ps : List (Piece Unescaped)) (d : Doc Unescaped Decimal)
  (es : Elems Unescaped Decimal) (ms : Membs Unescaped Decimal)

/-! How the elements and members stand in a text. -/

lemma Elems.render_last : (Elems.last g d g').render grammarScript ++ r =
    g.render ++ (d.render grammarScript ++ (g'.render ++ rbracket :: r)) := by
  simp [Elems.render]

lemma Elems.render_more : (Elems.more g d g' es).render grammarScript ++ r =
    g.render ++ (d.render grammarScript ++ (g'.render ++
      comma :: (es.render grammarScript ++ r))) := by
  simp [Elems.render]

lemma Membs.render_last : (Membs.last g ps g' h d h').render grammarScript ++ r =
    g.render ++ (renderString grammarScript ps ++ (g'.render ++
      colon :: (h.render ++ (d.render grammarScript ++ (h'.render ++ rbrace :: r))))) := by
  simp [Membs.render]

lemma Membs.render_more : (Membs.more g ps g' h d h' ms).render grammarScript ++ r =
    g.render ++ (renderString grammarScript ps ++ (g'.render ++
      colon :: (h.render ++ (d.render grammarScript ++ (h'.render ++
        comma :: (ms.render grammarScript ++ r)))))) := by
  simp [Membs.render]

end

/-! ### A document is read to its end -/

/-- A string is read to its end. -/
lemma Reads.string_ends {ps : List (Piece Unescaped)} (hg : g.Plain)
    (h : Reads N (g.render ++ (renderString grammarScript ps ++ t)) v u) : u = t :=
  h.unique ((string_reads (N := N) unescaped ps).behind (Gap.blanks hg))

lemma Token.not_bracket {c : UInt8} (h : Token N (c :: s) v t) : c ≠ lbracket ∧ c ≠ lbrace := by
  generalize hs : c :: s = u at h
  cases h with
  | string => rw [(List.cons.inj hs).1]; decide
  | number hstart =>
    have hc := startsNumber_cons.mp (hs ▸ hstart)
    simp only [isDigit, minus, lbracket, lbrace] at *
    grind
  | true_ => rw [(List.cons.inj hs).1]; decide
  | false_ => rw [(List.cons.inj hs).1]; decide
  | null => rw [(List.cons.inj hs).1]; decide

lemma Token.ends {d : Doc Unescaped Decimal} (h : Token N (d.render grammarScript ++ r) v t)
    (hr : Follows r) : t = r := by
  have hreads : ∀ {s}, Skips s s → Token N s v t → Reads N s v t := fun hs ht => .token hs ht
  have hskip : Skips (d.render grammarScript ++ r) (d.render grammarScript ++ r) :=
    d.skips Gap.plain_nil
  cases d with
  | null => exact (hreads hskip h).unique (.token hskip .null)
  | boolean b =>
    cases b with
    | true => exact (hreads hskip h).unique (.token hskip .true_)
    | false => exact (hreads hskip h).unique (.token hskip .false_)
  | string ps => exact (hreads hskip h).string_ends Gap.plain_nil
  | number n =>
    obtain ⟨c, u, hc, hstart⟩ := n.head
    have hne : c ≠ quote ∧ c ≠ 116 ∧ c ≠ 102 ∧ c ≠ 110 := by
      simp only [isDigit, quote, minus] at *
      grind
    generalize hs : (Doc.number n).render grammarScript ++ r = s at h
    have hs' : c :: (u ++ r) = s := by rw [← hs, ← List.cons_append, ← hc]; rfl
    cases h with
    | string => exact absurd (List.cons.inj hs').1 hne.1
    | number _ h => exact h.ends hs.symm hr
    | true_ => exact absurd (List.cons.inj hs').1 hne.2.1
    | false_ => exact absurd (List.cons.inj hs').1 hne.2.2.1
    | null => exact absurd (List.cons.inj hs').1 hne.2.2.2
  | emptyArray g => exact absurd rfl h.not_bracket.1
  | array es => exact absurd rfl h.not_bracket.1
  | emptyObject g => exact absurd rfl h.not_bracket.2
  | object ms => exact absurd rfl h.not_bracket.2

/-- No value stands where an array or an object is closed. -/
lemma not_reads_close (hg : g.Plain) :
    ¬ Reads N (g.render ++ rbracket :: r) v t ∧ ¬ Reads N (g.render ++ rbrace :: r) v t :=
  ⟨fun h => (h.head (skips_close hg).1).1 rfl, fun h => (h.head (skips_close hg).2).2 rfl⟩

lemma Skips.head_eq {c c' : UInt8} (h : Skips s (c :: t)) (h' : Skips s (c' :: u)) :
    c = c' ∧ t = u := List.cons.inj (h.unique h')

lemma Reads.token_of_head {c : UInt8} (h : Reads N s v t) (hs : Skips s (c :: u))
    (hc : c ≠ lbracket ∧ c ≠ lbrace) : Token N (c :: u) v t := by
  cases h with
  | token hs' ht => exact hs'.unique hs ▸ ht
  | arrayNil hs' _ => exact absurd (hs.head_eq hs').1 hc.1
  | array hs' _ _ => exact absurd (hs.head_eq hs').1 hc.1
  | objectNil hs' _ => exact absurd (hs.head_eq hs').1 hc.2
  | object hs' _ => exact absurd (hs.head_eq hs').1 hc.2

lemma Elems.not_closed {es : Elems Unescaped Decimal} (hes : es.Plain) :
    ¬ Skips (es.render grammarScript ++ r) (rbracket :: t) := by
  intro hs
  cases es with
  | last g d g' =>
    obtain ⟨c, u, hd, -, hc, -⟩ := d.head
    rw [Elems.render_last] at hs
    have heq := hs.unique (d.skips hes.1)
    rw [hd] at heq
    exact hc (List.cons.inj heq).1.symm
  | more g d g' es =>
    obtain ⟨c, u, hd, -, hc, -⟩ := d.head
    rw [Elems.render_more] at hs
    have heq := hs.unique (d.skips hes.1)
    rw [hd] at heq
    exact hc (List.cons.inj heq).1.symm

lemma Membs.not_closed {ms : Membs Unescaped Decimal} (hms : ms.Plain) :
    ¬ Skips (ms.render grammarScript ++ r) (rbrace :: t) := by
  intro hs
  cases ms with
  | last g ps g' h d h' =>
    rw [Membs.render_last] at hs
    exact absurd (hs.head_eq (Gap.skips hms.1 (by decide))).1 (by decide)
  | more g ps g' h d h' ms =>
    rw [Membs.render_more] at hs
    exact absurd (hs.head_eq (Gap.skips hms.1 (by decide))).1 (by decide)

mutual

/-- A document is read to its end. -/
lemma Doc.ends {r t : List UInt8} {v : Value N.Double} {g : Gap} (hg : g.Plain) :
    (d : Doc Unescaped Decimal) → d.Plain → Follows r →
      Reads N (g.render ++ (d.render grammarScript ++ r)) v t → t = r
  | .null, _, hr, h =>
    Token.ends (d := .null) (h.token_of_head (Doc.skips .null hg) (by decide)) hr
  | .boolean true, _, hr, h =>
    Token.ends (d := .boolean true) (h.token_of_head (Doc.skips (.boolean true) hg) (by decide)) hr
  | .boolean false, _, hr, h =>
    Token.ends (d := .boolean false)
      (h.token_of_head (Doc.skips (.boolean false) hg) (by decide)) hr
  | .number n, _, hr, h => by
    obtain ⟨c, u, hc, hstart⟩ := n.head
    have hne : c ≠ lbracket ∧ c ≠ lbrace := by
      simp only [isDigit, lbracket, lbrace, minus] at *
      grind
    have hren : (Doc.number n : Doc Unescaped Decimal).render grammarScript ++ r = c :: (u ++ r) :=
      congrArg (· ++ r) hc
    have hskip := Doc.skips (r := r) (.number n) hg
    rw [hren] at hskip h
    have ht := h.token_of_head hskip hne
    rw [← hren] at ht
    exact ht.ends hr
  | .string ps, _, _, h => h.string_ends hg
  | .emptyArray g', hd, _, h => by
    have hnil := Reads.arrayNil (N := N) (Gap.skips hg (by decide)) (skips_close (r := r) hd).1
    have hren : (Doc.emptyArray g' : Doc Unescaped Decimal).render grammarScript ++ r =
        lbracket :: (g'.render ++ rbracket :: r) := by simp [Doc.render]
    rw [hren] at h
    exact h.unique hnil
  | .array es, hd, _, h => by
    have hskip : Skips (g.render ++ lbracket :: (es.render grammarScript ++ r)) _ :=
      Gap.skips hg (by decide)
    cases h with
    | token hs ht =>
      rw [hs.unique hskip] at ht
      exact absurd rfl ht.not_bracket.1
    | arrayNil hs ht =>
      obtain ⟨-, rfl⟩ := hs.head_eq hskip
      exact absurd ht (Elems.not_closed hd)
    | array hs he _ =>
      rw [(hs.head_eq hskip).2] at he
      exact Elems.ends es hd he
    | objectNil hs _ => exact absurd (hs.head_eq hskip).1 (by decide)
    | object hs _ => exact absurd (hs.head_eq hskip).1 (by decide)
  | .emptyObject g', hd, _, h => by
    have hnil := Reads.objectNil (N := N) (Gap.skips hg (by decide)) (skips_close (r := r) hd).2
    have hren : (Doc.emptyObject g' : Doc Unescaped Decimal).render grammarScript ++ r =
        lbrace :: (g'.render ++ rbrace :: r) := by simp [Doc.render]
    rw [hren] at h
    exact h.unique hnil
  | .object ms, hd, _, h => by
    have hskip : Skips (g.render ++ lbrace :: (ms.render grammarScript ++ r)) _ :=
      Gap.skips hg (by decide)
    cases h with
    | token hs ht =>
      rw [hs.unique hskip] at ht
      exact absurd rfl ht.not_bracket.2
    | arrayNil hs _ => exact absurd (hs.head_eq hskip).1 (by decide)
    | array hs _ _ => exact absurd (hs.head_eq hskip).1 (by decide)
    | objectNil hs ht =>
      obtain ⟨-, rfl⟩ := hs.head_eq hskip
      exact absurd ht (Membs.not_closed hd)
    | object hs hm =>
      rw [(hs.head_eq hskip).2] at hm
      exact Membs.ends ms hd hm

lemma Elems.ends {r t : List UInt8} {vs : List (Value N.Double)} :
    (es : Elems Unescaped Decimal) → es.Plain →
      Elements N (es.render grammarScript ++ r) vs t → t = r
  | .last g d g', ⟨hg, hd, hg'⟩, h => by
    rw [Elems.render_last] at h
    cases h with
    | last hv ht =>
      rw [Doc.ends hg d hd (follows_gap (by decide)) hv] at ht
      exact (ht.head_eq (skips_close hg').1).2
    | more hv hc _ =>
      rw [Doc.ends hg d hd (follows_gap (by decide)) hv] at hc
      exact absurd (hc.head_eq (skips_close hg').1).1 (by decide)
  | .more g d g' es, ⟨hg, hd, hg', hes⟩, h => by
    have hcomma : Skips (g'.render ++ comma :: (es.render grammarScript ++ r)) _ :=
      Gap.skips hg' (by decide)
    rw [Elems.render_more] at h
    cases h with
    | last hv ht =>
      rw [Doc.ends hg d hd (follows_gap (by decide)) hv] at ht
      exact absurd (ht.head_eq hcomma).1 (by decide)
    | more hv hc hr =>
      rw [Doc.ends hg d hd (follows_gap (by decide)) hv] at hc
      rw [(hc.head_eq hcomma).2] at hr
      exact Elems.ends es hes hr

lemma Membs.ends {r t : List UInt8} {l : List (Value N.Double × Value N.Double)} :
    (ms : Membs Unescaped Decimal) → ms.Plain →
      Members N (ms.render grammarScript ++ r) l t → t = r
  | .last g ps g' h d h', ⟨hg, hg', hh, hd, hh'⟩, hm => by
    have hcolon : ∀ {u}, Skips (g'.render ++ colon :: u) (colon :: u) :=
      Gap.skips hg' (by decide)
    rw [Membs.render_last] at hm
    cases hm with
    | last hk hc hv ht =>
      rw [hk.string_ends hg] at hc
      rw [(hc.head_eq hcolon).2] at hv
      rw [Doc.ends hh d hd (follows_gap (by decide)) hv] at ht
      exact (ht.head_eq (skips_close hh').2).2
    | more hk hc hv ht _ =>
      rw [hk.string_ends hg] at hc
      rw [(hc.head_eq hcolon).2] at hv
      rw [Doc.ends hh d hd (follows_gap (by decide)) hv] at ht
      exact absurd (ht.head_eq (skips_close hh').2).1 (by decide)
  | .more g ps g' h d h' ms, ⟨hg, hg', hh, hd, hh', hms⟩, hm => by
    have hcolon : ∀ {u}, Skips (g'.render ++ colon :: u) (colon :: u) :=
      Gap.skips hg' (by decide)
    have hcomma : Skips (h'.render ++ comma :: (ms.render grammarScript ++ r)) _ :=
      Gap.skips hh' (by decide)
    rw [Membs.render_more] at hm
    cases hm with
    | last hk hc hv ht =>
      rw [hk.string_ends hg] at hc
      rw [(hc.head_eq hcolon).2] at hv
      rw [Doc.ends hh d hd (follows_gap (by decide)) hv] at ht
      exact absurd (ht.head_eq hcomma).1 (by decide)
    | more hk hc hv ht hr =>
      rw [hk.string_ends hg] at hc
      rw [(hc.head_eq hcolon).2] at hv
      rw [Doc.ends hh d hd (follows_gap (by decide)) hv] at ht
      rw [(ht.head_eq hcomma).2] at hr
      exact Membs.ends ms hms hr

end

end MmrService.Json
