import MmrService.JsonLapses
import MmrService.JsonEnds

/-!
`load` refuses what is not JSON.

A JSON text is read as it is written: every part of it that the parser comes to is a part of the
document, so none slips, unless a block comment starts with a slash. So the texts that are
accepted though they are not JSON are those in which something slips, or stands behind the root.
-/

namespace MmrService.Json

open Scan Relation

variable {N : Numbers} {s t u r : List UInt8} {v : Value N.Double} {g : Gap}

mutual

/-- Where a value is expected, the parser comes to it. -/
lemma Starts.meets {s t : List UInt8} : Starts N s t → Meets N s (.value t)
  | .here hs => .value hs
  | .array hs h => .array hs (StartsElement.meets h)
  | .object hs h => .object hs (StartsMember.meets h)

lemma StartsElement.meets {s t : List UInt8} :
    StartsElement N s t → MeetsElement N s (.value t)
  | .here h => .here (Starts.meets h)
  | .later hv hc h => .later hv hc (StartsElement.meets h)

lemma StartsMember.meets {s t : List UInt8} : StartsMember N s t → MeetsMember N s (.value t)
  | .key h => .key (Starts.meets h)
  | .value hk hc h => .value hk hc (Starts.meets h)
  | .later hk hc hv hm h => .later hk hc hv hm (StartsMember.meets h)

end

/-! ### The parts of a document -/

/-- Nothing slips here, and nothing runs behind the end of the text or of a list. -/
structure Part.Fine (N : Numbers) (p : Part) : Prop where
  slips : ¬ p.Slips N
  overruns : ∀ s, p = .value s → ¬ Overruns N s

lemma Space.not_odd {sp : Space} (h : sp.Plain) : ¬ OddBlank (sp.render ++ r) := by
  rintro (⟨c, hc, hodd⟩ | hpre)
  · cases sp with
    | white d hd =>
      obtain rfl : d = c := Option.some.inj hc
      rcases hd with rfl | rfl | rfl | rfl <;> exact absurd hodd (by decide)
    | line m body _ =>
      cases m <;> obtain rfl := Option.some.inj hc <;> exact absurd hodd (by decide)
    | block body _ => obtain rfl := Option.some.inj hc; exact absurd hodd (by decide)
  · cases sp with
    | white d hd =>
      have heq := (List.cons_prefix_cons.mp hpre).1
      rcases hd with rfl | rfl | rfl | rfl <;> exact absurd heq (by decide)
    | line m body _ =>
      cases m with
      | hash => exact absurd (List.cons_prefix_cons.mp hpre).1 (by decide)
      | slashes =>
        have hpre := (List.cons_prefix_cons.mp hpre).2
        exact absurd (List.cons_prefix_cons.mp hpre).1 (by decide)
    | block body _ =>
      have hpre := (List.cons_prefix_cons.mp (List.cons_prefix_cons.mp hpre).2).2
      cases body with
      | nil => exact absurd (List.cons_prefix_cons.mp hpre).1 (by decide)
      | cons c body => exact h (by rw [(List.cons_prefix_cons.mp hpre).1]; rfl)

lemma Gap.fine (hg : g.Plain) {c : UInt8} (hc : isspace c = false ∧ c ≠ hash ∧ c ≠ slash) :
    (Part.gap (g.render ++ c :: r)).Fine N := by
  refine ⟨?_, fun s hs => by cases hs⟩
  rintro ⟨t, ht, hodd⟩
  induction g with
  | nil =>
    rcases ht.cases_head with rfl | ⟨u, hu, -⟩
    · rcases hodd with ⟨d, hd, hodd⟩ | hpre
      · obtain rfl : c = d := Option.some.inj hd
        rcases hodd with rfl | rfl <;> exact absurd hc.1 (by decide)
      · exact hc.2.2 (List.cons_prefix_cons.mp hpre).1.symm
    · exact (skips_self hc).2 u hu
  | cons sp g ih =>
    have hsp := hg sp List.mem_cons_self
    have hren : Gap.render (sp :: g) ++ c :: r = sp.render ++ (Gap.render g ++ c :: r) :=
      List.append_assoc _ _ _
    rw [hren] at ht
    rcases ht.cases_head with rfl | ⟨u, hu, hut⟩
    · exact Space.not_odd hsp hodd
    · rw [hu.unique (Space.blank hsp)] at hut
      exact ih (fun sp hs => hg sp (List.mem_cons_of_mem _ hs)) hut

/-- No string, no number and no array stands here. -/
lemma fine_of_head {c : UInt8} (h : c ≠ quote ∧ c ≠ lbracket ∧ c ≠ minus ∧ isDigit c = false) :
    (Part.value (c :: s)).Fine N := by
  have hnum : ¬ StartsNumber (c :: s) := fun hs => by
    rcases startsNumber_cons.mp hs with hd | hd
    · rw [h.2.2.2] at hd
      cases hd
    · exact h.2.2.1 hd
  constructor
  · rintro ⟨v, t, -, ⟨hq, -⟩ | ⟨hs, -⟩⟩
    · exact h.1 (Option.some.inj hq)
    · exact hnum hs
  · rintro s' ⟨⟩ (⟨u, hu, -⟩ | ⟨hs, -⟩ | ⟨u, vs, t, hu, -⟩)
    · exact h.1 (List.cons.inj hu).1
    · exact hnum hs
    · exact h.2.1 (List.cons.inj hu).1

lemma fine_number {n : Decimal} (hr : Follows r) : (Part.value (n.render ++ r)).Fine N := by
  obtain ⟨c, u, hc, hstart⟩ := n.head
  have hne : c ≠ quote ∧ c ≠ lbracket := by
    simp only [isDigit, quote, minus, lbracket] at *
    grind
  constructor
  · rintro ⟨v, t, ht, ⟨hq, -⟩ | ⟨-, hno⟩⟩
    · rw [hc] at hq
      exact hne.1 (Option.some.inj hq)
    · rw [Token.ends (d := .number n) ht hr] at hno
      exact hno ⟨n, rfl⟩
  · rintro s' ⟨⟩ (⟨u, hu, -⟩ | ⟨-, hcut⟩ | ⟨u, vs, t, hu, -⟩)
    · rw [hc] at hu
      exact hne.1 (List.cons.inj hu).1
    · exact not_cutExponent hr hcut
    · rw [hc] at hu
      exact hne.2 (List.cons.inj hu).1

lemma fine_string {ps : List (Piece Unescaped)} :
    (Part.value (renderString grammarScript ps ++ r)).Fine N := by
  have hreads : Reads N (renderString grammarScript ps ++ r) _ r := string_reads unescaped ps
  have hnum : ¬ StartsNumber (renderString grammarScript ps ++ r) := fun hs => by
    rcases startsNumber_cons.mp hs with hd | hd <;> exact absurd hd (by decide)
  constructor
  · rintro ⟨v, t, ht, ⟨-, hno⟩ | ⟨hs, -⟩⟩
    · rw [(Reads.token (skips_self (by decide)) ht).unique hreads] at hno
      exact hno ⟨ps, rfl⟩
    · exact hnum hs
  · rintro s' ⟨⟩ (hopen | ⟨hs, -⟩ | ⟨u, vs, t, hu, -⟩)
    · obtain ⟨o, hp, -⟩ := hreads.parse (.start _) (Nat.lt_succ_self _)
      have hfails := hopen.fails (N := N) (Q := fun _ => True)
        (n := (renderString grammarScript ps ++ r).length) (.start _)
      rw [hp] at hfails
      exact hfails
    · exact hnum hs
    · exact absurd (List.cons.inj hu).1 (by decide)

/-- Of an array no more elements are read than it has. -/
lemma Elems.first_le : (es : Elems Unescaped Decimal) → es.Plain →
    ∀ {r t : List UInt8} {vs : List (Value N.Double)},
      FirstElements N (es.render grammarScript ++ r) vs t → vs.length ≤ es.length
  | .last g d g', ⟨hg, hd, hg'⟩, r, t, vs, h => by
    rw [Elems.render_last] at h
    cases h with
    | one => exact Nat.le_refl _
    | more hv hc _ =>
      rw [Doc.ends hg d hd (follows_gap (by decide)) hv] at hc
      exact absurd (hc.head_eq (skips_close hg').1).1 (by decide)
  | .more g d g' es, ⟨hg, hd, hg', hes⟩, r, t, vs, h => by
    have hcomma : Skips (g'.render ++ comma :: (es.render grammarScript ++ r)) _ :=
      Gap.skips hg' (by decide)
    rw [Elems.render_more] at h
    cases h with
    | one => exact Nat.succ_le_succ (Nat.zero_le _)
    | more hv hc hr =>
      rw [Doc.ends hg d hd (follows_gap (by decide)) hv] at hc
      rw [(hc.head_eq hcomma).2] at hr
      exact Nat.succ_le_succ (Elems.first_le es hes hr)

lemma fine_array (hno : ∀ vs t, FirstElements N s vs t → vs.length ≠ 2 ^ 32) :
    (Part.value (lbracket :: s)).Fine N := by
  have hnum : ¬ StartsNumber (lbracket :: s) := fun hs => by
    rcases startsNumber_cons.mp hs with hd | hd <;> exact absurd hd (by decide)
  constructor
  · rintro ⟨v, t, -, ⟨hq, -⟩ | ⟨hs, -⟩⟩
    · exact absurd (Option.some.inj hq) (by decide)
    · exact hnum hs
  · rintro s' ⟨⟩ (⟨u, hu, -⟩ | ⟨hs, -⟩ | ⟨u, vs, t, hu, hvs, hlen⟩)
    · exact absurd (List.cons.inj hu).1 (by decide)
    · exact hnum hs
    · rw [← (List.cons.inj hu).2] at hvs
      exact hno vs t hvs hlen

lemma Doc.fine (d : Doc Unescaped Decimal) (hd : d.Plain) (hs : d.Short) (hr : Follows r) :
    (Part.value (d.render grammarScript ++ r)).Fine N := by
  cases d with
  | null => exact fine_of_head (by decide)
  | boolean b => cases b <;> exact fine_of_head (by decide)
  | number n => exact fine_number hr
  | string ps => exact fine_string
  | emptyArray g =>
    have hren : (Doc.emptyArray g : Doc Unescaped Decimal).render grammarScript ++ r =
        lbracket :: (g.render ++ rbracket :: r) := by simp [Doc.render]
    rw [hren]
    refine fine_array fun vs t h => ?_
    cases h with
    | one hv => exact absurd hv (not_reads_close hd).1
    | more hv _ _ => exact absurd hv (not_reads_close hd).1
  | array es =>
    refine fine_array fun vs t h hlen => ?_
    have hle := Elems.first_le es hd h
    have hlt := hs.1
    omega
  | emptyObject g => exact fine_of_head (by decide)
  | object ms => exact fine_of_head (by decide)

lemma Doc.gap_fine (hg : g.Plain) (d : Doc Unescaped Decimal) :
    (Part.gap (g.render ++ (d.render grammarScript ++ r))).Fine N := by
  obtain ⟨c, u, hd, hc, -⟩ := d.head
  rw [hd]
  exact Gap.fine hg hc

lemma key_fine {ps : List (Piece Unescaped)} (hg : g.Plain)
    (hs : Skips (g.render ++ (renderString grammarScript ps ++ t)) u) : (Part.key u).Fine N := by
  rw [hs.unique (Doc.skips (.string ps) hg)]
  exact ⟨fun h => h.1 rfl, fun s h => by cases h⟩

/-- What the parser comes to, reading a value: what is skipped, the value, and the parts inside
it. -/
lemma Meets.fine {p : Part} (h : Meets N s p) (hs : Skips s u) (hgap : (Part.gap s).Fine N)
    (hvalue : (Part.value u).Fine N)
    (harray : ∀ s', u = lbracket :: s' → MeetsElement N s' p → p.Fine N)
    (hobject : ∀ s', u = lbrace :: s' → MeetsMember N s' p → p.Fine N) : p.Fine N := by
  cases h with
  | gap => exact hgap
  | value ht => exact ht.unique hs ▸ hvalue
  | array ha he => exact harray _ (hs.unique ha) he
  | object ho hm => exact hobject _ (hs.unique ho) hm

/-- In an array or an object without anything in it the parser comes to its end. -/
lemma meets_close {p : Part} (hg : g.Plain) :
    (MeetsElement N (g.render ++ rbracket :: r) p → p.Fine N) ∧
      (MeetsMember N (g.render ++ rbrace :: r) p → p.Fine N) := by
  constructor
  · intro h
    cases h with
    | here h =>
      exact h.fine (skips_close hg).1 (Gap.fine hg (by decide)) (fine_of_head (by decide))
        (fun s' hs => absurd (List.cons.inj hs).1 (by decide))
        fun s' hs => absurd (List.cons.inj hs).1 (by decide)
    | gap hv => exact absurd hv (not_reads_close hg).1
    | later hv _ _ => exact absurd hv (not_reads_close hg).1
  · intro h
    cases h with
    | name hs =>
      rw [hs.unique (skips_close hg).2]
      refine ⟨fun ⟨_, v, t, hv⟩ => ?_, fun s h => by cases h⟩
      exact (not_reads_close Gap.plain_nil).2 hv
    | key h =>
      exact h.fine (skips_close hg).2 (Gap.fine hg (by decide)) (fine_of_head (by decide))
        (fun s' hs => absurd (List.cons.inj hs).1 (by decide))
        fun s' hs => absurd (List.cons.inj hs).1 (by decide)
    | colon hk => exact absurd hk (not_reads_close hg).2
    | value hk _ _ => exact absurd hk (not_reads_close hg).2
    | gap hk _ _ => exact absurd hk (not_reads_close hg).2
    | later hk _ _ _ _ => exact absurd hk (not_reads_close hg).2

/-- The parts of a value that is neither an array nor an object. -/
lemma Doc.meets_token {p : Part} (hg : g.Plain) (d : Doc Unescaped Decimal) (hd : d.Plain)
    (hs : d.Short) (hr : Follows r)
    (hno : ∀ s, d.render grammarScript ++ r ≠ lbracket :: s ∧ d.render grammarScript ++ r ≠
      lbrace :: s) (h : Meets N (g.render ++ (d.render grammarScript ++ r)) p) : p.Fine N :=
  h.fine (d.skips hg) (d.gap_fine hg) (d.fine hd hs hr)
    (fun s' hs => absurd hs (hno s').1) fun s' hs => absurd hs (hno s').2

lemma Doc.number_ne {n : Decimal} :
    (Doc.number n : Doc Unescaped Decimal).render grammarScript ++ r ≠ lbracket :: s ∧
      (Doc.number n : Doc Unescaped Decimal).render grammarScript ++ r ≠ lbrace :: s := by
  constructor <;> intro h
  · rcases Doc.of_lbracket h with ⟨g, hd, -⟩ | ⟨es, hd, -⟩ <;> cases hd
  · rcases Doc.of_lbrace h with ⟨g, hd, -⟩ | ⟨ms, hd, -⟩ <;> cases hd

lemma meets_key {ps : List (Piece Unescaped)} {p : Part} (hg : g.Plain)
    (h : Meets N (g.render ++ (renderString grammarScript ps ++ r)) p) : p.Fine N :=
  h.fine (Doc.skips (.string ps) hg) (Doc.gap_fine hg (.string ps)) fine_string
    (fun s' hs => absurd (List.cons.inj hs).1 (by decide))
    fun s' hs => absurd (List.cons.inj hs).1 (by decide)

mutual

/-- All parts of a document are fine. -/
lemma Doc.meets {r : List UInt8} {g : Gap} {p : Part} (hg : g.Plain) :
    (d : Doc Unescaped Decimal) → d.Plain → d.Short → Follows r →
      Meets N (g.render ++ (d.render grammarScript ++ r)) p → p.Fine N
  | .null, hd, hs, hr, h => Doc.meets_token hg .null hd hs hr (by simp [Doc.render, nullText,
      lbracket, lbrace]) h
  | .boolean b, hd, hs, hr, h => Doc.meets_token hg (.boolean b) hd hs hr (by
      cases b <;> simp [Doc.render, trueText, falseText, lbracket, lbrace]) h
  | .number n, hd, hs, hr, h => Doc.meets_token hg (.number n) hd hs hr (fun _ => Doc.number_ne) h
  | .string ps, hd, hs, hr, h => Doc.meets_token hg (.string ps) hd hs hr (by
      simp [Doc.render, renderString, quote, lbracket, lbrace]) h
  | .emptyArray g', hd, hs, hr, h => by
    refine h.fine (Doc.skips _ hg) (Doc.gap_fine hg _) (Doc.fine _ hd hs hr)
      (fun s' heq h => ?_) fun s' heq => absurd (List.cons.inj heq).1 (by decide)
    rw [← (List.cons.inj heq).2] at h
    exact (meets_close hd).1 (by simpa using h)
  | .array es, hd, hs, hr, h => by
    refine h.fine (Doc.skips _ hg) (Doc.gap_fine hg _) (Doc.fine _ hd hs hr)
      (fun s' heq h => ?_) fun s' heq => absurd (List.cons.inj heq).1 (by decide)
    rw [← (List.cons.inj heq).2] at h
    exact Elems.meets es hd hs.2 h
  | .emptyObject g', hd, hs, hr, h => by
    refine h.fine (Doc.skips _ hg) (Doc.gap_fine hg _) (Doc.fine _ hd hs hr)
      (fun s' heq => absurd (List.cons.inj heq).1 (by decide)) fun s' heq h => ?_
    rw [← (List.cons.inj heq).2] at h
    exact (meets_close hd).2 (by simpa using h)
  | .object ms, hd, hs, hr, h => by
    refine h.fine (Doc.skips _ hg) (Doc.gap_fine hg _) (Doc.fine _ hd hs hr)
      (fun s' heq => absurd (List.cons.inj heq).1 (by decide)) fun s' heq h => ?_
    rw [← (List.cons.inj heq).2] at h
    exact Membs.meets ms hd hs h

lemma Elems.meets {r : List UInt8} {p : Part} : (es : Elems Unescaped Decimal) → es.Plain →
    es.Short → MeetsElement N (es.render grammarScript ++ r) p → p.Fine N
  | .last g d g', ⟨hg, hd, hg'⟩, hs, h => by
    rw [Elems.render_last] at h
    cases h with
    | here h => exact Doc.meets hg d hd hs (follows_gap (by decide)) h
    | gap hv =>
      rw [Doc.ends hg d hd (follows_gap (by decide)) hv]
      exact Gap.fine hg' (by decide)
    | later hv hc _ =>
      rw [Doc.ends hg d hd (follows_gap (by decide)) hv] at hc
      exact absurd (hc.head_eq (skips_close hg').1).1 (by decide)
  | .more g d g' es, ⟨hg, hd, hg', hes⟩, ⟨hs, hses⟩, h => by
    have hcomma : Skips (g'.render ++ comma :: (es.render grammarScript ++ r)) _ :=
      Gap.skips hg' (by decide)
    rw [Elems.render_more] at h
    cases h with
    | here h => exact Doc.meets hg d hd hs (follows_gap (by decide)) h
    | gap hv =>
      rw [Doc.ends hg d hd (follows_gap (by decide)) hv]
      exact Gap.fine hg' (by decide)
    | later hv hc h =>
      rw [Doc.ends hg d hd (follows_gap (by decide)) hv] at hc
      rw [(hc.head_eq hcomma).2] at h
      exact Elems.meets es hes hses h

lemma Membs.meets {r : List UInt8} {p : Part} : (ms : Membs Unescaped Decimal) → ms.Plain →
    ms.Short → MeetsMember N (ms.render grammarScript ++ r) p → p.Fine N
  | .last g ps g' h d h', ⟨hg, hg', hh, hd, hh'⟩, hs, hm => by
    have hcolon : ∀ {u}, Skips (g'.render ++ colon :: u) (colon :: u) :=
      Gap.skips hg' (by decide)
    rw [Membs.render_last] at hm
    cases hm with
    | name hk => exact key_fine hg hk
    | key h => exact meets_key hg h
    | colon hk =>
      rw [hk.string_ends hg]
      exact Gap.fine hg' (by decide)
    | value hk hc h =>
      rw [hk.string_ends hg] at hc
      rw [(hc.head_eq hcolon).2] at h
      exact Doc.meets hh d hd hs (follows_gap (by decide)) h
    | gap hk hc hv =>
      rw [hk.string_ends hg] at hc
      rw [(hc.head_eq hcolon).2] at hv
      rw [Doc.ends hh d hd (follows_gap (by decide)) hv]
      exact Gap.fine hh' (by decide)
    | later hk hc hv ht _ =>
      rw [hk.string_ends hg] at hc
      rw [(hc.head_eq hcolon).2] at hv
      rw [Doc.ends hh d hd (follows_gap (by decide)) hv] at ht
      exact absurd (ht.head_eq (skips_close hh').2).1 (by decide)
  | .more g ps g' h d h' ms, ⟨hg, hg', hh, hd, hh', hms⟩, ⟨hs, hsms⟩, hm => by
    have hcolon : ∀ {u}, Skips (g'.render ++ colon :: u) (colon :: u) :=
      Gap.skips hg' (by decide)
    have hcomma : Skips (h'.render ++ comma :: (ms.render grammarScript ++ r)) _ :=
      Gap.skips hh' (by decide)
    rw [Membs.render_more] at hm
    cases hm with
    | name hk => exact key_fine hg hk
    | key h => exact meets_key hg h
    | colon hk =>
      rw [hk.string_ends hg]
      exact Gap.fine hg' (by decide)
    | value hk hc h =>
      rw [hk.string_ends hg] at hc
      rw [(hc.head_eq hcolon).2] at h
      exact Doc.meets hh d hd hs (follows_gap (by decide)) h
    | gap hk hc hv =>
      rw [hk.string_ends hg] at hc
      rw [(hc.head_eq hcolon).2] at hv
      rw [Doc.ends hh d hd (follows_gap (by decide)) hv]
      exact Gap.fine hh' (by decide)
    | later hk hc hv ht h =>
      rw [hk.string_ends hg] at hc
      rw [(hc.head_eq hcolon).2] at hv
      rw [Doc.ends hh d hd (follows_gap (by decide)) hv] at ht
      rw [(ht.head_eq hcomma).2] at h
      exact Membs.meets ms hms hsms h

end

/-! ### Whole texts -/

/-- A JSON text is read without a lapse, and nothing of it runs behind an end. -/
lemma Text.not_lapses {x : Text Unescaped Decimal} (hp : x.Plain) (hs : x.root.Short) :
    ¬ Lapses N (x.render grammarScript) ∧
      ∀ t, Starts N (x.render grammarScript) t → ¬ Overruns N t := by
  have hr : Follows x.rest := fun c hc => (Text.rest_head hc).follows
  have hfine : ∀ p, Meets N (x.render grammarScript) p → p.Fine N :=
    fun p h => Doc.meets hp.1 x.root hp.2 hs hr h
  refine ⟨?_, fun t ht => (hfine _ ht.meets).overruns t rfl⟩
  rintro ⟨v, t, hv, ⟨p, hmeets, hslip⟩ | ht⟩
  · exact (hfine p hmeets).slips hslip
  · exact ht ⟨x, (Doc.ends hp.1 x.root hp.2 hr hv).symm⟩

/-- `load` returns an error. -/
def Refuses (str : List UInt8) (jsonRoot : Value N.Double) : Prop :=
  ∃ e v o, load N str jsonRoot = .ok (e, v) o ∧ e ≠ []

/-- `load` refuses what its grammar does not read, if it does not read outside the text. -/
lemma refuses_iff (jsonRoot : Value N.Double) :
    Refuses str jsonRoot ↔
      (∀ v t, ¬ Reads N str v t) ∧ ∀ t, Starts N str t → ¬ Overruns N t := by
  constructor
  · rintro ⟨e, v, o, h, hne⟩
    refine ⟨fun w t hr => ?_, (readsInBounds_iff str jsonRoot).mp ?_⟩
    · obtain ⟨o', h'⟩ := (load_accepts jsonRoot).mpr ⟨t, hr⟩
      rw [h'] at h
      simp only [Res.ok.injEq, Prod.mk.injEq] at h
      exact hne h.1.1.symm
    · rw [ReadsInBounds, h]
      trivial
  · rintro ⟨hno, hin⟩
    have hpost := (readsInBounds_iff str jsonRoot).mpr hin
    rcases hl : load N str jsonRoot with ⟨⟨e, v⟩, o⟩ | ⟨e, o⟩ | i | _
    · refine ⟨e, v, o, hl, fun he => ?_⟩
      obtain ⟨t, hr⟩ := (load_accepts jsonRoot).mp ⟨o, he ▸ hl⟩
      exact hno v t hr
    · rw [ReadsInBounds, hl] at hpost
      exact hpost.elim
    · rw [ReadsInBounds, hl] at hpost
      exact hpost.elim
    · rw [ReadsInBounds, hl] at hpost
      exact hpost.elim

variable (str : List UInt8)

/-- JSON that the parser does not read as it is written: a block comment starts with a slash, or
an array has too many elements. -/
def Misread : Prop :=
  ∃ x : Text Unescaped Decimal, x.render grammarScript = str ∧ ¬ (x.Plain ∧ x.root.Short)

/-- What is not JSON is refused, unless the parser reads it with a lapse, or a string or an
exponent of it runs into the end of the text, or an array is too long. -/
theorem load_refuses (jsonRoot : Value N.Double) :
    (¬ IsJson str → Refuses str jsonRoot) ↔
      Misread str ∨ ¬ Lapses N str ∧ ∀ t, Starts N str t → ¬ Overruns N t := by
  constructor
  · intro h
    by_cases hjson : IsJson str
    · obtain ⟨x, rfl⟩ := hjson
      by_cases hx : x.Plain ∧ x.root.Short
      · exact .inr (Text.not_lapses hx.1 hx.2)
      · exact .inl ⟨x, rfl, hx⟩
    · obtain ⟨hno, hin⟩ := (refuses_iff jsonRoot).mp (h hjson)
      exact .inr ⟨fun ⟨v, t, hv, _⟩ => hno v t hv, hin⟩
  · rintro (⟨x, hx, -⟩ | ⟨hno, hin⟩) hjson
    · exact absurd ⟨x, hx⟩ hjson
    · exact (refuses_iff jsonRoot).mpr ⟨fun v t hv => hjson (hv.isJson hno), hin⟩

/-- The text of a literal, with a letter behind it. -/
theorem load_accepts_trailing :
    ¬ IsJson (nullText ++ [120]) ∧
    load lp64 (nullText ++ [120]) .null = .ok ([], .null) 4 := by
  refine ⟨?_, rfl⟩
  rintro ⟨x, hx⟩
  have hn : ¬ StartsSpace 110 := by rintro (h | h | h) <;> exact absurd h (by decide)
  have hx' : x.lead.render ++ (x.root.render grammarScript ++ x.rest) =
      110 :: [117, 108, 108, 120] := hx
  rw [Gap.nil_of_head hx' hn, List.nil_append] at hx'
  cases hroot : x.root with
  | null =>
    rw [hroot] at hx'
    have hrest : x.rest = [120] := List.append_cancel_left hx'
    have hhead : StartsSpace 120 := Text.rest_head (x := x) (by rw [hrest]; rfl)
    rcases hhead with h | h | h <;> exact absurd h (by decide)
  | boolean b =>
    rw [hroot] at hx'
    cases b <;> exact absurd (List.cons.inj hx').1 (by decide)
  | number n =>
    rw [hroot] at hx'
    obtain ⟨c, r, hc, hd⟩ := n.head
    have hren : (Doc.number n : Doc Unescaped Decimal).render grammarScript = c :: r := hc
    rw [hren] at hx'
    rw [(List.cons.inj hx').1] at hd
    rcases hd with h | h <;> exact absurd h (by decide)
  | string ps => rw [hroot] at hx'; exact absurd (List.cons.inj hx').1 (by decide)
  | emptyArray g => rw [hroot] at hx'; exact absurd (List.cons.inj hx').1 (by decide)
  | array es => rw [hroot] at hx'; exact absurd (List.cons.inj hx').1 (by decide)
  | emptyObject g => rw [hroot] at hx'; exact absurd (List.cons.inj hx').1 (by decide)
  | object ms => rw [hroot] at hx'; exact absurd (List.cons.inj hx').1 (by decide)

end MmrService.Json
