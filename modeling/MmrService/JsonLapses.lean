import MmrService.JsonDecode

/-!
Where the grammar of the parser is wider than JSON.

What the parser passes is written as in JSON, or it slips: as white space or a comment that JSON
does not have, as a string or a number that JSON writes otherwise, or as a key that is no string.
What is read without a slip is a document.
-/

namespace MmrService.Json

open Scan Relation

/-! ### The parts of a text -/

/-- What the parser comes to: spaces and comments, if there are any, a value, or the key of a
member. -/
inductive Part where
  | gap (s : List UInt8)
  | value (s : List UInt8)
  | key (s : List UInt8)

section

variable (N : Numbers)

mutual

/-- Reading a value at `s`, the parser comes to a part. -/
inductive Meets : List UInt8 → Part → Prop
  | gap {s : List UInt8} : Meets s (.gap s)
  | value {s t : List UInt8} (hs : Skips s t) : Meets s (.value t)
  | array {s s' : List UInt8} {p : Part} (hs : Skips s (lbracket :: s'))
      (h : MeetsElement s' p) : Meets s p
  | object {s s' : List UInt8} {p : Part} (hs : Skips s (lbrace :: s'))
      (h : MeetsMember s' p) : Meets s p

inductive MeetsElement : List UInt8 → Part → Prop
  | here {s : List UInt8} {p : Part} (h : Meets s p) : MeetsElement s p
  | gap {s t : List UInt8} {v : Value N.Double} (hv : Reads N s v t) : MeetsElement s (.gap t)
  | later {s s' s'' : List UInt8} {v : Value N.Double} {p : Part} (hv : Reads N s v s')
      (hc : Skips s' (comma :: s'')) (h : MeetsElement s'' p) : MeetsElement s p

inductive MeetsMember : List UInt8 → Part → Prop
  | name {s t : List UInt8} (hs : Skips s t) : MeetsMember s (.key t)
  | key {s : List UInt8} {p : Part} (h : Meets s p) : MeetsMember s p
  | colon {s t : List UInt8} {k : Value N.Double} (hk : Reads N s k t) : MeetsMember s (.gap t)
  | value {s s' s'' : List UInt8} {k : Value N.Double} {p : Part} (hk : Reads N s k s')
      (hc : Skips s' (colon :: s'')) (h : Meets s'' p) : MeetsMember s p
  | gap {s s' s'' t : List UInt8} {k v : Value N.Double} (hk : Reads N s k s')
      (hc : Skips s' (colon :: s'')) (hv : Reads N s'' v t) : MeetsMember s (.gap t)
  | later {s s' s'' r r' : List UInt8} {k v : Value N.Double} {p : Part} (hk : Reads N s k s')
      (hc : Skips s' (colon :: s'')) (hv : Reads N s'' v r) (hm : Skips r (comma :: r'))
      (h : MeetsMember r' p) : MeetsMember s p

end

/-- White space that JSON does not have, or a block comment that ends with the slash it starts
with. -/
def OddBlank (s : List UInt8) : Prop :=
  (∃ c ∈ s.head?, c = 11 ∨ c = 12) ∨ [slash, star, slash] <+: s

/-- A string of JSON: no control characters, the escapes of JSON and no others, and UTF-8. -/
def JsonString (s t : List UInt8) : Prop :=
  ∃ ps : List (Piece Unescaped), s = renderString grammarScript ps ++ t

/-- A number of JSON. -/
def JsonNumber (s t : List UInt8) : Prop := ∃ n : Decimal, s = n.render ++ t

/-- The parser passes what JSON does not have. -/
def Part.Slips : Part → Prop
  | gap s => ∃ t, ReflTransGen Blank s t ∧ OddBlank t
  | value s => ∃ v t, Token N s v t ∧
      (s.head? = some quote ∧ ¬ JsonString s t ∨ StartsNumber s ∧ ¬ JsonNumber s t)
  | key s => s.head? ≠ some quote ∧ ∃ v t, Reads N s v t

/-- Spaces and comments behind the root; a line comment may end with the text. -/
def Trailing (t : List UInt8) : Prop := ∃ x : Text Unescaped Decimal, x.rest = t

/-- A text is read, with a slip or with something else than spaces and comments behind the
root. -/
def Lapses (s : List UInt8) : Prop :=
  ∃ v t, Reads N s v t ∧ ((∃ p, Meets N s p ∧ p.Slips N) ∨ ¬ Trailing t)

end

/-! ### What is read without a slip -/

variable {N : Numbers} {s t : List UInt8} {v : Value N.Double}

lemma Blank.exists_space (h : Blank s t) (hodd : ¬ OddBlank s) :
    ∃ sp : Space, s = sp.render ++ t := by
  cases h with
  | @space c t hc =>
    have hne : c ≠ 11 ∧ c ≠ 12 := by
      constructor <;> rintro rfl <;> exact hodd (.inl ⟨_, rfl, by decide⟩)
    have hwhite : c = blank ∨ c = tabulator ∨ c = newline ∨ c = 13 := by
      simp only [isspace, blank, tabulator, newline] at *
      grind
    exact ⟨.white c hwhite, rfl⟩
  | line hm h =>
    obtain ⟨pre, rfl, hpre⟩ := h.exists_before (List.cons_ne_nil _ _)
    rw [List.singleton_infix_iff] at hpre
    -- the mark is not cut by the newline
    have hmark : ∃ (m : Mark) (body : List UInt8), pre = m.render ++ body := by
      rcases pre with _ | ⟨a, _ | ⟨b, pre⟩⟩
      · rcases hm with hm | hm <;> exact absurd (List.cons_prefix_cons.mp hm).1 (by decide)
      · rcases hm with hm | hm
        · exact ⟨.hash, [], by rw [← (List.cons_prefix_cons.mp hm).1]; rfl⟩
        · have hm := (List.cons_prefix_cons.mp hm).2
          exact absurd (List.cons_prefix_cons.mp hm).1 (by decide)
      · rcases hm with hm | hm
        · exact ⟨.hash, b :: pre, by rw [← (List.cons_prefix_cons.mp hm).1]; rfl⟩
        · obtain ⟨rfl, hm'⟩ := List.cons_prefix_cons.mp hm
          exact ⟨.slashes, pre, by rw [← (List.cons_prefix_cons.mp hm').1]; rfl⟩
    obtain ⟨m, body, rfl⟩ := hmark
    exact ⟨.line m body fun hmem => hpre (List.mem_append_right _ hmem), rfl⟩
  | block hm h =>
    obtain ⟨pre, rfl, hpre⟩ := h.exists_before (List.cons_ne_nil _ _)
    rcases pre with _ | ⟨a, _ | ⟨b, body⟩⟩
    · exact absurd (List.cons_prefix_cons.mp hm).1 (by decide)
    · obtain ⟨rfl, -⟩ := List.cons_prefix_cons.mp hm
      exact absurd (.inr ⟨t, rfl⟩) hodd
    · obtain ⟨rfl, hm'⟩ := List.cons_prefix_cons.mp hm
      obtain ⟨rfl, -⟩ := List.cons_prefix_cons.mp hm'
      refine ⟨.block body fun hin => hpre ?_, rfl⟩
      exact hin.trans (List.suffix_append [slash, star] body).isInfix

lemma exists_gap_of_blanks (h : ReflTransGen Blank s t)
    (hno : ¬ (Part.gap s).Slips N) : ∃ g : Gap, s = g.render ++ t := by
  induction h using ReflTransGen.head_induction_on with
  | refl => exact ⟨[], rfl⟩
  | head hb _ ih =>
    obtain ⟨sp, rfl⟩ := hb.exists_space fun hodd => hno ⟨_, .refl, hodd⟩
    obtain ⟨g, rfl⟩ := ih fun ⟨u, hu, hodd⟩ => hno ⟨u, .head hb hu, hodd⟩
    exact ⟨sp :: g, (List.append_assoc _ _ _).symm⟩

/-- A string that does not slip. -/
lemma Chars.exists_pieces {w : List UInt8} (h : Chars s w t)
    (hno : ¬ (Part.value (quote :: s)).Slips N) :
    ∃ ps : List (Piece Unescaped), quote :: s = renderString grammarScript ps ++ t := by
  by_contra hps
  exact hno ⟨_, _, .string h, .inl ⟨rfl, hps⟩⟩

lemma Token.exists_doc (h : Token N s v t) (hno : ¬ (Part.value s).Slips N) :
    ∃ d : Doc Unescaped Decimal, s = d.render grammarScript ++ t := by
  cases h with
  | string h =>
    obtain ⟨ps, hps⟩ := h.exists_pieces hno
    exact ⟨.string ps, hps⟩
  | number hs h =>
    by_contra hd
    exact hno ⟨_, _, .number hs h, .inr ⟨hs, fun ⟨n, hn⟩ => hd ⟨.number n, hn⟩⟩⟩
  | true_ => exact ⟨.boolean true, rfl⟩
  | false_ => exact ⟨.boolean false, rfl⟩
  | null => exact ⟨.null, rfl⟩

/-- A key that does not slip. -/
lemma Reads.exists_key {k : Value N.Double} (h : Reads N s k t)
    (hno : ∀ p, MeetsMember N s p → ¬ p.Slips N) :
    ∃ (g : Gap) (ps : List (Piece Unescaped)),
      s = g.render ++ (renderString grammarScript ps ++ t) := by
  have hquote : ∀ u, Skips s u → Reads N u k t → u.head? = some quote := fun u hs hk => by
    by_contra hne
    exact hno _ (.name hs) ⟨hne, _, _, hk⟩
  cases h with
  | token hs ht =>
    obtain ⟨g, rfl⟩ := exists_gap_of_blanks (N := N) hs.1 (hno _ (.key .gap))
    have hhead := hquote _ hs (.token hs.again ht)
    cases ht with
    | string hc =>
      obtain ⟨ps, hps⟩ := hc.exists_pieces (hno _ (.key (.value hs)))
      exact ⟨g, ps, by rw [← hps]⟩
    | number hstart =>
      obtain ⟨c, hc, hstart⟩ := hstart
      rw [Option.mem_def.mp hc, Option.some.injEq] at hhead
      rw [hhead] at hstart
      rcases hstart with h | h <;> exact absurd h (by decide)
    | true_ => exact absurd (Option.some.inj hhead) (by decide)
    | false_ => exact absurd (Option.some.inj hhead) (by decide)
    | null => exact absurd (Option.some.inj hhead) (by decide)
  | arrayNil hs ht =>
    have hhead := hquote _ hs (.arrayNil hs.again ht)
    exact absurd (Option.some.inj hhead) (by decide)
  | array hs he hl =>
    have hhead := hquote _ hs (.array hs.again he hl)
    exact absurd (Option.some.inj hhead) (by decide)
  | objectNil hs ht =>
    have hhead := hquote _ hs (.objectNil hs.again ht)
    exact absurd (Option.some.inj hhead) (by decide)
  | object hs hm =>
    have hhead := hquote _ hs (.object hs.again hm)
    exact absurd (Option.some.inj hhead) (by decide)

mutual

lemma Reads.exists_doc {s t : List UInt8} {v : Value N.Double} : Reads N s v t →
    (∀ p, Meets N s p → ¬ p.Slips N) →
      ∃ (g : Gap) (d : Doc Unescaped Decimal), s = g.render ++ (d.render grammarScript ++ t)
  | .token hs h, hno => by
    obtain ⟨g, hg⟩ := exists_gap_of_blanks (N := N) hs.1 (hno _ .gap)
    obtain ⟨d, hd⟩ := h.exists_doc (hno _ (.value hs))
    exact ⟨g, d, by rw [hg, hd]⟩
  | .arrayNil hs ht, hno => by
    obtain ⟨g, hg⟩ := exists_gap_of_blanks (N := N) hs.1 (hno _ .gap)
    obtain ⟨g', hg'⟩ := exists_gap_of_blanks (N := N) ht.1 (hno _ (.array hs (.here .gap)))
    exact ⟨g, .emptyArray g', by rw [hg, hg']; simp [Doc.render]⟩
  | .array hs h _, hno => by
    obtain ⟨g, hg⟩ := exists_gap_of_blanks (N := N) hs.1 (hno _ .gap)
    obtain ⟨es, hes⟩ := Elements.exists_doc h fun p hp => hno p (.array hs hp)
    exact ⟨g, .array es, by rw [hg, hes]; rfl⟩
  | .objectNil hs ht, hno => by
    obtain ⟨g, hg⟩ := exists_gap_of_blanks (N := N) hs.1 (hno _ .gap)
    obtain ⟨g', hg'⟩ := exists_gap_of_blanks (N := N) ht.1 (hno _ (.object hs (.key .gap)))
    exact ⟨g, .emptyObject g', by rw [hg, hg']; simp [Doc.render]⟩
  | .object hs h, hno => by
    obtain ⟨g, hg⟩ := exists_gap_of_blanks (N := N) hs.1 (hno _ .gap)
    obtain ⟨ms, hms⟩ := Members.exists_doc h fun p hp => hno p (.object hs hp)
    exact ⟨g, .object ms, by rw [hg, hms]; rfl⟩

lemma Elements.exists_doc {s t : List UInt8} {vs : List (Value N.Double)} : Elements N s vs t →
    (∀ p, MeetsElement N s p → ¬ p.Slips N) →
      ∃ es : Elems Unescaped Decimal, s = es.render grammarScript ++ t
  | .last h ht, hno => by
    obtain ⟨g, d, hd⟩ := Reads.exists_doc h fun p hp => hno p (.here hp)
    obtain ⟨g', hg'⟩ := exists_gap_of_blanks (N := N) ht.1 (hno _ (.gap h))
    exact ⟨.last g d g', by rw [hd, hg']; simp [Elems.render]⟩
  | .more h hc hr, hno => by
    obtain ⟨g, d, hd⟩ := Reads.exists_doc h fun p hp => hno p (.here hp)
    obtain ⟨g', hg'⟩ := exists_gap_of_blanks (N := N) hc.1 (hno _ (.gap h))
    obtain ⟨es, hes⟩ := Elements.exists_doc hr fun p hp => hno p (.later h hc hp)
    exact ⟨.more g d g' es, by rw [hd, hg', hes]; simp [Elems.render]⟩

lemma Members.exists_doc {s t : List UInt8} {ms : List (Value N.Double × Value N.Double)} :
    Members N s ms t → (∀ p, MeetsMember N s p → ¬ p.Slips N) →
      ∃ ms : Membs Unescaped Decimal, s = ms.render grammarScript ++ t
  | .last hk hc hv ht, hno => by
    obtain ⟨g, ps, hkey⟩ := hk.exists_key hno
    obtain ⟨g', hg'⟩ := exists_gap_of_blanks (N := N) hc.1 (hno _ (.colon hk))
    obtain ⟨h, d, hd⟩ := Reads.exists_doc hv fun p hp => hno p (.value hk hc hp)
    obtain ⟨h', hh'⟩ := exists_gap_of_blanks (N := N) ht.1 (hno _ (.gap hk hc hv))
    exact ⟨.last g ps g' h d h', by rw [hkey, hg', hd, hh']; simp [Membs.render]⟩
  | .more hk hc hv hm hr, hno => by
    obtain ⟨g, ps, hkey⟩ := hk.exists_key hno
    obtain ⟨g', hg'⟩ := exists_gap_of_blanks (N := N) hc.1 (hno _ (.colon hk))
    obtain ⟨h, d, hd⟩ := Reads.exists_doc hv fun p hp => hno p (.value hk hc hp)
    obtain ⟨h', hh'⟩ := exists_gap_of_blanks (N := N) hm.1 (hno _ (.gap hk hc hv))
    obtain ⟨ms, hms⟩ := Members.exists_doc hr fun p hp => hno p (.later hk hc hv hm hp)
    exact ⟨.more g ps g' h d h' ms, by rw [hkey, hg', hd, hh', hms]; simp [Membs.render]⟩

end

/-- A text that is read without a lapse is JSON. -/
lemma Reads.isJson (h : Reads N s v t) (hno : ¬ Lapses N s) : IsJson s := by
  have hslip : ∀ p, Meets N s p → ¬ p.Slips N := fun p hp hs => hno ⟨v, t, h, .inl ⟨p, hp, hs⟩⟩
  obtain ⟨x, rfl⟩ : Trailing t := by
    by_contra ht
    exact hno ⟨v, t, h, .inr ht⟩
  obtain ⟨g, d, rfl⟩ := h.exists_doc hslip
  exact ⟨⟨g, d, x.trail, x.last, x.last_line⟩, rfl⟩

end MmrService.Json
