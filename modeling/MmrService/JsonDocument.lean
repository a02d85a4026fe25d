import MmrService.JsonAccepts
import MmrService.JsonText

/-!
What `load` makes of a document whose numbers are integers.

It reads every document in which no block comment starts with a slash, every number is followed
by a character that may end it and no array has too many elements; then it stores the strings
with their unicode escapes as they are written, and the keys escaped again.
-/

namespace MmrService.Json

open Scan Relation

variable {N : Numbers} {κ ν : Type} {s t r : List UInt8}

/-! ### Integers -/

/-- An integer in the range of `long`, as it is written. -/
structure Integer (N : Numbers) where
  negative : Bool
  abs : ℕ
  inRange : N.IsLong (if negative then -(abs : ℤ) else abs)

namespace Integer

def value (i : Integer N) : ℤ := if i.negative then -(i.abs : ℤ) else i.abs

def render (i : Integer N) : List UInt8 := (if i.negative then [minus] else []) ++ decimal i.abs

lemma isNumber_render {i : Integer N} : ∀ d ∈ i.render, isNumber d = true := by
  intro d hd
  rcases List.mem_append.mp hd with hd | hd
  · split_ifs at hd with hneg
    · exact isNumber_iff.mpr (.inl (List.mem_singleton.mp hd))
    · cases hd
  · exact isNumber_iff.mpr (.inr (.inl (isDigit_decimal hd)))

lemma startsNumber (i : Integer N) : StartsNumber (i.render ++ r) := by
  unfold render
  cases i.negative with
  | true => exact startsNumber_cons.mpr (.inr rfl)
  | false =>
    rcases hd : decimal i.abs with _ | ⟨c, ds⟩
    · exact absurd hd (decimal_ne_nil _)
    · exact startsNumber_cons.mpr (.inl (isDigit_decimal (hd ▸ List.mem_cons_self)))

/-- The conversion of the standard library reads it back. -/
lemma stol_render (i : Integer N) : stol N i.render = .ok i.value := by
  have hstrtol : strtol i.render = some i.value := by
    rw [render, strtol_digits fun _ hd => isDigit_decimal hd, if_neg (decimal_ne_nil _),
      ofDigits_decimal]
    rfl
  rw [stol, hstrtol]
  exact if_pos i.inRange

lemma reads (i : Integer N) {c : UInt8} (hc : isStop c = true) :
    Token N (i.render ++ c :: t) (.integral i.value) (c :: t) := by
  refine .number i.startsNumber (.plain isNumber_render hc ?_)
  have hdot : decide (dot ∈ i.render) = false := by
    refine decide_eq_false fun hmem => ?_
    rcases List.mem_append.mp hmem with hd | hd
    · split_ifs at hd
      · exact absurd (List.mem_singleton.mp hd) (by decide)
      · cases hd
    · exact absurd (isDigit_decimal hd) (by decide)
  rw [hdot, numberValue, stol_render]
  rfl

end Integer

/-! ### Spaces and comments -/

/-- The parser looks for the end of a block comment from the slash that opens it. -/
def Space.Plain : Space → Prop
  | .block body _ => body.head? ≠ some slash
  | _ => True

def Gap.Plain (g : Gap) : Prop := ∀ sp ∈ g, sp.Plain

lemma Gap.plain_nil : Gap.Plain [] := fun _ h => absurd h List.not_mem_nil

lemma Gap.Strict.plain {g : Gap} (h : g.Strict) : g.Plain := by
  intro sp hsp
  have hwhite := h sp hsp
  cases sp with
  | white _ _ => trivial
  | line _ _ _ => exact hwhite.elim
  | block _ _ => exact hwhite.elim

lemma Space.blank {sp : Space} (h : sp.Plain) : Blank (sp.render ++ r) r := by
  cases sp with
  | white c hc =>
    refine .space ?_
    rcases hc with rfl | rfl | rfl | rfl <;> decide
  | line m body hbody =>
    have hm : newline ∉ m.render := by cases m <;> decide
    refine .line (by cases m; exacts [.inl ⟨_, rfl⟩, .inr ⟨_, rfl⟩]) (first_of ?_)
    rw [List.dropLast_singleton, List.append_nil, List.singleton_infix_iff, List.mem_append]
    exact fun hmem => hmem.elim hm hbody
  | block body hbody =>
    have hfirst : ¬ [star, slash] <:+: ([slash, star] ++ body) ++ [star] → _ :=
      first_of (t := r)
    refine .block ⟨_, rfl⟩ (hfirst ?_)
    -- an end mark before the last one takes its star from the opening, or stands in the body
    rintro hin
    have hin : [star, slash] <:+: slash :: star :: (body ++ [star]) := hin
    rcases List.infix_cons_iff.mp hin with hpre | hin
    · exact absurd (List.cons_prefix_cons.mp hpre).1 (by decide)
    rcases List.infix_cons_iff.mp hin with hpre | hin
    · have hslash := (List.cons_prefix_cons.mp hpre).2
      cases body with
      | nil => exact absurd (List.cons_prefix_cons.mp hslash).1 (by decide)
      | cons c body => exact h (by rw [(List.cons_prefix_cons.mp hslash).1]; rfl)
    · rcases List.infix_concat_iff.mp hin with hsuf | hin
      · obtain ⟨pre, hpre⟩ := hsuf
        have heq : (pre ++ [star]) ++ [slash] = body ++ [star] := by simpa using hpre
        exact absurd (List.append_inj_right' heq rfl) (by decide)
      · exact hbody hin

lemma Gap.blanks {g : Gap} (h : g.Plain) : ReflTransGen Blank (g.render ++ r) r := by
  induction g with
  | nil => exact .refl
  | cons sp g ih =>
    have hsp : Blank (sp.render ++ (Gap.render g ++ r)) (Gap.render g ++ r) :=
      Space.blank (h sp List.mem_cons_self)
    rw [Gap.render, List.flatMap_cons, List.append_assoc]
    exact .head hsp (ih fun sp hs => h sp (List.mem_cons_of_mem _ hs))

lemma Gap.skips {g : Gap} (h : g.Plain) {c : UInt8}
    (hc : isspace c = false ∧ c ≠ hash ∧ c ≠ slash) : Skips (g.render ++ c :: r) (c :: r) :=
  (skips_self hc).behind (Gap.blanks h)

/-! ### Strings -/

/-- Characters that a string may hold as they are. -/
structure Alphabet (κ : Type) where
  char : κ → List UInt8
  plain : ∀ k, ∀ c ∈ char k, c ≠ quote ∧ c ≠ backslash

variable (A : Alphabet κ)

/-- The characters of an alphabet, and integers. -/
def Alphabet.script (N : Numbers) (A : Alphabet κ) : Script κ (Integer N) :=
  ⟨A.char, Integer.render⟩

@[simp] lemma Alphabet.script_char : (A.script N).char = A.char := rfl

/-- What the parser keeps of a piece. -/
def Piece.stored : Piece κ → List UInt8
  | .char c => A.char c
  | .escape e => [e.byte]
  | .unicode h => backslash :: letterU :: h.digits

def storedString (ps : List (Piece κ)) : List UInt8 := ps.flatMap (Piece.stored A)

lemma Chars.plain {u w : List UInt8} (hu : ∀ c ∈ u, c ≠ quote ∧ c ≠ backslash)
    (h : Chars s w t) : Chars (u ++ s) (u ++ w) t := by
  induction u with
  | nil => exact h
  | cons c u ih =>
    have hc := hu c List.mem_cons_self
    exact .char hc.1 hc.2 (ih fun d hd => hu d (List.mem_cons_of_mem _ hd))

lemma Piece.chars (p : Piece κ) {w : List UInt8} (h : Chars s w t) :
    Chars (p.render A.char ++ s) (p.stored A ++ w) t := by
  cases p with
  | char c => exact h.plain (A.plain c)
  | escape e =>
    have hbyte : unescape e.letter = [e.byte] := by cases e <;> rfl
    rw [Piece.stored, ← hbyte]
    exact .escape (by cases e <;> decide) h
  | unicode hex => exact .unicode hex.length hex.isHex h

lemma string_chars (ps : List (Piece κ)) :
    Chars (ps.flatMap (Piece.render A.char) ++ quote :: t) (storedString A ps) t := by
  induction ps with
  | nil => exact .close
  | cons p ps ih =>
    rw [storedString, List.flatMap_cons, List.flatMap_cons, List.append_assoc]
    exact p.chars A ih

lemma string_reads (ps : List (Piece κ)) :
    Reads N (renderString (A.script N) ps ++ t) (.string (storedString A ps)) t := by
  have h : Chars (ps.flatMap (Piece.render A.char) ++ [quote] ++ t) (storedString A ps) t := by
    rw [List.append_assoc]
    exact string_chars A ps
  exact .token (skips_self (by decide)) (.string h)

/-! ### Documents -/

mutual

/-- What the parser stores of a document. -/
def Doc.stored : Doc κ (Integer N) → Value N.Double
  | .null => .null
  | .boolean b => .boolean b
  | .number n => .integral n.value
  | .string ps => .string (storedString A ps)
  | .emptyArray _ => .array []
  | .array es => .array es.stored
  | .emptyObject _ => .object []
  | .object ms => objectOf ms.stored

def Elems.stored : Elems κ (Integer N) → List (Value N.Double)
  | .last _ d _ => [d.stored]
  | .more _ d _ es => d.stored :: es.stored

def Membs.stored : Membs κ (Integer N) → List (List UInt8 × Value N.Double)
  | .last _ key _ _ d _ => [(json_escape (storedString A key), d.stored)]
  | .more _ key _ _ d _ ms => (json_escape (storedString A key), d.stored) :: ms.stored

end

mutual

/-- No block comment of the document starts with a slash. -/
def Doc.Plain : Doc κ ν → Prop
  | .emptyArray g => g.Plain
  | .array es => es.Plain
  | .emptyObject g => g.Plain
  | .object ms => ms.Plain
  | _ => True

def Elems.Plain : Elems κ ν → Prop
  | .last g d g' => g.Plain ∧ d.Plain ∧ g'.Plain
  | .more g d g' es => g.Plain ∧ d.Plain ∧ g'.Plain ∧ es.Plain

def Membs.Plain : Membs κ ν → Prop
  | .last g _ g' h d h' => g.Plain ∧ g'.Plain ∧ h.Plain ∧ d.Plain ∧ h'.Plain
  | .more g _ g' h d h' ms => g.Plain ∧ g'.Plain ∧ h.Plain ∧ d.Plain ∧ h'.Plain ∧ ms.Plain

end

def Elems.length : Elems κ ν → ℕ
  | .last _ _ _ => 1
  | .more _ _ _ es => es.length + 1

mutual

/-- The elements of every array can be counted in an `unsigned`. -/
def Doc.Short : Doc κ ν → Prop
  | .array es => es.length < 2 ^ 32 ∧ es.Short
  | .object ms => ms.Short
  | _ => True

def Elems.Short : Elems κ ν → Prop
  | .last _ d _ => d.Short
  | .more _ d _ es => d.Short ∧ es.Short

def Membs.Short : Membs κ ν → Prop
  | .last _ _ _ _ d _ => d.Short
  | .more _ _ _ _ d _ ms => d.Short ∧ ms.Short

end

/-- A character stands here that may end a number. -/
def Stops (r : List UInt8) : Prop := ∃ c ∈ r.head?, isStop c = true

mutual

/-- With `r` behind the document, every number of it is followed by a character that may end
it. -/
def Doc.Closed : Doc κ (Integer N) → List UInt8 → Prop
  | .number _, r => Stops r
  | .array es, _ => es.Closed
  | .object ms, _ => ms.Closed
  | _, _ => True

def Elems.Closed : Elems κ (Integer N) → Prop
  | .last _ d g' => d.Closed (g'.render ++ [rbracket])
  | .more _ d g' es => d.Closed (g'.render ++ [comma]) ∧ es.Closed

def Membs.Closed : Membs κ (Integer N) → Prop
  | .last _ _ _ _ d h' => d.Closed (h'.render ++ [rbrace])
  | .more _ _ _ _ d h' ms => d.Closed (h'.render ++ [comma]) ∧ ms.Closed

end

lemma stops_append {u : List UInt8} {c : UInt8} : Stops (u ++ c :: r) ↔ Stops (u ++ [c]) := by
  cases u with
  | nil => exact Iff.rfl
  | cons d u => exact Iff.rfl

/-- Only the next character counts. -/
lemma Doc.closed_append {d : Doc κ (Integer N)} {u : List UInt8} {c : UInt8} :
    d.Closed (u ++ c :: r) ↔ d.Closed (u ++ [c]) := by
  cases d with
  | number n => exact stops_append
  | _ => exact Iff.rfl

/-! ### Reading a document -/

@[simp] lemma Elems.length_stored : (es : Elems κ (Integer N)) → (es.stored A).length = es.length
  | .last _ _ _ => rfl
  | .more _ _ _ es => congrArg (· + 1) (Elems.length_stored es)

mutual

lemma Doc.reads {r : List UInt8} : (d : Doc κ (Integer N)) → d.Plain → d.Short → d.Closed r →
    Reads N (d.render (A.script N) ++ r) (d.stored A) r
  | .null, _, _, _ => .token (skips_self (by decide)) .null
  | .boolean true, _, _, _ => .token (skips_self (by decide)) .true_
  | .boolean false, _, _, _ => .token (skips_self (by decide)) .false_
  | .number n, _, _, hc => by
    obtain ⟨c, hr, hc⟩ := hc
    cases r with
    | nil => cases hr
    | cons d r =>
      obtain rfl : d = c := by simpa using hr
      exact .token n.startsNumber.skips (n.reads hc)
  | .string ps, _, _, _ => string_reads A ps
  | .emptyArray g, hp, _, _ => by
    have hs : Skips (g.render ++ rbracket :: r) (rbracket :: r) := Gap.skips hp (by decide)
    have h := Reads.arrayNil (N := N) (skips_self (by decide)) hs
    simpa [Doc.render, Doc.stored] using h
  | .array es, hp, hs, hc => .array (skips_self (by decide)) (Elems.reads es hp hs.2 hc)
      (by rw [Elems.length_stored]; exact hs.1)
  | .emptyObject g, hp, _, _ => by
    have hs : Skips (g.render ++ rbrace :: r) (rbrace :: r) := Gap.skips hp (by decide)
    have h := Reads.objectNil (N := N) (skips_self (by decide)) hs
    simpa [Doc.render, Doc.stored] using h
  | .object ms, hp, hs, hc => by
    obtain ⟨l, hl, heq⟩ := Membs.reads ms hp hs hc
    have h := Reads.object (skips_self (by decide)) hl
    rw [heq] at h
    exact h

lemma Elems.reads {r : List UInt8} : (es : Elems κ (Integer N)) → es.Plain → es.Short →
    es.Closed → Elements N (es.render (A.script N) ++ r) (es.stored A) r
  | .last g d g', ⟨hg, hd, hg'⟩, hs, hc => by
    have hr := (Doc.reads d hd hs ((Doc.closed_append (r := r)).mpr hc)).behind (Gap.blanks hg)
    have h := Elements.last hr (Gap.skips hg' (by decide))
    simpa [Elems.render, Elems.stored] using h
  | .more g d g' es, ⟨hg, hd, hg', hes⟩, ⟨hs, hses⟩, ⟨hc, hces⟩ => by
    have hc' := (Doc.closed_append (r := es.render (A.script N) ++ r)).mpr hc
    have hr := (Doc.reads d hd hs hc').behind (Gap.blanks hg)
    have h := Elements.more hr (Gap.skips hg' (by decide)) (Elems.reads es hes hses hces)
    simpa [Elems.render, Elems.stored] using h

/-- The members are stored one after the other. -/
lemma Membs.reads {r : List UInt8} : (ms : Membs κ (Integer N)) → ms.Plain → ms.Short →
    ms.Closed → ∃ l, Members N (ms.render (A.script N) ++ r) l r ∧ ∀ Map,
      build Map l = (ms.stored A).foldl (fun Map m => Value.insert m.1 m.2 Map) Map
  | .last g key g' h d h', ⟨hg, hg', hh, hd, hh'⟩, hs, hc => by
    have hkey := (string_reads (N := N) A key
      (t := g'.render ++ colon :: (h.render ++ (d.render (A.script N) ++
        (h'.render ++ rbrace :: r))))).behind (Gap.blanks hg)
    have hr := (Doc.reads d hd hs ((Doc.closed_append (r := r)).mpr hc)).behind (Gap.blanks hh)
    have hm := Members.last hkey (Gap.skips hg' (by decide)) hr (Gap.skips hh' (by decide))
    refine ⟨[(.string (storedString A key), d.stored A)], ?_, fun Map => rfl⟩
    simpa [Membs.render] using hm
  | .more g key g' h d h' ms, ⟨hg, hg', hh, hd, hh', hms⟩, ⟨hs, hsms⟩, ⟨hc, hcms⟩ => by
    obtain ⟨l, hl, heq⟩ := Membs.reads (r := r) ms hms hsms hcms
    have hkey := (string_reads (N := N) A key
      (t := g'.render ++ colon :: (h.render ++ (d.render (A.script N) ++
        (h'.render ++ comma :: (ms.render (A.script N) ++ r)))))).behind (Gap.blanks hg)
    have hc' := (Doc.closed_append (r := ms.render (A.script N) ++ r)).mpr hc
    have hr := (Doc.reads d hd hs hc').behind (Gap.blanks hh)
    have hm := Members.more hkey (Gap.skips hg' (by decide)) hr (Gap.skips hh' (by decide)) hl
    refine ⟨(.string (storedString A key), d.stored A) :: l, ?_, fun Map => heq _⟩
    simpa [Membs.render] using hm

end

/-! ### A number that is not ended, and an array that is too long -/

/-- A number stands here, and behind it another character than those that may end it. -/
def BadNumber (s : List UInt8) : Prop :=
  StartsNumber s ∧ ∃ val r, s = val ++ r ∧ (∀ d ∈ val, isNumber d = true) ∧
    ∀ c ∈ r.head?, isNumber c = false ∧ isExponent c = false ∧ isStop c = false

lemma BadNumber.fails {str : List UInt8} {o n : ℕ} (h : BadNumber s) (hat : At str o s) :
    Fails (fun _ => True) (parse_next N str (n + 1) o) := by
  obtain ⟨hstart, val, r, rfl, hval, hr⟩ := h
  obtain ⟨o1, hat1, heq⟩ := parse_next_number (N := N) (n := n) hat hstart.skips hstart
  have hnot : isExponent (r.headD 0) = false ∧ isStop (r.headD 0) = false := by
    cases r with
    | nil => decide
    | cons c r => exact (hr c rfl).2
  rw [heq, parse_number_run hval hat1 fun c hc => (hr c hc).1, hnot.1, hnot.2,
    if_neg (by decide), if_neg (by decide)]
  trivial

variable (N) in
/-- What stands here and fails. -/
def Stuck (s : List UInt8) : Prop := BadNumber s ∨ LongArray N s

lemma Stuck.notClose (h : Stuck N s) : NotClose s := by
  rcases h with h | h
  · exact h.1.notClose
  · exact Overruns.notClose (N := N) (.inr (.inr h))

lemma Stuck.fails {str : List UInt8} {o n : ℕ} (h : Stuck N s) (hat : At str o s)
    (hn : s.length < n) : Fails (fun _ => True) (parse_next N str n o) := by
  rcases h with h | h
  · obtain ⟨n, rfl⟩ : ∃ m, n = m + 1 := ⟨n - 1, by omega⟩
    exact h.fails hat
  · exact h.fails hat hn

/-- What stands behind a document, and does not go on with a number. -/
def Follows (r : List UInt8) : Prop := ∀ c ∈ r.head?, isNumber c = false ∧ isExponent c = false

lemma StartsSpace.follows {c : UInt8} (h : StartsSpace c) :
    isNumber c = false ∧ isExponent c = false := by
  simp only [StartsSpace, isspace, isNumber, isExponent, isDigit, hash, slash, minus, dot] at *
  grind

lemma follows_gap {g : Gap} {c : UInt8} (hc : isNumber c = false ∧ isExponent c = false) :
    Follows (g.render ++ c :: r) := by
  intro d hd
  rcases hg : g.render with _ | ⟨e, t⟩
  · rw [hg] at hd
    obtain rfl : c = d := by simpa using hd
    exact hc
  · rw [hg] at hd
    exact (Gap.head (g := g) (by rw [hg]; exact hd)).follows

/-- As many elements of an array are read as are asked for. -/
lemma Elems.first {r : List UInt8} : (es : Elems κ (Integer N)) → es.Plain → es.Short →
    es.Closed → ∀ {k : ℕ}, 0 < k → k ≤ es.length →
      ∃ vs t, FirstElements N (es.render (A.script N) ++ r) vs t ∧ vs.length = k
  | .last g d g', ⟨hg, hd, _⟩, hs, hc, k, hpos, hle => by
    have hr := (Doc.reads A d hd hs ((Doc.closed_append (r := r)).mpr hc)).behind (Gap.blanks hg)
    have hk : 1 = k := Nat.le_antisymm hpos hle
    exact ⟨[d.stored A], _, by simpa [Elems.render] using FirstElements.one hr, hk⟩
  | .more g d g' es, ⟨hg, hd, hg', hes⟩, ⟨hs, hses⟩, ⟨hc, hces⟩, k, hpos, hle => by
    have hc' := (Doc.closed_append (r := es.render (A.script N) ++ r)).mpr hc
    have hr := (Doc.reads A d hd hs hc').behind (Gap.blanks hg)
    rcases Nat.eq_or_lt_of_le (Nat.succ_le_of_lt hpos) with hk | hk
    · exact ⟨[d.stored A], _, by simpa [Elems.render] using FirstElements.one hr, hk⟩
    · have hle' : k - 1 ≤ es.length := Nat.sub_le_of_le_add hle
      obtain ⟨vs, t, hvs, hlen⟩ := Elems.first (r := r) es hes hses hces
        (Nat.sub_pos_of_lt hk) hle'
      have h := FirstElements.more hr (Gap.skips hg' (by decide)) hvs
      refine ⟨d.stored A :: vs, t, by simpa [Elems.render] using h, ?_⟩
      rw [List.length_cons, hlen, Nat.sub_add_cancel hpos]

mutual

/-- A document that is not read fails where a value is expected. -/
lemma Doc.stuck {r : List UInt8} : (d : Doc κ (Integer N)) → d.Plain →
    ¬ (d.Closed r ∧ d.Short) → Follows r →
      ∃ t, Starts N (d.render (A.script N) ++ r) t ∧ Stuck N t
  | .null, _, hc, _ => absurd ⟨trivial, trivial⟩ hc
  | .boolean _, _, hc, _ => absurd ⟨trivial, trivial⟩ hc
  | .number n, _, hc, hr => by
    refine ⟨_, .here n.startsNumber.skips, .inl ⟨n.startsNumber, n.render, r, rfl,
      n.isNumber_render, fun c hh => ⟨(hr c hh).1, (hr c hh).2, ?_⟩⟩⟩
    exact Bool.eq_false_iff.mpr fun hstop => hc ⟨⟨c, hh, hstop⟩, trivial⟩
  | .string _, _, hc, _ => absurd ⟨trivial, trivial⟩ hc
  | .emptyArray _, _, hc, _ => absurd ⟨trivial, trivial⟩ hc
  | .array es, hp, hc, _ => by
    by_cases hes : es.Closed ∧ es.Short
    · -- all elements can be read, so there are too many
      have hlong : 2 ^ 32 ≤ es.length := not_lt.mp fun hlt => hc ⟨hes.1, hlt, hes.2⟩
      obtain ⟨vs, t, hvs, hlen⟩ := Elems.first (r := r) A es hp hes.2 hes.1
        (Nat.two_pow_pos 32) hlong
      exact ⟨_, .here (skips_self (by decide)), .inr ⟨_, vs, t, rfl, hvs, hlen⟩⟩
    · obtain ⟨t, ht, hstuck⟩ := Elems.stuck (r := r) es hp hes
      exact ⟨t, .array (skips_self (by decide)) ht, hstuck⟩
  | .emptyObject _, _, hc, _ => absurd ⟨trivial, trivial⟩ hc
  | .object ms, hp, hc, _ => by
    obtain ⟨t, ht, hstuck⟩ := Membs.stuck (r := r) ms hp hc
    exact ⟨t, .object (skips_self (by decide)) ht, hstuck⟩

lemma Elems.stuck {r : List UInt8} : (es : Elems κ (Integer N)) → es.Plain →
    ¬ (es.Closed ∧ es.Short) →
      ∃ t, StartsElement N (es.render (A.script N) ++ r) t ∧ Stuck N t
  | .last g d g', ⟨hg, hd, _⟩, hc => by
    obtain ⟨t, ht, hstuck⟩ := Doc.stuck d hd
      (fun h => hc ⟨Doc.closed_append.mp h.1, h.2⟩) (follows_gap (r := r) (by decide))
    refine ⟨t, ?_, hstuck⟩
    simpa [Elems.render] using StartsElement.here (ht.behind (Gap.blanks hg))
  | .more g d g' es, ⟨hg, hd, hg', hes⟩, hc => by
    by_cases hcd : d.Closed (g'.render ++ [comma]) ∧ d.Short
    · obtain ⟨t, ht, hstuck⟩ := Elems.stuck (r := r) es hes
        fun h => hc ⟨⟨hcd.1, h.1⟩, hcd.2, h.2⟩
      have hc' := (Doc.closed_append (r := es.render (A.script N) ++ r)).mpr hcd.1
      have hr := (Doc.reads A d hd hcd.2 hc').behind (Gap.blanks hg)
      refine ⟨t, ?_, hstuck⟩
      simpa [Elems.render] using StartsElement.later hr (Gap.skips hg' (by decide)) ht
    · obtain ⟨t, ht, hstuck⟩ := Doc.stuck d hd
        (fun h => hcd ⟨Doc.closed_append.mp h.1, h.2⟩)
        (follows_gap (r := es.render (A.script N) ++ r) (by decide))
      refine ⟨t, ?_, hstuck⟩
      simpa [Elems.render] using StartsElement.here (ht.behind (Gap.blanks hg))

lemma Membs.stuck {r : List UInt8} : (ms : Membs κ (Integer N)) → ms.Plain →
    ¬ (ms.Closed ∧ ms.Short) →
      ∃ t, StartsMember N (ms.render (A.script N) ++ r) t ∧ Stuck N t
  | .last g key g' h d h', ⟨hg, hg', hh, hd, _⟩, hc => by
    obtain ⟨t, ht, hstuck⟩ := Doc.stuck d hd
      (fun h => hc ⟨Doc.closed_append.mp h.1, h.2⟩) (follows_gap (r := r) (by decide))
    have hkey := (string_reads (N := N) A key
      (t := g'.render ++ colon :: (h.render ++ (d.render (A.script N) ++
        (h'.render ++ rbrace :: r))))).behind (Gap.blanks hg)
    refine ⟨t, ?_, hstuck⟩
    simpa [Membs.render] using
      StartsMember.value hkey (Gap.skips hg' (by decide)) (ht.behind (Gap.blanks hh))
  | .more g key g' h d h' ms, ⟨hg, hg', hh, hd, hh', hms⟩, hc => by
    have hkey := (string_reads (N := N) A key
      (t := g'.render ++ colon :: (h.render ++ (d.render (A.script N) ++
        (h'.render ++ comma :: (ms.render (A.script N) ++ r)))))).behind (Gap.blanks hg)
    by_cases hcd : d.Closed (h'.render ++ [comma]) ∧ d.Short
    · obtain ⟨t, ht, hstuck⟩ := Membs.stuck (r := r) ms hms
        fun h => hc ⟨⟨hcd.1, h.1⟩, hcd.2, h.2⟩
      have hc' := (Doc.closed_append (r := ms.render (A.script N) ++ r)).mpr hcd.1
      have hr := (Doc.reads A d hd hcd.2 hc').behind (Gap.blanks hh)
      refine ⟨t, ?_, hstuck⟩
      simpa [Membs.render] using
        StartsMember.later hkey (Gap.skips hg' (by decide)) hr (Gap.skips hh' (by decide)) ht
    · obtain ⟨t, ht, hstuck⟩ := Doc.stuck d hd
        (fun h => hcd ⟨Doc.closed_append.mp h.1, h.2⟩)
        (follows_gap (r := ms.render (A.script N) ++ r) (by decide))
      refine ⟨t, ?_, hstuck⟩
      simpa [Membs.render] using
        StartsMember.value hkey (Gap.skips hg' (by decide)) (ht.behind (Gap.blanks hh))

end

/-! ### Whole texts -/

/-- No block comment before the end of the root starts with a slash. -/
def Text.Plain (x : Text κ ν) : Prop := x.lead.Plain ∧ x.root.Plain

lemma Text.plain_of {d : Doc κ ν} (h : d.Plain) : (Text.of d).Plain := ⟨Gap.plain_nil, h⟩

/-- Every number of the text is followed by a character that may end it. -/
def Text.Closed (x : Text κ (Integer N)) : Prop := x.root.Closed x.rest

variable {x : Text κ (Integer N)}

lemma Text.reads (hp : x.Plain) (hc : x.Closed) (hs : x.root.Short) :
    Reads N (x.render (A.script N)) (x.root.stored A) x.rest :=
  (Doc.reads A x.root hp.2 hs hc).behind (Gap.blanks hp.1)

/-- Such a text is accepted if its numbers are ended and its arrays are short enough, and stored
as its root. -/
lemma Text.load_iff (hp : x.Plain) {jsonRoot v : Value N.Double} :
    (∃ o, load N (x.render (A.script N)) jsonRoot = .ok ([], v) o) ↔
      (x.Closed ∧ x.root.Short) ∧ v = x.root.stored A := by
  have hstart : At (x.render (A.script N)) 0 (x.render (A.script N)) := .start _
  have hturns : (x.render (A.script N)).length < turns (x.render (A.script N)) :=
    Nat.lt_succ_self _
  constructor
  · rintro ⟨o, hl⟩
    have hc : x.Closed ∧ x.root.Short := by
      by_contra hc
      obtain ⟨t, ht, hstuck⟩ := Doc.stuck A x.root hp.2 hc fun c hr => (Text.rest_head hr).follows
      have hfails := (ht.behind (Gap.blanks hp.1)).fails (Q := fun _ => True) hstuck.notClose
        (fun hat hn => hstuck.fails hat hn) hstart hturns
      obtain ⟨u, hr⟩ := (load_accepts jsonRoot).mp ⟨o, hl⟩
      obtain ⟨o', hp', -⟩ := hr.parse hstart hturns
      rw [hp'] at hfails
      exact hfails
    obtain ⟨o', hl'⟩ := (load_accepts jsonRoot).mpr ⟨_, Text.reads A hp hc.1 hc.2⟩
    rw [hl'] at hl
    simp only [Res.ok.injEq, Prod.mk.injEq, true_and] at hl
    exact ⟨hc, hl.1.symm⟩
  · rintro ⟨hc, rfl⟩
    exact (load_accepts jsonRoot).mpr ⟨_, Text.reads A hp hc.1 hc.2⟩

end MmrService.Json
