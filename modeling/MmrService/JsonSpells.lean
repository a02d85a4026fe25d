import MmrService.JsonDecode
import MmrService.JsonLayout

/-!
What `dumpFast` and `dumpStyle` write of a value that a program has built.

A key is written as it is, and of the control characters in a string five are escaped. So the
text denotes the value exactly when no key has a character that needs an escape, and no string
a control character apart from the five. Otherwise it does not, whatever it may denote: any
text that denotes the value has more backslashes and letters u than what is written.
-/

namespace MmrService.Json

variable {N : Numbers} {D : Type}

/-! ### Values that a program builds -/

/-- The bytes of some characters. -/
def IsUtf8 (w : List UInt8) : Prop := ∃ cs : List Char, cs.flatMap String.utf8EncodeChar = w

namespace Value

/-- The members behind `SetType(emJsonType::Object)`. -/
def members : Value D → List (List UInt8 × Value D)
  | .object Map => Map
  | _ => []

/-- The elements behind `SetType(emJsonType::Array)`. -/
def elements : Value D → List (Value D)
  | .array List => List
  | _ => []

/-- `(*this)[key] = value`. -/
def setKey (this : Value D) (key : List UInt8) (value : Value D) : Value D :=
  .object (insert key value this.members)

/-- `(*this)[index] = value`. -/
def setIndex (this : Value D) (index : ℕ) (value : Value D) : Value D :=
  let List := this.elements
  .array ((List ++ .replicate (index + 1 - List.length) .null).set index value)

def append (this arg : Value D) : Value D := .array (this.elements ++ [arg])

/-- `Value(initializer_list<Value> list)`, the keys and values of the list in pairs. -/
def ofPairs (list : List (Value D × Value D)) : Value D :=
  list.foldl (fun this p => this.setKey p.1.ToString p.2) (.object [])

/-- The values that constructors, `operator[]`, `append` and assignments make, of strings and
keys in UTF-8. `index + 1` is an `unsigned`, and wraps at the last one. -/
inductive Built : Value D → Prop
  | null : Built .null
  | boolean (b : Bool) : Built (.boolean b)
  | integral (i : ℤ) : Built (.integral i)
  | floating (d : D) : Built (.floating d)
  | string {s : List UInt8} (hs : IsUtf8 s) : Built (.string s)
  | makeObject : Built (.object [])
  | makeArray : Built (.array [])
  | ofPairs {list : List (Value D × Value D)} (h : ∀ p ∈ list, Built p.1)
      (h' : ∀ p ∈ list, Built p.2) : Built (ofPairs list)
  | setKey {key : List UInt8} {value this : Value D} (hk : IsUtf8 key) (hv : Built value)
      (ht : Built this) : Built (this.setKey key value)
  | setIndex {index : ℕ} {value this : Value D} (hi : index + 1 < 2 ^ 32) (hv : Built value)
      (ht : Built this) : Built (this.setIndex index value)
  | append {arg this : Value D} (ha : Built arg) (ht : Built this) : Built (this.append arg)
  | member {Map : List (List UInt8 × Value D)} {e : List UInt8 × Value D}
      (h : Built (.object Map)) (he : e ∈ Map) : Built e.2
  | element {List : List (Value D)} {v : Value D} (h : Built (.array List)) (hv : v ∈ List) :
      Built v

/-- Every string and every key is in UTF-8, and every object in the order of its keys. -/
inductive Proper : Value D → Prop
  | null : Proper .null
  | boolean (b : Bool) : Proper (.boolean b)
  | integral (i : ℤ) : Proper (.integral i)
  | floating (d : D) : Proper (.floating d)
  | string {s : List UInt8} (hs : IsUtf8 s) : Proper (.string s)
  | array {vs : List (Value D)} (h : ∀ v ∈ vs, Proper v) : Proper (.array vs)
  | object {Map : List (List UInt8 × Value D)} (hs : Map.Pairwise fun a b => a.1 < b.1)
      (hk : ∀ e ∈ Map, IsUtf8 e.1) (h : ∀ e ∈ Map, Proper e.2) : Proper (.object Map)

end Value

lemma utf8EncodeChar_ascii {c : Char} (h : c.toNat ≤ 127) :
    String.utf8EncodeChar c = [UInt8.ofNat c.toNat] := by
  have hv : c.val.toNat ≤ 127 := h
  simp only [String.utf8EncodeChar, if_pos hv]
  rfl

lemma IsUtf8.append {w w' : List UInt8} (h : IsUtf8 w) (h' : IsUtf8 w') : IsUtf8 (w ++ w') := by
  obtain ⟨cs, rfl⟩ := h
  obtain ⟨cs', rfl⟩ := h'
  exact ⟨cs ++ cs', List.flatMap_append ..⟩

/-- A character that may stand for itself in a string of the grammar. -/
def NoEscape (c : UInt8) : Prop := 32 ≤ c.toNat ∧ c ≠ quote ∧ c ≠ backslash

/-- The characters of the grammar's strings, and those that need an escape. -/
lemma char_cases (c : Char) : (∃ k : Unescaped, k.char = c) ∨
    ∃ b : UInt8, String.utf8EncodeChar c = [b] ∧ ¬ NoEscape b := by
  by_cases h : 0x20 ≤ c.toNat ∧ c ≠ '"' ∧ c ≠ '\\'
  · exact .inl ⟨⟨c, h⟩, rfl⟩
  · have hascii : c.toNat ≤ 127 := by
      by_contra hbig
      refine h ⟨by omega, ?_, ?_⟩ <;> rintro rfl <;> exact hbig (by decide)
    refine .inr ⟨_, utf8EncodeChar_ascii hascii, ?_⟩
    rintro ⟨hlow, hq, hb⟩
    rw [UInt8.toNat_ofNat'] at hlow
    refine h ⟨by omega, ?_, ?_⟩
    · rintro rfl
      exact hq rfl
    · rintro rfl
      exact hb rfl

lemma noEscape_unescaped (k : Unescaped) : ∀ c ∈ String.utf8EncodeChar k.char, NoEscape c :=
  fun _ h => Unescaped.byte h

lemma NoEscape.raw {c : UInt8} (h : NoEscape c) : Raw c := raw_of_le h.1 h.2.1 h.2.2

/-- A text of ASCII characters. -/
lemma isUtf8_ascii {w : List UInt8} (h : ∀ c ∈ w, c.toNat ≤ 127) : IsUtf8 w := by
  induction w with
  | nil => exact ⟨[], rfl⟩
  | cons c w ih =>
    have hc : c.toNat ≤ 127 := h c List.mem_cons_self
    have hvalid : c.toNat.isValidChar := .inl (by omega)
    have hchar : (Char.ofNat c.toNat).toNat = c.toNat := by
      rw [Char.ofNat, dif_pos hvalid]
      rfl
    obtain ⟨cs, hcs⟩ := ih fun d hd => h d (List.mem_cons_of_mem _ hd)
    refine ⟨Char.ofNat c.toNat :: cs, ?_⟩
    rw [List.flatMap_cons, hcs, utf8EncodeChar_ascii (by omega), hchar, UInt8.ofNat_toNat]
    rfl

lemma json_escape_append (w w' : List UInt8) :
    json_escape (w ++ w') = json_escape w ++ json_escape w' := List.flatMap_append ..

lemma IsUtf8.json_escape {w : List UInt8} (h : IsUtf8 w) : IsUtf8 (json_escape w) := by
  obtain ⟨cs, rfl⟩ := h
  induction cs with
  | nil => exact ⟨[], rfl⟩
  | cons c cs ih =>
    rw [List.flatMap_cons, json_escape_append]
    refine IsUtf8.append ?_ ih
    rcases char_cases c with ⟨k, rfl⟩ | ⟨b, hb, hne⟩
    · rw [json_escape_raw fun c hc => (noEscape_unescaped k c hc).raw]
      exact ⟨[k.char], List.append_nil _⟩
    · have hsingle : Json.json_escape [b] = escapeChar b := List.append_nil _
      rw [hb, hsingle]
      rcases escapeChar_cases b with ⟨hraw, -⟩ | ⟨e, he, -⟩
      · exact ⟨[c], by rw [hraw, ← hb, List.flatMap_singleton]⟩
      · have hletter : e.letter.toNat ≤ 127 := by cases e <;> decide
        rw [he]
        exact isUtf8_ascii (List.forall_mem_cons.mpr
          ⟨by decide, List.forall_mem_singleton.mpr hletter⟩)

namespace Value

lemma Proper.members {v : Value D} (h : v.Proper) : (Value.object v.members).Proper := by
  cases h with
  | object hs hk h => exact .object hs hk h
  | _ => exact .object .nil (by simp [Value.members]) (by simp [Value.members])

lemma Proper.elements {v : Value D} (h : v.Proper) : ∀ u ∈ v.elements, u.Proper := by
  cases h with
  | array h => exact h
  | _ => simp [Value.elements]

lemma Proper.setKey {key : List UInt8} {value this : Value D} (ht : this.Proper)
    (hk : IsUtf8 key) (hv : value.Proper) : (this.setKey key value).Proper := by
  cases ht.members with
  | object hs hks h =>
    refine .object (SortedMap.alterList_sorted _ _ hs) (fun e he => ?_) fun e he => ?_
    · rcases SortedMap.mem_alterList_const he with rfl | he
      · exact hk
      · exact hks e he
    · rcases SortedMap.mem_alterList_const he with rfl | he
      · exact hv
      · exact h e he

lemma Proper.toString {v : Value D} (h : v.Proper) : IsUtf8 v.ToString := by
  cases h with
  | string hs => exact hs.json_escape
  | _ => exact ⟨[], rfl⟩

lemma Proper.ofPairs {list : List (Value D × Value D)} (h : ∀ p ∈ list, p.1.Proper)
    (h' : ∀ p ∈ list, p.2.Proper) : (Value.ofPairs list).Proper := by
  suffices hfold : ∀ this : Value D, this.Proper →
      (list.foldl (fun this p => this.setKey p.1.ToString p.2) this).Proper from
    hfold _ (.object .nil (by simp) (by simp))
  induction list with
  | nil => exact fun this ht => ht
  | cons p list ih =>
    obtain ⟨hp, h⟩ := List.forall_mem_cons.mp h
    obtain ⟨hp', h'⟩ := List.forall_mem_cons.mp h'
    exact fun this ht => ih h h' _ (ht.setKey hp.toString hp')

lemma Built.proper {v : Value D} (h : v.Built) : v.Proper := by
  induction h with
  | null => exact .null
  | boolean b => exact .boolean b
  | integral i => exact .integral i
  | floating d => exact .floating d
  | string hs => exact .string hs
  | makeObject => exact .object .nil (by simp) (by simp)
  | makeArray => exact .array (by simp)
  | ofPairs _ _ ih ih' => exact .ofPairs ih ih'
  | setKey hk _ _ hv ht => exact ht.setKey hk hv
  | setIndex _ _ _ hv ht =>
    refine .array fun u hu => ?_
    rcases List.mem_or_eq_of_mem_set hu with hu | rfl
    · rcases List.mem_append.mp hu with hu | hu
      · exact ht.elements u hu
      · rw [List.eq_of_mem_replicate hu]
        exact .null
    · exact hv
  | append _ _ ha ht =>
    refine .array fun u hu => ?_
    rcases List.mem_append.mp hu with hu | hu
    · exact ht.elements u hu
    · rw [List.mem_singleton.mp hu]
      exact ha
  | member _ he ih =>
    cases ih with
    | object _ _ h => exact h _ he
  | element _ hv ih =>
    cases ih with
    | array h => exact h _ hv

end Value

/-! ### Texts without comments -/

mutual

/-- There is only white space between the tokens. -/
def Doc.Strict {κ ν : Type} : Doc κ ν → Prop
  | .emptyArray g | .emptyObject g => g.Strict
  | .array es => es.Strict
  | .object ms => ms.Strict
  | _ => True

def Elems.Strict {κ ν : Type} : Elems κ ν → Prop
  | .last g d g' => g.Strict ∧ d.Strict ∧ g'.Strict
  | .more g d g' es => g.Strict ∧ d.Strict ∧ g'.Strict ∧ es.Strict

def Membs.Strict {κ ν : Type} : Membs κ ν → Prop
  | .last g _ g' h d h' => g.Strict ∧ g'.Strict ∧ h.Strict ∧ d.Strict ∧ h'.Strict
  | .more g _ g' h d h' ms => g.Strict ∧ g'.Strict ∧ h.Strict ∧ d.Strict ∧ h'.Strict ∧ ms.Strict

end

structure Text.Strict {κ ν : Type} (x : Text κ ν) : Prop where
  lead : x.lead.Strict
  root : x.root.Strict
  trail : x.trail.Strict
  last : x.last = none

/-- An integer, or what `real` takes a number with a fraction or an exponent for. -/
def numberOf (real : Decimal → D) (n : Decimal) : Value D :=
  if n.frac.isNone ∧ n.exp.isNone then .integral (if n.negative then -(n.int : ℤ) else n.int)
  else .floating (real n)

/-- The text is one of the grammar of RFC 8259, and denotes the value. -/
def Denotes (real : Decimal → D) (s : List UInt8) (v : Value D) : Prop :=
  ∃ x : Text Unescaped Decimal, x.Strict ∧ x.render grammarScript = s ∧
    x.root.denote grammarScript (numberOf real) = v

/-! ### What is written as it should be -/

/-- A character of a string that `json_escape` makes a piece of the grammar of. -/
def Escapable (c : UInt8) : Prop :=
  32 ≤ c.toNat ∨ c = 8 ∨ c = 9 ∨ c = 10 ∨ c = 12 ∨ c = 13

/-- No key has a character that needs an escape, and no string one that is not escaped. -/
inductive Value.Printable : Value D → Prop
  | null : Printable .null
  | boolean (b : Bool) : Printable (.boolean b)
  | integral (i : ℤ) : Printable (.integral i)
  | floating (d : D) : Printable (.floating d)
  | string {s : List UInt8} (h : ∀ c ∈ s, Escapable c) : Printable (.string s)
  | array {vs : List (Value D)} (h : ∀ v ∈ vs, Printable v) : Printable (.array vs)
  | object {Map : List (List UInt8 × Value D)} (hk : ∀ e ∈ Map, ∀ c ∈ e.1, NoEscape c)
      (h : ∀ e ∈ Map, Printable e.2) : Printable (.object Map)

lemma Escape.escapable (e : Escape) : Escapable e.byte := by
  cases e <;> simp [Escapable, Escape.byte]

/-- A character that needs an escape and has one. -/
lemma exists_escape {c : UInt8} (h : Escapable c) (hne : ¬ NoEscape c) :
    ∃ e : Escape, escapeChar c = [backslash, e.letter] ∧ e.byte = c := by
  refine (escapeChar_cases c).resolve_left fun ⟨hraw, hplain⟩ => ?_
  rcases h with hlow | h
  · exact hne ⟨hlow, hplain⟩
  · rcases h with rfl | rfl | rfl | rfl | rfl <;> exact absurd hraw (by decide)

/-- A string is written piece by piece. -/
lemma exists_grammar_pieces {w : List UInt8} (hw : IsUtf8 w) (h : ∀ c ∈ w, Escapable c) :
    ∃ ps : List (Piece Unescaped),
      renderString grammarScript ps = quote :: json_escape w ++ [quote] ∧
        decode grammarScript.char ps = w := by
  suffices hps : ∃ ps : List (Piece Unescaped),
      ps.flatMap (Piece.render grammarScript.char) = json_escape w ∧
        decode grammarScript.char ps = w by
    obtain ⟨ps, hr, hd⟩ := hps
    exact ⟨ps, by rw [renderString, hr], hd⟩
  obtain ⟨cs, rfl⟩ := hw
  induction cs with
  | nil => exact ⟨[], rfl, rfl⟩
  | cons c cs ih =>
    rw [List.flatMap_cons] at h ⊢
    obtain ⟨hc, h⟩ := List.forall_mem_append.mp h
    obtain ⟨ps, hr, hd⟩ := ih h
    rcases char_cases c with ⟨k, rfl⟩ | ⟨b, hb, hne⟩
    · refine ⟨.char k :: ps, ?_, ?_⟩
      · rw [json_escape_append, json_escape_raw fun c hc => (noEscape_unescaped k c hc).raw,
          List.flatMap_cons, hr]
        rfl
      · rw [decode, hd]
        rfl
    · rw [hb] at hc ⊢
      obtain ⟨e, he, hbyte⟩ := exists_escape (hc b List.mem_cons_self) hne
      refine ⟨.escape e :: ps, ?_, ?_⟩
      · rw [List.singleton_append, json_escape_cons, he, List.flatMap_cons, hr]
        rfl
      · rw [decode, hd, hbyte]
        rfl

/-- A key that needs no escape is written as it is. -/
lemma exists_grammar_key {key : List UInt8} (hk : IsUtf8 key) (h : ∀ c ∈ key, NoEscape c) :
    ∃ ps : List (Piece Unescaped),
      renderString grammarScript ps = quote :: key ++ [quote] ∧
        decode grammarScript.char ps = key := by
  obtain ⟨ps, hr, hd⟩ := exists_grammar_pieces hk fun c hc => .inl (h c hc).1
  rw [json_escape_raw fun c hc => (h c hc).raw] at hr
  exact ⟨ps, hr, hd⟩

section

variable {real : Decimal → N.Double}

/-- The text is white space and a document that denotes the value. -/
def Spells (real : Decimal → N.Double) (v : Value N.Double) (s : List UInt8) : Prop :=
  ∃ (g : Gap) (d : Doc Unescaped Decimal), g.Strict ∧ d.Strict ∧
    g.render ++ d.render grammarScript = s ∧ d.denote grammarScript (numberOf real) = v

/-- The text is the elements of an array, up to and with its bracket. -/
def SpellsElements (real : Decimal → N.Double) (vs : List (Value N.Double)) (s : List UInt8) :
    Prop :=
  ∃ es : Elems Unescaped Decimal, es.Strict ∧ es.render grammarScript = s ∧
    es.denote grammarScript (numberOf real) = vs

/-- The text is the members of an object, up to and with its brace. -/
def SpellsMembers (real : Decimal → N.Double) (Map : List (List UInt8 × Value N.Double))
    (s : List UInt8) : Prop :=
  ∃ ms : Membs Unescaped Decimal, ms.Strict ∧ ms.render grammarScript = s ∧
    ms.denote grammarScript (numberOf real) = Map

lemma spells_doc {d : Doc Unescaped Decimal} (hd : d.Strict) :
    Spells real (d.denote grammarScript (numberOf real)) (d.render grammarScript) :=
  ⟨[], d, Gap.strict_nil, hd, rfl, rfl⟩

lemma spells_integral (i : ℤ) : Spells real (.integral i) (to_string i) := by
  have h : Spells real _ _ :=
    spells_doc (d := .number ⟨decide (i < 0), i.natAbs, none, none⟩) trivial
  have hrender : Decimal.render ⟨decide (i < 0), i.natAbs, none, none⟩ = to_string i := by
    by_cases hneg : i < 0 <;> simp [Decimal.render, to_string, hneg]
  have hnumber : numberOf real ⟨decide (i < 0), i.natAbs, none, none⟩ = .integral i := by
    rw [numberOf, if_pos ⟨rfl, rfl⟩, signed_natAbs]
  rw [Doc.denote, hnumber] at h
  rw [← hrender]
  exact h

lemma Spells.behind {v : Value N.Double} {s w : List UInt8} (h : Spells real v s)
    (hw : White w) : Spells real v (w ++ s) := by
  obtain ⟨g, d, hg, hd, rfl, hv⟩ := h
  obtain ⟨g', hg', rfl⟩ := exists_gap hw
  refine ⟨g' ++ g, d, fun sp hsp => (List.mem_append.mp hsp).elim (hg' sp) (hg sp), hd, ?_, hv⟩
  rw [Gap.render, List.flatMap_append, List.append_assoc]
  rfl

mutual

/-- The tokens of a value that is printable denote it. -/
lemma Layout.spells {v : Value N.Double} {s : List UInt8} :
    Layout N v s → v.Proper → v.Printable → Spells real v s
  | .null, _, _ => spells_doc (d := .null) trivial
  | .boolean b, _, _ => spells_doc (d := .boolean b) trivial
  | .string w, .string hw, .string h => by
    obtain ⟨ps, hr, hd⟩ := exists_grammar_pieces hw h
    exact ⟨[], .string ps, Gap.strict_nil, trivial, hr, by rw [Doc.denote, hd]⟩
  | .integral i, _, _ => spells_integral i
  | .arrayNil hw, _, _ => by
    obtain ⟨g, hg, rfl⟩ := exists_gap hw
    exact spells_doc (d := .emptyArray g) hg
  | .array h, .array hp, .array hv => by
    obtain ⟨es, hes, rfl, rfl⟩ := LayoutElements.spells h hp hv
    exact spells_doc (d := .array es) hes
  | .objectNil hw, _, _ => by
    obtain ⟨g, hg, rfl⟩ := exists_gap hw
    exact spells_doc (d := .emptyObject g) hg
  | .object h, .object hs hk hp, .object hkeys hv => by
    obtain ⟨ms, hms, rfl, hd⟩ := LayoutMembers.spells h hk hp hkeys hv
    refine ⟨[], .object ms, Gap.strict_nil, hms, rfl, ?_⟩
    rw [Doc.denote, hd, objectOf_eq, SortedMap.ofList_entries ⟨_, hs⟩]
  | .behind hw h, hp, hv => (Layout.spells h hp hv).behind hw

lemma LayoutElements.spells {vs : List (Value N.Double)} {s : List UInt8} :
    LayoutElements N vs s → (∀ v ∈ vs, v.Proper) → (∀ v ∈ vs, v.Printable) →
      SpellsElements real vs s
  | .last hv hw, hp, h => by
    obtain ⟨g, d, hg, hd, rfl, rfl⟩ :=
      Layout.spells hv (hp _ List.mem_cons_self) (h _ List.mem_cons_self)
    obtain ⟨g', hg', rfl⟩ := exists_gap hw
    exact ⟨.last g d g', ⟨hg, hd, hg'⟩, (List.append_assoc _ _ _).symm, rfl⟩
  | .more hv hr, hp, h => by
    obtain ⟨g, d, hg, hd, rfl, rfl⟩ :=
      Layout.spells hv (hp _ List.mem_cons_self) (h _ List.mem_cons_self)
    obtain ⟨es, hes, rfl, rfl⟩ := LayoutElements.spells hr
      (fun v hv => hp v (List.mem_cons_of_mem _ hv)) fun v hv => h v (List.mem_cons_of_mem _ hv)
    exact ⟨.more g d [] es, ⟨hg, hd, Gap.strict_nil, hes⟩, (List.append_assoc _ _ _).symm, rfl⟩

lemma LayoutMembers.spells {Map : List (List UInt8 × Value N.Double)} {s : List UInt8} :
    LayoutMembers N Map s → (∀ e ∈ Map, IsUtf8 e.1) → (∀ e ∈ Map, e.2.Proper) →
      (∀ e ∈ Map, ∀ c ∈ e.1, NoEscape c) → (∀ e ∈ Map, e.2.Printable) →
      SpellsMembers real Map s
  | .last key hu hw hv hw', hk, hp, hkeys, h => by
    obtain ⟨g0, hg0, rfl⟩ := exists_gap hu
    obtain ⟨ps, hr, hd⟩ :=
      exists_grammar_key (hk _ List.mem_cons_self) (hkeys _ List.mem_cons_self)
    obtain ⟨g1, hg1, rfl⟩ := exists_gap hw
    obtain ⟨g2, d, hg2, hds, rfl, hdv⟩ :=
      Layout.spells hv (hp _ List.mem_cons_self) (h _ List.mem_cons_self)
    obtain ⟨g3, hg3, rfl⟩ := exists_gap hw'
    refine ⟨.last g0 ps g1 g2 d g3, ⟨hg0, hg1, hg2, hds, hg3⟩, ?_, ?_⟩
    · rw [Membs.render, hr]
      simp only [List.append_assoc]
    · rw [Membs.denote, hd, hdv]
  | .more key hu hw hv hr, hk, hp, hkeys, h => by
    obtain ⟨g0, hg0, rfl⟩ := exists_gap hu
    obtain ⟨ps, hps, hd⟩ :=
      exists_grammar_key (hk _ List.mem_cons_self) (hkeys _ List.mem_cons_self)
    obtain ⟨g1, hg1, rfl⟩ := exists_gap hw
    obtain ⟨g2, d, hg2, hds, rfl, hdv⟩ :=
      Layout.spells hv (hp _ List.mem_cons_self) (h _ List.mem_cons_self)
    obtain ⟨ms, hms, rfl, hmv⟩ := LayoutMembers.spells hr
      (fun e he => hk e (List.mem_cons_of_mem _ he))
      (fun e he => hp e (List.mem_cons_of_mem _ he))
      (fun e he => hkeys e (List.mem_cons_of_mem _ he))
      fun e he => h e (List.mem_cons_of_mem _ he)
    refine ⟨.more g0 ps g1 g2 d [] ms, ⟨hg0, hg1, hg2, hds, Gap.strict_nil, hms⟩, ?_, ?_⟩
    · rw [Membs.render, hps]
      simp only [List.append_assoc]
      rfl
    · rw [Membs.denote, hd, hdv, hmv]

end

lemma Spells.denotes {v : Value N.Double} {s : List UInt8} (h : Spells real v s) :
    Denotes real s v := by
  obtain ⟨g, d, hg, hd, rfl, hv⟩ := h
  refine ⟨⟨g, d, [], none, fun _ _ h => by cases h⟩, ⟨hg, hd, Gap.strict_nil, rfl⟩, ?_, hv⟩
  exact congrArg (g.render ++ ·) (List.append_nil _)

end

end MmrService.Json
