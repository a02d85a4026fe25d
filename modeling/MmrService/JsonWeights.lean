import MmrService.JsonSpells

/-!
Why a text denotes no value that is not printable.

A backslash and a letter u weigh one, and nothing else weighs anything. A text that denotes a
value weighs at least what the value costs: a letter u one, a backslash two, and one for every
other character that needs an escape. What is written weighs at most that, and as much only if
the value is printable.
-/

namespace MmrService.Json

variable {N : Numbers} {D : Type}

/-! ### Bounds that are reached -/

/-- `b` is a bound of `a`, which is reached under the condition `P`. -/
structure Tight (a b : ℕ) (P : Prop) : Prop where
  le : a ≤ b
  eq_iff : a = b ↔ P

lemma Tight.add {a b a' b' : ℕ} {P Q : Prop} (h : Tight a b P) (h' : Tight a' b' Q) :
    Tight (a + a') (b + b') (P ∧ Q) where
  le := Nat.add_le_add h.le h'.le
  eq_iff := by
    have hle := h.le
    have hle' := h'.le
    rw [← h.eq_iff, ← h'.eq_iff]
    omega

lemma Tight.congr {a b : ℕ} {P Q : Prop} (h : Tight a b P) (hPQ : P ↔ Q) : Tight a b Q :=
  ⟨h.le, h.eq_iff.trans hPQ⟩

lemma Tight.sum {α : Type*} {f g : α → ℕ} {P : α → Prop} {l : List α}
    (h : ∀ x ∈ l, Tight (f x) (g x) (P x)) :
    Tight (l.map f).sum (l.map g).sum (∀ x ∈ l, P x) := by
  induction l with
  | nil => exact ⟨Nat.le_refl _, by simp⟩
  | cons x l ih =>
    obtain ⟨hx, hl⟩ := List.forall_mem_cons.mp h
    exact (hx.add (ih hl)).congr List.forall_mem_cons.symm

/-! ### Weights and costs -/

def charWeight (c : UInt8) : ℕ := if c = backslash ∨ c = letterU then 1 else 0

def weight (s : List UInt8) : ℕ := (s.map charWeight).sum

def charCost (c : UInt8) : ℕ :=
  if c = backslash then 2 else if c = quote ∨ c = letterU ∨ c.toNat < 32 then 1 else 0

def cost (s : List UInt8) : ℕ := (s.map charCost).sum

@[simp] lemma weight_nil : weight [] = 0 := rfl

@[simp] lemma weight_cons (c : UInt8) (s : List UInt8) :
    weight (c :: s) = charWeight c + weight s := rfl

@[simp] lemma weight_append (s t : List UInt8) : weight (s ++ t) = weight s + weight t := by
  rw [weight, List.map_append, List.sum_append]
  rfl

@[simp] lemma cost_append (s t : List UInt8) : cost (s ++ t) = cost s + cost t := by
  rw [cost, List.map_append, List.sum_append]
  rfl

lemma weight_eq_zero {s : List UInt8} (h : ∀ c ∈ s, charWeight c = 0) : weight s = 0 :=
  List.sum_eq_zero fun _ hn => by
    obtain ⟨c, hc, rfl⟩ := List.mem_map.mp hn
    exact h c hc

lemma cost_eq_zero {s : List UInt8} (h : ∀ c ∈ s, charCost c = 0) : cost s = 0 :=
  List.sum_eq_zero fun _ hn => by
    obtain ⟨c, hc, rfl⟩ := List.mem_map.mp hn
    exact h c hc

lemma charWeight_eq_zero {c : UInt8} (hb : c ≠ backslash) (hu : c ≠ letterU) :
    charWeight c = 0 := if_neg (by rintro (h | h); exacts [hb h, hu h])

lemma charCost_low {c : UInt8} (hb : c ≠ backslash) (h : c = quote ∨ c.toNat < 32) :
    charCost c = 1 := by
  rw [charCost, if_neg hb, if_pos (h.imp_right .inr)]

lemma charCost_eq_zero {c : UInt8} (hb : c ≠ backslash) (hu : c ≠ letterU)
    (h : ¬ (c = quote ∨ c.toNat < 32)) : charCost c = 0 := by
  rw [charCost, if_neg hb, if_neg]
  rintro (hq | hu' | hlow)
  exacts [h (.inl hq), hu hu', h (.inr hlow)]

/-- A character as it is. -/
lemma tight_char (c : UInt8) : Tight (charWeight c) (charCost c) (NoEscape c) := by
  rcases eq_or_ne c backslash with rfl | hb
  · exact ⟨by decide, iff_of_false (by decide) fun h => h.2.2 rfl⟩
  rcases eq_or_ne c letterU with rfl | hu
  · exact ⟨by decide, iff_of_true rfl ⟨by decide, by decide, by decide⟩⟩
  rw [charWeight_eq_zero hb hu]
  by_cases h : c = quote ∨ c.toNat < 32
  · rw [charCost_low hb h]
    refine ⟨Nat.zero_le _, iff_of_false Nat.zero_ne_one fun hne => ?_⟩
    rcases h with hq | hlow
    · exact hne.2.1 hq
    · exact absurd hne.1 (by omega)
  · rw [charCost_eq_zero hb hu h]
    exact ⟨le_rfl, iff_of_true rfl ⟨by omega, fun hq => h (.inl hq), hb⟩⟩

/-- A character that `json_escape` writes. -/
lemma tight_escapeChar (c : UInt8) :
    Tight (weight (escapeChar c)) (charCost c) (Escapable c) := by
  have hsingle : weight [c] = charWeight c := Nat.add_zero _
  by_cases hne : NoEscape c
  · rw [show escapeChar c = [c] from hne.raw, hsingle]
    exact ⟨(tight_char c).le, iff_of_true ((tight_char c).eq_iff.mpr hne) (.inl hne.1)⟩
  by_cases he : Escapable c
  · obtain ⟨e, hesc, rfl⟩ := exists_escape he hne
    rw [hesc]
    have heq : weight [backslash, e.letter] = charCost e.byte := by
      cases e with
      | slash => exact absurd ⟨by decide, by decide, by decide⟩ hne
      | _ => rfl
    exact ⟨heq.le, iff_of_true heq he⟩
  · have hlow : c.toNat < 32 := not_le.mp fun h => he (.inl h)
    have hb : c ≠ backslash := by rintro rfl; exact absurd hlow (by decide)
    have hu : c ≠ letterU := by rintro rfl; exact absurd hlow (by decide)
    have hraw : Raw c := by
      rcases escapeChar_cases c with ⟨hraw, -⟩ | ⟨e, -, rfl⟩
      · exact hraw
      · exact absurd e.escapable he
    rw [show escapeChar c = [c] from hraw, hsingle, charWeight_eq_zero hb hu,
      charCost_low hb (.inr hlow)]
    exact ⟨Nat.zero_le _, iff_of_false Nat.zero_ne_one he⟩

lemma tight_key (key : List UInt8) : Tight (weight key) (cost key) (∀ c ∈ key, NoEscape c) :=
  .sum fun c _ => tight_char c

lemma tight_json_escape (s : List UInt8) :
    Tight (weight (json_escape s)) (cost s) (∀ c ∈ s, Escapable c) := by
  have hsum : weight (json_escape s) = (s.map fun c => weight (escapeChar c)).sum := by
    induction s with
    | nil => rfl
    | cons c s ih => rw [json_escape_cons, weight_append, ih, List.map_cons, List.sum_cons]
  rw [hsum]
  exact .sum fun c _ => tight_escapeChar c

/-! ### Values -/

namespace Value

mutual

/-- The keys and the strings of a value added up, and what its words weigh. -/
def measure (key string : List UInt8 → ℕ) : Value D → ℕ
  | .null => 1
  | .object Map => measureMembers key string Map
  | .array List => measureElements key string List
  | .string String => string String
  | .floating _ => 0
  | .integral _ => 0
  | .boolean Bool => if Bool then 1 else 0

def measureMembers (key string : List UInt8 → ℕ) : List (List UInt8 × Value D) → ℕ
  | [] => 0
  | (k, v) :: r => key k + v.measure key string + measureMembers key string r

def measureElements (key string : List UInt8 → ℕ) : List (Value D) → ℕ
  | [] => 0
  | v :: r => v.measure key string + measureElements key string r

end

lemma measureElements_eq (key string : List UInt8 → ℕ) (vs : List (Value D)) :
    measureElements key string vs = (vs.map (measure key string)).sum := by
  induction vs with
  | nil => rfl
  | cons v vs ih => rw [measureElements, ih, List.map_cons, List.sum_cons]

lemma measureMembers_eq (key string : List UInt8 → ℕ) (Map : List (List UInt8 × Value D)) :
    measureMembers key string Map = (Map.map fun e => key e.1 + e.2.measure key string).sum := by
  induction Map with
  | nil => rfl
  | cons e Map ih => rw [measureMembers, ih, List.map_cons, List.sum_cons]

/-- What the value costs. -/
def cost (v : Value D) : ℕ := v.measure Json.cost Json.cost

/-- What is written of it weighs. -/
def printed (v : Value D) : ℕ := v.measure weight fun s => weight (json_escape s)

/-- What is written weighs as much as the value costs only if the value is printable. -/
lemma tight_printed {v : Value D} (hn : v.NoFloat) : Tight v.printed v.cost v.Printable := by
  unfold printed cost
  induction hn with
  | null => exact ⟨le_rfl, iff_of_true rfl .null⟩
  | boolean b => exact ⟨le_rfl, iff_of_true rfl (.boolean b)⟩
  | integral i => exact ⟨le_rfl, iff_of_true rfl (.integral i)⟩
  | string w =>
    refine (tight_json_escape w).congr ⟨.string, fun h => ?_⟩
    cases h with
    | string h => exact h
  | @array vs _ ih =>
    rw [measure, measure, measureElements_eq, measureElements_eq]
    refine (Tight.sum ih).congr ⟨.array, fun h => ?_⟩
    cases h with
    | array h => exact h
  | @object Map _ ih =>
    rw [measure, measure, measureMembers_eq, measureMembers_eq]
    refine (Tight.sum fun e he => (tight_key e.1).add (ih e he)).congr ⟨fun h => ?_, fun h => ?_⟩
    · exact .object (fun e he => (h e he).1) fun e he => (h e he).2
    · cases h with
      | object hk h => exact fun e he => ⟨hk e he, h e he⟩

end Value

/-! ### What is written -/

lemma charWeight_digit {c : UInt8} (h : isDigit c = true) : charWeight c = 0 := by
  refine charWeight_eq_zero ?_ ?_ <;> rintro rfl <;> exact absurd h (by decide)

lemma weight_decimal (n : ℕ) : weight (decimal n) = 0 :=
  weight_eq_zero fun _ h => charWeight_digit (isDigit_decimal h)

lemma weight_to_string (i : ℤ) : weight (to_string i) = 0 := by
  have hminus : charWeight minus = 0 := by decide
  unfold to_string
  split_ifs
  · rw [weight_cons, hminus, weight_decimal]
  · exact weight_decimal _

lemma weight_white {w : List UInt8} (h : White w) : weight w = 0 := by
  refine weight_eq_zero fun c hc => ?_
  rcases h c hc with rfl | rfl | rfl <;> decide

/-- The characters of the grammar that stand by themselves weigh nothing. -/
lemma charWeight_marks : charWeight quote = 0 ∧ charWeight comma = 0 ∧ charWeight colon = 0 ∧
    charWeight lbracket = 0 ∧ charWeight rbracket = 0 ∧ charWeight lbrace = 0 ∧
    charWeight rbrace = 0 ∧ charWeight minus = 0 ∧ charWeight dot = 0 := by decide

lemma weight_words : weight nullText = 1 ∧ weight trueText = 1 ∧ weight falseText = 0 := by
  decide

mutual

lemma Layout.weight_eq {v : Value N.Double} {s : List UInt8} :
    Layout N v s → weight s = v.printed
  | .null => weight_words.1
  | .boolean b => by
    cases b with
    | true => exact weight_words.2.1
    | false => exact weight_words.2.2
  | .string w => by
    simp [Value.printed, Value.measure, charWeight_marks]
  | .integral i => weight_to_string i
  | .arrayNil hw => by
    simp [Value.printed, Value.measure, Value.measureElements, charWeight_marks, weight_white hw]
  | .array h => by
    rw [weight_cons, LayoutElements.weight_eq h]
    simp [Value.printed, Value.measure, charWeight_marks]
  | .objectNil hw => by
    simp [Value.printed, Value.measure, Value.measureMembers, charWeight_marks, weight_white hw]
  | .object h => by
    rw [weight_cons, LayoutMembers.weight_eq h]
    simp [Value.printed, Value.measure, charWeight_marks]
  | .behind hw h => by rw [weight_append, weight_white hw, Layout.weight_eq h, Nat.zero_add]

lemma LayoutElements.weight_eq {vs : List (Value N.Double)} {s : List UInt8} :
    LayoutElements N vs s →
      weight s = Value.measureElements weight (fun s => weight (json_escape s)) vs
  | .last hv hw => by
    simp [Value.measureElements, charWeight_marks, weight_white hw, Layout.weight_eq hv,
      Value.printed]
  | .more hv hr => by
    simp [Value.measureElements, charWeight_marks, Layout.weight_eq hv, Value.printed,
      LayoutElements.weight_eq hr]

lemma LayoutMembers.weight_eq {Map : List (List UInt8 × Value N.Double)} {s : List UInt8} :
    LayoutMembers N Map s →
      weight s = Value.measureMembers weight (fun s => weight (json_escape s)) Map
  | .last key hu hw hv hw' => by
    simp [Value.measureMembers, charWeight_marks, weight_white hu, weight_white hw,
      weight_white hw', Layout.weight_eq hv, Value.printed]
  | .more key hu hw hv hr => by
    simp [Value.measureMembers, charWeight_marks, weight_white hu, weight_white hw,
      Layout.weight_eq hv, Value.printed, LayoutMembers.weight_eq hr, Nat.add_assoc]

end

/-! ### What denotes a value -/

lemma cost_char (k : Unescaped) :
    cost (grammarScript.char k) = weight (grammarScript.char k) :=
  ((tight_key _).eq_iff.mpr (noEscape_unescaped k)).symm

lemma charCost_le (c : UInt8) : charCost c ≤ 2 := by
  unfold charCost
  split_ifs <;> decide

lemma charCost_high {c : UInt8} (h : 128 ≤ c.toNat) : charCost c = 0 := by
  refine charCost_eq_zero ?_ ?_ ?_
  · rintro rfl
    exact absurd h (by decide)
  · rintro rfl
    exact absurd h (by decide)
  · rintro (rfl | hlow)
    · exact absurd h (by decide)
    · omega

/-- A character costs no more than a unicode escape weighs. -/
lemma cost_utf8 (n : ℕ) : cost (utf8 n) ≤ 2 := by
  unfold utf8
  by_cases hascii : (Char.ofNat n).toNat ≤ 127
  · rw [utf8EncodeChar_ascii hascii]
    exact charCost_le _
  · rw [cost_eq_zero fun b hb => charCost_high ?_]
    · exact Nat.zero_le _
    · rcases utf8EncodeChar_byte hb with h | h <;> omega

lemma cost_unitBytes (n : ℕ) : cost (unitBytes n) ≤ 2 := by
  unfold unitBytes
  split_ifs <;> exact cost_utf8 _

lemma weight_unicode (h : Hex) :
    2 ≤ weight ((Piece.unicode h : Piece Unescaped).render grammarScript.char) := by
  have hmarks : charWeight backslash = 1 ∧ charWeight letterU = 1 := by decide
  rw [Piece.render, weight_cons, weight_cons, hmarks.1, hmarks.2]
  omega

lemma weight_escape (e : Escape) :
    charCost e.byte ≤ weight ((Piece.escape e : Piece Unescaped).render grammarScript.char) := by
  cases e <;> decide

lemma cost_decode_pieces (ps : List (Piece Unescaped)) :
    cost (decode grammarScript.char ps) ≤
      weight (ps.flatMap (Piece.render grammarScript.char)) := by
  fun_induction decode grammarScript.char ps with
  | case1 => exact Nat.le_refl _
  | case2 c r ih =>
    rw [cost_append, List.flatMap_cons, weight_append, cost_char]
    exact Nat.add_le_add_left ih _
  | case3 e r ih =>
    rw [List.flatMap_cons, weight_append]
    exact Nat.add_le_add (weight_escape e) ih
  | case4 h l r _ ih =>
    rw [cost_append, List.flatMap_cons, List.flatMap_cons, weight_append, weight_append]
    have hcost := cost_utf8 (0x10000 + (h.value - 0xD800) * 0x400 + (l.value - 0xDC00))
    have hh := weight_unicode h
    omega
  | case5 h l r _ ih =>
    rw [cost_append, List.flatMap_cons, weight_append]
    exact Nat.add_le_add ((cost_unitBytes _).trans (weight_unicode h)) ih
  | case6 h r _ ih =>
    rw [cost_append, List.flatMap_cons, weight_append]
    exact Nat.add_le_add ((cost_unitBytes _).trans (weight_unicode h)) ih

lemma cost_decode (ps : List (Piece Unescaped)) :
    cost (decode grammarScript.char ps) ≤ weight (renderString grammarScript ps) := by
  have h := cost_decode_pieces ps
  simpa [renderString, charWeight_marks] using h

namespace Value

/-- A member in place of another of the same key, or among the others, adds its own cost at
most. -/
lemma measureMembers_insert (key string : List UInt8 → ℕ) (k : List UInt8) (v : Value D)
    (Map : List (List UInt8 × Value D)) :
    measureMembers key string (insert k v Map) ≤
      measureMembers key string Map + (key k + v.measure key string) := by
  induction Map with
  | nil =>
    rw [insert, SortedMap.alterList]
    simp only [measureMembers]
    omega
  | cons e Map ih =>
    unfold insert at ih ⊢
    rw [SortedMap.alterList]
    split_ifs with h1 h2
    · simp only [measureMembers]
      omega
    · simp only [measureMembers]
      omega
    · simp only [measureMembers]
      omega

lemma measureMembers_foldl (key string : List UInt8 → ℕ) (ms : List (List UInt8 × Value D)) :
    ∀ Map, measureMembers key string (ms.foldl (fun Map m => insert m.1 m.2 Map) Map) ≤
      measureMembers key string Map + measureMembers key string ms := by
  induction ms with
  | nil => exact fun Map => Nat.le_refl _
  | cons m ms ih =>
    intro Map
    have hinsert := measureMembers_insert key string m.1 m.2 Map
    have hrest := ih (insert m.1 m.2 Map)
    rw [List.foldl_cons, measureMembers]
    omega

lemma cost_objectOf (ms : List (List UInt8 × Value D)) :
    (objectOf ms).cost ≤ measureMembers Json.cost Json.cost ms := by
  have h := measureMembers_foldl Json.cost Json.cost ms []
  rw [measureMembers, Nat.zero_add] at h
  exact h

end Value

lemma cost_numberOf (real : Decimal → D) (n : Decimal) : (numberOf real n).cost = 0 := by
  unfold numberOf
  split_ifs <;> rfl

mutual

/-- A document weighs at least what its value costs. -/
lemma Doc.cost_le (real : Decimal → D) : (d : Doc Unescaped Decimal) →
    (d.denote grammarScript (numberOf real)).cost ≤ weight (d.render grammarScript)
  | .null => weight_words.1.symm.le
  | .boolean b => by
    cases b with
    | true => exact weight_words.2.1.symm.le
    | false => exact Nat.zero_le _
  | .number n => by
    rw [Doc.denote, cost_numberOf]
    exact Nat.zero_le _
  | .string ps => cost_decode ps
  | .emptyArray _ => Nat.zero_le _
  | .array es => by
    rw [Doc.render, weight_cons]
    exact (Elems.cost_le real es).trans (Nat.le_add_left _ _)
  | .emptyObject _ => Nat.zero_le _
  | .object ms => by
    rw [Doc.render, weight_cons]
    exact ((Value.cost_objectOf _).trans (Membs.cost_le real ms)).trans (Nat.le_add_left _ _)

lemma Elems.cost_le (real : Decimal → D) : (es : Elems Unescaped Decimal) →
    Value.measureElements cost cost (es.denote grammarScript (numberOf real)) ≤
      weight (es.render grammarScript)
  | .last g d g' => by
    have hd := Doc.cost_le real d
    simp only [Elems.denote, Elems.render, Value.measureElements, weight_append]
    unfold Value.cost at hd
    omega
  | .more g d g' es => by
    have hd := Doc.cost_le real d
    have hes := Elems.cost_le real es
    simp only [Elems.denote, Elems.render, Value.measureElements, weight_append, weight_cons]
    unfold Value.cost at hd
    omega

lemma Membs.cost_le (real : Decimal → D) : (ms : Membs Unescaped Decimal) →
    Value.measureMembers cost cost (ms.denote grammarScript (numberOf real)) ≤
      weight (ms.render grammarScript)
  | .last g key g' h d h' => by
    have hkey := cost_decode key
    have hd := Doc.cost_le real d
    simp only [Membs.denote, Membs.render, Value.measureMembers, weight_append, weight_cons]
    unfold Value.cost at hd
    omega
  | .more g key g' h d h' ms => by
    have hkey := cost_decode key
    have hd := Doc.cost_le real d
    have hms := Membs.cost_le real ms
    simp only [Membs.denote, Membs.render, Value.measureMembers, weight_append, weight_cons]
    unfold Value.cost at hd
    omega

end

/-! ### The output functions -/

/-- A text with the tokens of a value denotes it only if the value is printable. -/
lemma Layout.printable {v : Value N.Double} {s : List UInt8} (h : Layout N v s)
    (hn : v.NoFloat) {real : Decimal → N.Double} (hd : Denotes real s v) : v.Printable := by
  obtain ⟨x, -, rfl, hv⟩ := hd
  have htight := Value.tight_printed hn
  have hweight := h.weight_eq
  have hcost := Doc.cost_le real x.root
  rw [hv] at hcost
  rw [Text.render, weight_append, weight_append] at hweight
  have hle := htight.le
  exact htight.eq_iff.mp (by omega)

lemma Layout.denotes_iff {v : Value N.Double} {s : List UInt8} (h : Layout N v s)
    (hb : v.Built) (hn : v.NoFloat) (real : Decimal → N.Double) :
    Denotes real s v ↔ v.Printable :=
  ⟨h.printable hn, fun hp => (h.spells hb.proper hp).denotes⟩

lemma white_tab : White [tabulator] := by simp [White]

/-- **The texts of a value**: for a value that a program has built, without doubles in it, what
each of the output functions writes is a text of the grammar that denotes the value exactly when
no key has a character that needs an escape and no string a control character without one. -/
theorem dump_denotes_iff {v : Value N.Double} (hb : v.Built) (hn : v.NoFloat)
    (real : Decimal → N.Double) :
    (Denotes real (v.dumpFast N) v ↔ v.Printable) ∧
      (Denotes real (v.dumpStyle N 0 [tabulator]) v ↔ v.Printable) :=
  ⟨(dumpFast_layout hn).denotes_iff hb hn real,
    (dumpStyle_layout hn white_tab 0).denotes_iff hb hn real⟩

/-- A reading of the numbers that are no integers. -/
def realOf (n : Decimal) : lp64.Double := lp64.ofLong n.int

/-- `v["a"] = "\n"`. -/
def lineMember : Value lp64.Double := Value.setKey .null [97] (.string [10])

lemma lineMember_built : lineMember.Built :=
  .setKey ⟨['a'], rfl⟩ (.string ⟨['\n'], rfl⟩) .null

lemma lineMember_noFloat : lineMember.NoFloat :=
  .object (by simpa [Value.insert, SortedMap.alterList, Value.members] using .string _)

theorem lineMember_denotes :
    Denotes realOf (lineMember.dumpFast lp64) lineMember ∧
      Denotes realOf (lineMember.dumpStyle lp64 0 [tabulator]) lineMember := by
  have hp : lineMember.Printable := by
    refine .object (fun e he => ?_) fun e he => ?_
    · obtain rfl := List.mem_singleton.mp he
      exact List.forall_mem_singleton.mpr ⟨by decide, by decide, by decide⟩
    · obtain rfl := List.mem_singleton.mp he
      exact .string (List.forall_mem_singleton.mpr (by unfold Escapable; decide))
  obtain ⟨hfast, hstyle⟩ := dump_denotes_iff lineMember_built lineMember_noFloat realOf
  exact ⟨hfast.mpr hp, hstyle.mpr hp⟩

/-- `v["\""]` of a value that is null: it becomes an object with a member that is null. -/
def quoteMember : Value lp64.Double := Value.setKey .null [quote] .null

lemma quoteMember_noFloat : quoteMember.NoFloat :=
  .object (by simpa [Value.insert, SortedMap.alterList, Value.members] using .null)

/-- A quote in a key, and a control character in a string. -/
theorem dump_not_denotes :
    quoteMember.Built ∧ ¬ Denotes realOf (quoteMember.dumpFast lp64) quoteMember ∧
      ¬ Denotes realOf (quoteMember.dumpStyle lp64 0 [tabulator]) quoteMember ∧
      ¬ Denotes realOf ((Value.string [1]).dumpFast lp64) (.string [1]) := by
  have hquote : ¬ quoteMember.Printable := by
    intro h
    cases h with
    | object hk _ => exact (hk _ List.mem_cons_self _ List.mem_cons_self).2.1 rfl
  have hstring : ¬ (Value.string [1] : Value lp64.Double).Printable := by
    intro h
    cases h with
    | string h => exact absurd (h 1 List.mem_cons_self) (by unfold Escapable; decide)
  have hbuilt : quoteMember.Built := .setKey ⟨['"'], rfl⟩ .null .null
  refine ⟨hbuilt, fun h => hquote ?_, fun h => hquote ?_, fun h => hstring ?_⟩
  · exact (dumpFast_layout quoteMember_noFloat).printable quoteMember_noFloat h
  · exact (dumpStyle_layout quoteMember_noFloat white_tab 0).printable quoteMember_noFloat h
  · exact (dumpFast_layout (.string _)).printable (.string _) h

end MmrService.Json
