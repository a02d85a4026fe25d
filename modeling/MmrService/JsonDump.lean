import MmrService.JsonDocument
import MmrService.JsonLayout

/-!
What `dumpFast` and `dumpStyle` write is read back.

A value that `load` returns keeps its objects in the order of their keys, and every key is an
escaped text. Both functions write such a value as a document: the strings escape by escape, the
keys as they are, for they are escaped already; and the document is stored as the value.
-/

namespace MmrService.Json

open Scan Relation

variable {N : Numbers} {s t : List UInt8} {v : Value N.Double}

/-! ### What the parser returns -/

/-- The values the parser returns. -/
inductive Value.Parsed (N : Numbers) : Value N.Double → Prop
  | null : Parsed N .null
  | boolean (b : Bool) : Parsed N (.boolean b)
  | string (w : List UInt8) : Parsed N (.string w)
  | floating (d : N.Double) : Parsed N (.floating d)
  | integral {i : ℤ} (h : N.IsLong i) : Parsed N (.integral i)
  | array {vs : List (Value N.Double)} (h : ∀ v ∈ vs, Parsed N v) (hl : vs.length < 2 ^ 32) :
      Parsed N (.array vs)
  | object {Map : List (List UInt8 × Value N.Double)}
      (hs : Map.Pairwise fun a b => a.1 < b.1)
      (hk : ∀ e ∈ Map, ∃ k, e.1 = json_escape k) (h : ∀ e ∈ Map, Parsed N e.2) :
      Parsed N (.object Map)

lemma stol_isLong {w : List UInt8} {i : ℤ} (h : stol N w = .ok i) : N.IsLong i := by
  unfold stol at h
  split at h
  · cases h
  · split_ifs at h with hi
    cases h
    exact hi

lemma numberValue_parsed {val exp_str : List UInt8} {isDouble : Bool} {exp : ℤ}
    (h : numberValue N val isDouble exp_str exp = .ok v) : v.Parsed N := by
  unfold numberValue at h
  split_ifs at h
  · rcases hd : N.stod val with e | d
    · rw [hd] at h; cases h
    · rw [hd] at h; cases h; exact .floating _
  · rcases hi : stol N val with e | i
    · rw [hi] at h; cases h
    · rw [hi] at h; cases h; exact .floating _
  · rcases hi : stol N val with e | i
    · rw [hi] at h; cases h
    · rw [hi] at h; cases h; exact .integral (stol_isLong hi)

lemma Number.parsed (h : Number N s v t) : v.Parsed N := by
  cases h with
  | plain _ _ hv => exact numberValue_parsed hv
  | exponent _ _ _ _ _ _ hv => exact numberValue_parsed hv

lemma Token.parsed (h : Token N s v t) : v.Parsed N := by
  cases h with
  | string => exact .string _
  | number _ h => exact h.parsed
  | true_ => exact .boolean _
  | false_ => exact .boolean _
  | null => exact .null

lemma toString_escaped (v : Value N.Double) : ∃ k, v.ToString = json_escape k := by
  cases v with
  | string w => exact ⟨w, rfl⟩
  | _ => exact ⟨[], rfl⟩

/-- A member is stored under an escaped key, in its place. -/
lemma parsed_insert {Map : List (List UInt8 × Value N.Double)} {k : Value N.Double}
    (hv : v.Parsed N) (h : (Value.object Map).Parsed N) :
    (Value.object (Value.insert k.ToString v Map)).Parsed N := by
  cases h with
  | object hs hk hvs =>
    refine .object (SortedMap.alterList_sorted _ _ hs) (fun e he => ?_) fun e he => ?_
    · rcases SortedMap.mem_alterList_const he with rfl | he
      · exact toString_escaped k
      · exact hk e he
    · rcases SortedMap.mem_alterList_const he with rfl | he
      · exact hv
      · exact hvs e he

lemma parsed_build {ms : List (Value N.Double × Value N.Double)} (h : ∀ m ∈ ms, m.2.Parsed N)
    {Map : List (List UInt8 × Value N.Double)} (hMap : (Value.object Map).Parsed N) :
    (Value.object (build Map ms)).Parsed N := by
  induction ms generalizing Map with
  | nil => exact hMap
  | cons m ms ih =>
    exact ih (fun m hm => h m (List.mem_cons_of_mem _ hm))
      (parsed_insert (h m List.mem_cons_self) hMap)

lemma parsed_nil : (Value.object [] : Value N.Double).Parsed N :=
  .object .nil (by simp) (by simp)

mutual

lemma Reads.parsed {s t : List UInt8} {v : Value N.Double} : Reads N s v t → v.Parsed N
  | .token _ h => h.parsed
  | .arrayNil _ _ => .array (by simp) (Nat.two_pow_pos 32)
  | .array _ h hl => .array (Elements.parsed h) hl
  | .objectNil _ _ => parsed_nil
  | .object _ h => parsed_build (Members.parsed h) parsed_nil

lemma Elements.parsed {s t : List UInt8} {vs : List (Value N.Double)} :
    Elements N s vs t → ∀ v ∈ vs, v.Parsed N
  | .last h _ => List.forall_mem_singleton.mpr (Reads.parsed h)
  | .more h _ hr => List.forall_mem_cons.mpr ⟨Reads.parsed h, Elements.parsed hr⟩

lemma Members.parsed {s t : List UInt8} {ms : List (Value N.Double × Value N.Double)} :
    Members N s ms t → ∀ m ∈ ms, m.2.Parsed N
  | .last _ _ hv _ => List.forall_mem_singleton.mpr (Reads.parsed hv)
  | .more _ _ hv _ hr => List.forall_mem_cons.mpr ⟨Reads.parsed hv, Members.parsed hr⟩

end

/-! ### Values and documents -/

/-- A byte that may stand in a string as it is. -/
structure RawByte where
  byte : UInt8
  plain : byte ≠ quote ∧ byte ≠ backslash

def rawBytes : Alphabet RawByte where
  char c := [c.byte]
  plain k c hc := by
    rw [List.mem_singleton.mp hc]
    exact k.plain

/-- A character of a string is written as one piece. -/
lemma exists_piece (c : UInt8) : ∃ p : Piece RawByte,
    p.render rawBytes.char = escapeChar c ∧ p.stored rawBytes = [c] := by
  rcases escapeChar_cases c with ⟨hraw, hc⟩ | ⟨e, he, hbyte⟩
  · exact ⟨.char ⟨c, hc⟩, hraw.symm, rfl⟩
  · exact ⟨.escape e, he.symm, congrArg ([·]) hbyte⟩

lemma exists_pieces (w : List UInt8) : ∃ ps : List (Piece RawByte),
    renderString (rawBytes.script N) ps = quote :: json_escape w ++ [quote] ∧
      storedString rawBytes ps = w := by
  suffices h : ∃ ps : List (Piece RawByte),
      ps.flatMap (Piece.render rawBytes.char) = json_escape w ∧ storedString rawBytes ps = w by
    obtain ⟨ps, hr, hs⟩ := h
    exact ⟨ps, by rw [renderString, Alphabet.script_char, hr], hs⟩
  induction w with
  | nil => exact ⟨[], rfl, rfl⟩
  | cons c w ih =>
    obtain ⟨ps, hr, hs⟩ := ih
    obtain ⟨p, hp, hps⟩ := exists_piece c
    refine ⟨p :: ps, ?_, ?_⟩
    · rw [List.flatMap_cons, hp, hr]
      rfl
    · rw [storedString, List.flatMap_cons, hps]
      exact congrArg (c :: ·) hs

/-- `s` is white space and a document that is read as `v`. -/
def Prints (N : Numbers) (v : Value N.Double) (s : List UInt8) : Prop :=
  ∃ (g : Gap) (d : Doc RawByte (Integer N)), g.render ++ d.render (rawBytes.script N) = s ∧
    d.stored rawBytes = v ∧ g.Plain ∧ d.Plain ∧ d.Short ∧ ∀ r, Stops r → d.Closed r

/-- `s` is the elements of an array, up to and with its bracket. -/
def PrintsElements (N : Numbers) (vs : List (Value N.Double)) (s : List UInt8) : Prop :=
  ∃ es : Elems RawByte (Integer N), es.render (rawBytes.script N) = s ∧
    es.stored rawBytes = vs ∧ es.Plain ∧ es.Short ∧ es.Closed

/-- `s` is the members of an object, up to and with its brace. -/
def PrintsMembers (N : Numbers) (Map : List (List UInt8 × Value N.Double)) (s : List UInt8) :
    Prop :=
  ∃ ms : Membs RawByte (Integer N), ms.render (rawBytes.script N) = s ∧
    ms.stored rawBytes = Map ∧ ms.Plain ∧ ms.Short ∧ ms.Closed

section

variable {w w' : List UInt8} {vs : List (Value N.Double)}
  {Map : List (List UInt8 × Value N.Double)}

lemma prints_doc (d : Doc RawByte (Integer N)) (hp : d.Plain) (hs : d.Short)
    (hc : ∀ r, Stops r → d.Closed r) :
    Prints N (d.stored rawBytes) (d.render (rawBytes.script N)) :=
  ⟨[], d, rfl, rfl, Gap.plain_nil, hp, hs, hc⟩

lemma Prints.behind (h : Prints N v s) (hw : White w) : Prints N v (w ++ s) := by
  obtain ⟨g, d, rfl, hv, hg, hd, hs, hc⟩ := h
  obtain ⟨g', hg', rfl⟩ := exists_gap hw
  refine ⟨g' ++ g, d, ?_, hv, fun sp hsp => ?_, hd, hs, hc⟩
  · rw [Gap.render, List.flatMap_append, List.append_assoc]
    rfl
  · exact (List.mem_append.mp hsp).elim (hg'.plain sp) (hg sp)

lemma stops_white (hw : White w) {c : UInt8} (hc : isStop c = true) : Stops (w ++ [c]) := by
  cases w with
  | nil => exact ⟨c, rfl, hc⟩
  | cons d w =>
    refine ⟨d, rfl, ?_⟩
    rcases hw d List.mem_cons_self with rfl | rfl | rfl <;> decide

lemma PrintsElements.last (hv : Prints N v s) (hw : White w) :
    PrintsElements N [v] (s ++ (w ++ [rbracket])) := by
  obtain ⟨g, d, rfl, rfl, hg, hd, hs, hc⟩ := hv
  obtain ⟨g', hg', rfl⟩ := exists_gap hw
  refine ⟨.last g d g', (List.append_assoc _ _ _).symm, rfl, ⟨hg, hd, hg'.plain⟩, hs,
    hc _ (stops_white hw (by decide))⟩

lemma PrintsElements.more (hv : Prints N v s) (hr : PrintsElements N vs t) :
    PrintsElements N (v :: vs) (s ++ comma :: t) := by
  obtain ⟨g, d, rfl, rfl, hg, hd, hs, hc⟩ := hv
  obtain ⟨es, rfl, rfl, hes, hses, hces⟩ := hr
  exact ⟨.more g d [] es, (List.append_assoc _ _ _).symm, rfl, ⟨hg, hd, Gap.plain_nil, hes⟩,
    ⟨hs, hses⟩, hc _ ⟨comma, rfl, by decide⟩, hces⟩

/-- A key is written as it is stored. -/
lemma exists_key {key : List UInt8} (hk : ∃ k, key = json_escape k) :
    ∃ ps : List (Piece RawByte), renderString (rawBytes.script N) ps = quote :: key ++ [quote] ∧
      json_escape (storedString rawBytes ps) = key := by
  obtain ⟨k, rfl⟩ := hk
  obtain ⟨ps, hr, hs⟩ := exists_pieces (N := N) k
  exact ⟨ps, hr, by rw [hs]⟩

lemma PrintsMembers.last {key u : List UInt8} (hu : White u) (hk : ∃ k, key = json_escape k)
    (hw : White w) (hv : Prints N v s) (hw' : White w') :
    PrintsMembers N [(key, v)]
      (u ++ (quote :: key ++ [quote] ++ (w ++ colon :: (s ++ (w' ++ [rbrace]))))) := by
  obtain ⟨g0, hg0, rfl⟩ := exists_gap hu
  obtain ⟨ps, hps, hkey⟩ := exists_key (N := N) hk
  obtain ⟨g1, hg1, rfl⟩ := exists_gap hw
  obtain ⟨g2, d, rfl, rfl, hg2, hd, hs, hc⟩ := hv
  obtain ⟨g3, hg3, rfl⟩ := exists_gap hw'
  refine ⟨.last g0 ps g1 g2 d g3, ?_, ?_, ⟨hg0.plain, hg1.plain, hg2, hd, hg3.plain⟩,
    hs, hc _ (stops_white hw' (by decide))⟩
  · rw [Membs.render, hps]
    simp only [List.append_assoc]
  · rw [Membs.stored, hkey]

lemma PrintsMembers.more {key u : List UInt8} (hu : White u) (hk : ∃ k, key = json_escape k)
    (hw : White w) (hv : Prints N v s) (hr : PrintsMembers N Map t) :
    PrintsMembers N ((key, v) :: Map)
      (u ++ (quote :: key ++ [quote] ++ (w ++ colon :: (s ++ comma :: t)))) := by
  obtain ⟨g0, hg0, rfl⟩ := exists_gap hu
  obtain ⟨ps, hps, hkey⟩ := exists_key (N := N) hk
  obtain ⟨g1, hg1, rfl⟩ := exists_gap hw
  obtain ⟨g2, d, rfl, rfl, hg2, hd, hs, hc⟩ := hv
  obtain ⟨ms, rfl, rfl, hms, hsms, hcms⟩ := hr
  refine ⟨.more g0 ps g1 g2 d [] ms, ?_, ?_, ⟨hg0.plain, hg1.plain, hg2, hd, Gap.plain_nil, hms⟩,
    ⟨hs, hsms⟩, hc _ ⟨comma, rfl, by decide⟩, hcms⟩
  · rw [Membs.render, hps]
    simp only [List.append_assoc]
    rfl
  · rw [Membs.stored, hkey]

lemma PrintsElements.array (h : PrintsElements N vs s) (hl : vs.length < 2 ^ 32) :
    Prints N (.array vs) (lbracket :: s) := by
  obtain ⟨es, rfl, rfl, hes, hses, hces⟩ := h
  rw [Elems.length_stored] at hl
  exact prints_doc (.array es) hes ⟨hl, hses⟩ fun _ _ => hces

lemma prints_array_nil (hw : White w) :
    Prints N (.array []) (lbracket :: (w ++ [rbracket])) := by
  obtain ⟨g, hg, rfl⟩ := exists_gap hw
  exact prints_doc (.emptyArray g) hg.plain trivial fun _ _ => trivial

/-- The members come in the order of their keys, so the map is built as it is. -/
lemma PrintsMembers.object (h : PrintsMembers N Map s)
    (hs : Map.Pairwise fun a b => a.1 < b.1) : Prints N (.object Map) (lbrace :: s) := by
  obtain ⟨ms, rfl, hms, hp, hsms, hc⟩ := h
  have hdoc := prints_doc (.object ms) hp hsms fun _ _ => hc
  have hstored : (Doc.object ms).stored rawBytes = .object Map := by
    rw [Doc.stored, hms, objectOf_eq, SortedMap.ofList_entries ⟨Map, hs⟩]
  rw [hstored] at hdoc
  exact hdoc

lemma prints_object_nil (hw : White w) :
    Prints N (.object []) (lbrace :: (w ++ [rbrace])) := by
  obtain ⟨g, hg, rfl⟩ := exists_gap hw
  exact prints_doc (.emptyObject g) hg.plain trivial fun _ _ => trivial

end

/-! ### The output functions -/

lemma prints_boolean (b : Bool) : Prints N (.boolean b) (if b then trueText else falseText) :=
  prints_doc (.boolean b) trivial trivial fun _ _ => trivial

lemma prints_string (w : List UInt8) :
    Prints N (.string w) (quote :: json_escape w ++ [quote]) := by
  obtain ⟨ps, hr, hs⟩ := exists_pieces (N := N) w
  have h := prints_doc (.string ps : Doc RawByte (Integer N)) trivial trivial fun _ _ => trivial
  rw [Doc.render, Doc.stored, hr, hs] at h
  exact h

lemma prints_integral {i : ℤ} (h : N.IsLong i) : Prints N (.integral i) (to_string i) := by
  let n : Integer N := ⟨decide (i < 0), i.natAbs, (signed_natAbs i).symm ▸ h⟩
  have hren : n.render = to_string i := by
    by_cases hneg : i < 0
    · simp [n, Integer.render, to_string, hneg]
    · simp [n, Integer.render, to_string, hneg]
  have hdoc := prints_doc (.number n) trivial trivial fun _ hr => hr
  rw [Doc.render, Doc.stored, show n.value = i from signed_natAbs i] at hdoc
  exact hren ▸ hdoc

mutual

/-- The tokens of a value that the parser may have returned, read back. -/
lemma Layout.prints {v : Value N.Double} {s : List UInt8} :
    Layout N v s → v.Parsed N → Prints N v s
  | .null, _ => prints_doc .null trivial trivial fun _ _ => trivial
  | .boolean b, _ => prints_boolean b
  | .string w, _ => prints_string w
  | .integral _, .integral h => prints_integral h
  | .arrayNil hw, _ => prints_array_nil hw
  | .array h, .array hp hl => (LayoutElements.prints h hp).array hl
  | .objectNil hw, _ => prints_object_nil hw
  | .object h, .object hs hk hp => (LayoutMembers.prints h hk hp).object hs
  | .behind hw h, hp => (Layout.prints h hp).behind hw

lemma LayoutElements.prints {vs : List (Value N.Double)} {s : List UInt8} :
    LayoutElements N vs s → (∀ v ∈ vs, v.Parsed N) → PrintsElements N vs s
  | .last hv hw, hp => .last (Layout.prints hv (hp _ List.mem_cons_self)) hw
  | .more hv hr, hp =>
    .more (Layout.prints hv (hp _ List.mem_cons_self))
      (LayoutElements.prints hr fun v h => hp v (List.mem_cons_of_mem _ h))

lemma LayoutMembers.prints {Map : List (List UInt8 × Value N.Double)} {s : List UInt8} :
    LayoutMembers N Map s → (∀ e ∈ Map, ∃ k, e.1 = json_escape k) →
      (∀ e ∈ Map, e.2.Parsed N) → PrintsMembers N Map s
  | .last _ hu hw hv hw', hk, hp =>
    .last hu (hk _ List.mem_cons_self) hw (Layout.prints hv (hp _ List.mem_cons_self)) hw'
  | .more _ hu hw hv hr, hk, hp =>
    .more hu (hk _ List.mem_cons_self) hw (Layout.prints hv (hp _ List.mem_cons_self))
      (LayoutMembers.prints hr (fun e h => hk e (List.mem_cons_of_mem _ h))
        fun e h => hp e (List.mem_cons_of_mem _ h))

end

/-! ### The round trip -/

/-- An array or an object. -/
def Value.IsContainer {D : Type} (v : Value D) : Prop :=
  (∃ vs, v = .array vs) ∨ ∃ Map, v = .object Map

/-- What an array or an object is printed as is loaded as that array or object. -/
lemma Prints.load (h : Prints N v s) (hroot : v.IsContainer) (jsonRoot : Value N.Double) :
    ∃ o, load N s jsonRoot = .ok ([], v) o := by
  obtain ⟨g, d, rfl, rfl, hg, hd, hs, hc⟩ := h
  let x : Text RawByte (Integer N) := ⟨g, d, [], none, fun _ _ h => by cases h⟩
  have hrender : x.render (rawBytes.script N) = g.render ++ d.render (rawBytes.script N) := by
    rw [Text.render, Text.rest]
    exact congrArg (g.render ++ ·) (List.append_nil _)
  -- a number is no container, and for other documents it does not matter what follows
  have hclosed : x.Closed := by
    have hcomma := hc [comma] ⟨comma, rfl, by decide⟩
    change d.Closed _
    cases d with
    | number n => rcases hroot with ⟨_, h⟩ | ⟨_, h⟩ <;> cases h
    | _ => exact hcomma
  rw [← hrender]
  exact (Text.load_iff rawBytes (x := x) ⟨hg, hd⟩).mpr ⟨⟨hclosed, hs⟩, rfl⟩

/-- An array or object that `load` has returned, without doubles in it, is loaded again from what
either function writes. -/
theorem load_dump {str : List UInt8} {jsonRoot : Value N.Double} {o : ℕ}
    (hload : load N str jsonRoot = .ok ([], v) o) (hroot : v.IsContainer) (hn : v.NoFloat)
    (jsonRoot' : Value N.Double) :
    (∃ o, load N (v.dumpFast N) jsonRoot' = .ok ([], v) o) ∧
      ∃ o, load N (v.dumpStyle N 0 [tabulator]) jsonRoot' = .ok ([], v) o := by
  obtain ⟨t, hr⟩ := (load_accepts jsonRoot).mp ⟨o, hload⟩
  have htab : White [tabulator] := by simp [White]
  exact ⟨((dumpFast_layout hn).prints hr.parsed).load hroot jsonRoot',
    ((dumpStyle_layout hn htab 0).prints hr.parsed).load hroot jsonRoot'⟩

/-- An object whose key and string have escapes, with a comment and a number. -/
theorem load_dump_member :
    let v : Value lp64.Double :=
      .object [([97, backslash, quote], .array [.string [10, 47], .integral (-5)])]
    (∃ o, load lp64 (v.dumpFast lp64) .null = .ok ([], v) o) ∧
      ∃ o, load lp64 (v.dumpStyle lp64 0 [tabulator]) .null = .ok ([], v) o := by
  obtain ⟨o, hload⟩ : ∃ o, load lp64
      (text "\x7b\"a\\\"\": /* two */ [\"\\n\\/\", -5]\x7d") .null =
        .ok ([], .object [([97, backslash, quote],
          .array [.string [10, 47], .integral (-5)])]) o := ⟨_, rfl⟩
  refine load_dump hload (.inr ⟨_, rfl⟩) (.object ?_) .null
  simpa using Value.NoFloat.array (by simp [Value.NoFloat.string, Value.NoFloat.integral])

end MmrService.Json
