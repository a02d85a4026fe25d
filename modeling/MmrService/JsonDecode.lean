import MmrService.JsonDocument
import Mathlib.Algebra.Order.BigOperators.Group.List

/-!
`load` and what a text denotes.

A string is stored as it is denoted unless it has a unicode escape, which is kept as it is
written; and a key unless it has any escape but that of the slash, for it is escaped again. So
a text is loaded as it should be exactly when its numbers are ended, its arrays are short enough,
its keys have no such escapes, and neither have the strings that no later member replaces.
-/

namespace MmrService.Json

open Scan Relation

variable {N : Numbers} {κ : Type}

/-! ### The alphabet of the grammar -/

/-- A byte of a character is the character itself, or stands for more than a byte can. -/
lemma utf8EncodeChar_byte {c : Char} {b : UInt8} (h : b ∈ String.utf8EncodeChar c) :
    b.toNat = c.toNat ∨ 128 ≤ b.toNat := by
  have hv : c.toNat = c.val.toNat := rfl
  simp only [String.utf8EncodeChar] at h
  split_ifs at h
  all_goals simp only [List.mem_cons, List.not_mem_nil, or_false] at h
  · rw [h, UInt8.toNat_ofNat']
    omega
  · rcases h with rfl | rfl <;> rw [UInt8.toNat_ofNat'] <;> omega
  · rcases h with rfl | rfl | rfl <;> rw [UInt8.toNat_ofNat'] <;> omega
  · rcases h with rfl | rfl | rfl | rfl <;> rw [UInt8.toNat_ofNat'] <;> omega

lemma length_utf8EncodeChar_le (c : Char) : (String.utf8EncodeChar c).length ≤ 4 := by
  simp only [String.utf8EncodeChar]
  split_ifs <;> simp

lemma raw_of_le {c : UInt8} (h : 32 ≤ c.toNat) (hq : c ≠ quote) (hb : c ≠ backslash) : Raw c := by
  have hne : ∀ d : UInt8, d.toNat < 32 → c ≠ d := by
    rintro d hd rfl
    omega
  rw [Raw, escapeChar, if_neg hq, if_neg hb, if_neg (hne 8 (by decide)),
    if_neg (hne 12 (by decide)), if_neg (hne 10 (by decide)), if_neg (hne 13 (by decide)),
    if_neg (hne 9 (by decide))]

lemma Unescaped.byte {k : Unescaped} {b : UInt8} (h : b ∈ String.utf8EncodeChar k.char) :
    32 ≤ b.toNat ∧ b ≠ quote ∧ b ≠ backslash := by
  obtain ⟨hlow, hq, hb⟩ := k.plain
  have hchar : ∀ c : Char, k.char ≠ c → k.char.toNat ≠ c.toNat := fun c hne heq =>
    hne (Char.toNat_inj.mp heq)
  have hq := hchar _ hq
  have hb := hchar _ hb
  rcases utf8EncodeChar_byte h with heq | hge
  · refine ⟨by omega, ?_, ?_⟩
    · rintro rfl
      exact hq (heq.symm.trans rfl)
    · rintro rfl
      exact hb (heq.symm.trans rfl)
  · refine ⟨by omega, ?_, ?_⟩ <;> rintro rfl <;> exact absurd hge (by decide)

/-- The characters of the grammar. -/
def unescaped : Alphabet Unescaped where
  char := grammarScript.char
  plain _ _ h := (Unescaped.byte h).2

lemma raw_unescaped (k : Unescaped) : ∀ c ∈ unescaped.char k, Raw c := fun _ h =>
  raw_of_le (Unescaped.byte h).1 (Unescaped.byte h).2.1 (Unescaped.byte h).2.2

/-! ### Escaping again -/

lemma json_escape_cons (c : UInt8) (w : List UInt8) :
    json_escape (c :: w) = escapeChar c ++ json_escape w := List.flatMap_cons

lemma json_escape_raw {w : List UInt8} (h : ∀ c ∈ w, Raw c) : json_escape w = w := by
  induction w with
  | nil => rfl
  | cons c w ih =>
    rw [json_escape_cons, h c List.mem_cons_self, ih fun d hd => h d (List.mem_cons_of_mem _ hd),
      List.singleton_append]

lemma length_json_escape (w : List UInt8) : w.length ≤ (json_escape w).length := by
  induction w with
  | nil => exact Nat.le_refl _
  | cons c w ih =>
    rw [json_escape_cons, List.length_append, List.length_cons]
    rcases escapeChar_cases c with ⟨hc, -⟩ | ⟨e, hc, -⟩
    · rw [hc, List.length_singleton]
      omega
    · simp only [hc, List.length_cons, List.length_nil]
      omega

/-- An escape makes the text longer, and leaves a backslash in it. -/
lemma json_escape_not_raw {w : List UInt8} {c : UInt8} (hmem : c ∈ w) (hc : ¬ Raw c) :
    w.length < (json_escape w).length ∧ backslash ∈ json_escape w := by
  obtain ⟨e, hd, -⟩ := (escapeChar_cases c).resolve_left fun h => hc h.1
  obtain ⟨u, u', rfl⟩ := List.append_of_mem hmem
  have hsplit : json_escape (u ++ c :: u') =
      json_escape u ++ ([backslash, e.letter] ++ json_escape u') := by
    simp only [json_escape, List.flatMap_append, List.flatMap_cons, hd]
  have hu := length_json_escape u
  have hu' := length_json_escape u'
  rw [hsplit]
  refine ⟨by simp only [List.length_append, List.length_cons, List.length_nil]; omega, ?_⟩
  exact List.mem_append_right _ (List.mem_append_left _ List.mem_cons_self)

/-! ### Strings -/

/-- A string without unicode escapes. -/
def CleanString (ps : List (Piece κ)) : Prop := ∀ h, Piece.unicode h ∉ ps

/-- A key without escapes, but for that of the slash. -/
def CleanKey (ps : List (Piece κ)) : Prop := ∀ p ∈ ps, (∃ c, p = .char c) ∨ p = .escape .slash

lemma CleanKey.cleanString {ps : List (Piece κ)} (h : CleanKey ps) : CleanString ps := by
  intro hex hmem
  rcases h _ hmem with ⟨c, hc⟩ | hc <;> cases hc

variable (A : Alphabet κ)

lemma storedString_cons (p : Piece κ) (ps : List (Piece κ)) :
    storedString A (p :: ps) = p.stored A ++ storedString A ps := List.flatMap_cons

lemma decode_clean {ps : List (Piece κ)} (h : CleanString ps) :
    decode A.char ps = storedString A ps := by
  induction ps with
  | nil => rfl
  | cons p ps ih =>
    have ih := ih fun hex hmem => h hex (List.mem_cons_of_mem _ hmem)
    rw [storedString_cons, ← ih]
    cases p with
    | char c => rw [decode]; rfl
    | escape e => rw [decode]; rfl
    | unicode hex => exact absurd List.mem_cons_self (h hex)

lemma length_unitBytes_le (n : ℕ) : (unitBytes n).length ≤ 4 := by
  unfold unitBytes
  split_ifs <;> exact length_utf8EncodeChar_le _

lemma length_stored_unicode (h : Hex) : ((Piece.unicode h).stored A).length = 6 := by
  simp only [Piece.stored, List.length_cons, h.length]

/-- What is denoted is not longer than what is stored, and shorter if there are unicode
escapes. -/
lemma length_decode (ps : List (Piece κ)) :
    (decode A.char ps).length ≤ (storedString A ps).length ∧
      (¬ CleanString ps → (decode A.char ps).length < (storedString A ps).length) := by
  fun_induction decode A.char ps with
  | case1 => exact ⟨Nat.le_refl _, fun h => absurd (fun hex => List.not_mem_nil) h⟩
  | case2 c r ih =>
    rw [storedString_cons, List.length_append, List.length_append, Piece.stored]
    refine ⟨Nat.add_le_add_left ih.1 _, fun h => Nat.add_lt_add_left (ih.2 fun hr => h ?_) _⟩
    intro hex hmem
    rcases List.mem_cons.mp hmem with hp | hmem
    · cases hp
    · exact hr hex hmem
  | case3 e r ih =>
    rw [storedString_cons, List.length_append, Piece.stored, List.length_cons,
      List.length_singleton]
    refine ⟨by omega, fun h => ?_⟩
    have := ih.2 fun hr => h fun hex hmem => by
      rcases List.mem_cons.mp hmem with hp | hmem
      · cases hp
      · exact hr hex hmem
    omega
  | case4 h l r _ ih =>
    have hlen : ∀ n, (utf8 n).length ≤ 4 := fun n => length_utf8EncodeChar_le _
    have := hlen (0x10000 + (h.value - 0xD800) * 0x400 + (l.value - 0xDC00))
    simp only [storedString_cons, List.length_append, length_stored_unicode]
    omega
  | case5 h l r _ ih =>
    have := length_unitBytes_le h.value
    rw [storedString_cons, List.length_append, List.length_append, length_stored_unicode]
    omega
  | case6 h r _ ih =>
    have := length_unitBytes_le h.value
    rw [storedString_cons, List.length_append, List.length_append, length_stored_unicode]
    omega

lemma string_eq_iff {ps : List (Piece κ)} :
    storedString A ps = decode A.char ps ↔ CleanString ps := by
  constructor
  · intro h
    by_contra hc
    have := (length_decode A ps).2 hc
    rw [h] at this
    exact lt_irrefl _ this
  · exact fun h => (decode_clean A h).symm

/-! ### Keys -/

section

variable {A} (hraw : ∀ k, ∀ c ∈ A.char k, Raw c)

include hraw

lemma CleanKey.raw {ps : List (Piece κ)} (h : CleanKey ps) : ∀ c ∈ storedString A ps, Raw c := by
  intro c hc
  obtain ⟨p, hp, hc⟩ := List.mem_flatMap.mp hc
  rcases h p hp with ⟨k, rfl⟩ | rfl
  · exact hraw k c hc
  · obtain rfl : c = 47 := List.mem_singleton.mp hc
    exact rfl

lemma CleanKey.eq {ps : List (Piece κ)} (h : CleanKey ps) :
    json_escape (storedString A ps) = decode A.char ps := by
  rw [json_escape_raw (h.raw hraw), decode_clean A h.cleanString]

lemma CleanKey.not_mem {ps : List (Piece κ)} (h : CleanKey ps) :
    backslash ∉ decode A.char ps := by
  rw [decode_clean A h.cleanString]
  intro hmem
  exact absurd (h.raw hraw _ hmem) (by decide)

end

lemma not_cleanKey {ps : List (Piece κ)} (h : ¬ CleanKey ps) :
    (decode A.char ps).length < (json_escape (storedString A ps)).length ∧
      backslash ∈ json_escape (storedString A ps) := by
  unfold CleanKey at h
  push Not at h
  obtain ⟨p, hp, hchar, hslash⟩ := h
  obtain ⟨c, hc, hnot⟩ : ∃ c ∈ p.stored A, ¬ Raw c := by
    cases p with
    | char c => exact absurd rfl (hchar c)
    | escape e =>
      refine ⟨e.byte, List.mem_singleton.mpr rfl, ?_⟩
      cases e with
      | slash => exact absurd rfl hslash
      | _ => decide
    | unicode hex => exact ⟨backslash, List.mem_cons_self, by decide⟩
  have hmem : c ∈ storedString A ps := List.mem_flatMap.mpr ⟨p, hp, hc⟩
  have hesc := json_escape_not_raw hmem hnot
  exact ⟨(length_decode A ps).1.trans_lt hesc.1, hesc.2⟩

/-! ### Objects -/

variable {D : Type}

lemma objectOf_eq_iff {ms ms' : List (List UInt8 × Value D)} :
    objectOf ms = objectOf ms' ↔ ∀ k, SortedMap.lookupLast k ms = SortedMap.lookupLast k ms' := by
  rw [objectOf_eq, objectOf_eq, Value.object.injEq, ← SortedMap.ofList_eq_iff]
  exact ⟨SortedMap.eq_of_entries, fun h => by rw [h]⟩

/-- The keys of an object, as they are written. -/
def Membs.keys {ν : Type} : Membs κ ν → List (List (Piece κ))
  | .last _ key _ _ _ _ => [key]
  | .more _ key _ _ _ _ ms => key :: ms.keys

def integralOf (n : Integer N) : Value N.Double := .integral n.value

lemma Membs.stored_keys : (ms : Membs κ (Integer N)) →
    (ms.stored A).map Prod.fst = ms.keys.map fun k => json_escape (storedString A k)
  | .last .. => rfl
  | .more _ _ _ _ _ _ ms => congrArg (_ :: ·) (Membs.stored_keys ms)

lemma Membs.denote_keys : (ms : Membs κ (Integer N)) →
    (ms.denote (A.script N) integralOf).map Prod.fst = ms.keys.map (decode A.char)
  | .last .. => rfl
  | .more _ _ _ _ _ _ ms => congrArg (_ :: ·) (Membs.denote_keys ms)

section

variable {A} (hraw : ∀ k, ∀ c ∈ A.char k, Raw c)

include hraw

/-- Keys that are stored under other names cannot make up for each other: the longest one would
have to be the name of a longer one. -/
lemma cleanKey_of_subset {ks : List (List (Piece κ))}
    (h : ∀ k ∈ ks, ∃ k' ∈ ks, json_escape (storedString A k) = decode A.char k') :
    ∀ k ∈ ks, CleanKey k := by
  by_contra hex
  push Not at hex
  obtain ⟨k0, hk0, hbad0⟩ := hex
  have hlong : ∀ n, ∃ k ∈ ks, ¬ CleanKey k ∧ n ≤ (json_escape (storedString A k)).length := by
    intro n
    induction n with
    | zero => exact ⟨k0, hk0, hbad0, Nat.zero_le _⟩
    | succ n ih =>
      obtain ⟨k, hk, hbad, hle⟩ := ih
      obtain ⟨k', hk', heq⟩ := h k hk
      have hbad' : ¬ CleanKey k' := fun hc =>
        hc.not_mem hraw (heq ▸ (not_cleanKey A hbad).2)
      have hlt := (not_cleanKey A hbad').1
      rw [← heq] at hlt
      exact ⟨k', hk', hbad', by omega⟩
  obtain ⟨k, hk, -, hle⟩ := hlong
    ((ks.map fun k => (json_escape (storedString A k)).length).sum + 1)
  have := List.le_sum_of_mem (List.mem_map_of_mem (f := fun k =>
    (json_escape (storedString A k)).length) hk)
  omega

end

mutual

/-- The keys of the objects are clean, and so are the strings, where no later member of the same
object has the same key. -/
def Doc.Clean : Doc κ (Integer N) → Prop
  | .string ps => CleanString ps
  | .array es => es.Clean
  | .object ms => (∀ k ∈ ms.keys, CleanKey k) ∧ ms.Clean
  | _ => True

def Elems.Clean : Elems κ (Integer N) → Prop
  | .last _ d _ => d.Clean
  | .more _ d _ es => d.Clean ∧ es.Clean

def Membs.Clean : Membs κ (Integer N) → Prop
  | .last _ _ _ _ d _ => d.Clean
  | .more _ key _ _ d _ ms =>
    (decode A.char key ∉ ms.keys.map (decode A.char) → d.Clean) ∧ ms.Clean

end

/-- A member in front of others counts if none of them has its key. -/
lemma lookupLast_cons_iff {κ' α : Type} [LinearOrder κ'] {key : κ'} {a b : α}
    {l l' : List (κ' × α)} (hkeys : l.map Prod.fst = l'.map Prod.fst) :
    (∀ k, SortedMap.lookupLast k ((key, a) :: l) = SortedMap.lookupLast k ((key, b) :: l')) ↔
      (key ∉ l'.map Prod.fst → a = b) ∧
        ∀ k, SortedMap.lookupLast k l = SortedMap.lookupLast k l' := by
  have hsome : ∀ k, (SortedMap.lookupLast k l).isSome = (SortedMap.lookupLast k l').isSome := by
    intro k
    rw [Bool.eq_iff_iff, SortedMap.lookupLast_isSome, SortedMap.lookupLast_isSome, hkeys]
  simp only [SortedMap.lookupLast]
  constructor
  · intro h
    refine ⟨fun hnot => ?_, fun k => ?_⟩
    · have hk := h key
      have hnone' := mt SortedMap.lookupLast_isSome.mp hnot
      have hnone := hnone'
      rw [← hsome] at hnone
      rw [Option.not_isSome_iff_eq_none.mp hnone, Option.not_isSome_iff_eq_none.mp hnone'] at hk
      simpa using hk
    · have hk := h k
      have hs := hsome k
      cases hl : SortedMap.lookupLast k l <;> cases hl' : SortedMap.lookupLast k l' <;>
        simp_all
  · rintro ⟨hab, h⟩ k
    rw [h k]
    by_cases hkey : key = k
    · subst hkey
      cases hl' : SortedMap.lookupLast key l' with
      | some c => rfl
      | none =>
        have hnot : key ∉ l'.map Prod.fst := fun hmem => by
          have := SortedMap.lookupLast_isSome.mpr hmem
          rw [hl'] at this
          cases this
        rw [hab hnot]
    · rw [if_neg hkey, if_neg hkey]

lemma Membs.keys_eq (hraw : ∀ k, ∀ c ∈ A.char k, Raw c) {ms : Membs κ (Integer N)}
    (hk : ∀ k ∈ ms.keys, CleanKey k) :
    (ms.stored A).map Prod.fst = (ms.denote (A.script N) integralOf).map Prod.fst := by
  rw [Membs.stored_keys, Membs.denote_keys]
  exact List.map_congr_left fun k hmem => (hk k hmem).eq hraw

/-- Where an object is stored as it is denoted, its keys are clean. -/
lemma Membs.cleanKeys (hraw : ∀ k, ∀ c ∈ A.char k, Raw c) {ms : Membs κ (Integer N)}
    (h : ∀ k, SortedMap.lookupLast k (ms.stored A) =
      SortedMap.lookupLast k (ms.denote (A.script N) integralOf)) :
    ∀ k ∈ ms.keys, CleanKey k := by
  refine cleanKey_of_subset hraw fun k hk => ?_
  have hsome : (SortedMap.lookupLast (json_escape (storedString A k)) (ms.stored A)).isSome := by
    rw [SortedMap.lookupLast_isSome, Membs.stored_keys]
    exact List.mem_map_of_mem hk
  rw [h, SortedMap.lookupLast_isSome, Membs.denote_keys] at hsome
  obtain ⟨k', hk', heq⟩ := List.mem_map.mp hsome
  exact ⟨k', hk', heq.symm⟩

mutual

/-- A document is stored as it is denoted exactly if it is clean. -/
lemma Doc.stored_eq_iff (hraw : ∀ k, ∀ c ∈ A.char k, Raw c) : (d : Doc κ (Integer N)) →
    (d.stored A = d.denote (A.script N) integralOf ↔ d.Clean A)
  | .null => iff_of_true rfl trivial
  | .boolean _ => iff_of_true rfl trivial
  | .number _ => iff_of_true rfl trivial
  | .string ps => by
    simp only [Doc.stored, Doc.denote, Doc.Clean, Value.string.injEq]
    exact string_eq_iff A
  | .emptyArray _ => iff_of_true rfl trivial
  | .array es => by
    simp only [Doc.stored, Doc.denote, Doc.Clean, Value.array.injEq]
    exact Elems.stored_eq_iff hraw es
  | .emptyObject _ => iff_of_true rfl trivial
  | .object ms => by
    simp only [Doc.stored, Doc.denote, Doc.Clean]
    rw [objectOf_eq_iff]
    constructor
    · intro h
      have hk := Membs.cleanKeys A hraw h
      exact ⟨hk, (Membs.stored_eq_iff hraw ms hk).mp h⟩
    · exact fun h => (Membs.stored_eq_iff hraw ms h.1).mpr h.2

lemma Elems.stored_eq_iff (hraw : ∀ k, ∀ c ∈ A.char k, Raw c) : (es : Elems κ (Integer N)) →
    (es.stored A = es.denote (A.script N) integralOf ↔ es.Clean A)
  | .last _ d _ => by
    simp only [Elems.stored, Elems.denote, Elems.Clean, List.cons.injEq, and_true]
    exact Doc.stored_eq_iff hraw d
  | .more _ d _ es => by
    simp only [Elems.stored, Elems.denote, Elems.Clean, List.cons.injEq]
    exact and_congr (Doc.stored_eq_iff hraw d) (Elems.stored_eq_iff hraw es)

lemma Membs.stored_eq_iff (hraw : ∀ k, ∀ c ∈ A.char k, Raw c) : (ms : Membs κ (Integer N)) →
    (hk : ∀ k ∈ ms.keys, CleanKey k) → ((∀ k, SortedMap.lookupLast k (ms.stored A) =
      SortedMap.lookupLast k (ms.denote (A.script N) integralOf)) ↔ ms.Clean A)
  | .last _ key _ _ d _, hk => by
    have hkey := (hk key List.mem_cons_self).eq hraw
    simp only [Membs.stored, Membs.denote, Membs.Clean, Alphabet.script_char, hkey]
    rw [lookupLast_cons_iff rfl, Doc.stored_eq_iff hraw d]
    simp
  | .more _ key _ _ d _ ms, hk => by
    have hkey := (hk key List.mem_cons_self).eq hraw
    have hks : ∀ k ∈ ms.keys, CleanKey k := fun k hmem => hk k (List.mem_cons_of_mem _ hmem)
    simp only [Membs.stored, Membs.denote, Membs.Clean, Alphabet.script_char, hkey]
    rw [lookupLast_cons_iff (Membs.keys_eq A hraw hks), Membs.stored_eq_iff hraw ms hks,
      Membs.denote_keys, Doc.stored_eq_iff hraw d]

end

/-! ### Whole texts -/

/-- The script of the grammar, with integers for numbers. -/
abbrev integerScript (N : Numbers) : Script Unescaped (Integer N) := unescaped.script N

/-- `load` accepts a text and makes of it what it denotes. -/
def LoadsDenoted (x : Text Unescaped (Integer N)) (jsonRoot : Value N.Double) : Prop :=
  ∃ o, load N (x.render (integerScript N)) jsonRoot =
    .ok ([], x.root.denote (integerScript N) integralOf) o

/-- Where no block comment starts with a slash, a text is loaded as what it denotes exactly if
its numbers are ended, its arrays are short enough and its keys and strings are clean. -/
theorem load_denotes (x : Text Unescaped (Integer N)) (hp : x.Plain) (jsonRoot : Value N.Double) :
    LoadsDenoted x jsonRoot ↔ x.Closed ∧ x.root.Short ∧ x.root.Clean unescaped := by
  rw [LoadsDenoted, Text.load_iff unescaped hp, ← Doc.stored_eq_iff unescaped raw_unescaped x.root,
    eq_comm (a := x.root.denote _ _), and_assoc]

/-- An object behind a comment: the one escape that a key may have, an escape in a string, and a
number. -/
theorem load_denotes_array :
    LoadsDenoted ⟨[.block [blank] (by decide)], .object (.last [] [.char ⟨'a', by decide⟩,
      .escape .slash] [] [.white blank (.inl rfl)] (.array (.more [] (.string [.escape .lineFeed])
        [] (.last [.line .hash [] List.not_mem_nil] (.number ⟨true, 7, by decide⟩) []))) []),
        [], none, fun _ _ h => by cases h⟩ (Value.null : Value lp64.Double) := by
  refine (load_denotes _ ⟨?_, ?_⟩ _).mpr ⟨?_, ?_, ?_⟩
  · simp [Gap.Plain, Space.Plain, blank, slash]
  · simp [Doc.Plain, Membs.Plain, Elems.Plain, Gap.Plain, Space.Plain]
  · exact ⟨trivial, rbracket, rfl, by decide⟩
  · simp [Doc.Short, Membs.Short, Elems.Short, Elems.length]
  · simp [Doc.Clean, Membs.Clean, Elems.Clean, Membs.keys, CleanKey, CleanString]

/-- A number as the whole text, and a unicode escape. -/
theorem load_not_denotes :
    ¬ LoadsDenoted (.of (.number ⟨false, 12, by decide⟩)) (Value.null : Value lp64.Double) ∧
    ¬ LoadsDenoted (.of (.string [.unicode ⟨[48, 48, 52, 49], rfl, List.all_eq_true.mp rfl⟩]))
      (Value.null : Value lp64.Double) := by
  constructor
  · intro h
    obtain ⟨⟨⟨c, hc, -⟩, -⟩, -⟩ :=
      (Text.load_iff unescaped (Text.plain_of (d := .number _) trivial)).mp h
    cases hc
  · intro h
    obtain ⟨-, heq⟩ := (Text.load_iff unescaped (Text.plain_of (d := .string _) trivial)).mp h
    simp only [Text.of, Doc.denote, Doc.stored, Value.string.injEq] at heq
    exact absurd heq (by decide)

end MmrService.Json
