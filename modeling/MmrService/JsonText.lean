import MmrService.JsonValue

/-!
JSON texts with comments, and what they denote.

A text is the tree of its tokens with the spaces and comments between them. How characters and
numbers are written is left to a script, so the same trees serve for the texts of the JSON
grammar and for those the output functions write.
-/

namespace MmrService.Json

/-! ### Strings -/

inductive Escape where
  | quote | backslash | slash | backspace | formFeed | lineFeed | carriageReturn | tabulator

/-- The character behind the backslash. -/
def Escape.letter : Escape → UInt8
  | quote => 34
  | backslash => 92
  | slash => 47
  | backspace => 98
  | formFeed => 102
  | lineFeed => 110
  | carriageReturn => 114
  | tabulator => 116

/-- The character it denotes. -/
def Escape.byte : Escape → UInt8
  | quote => 34
  | backslash => 92
  | slash => 47
  | backspace => 8
  | formFeed => 12
  | lineFeed => 10
  | carriageReturn => 13
  | tabulator => 9

/-- What the output functions write as it is. -/
def Raw (c : UInt8) : Prop := escapeChar c = [c]

instance (c : UInt8) : Decidable (Raw c) := inferInstanceAs (Decidable (escapeChar c = [c]))

/-- The escapes that are written are those of the grammar, but for the slash. -/
lemma escapeChar_cases (c : UInt8) : (Raw c ∧ c ≠ quote ∧ c ≠ backslash) ∨
    ∃ e : Escape, escapeChar c = [backslash, e.letter] ∧ e.byte = c := by
  unfold Raw escapeChar
  split_ifs with h1 h2 h3 h4 h5 h6 h7
  · exact .inr ⟨.quote, rfl, h1.symm⟩
  · exact .inr ⟨.backslash, rfl, h2.symm⟩
  · exact .inr ⟨.backspace, rfl, h3.symm⟩
  · exact .inr ⟨.formFeed, rfl, h4.symm⟩
  · exact .inr ⟨.lineFeed, rfl, h5.symm⟩
  · exact .inr ⟨.carriageReturn, rfl, h6.symm⟩
  · exact .inr ⟨.tabulator, rfl, h7.symm⟩
  · exact .inl ⟨rfl, h1, h2⟩

def isHexDigit (c : UInt8) : Bool :=
  (48 ≤ c && c ≤ 57) || (97 ≤ c && c ≤ 102) || (65 ≤ c && c ≤ 70)

def hexValue (c : UInt8) : ℕ :=
  if c ≤ 57 then c.toNat - 48 else if 97 ≤ c then c.toNat - 87 else c.toNat - 55

/-- The four digits of a unicode escape. -/
structure Hex where
  digits : List UInt8
  length : digits.length = 4
  isHex : ∀ c ∈ digits, isHexDigit c = true

def Hex.value (h : Hex) : ℕ := h.digits.foldl (fun n c => n * 16 + hexValue c) 0

inductive Piece (κ : Type) where
  | char (c : κ)
  | escape (e : Escape)
  | unicode (h : Hex)

variable {κ ν D : Type}

def Piece.render (char : κ → List UInt8) : Piece κ → List UInt8
  | .char c => char c
  | .escape e => [backslash, e.letter]
  | .unicode h => backslash :: letterU :: h.digits

def isHighSurrogate (n : ℕ) : Bool := 0xD800 ≤ n && n < 0xDC00

def isLowSurrogate (n : ℕ) : Bool := 0xDC00 ≤ n && n < 0xE000

def utf8 (n : ℕ) : List UInt8 := String.utf8EncodeChar (Char.ofNat n)

/-- A code unit by itself; half a surrogate pair is replaced. -/
def unitBytes (n : ℕ) : List UInt8 :=
  if isHighSurrogate n || isLowSurrogate n then utf8 0xFFFD else utf8 n

/-- The string that the pieces denote. -/
def decode (char : κ → List UInt8) : List (Piece κ) → List UInt8
  | [] => []
  | .char c :: r => char c ++ decode char r
  | .escape e :: r => e.byte :: decode char r
  | .unicode h :: .unicode l :: r =>
    if isHighSurrogate h.value && isLowSurrogate l.value then
      utf8 (0x10000 + (h.value - 0xD800) * 0x400 + (l.value - 0xDC00)) ++ decode char r
    else unitBytes h.value ++ decode char (.unicode l :: r)
  | .unicode h :: r => unitBytes h.value ++ decode char r

/-! ### Spaces and comments -/

inductive Mark where
  | hash | slashes

def Mark.render : Mark → List UInt8
  | hash => [Json.hash]
  | slashes => [slash, slash]

/-- A white space character or a comment. -/
inductive Space where
  | white (c : UInt8) (h : c = blank ∨ c = tabulator ∨ c = newline ∨ c = 13)
  | line (m : Mark) (body : List UInt8) (h : newline ∉ body)
  | block (body : List UInt8) (h : ¬ [star, slash] <:+: body)

abbrev Gap := List Space

def Space.render : Space → List UInt8
  | white c _ => [c]
  | line m body _ => m.render ++ body ++ [newline]
  | block body _ => [slash, star] ++ body ++ [star, slash]

def Gap.render (g : Gap) : List UInt8 := g.flatMap Space.render

/-- Space that is not a comment. -/
def Space.IsWhite : Space → Prop
  | .white _ _ => True
  | _ => False

def Gap.Strict (g : Gap) : Prop := ∀ sp ∈ g, sp.IsWhite

lemma Gap.strict_nil : Gap.Strict [] := fun _ h => absurd h List.not_mem_nil

/-! ### Documents -/

/-- How characters and numbers are written. -/
structure Script (κ ν : Type) where
  char : κ → List UInt8
  number : ν → List UInt8

mutual

inductive Doc (κ ν : Type) where
  | null
  | boolean (b : Bool)
  | number (n : ν)
  | string (ps : List (Piece κ))
  | emptyArray (g : Gap)
  | array (es : Elems κ ν)
  | emptyObject (g : Gap)
  | object (ms : Membs κ ν)

/-- The elements of an array, with the gaps around each. -/
inductive Elems (κ ν : Type) where
  | last (g : Gap) (d : Doc κ ν) (g' : Gap)
  | more (g : Gap) (d : Doc κ ν) (g' : Gap) (es : Elems κ ν)

/-- The members of an object, with the gaps around the keys and the values. -/
inductive Membs (κ ν : Type) where
  | last (g : Gap) (key : List (Piece κ)) (g' h : Gap) (d : Doc κ ν) (h' : Gap)
  | more (g : Gap) (key : List (Piece κ)) (g' h : Gap) (d : Doc κ ν) (h' : Gap)
    (ms : Membs κ ν)

end

variable (W : Script κ ν)

def renderString (ps : List (Piece κ)) : List UInt8 :=
  quote :: ps.flatMap (Piece.render W.char) ++ [quote]

mutual

def Doc.render : Doc κ ν → List UInt8
  | .null => nullText
  | .boolean b => if b then trueText else falseText
  | .number n => W.number n
  | .string ps => renderString W ps
  | .emptyArray g => lbracket :: (g.render ++ [rbracket])
  | .array es => lbracket :: es.render
  | .emptyObject g => lbrace :: (g.render ++ [rbrace])
  | .object ms => lbrace :: ms.render

def Elems.render : Elems κ ν → List UInt8
  | .last g d g' => g.render ++ (d.render ++ (g'.render ++ [rbracket]))
  | .more g d g' es => g.render ++ (d.render ++ (g'.render ++ comma :: es.render))

def Membs.render : Membs κ ν → List UInt8
  | .last g key g' h d h' => g.render ++ (renderString W key ++ (g'.render ++
      colon :: (h.render ++ (d.render ++ (h'.render ++ [rbrace])))))
  | .more g key g' h d h' ms => g.render ++ (renderString W key ++ (g'.render ++
      colon :: (h.render ++ (d.render ++ (h'.render ++ comma :: ms.render)))))

end

/-- The value of an object: of members with the same key the last one counts. -/
def objectOf (ms : List (List UInt8 × Value D)) : Value D :=
  .object (ms.foldl (fun Map m => Value.insert m.1 m.2 Map) [])

lemma objectOf_eq (ms : List (List UInt8 × Value D)) :
    objectOf ms = .object (SortedMap.ofList ms).entries := by
  rw [SortedMap.ofList, SortedMap.foldl_alterList]
  rfl

mutual

/-- The value a document denotes. -/
def Doc.denote (val : ν → Value D) : Doc κ ν → Value D
  | .null => .null
  | .boolean b => .boolean b
  | .number n => val n
  | .string ps => .string (decode W.char ps)
  | .emptyArray _ => .array []
  | .array es => .array (es.denote val)
  | .emptyObject _ => .object []
  | .object ms => objectOf (ms.denote val)

def Elems.denote (val : ν → Value D) : Elems κ ν → List (Value D)
  | .last _ d _ => [d.denote val]
  | .more _ d _ es => d.denote val :: es.denote val

def Membs.denote (val : ν → Value D) : Membs κ ν → List (List UInt8 × Value D)
  | .last _ key _ _ d _ => [(decode W.char key, d.denote val)]
  | .more _ key _ _ d _ ms => (decode W.char key, d.denote val) :: ms.denote val

end

/-- A whole text. A line comment at its end needs no newline. -/
structure Text (κ ν : Type) where
  lead : Gap
  root : Doc κ ν
  trail : Gap
  last : Option (Mark × List UInt8)
  last_line : ∀ m body, last = some (m, body) → newline ∉ body

/-- What stands behind the root. -/
def Text.rest (x : Text κ ν) : List UInt8 :=
  x.trail.render ++ (x.last.elim [] fun l => l.1.render ++ l.2)

def Text.render (x : Text κ ν) : List UInt8 :=
  x.lead.render ++ (x.root.render W ++ x.rest)

/-- A document by itself. -/
def Text.of (d : Doc κ ν) : Text κ ν := ⟨[], d, [], none, fun _ _ h => by cases h⟩

@[simp] lemma Text.render_of (d : Doc κ ν) : (Text.of d).render W = d.render W :=
  List.append_nil _

/-! ### The script of the JSON grammar -/

/-- A character that needs no escape. -/
structure Unescaped where
  char : Char
  plain : 0x20 ≤ char.toNat ∧ char ≠ '"' ∧ char ≠ '\\'

/-- The characters of some digits, of which there is at least one. -/
structure Digits where
  first : Fin 10
  more : List (Fin 10)

def Digits.render (d : Digits) : List UInt8 :=
  (d.first :: d.more).map fun i => UInt8.ofNat (48 + i)

structure Exponent where
  capital : Bool
  sign : Option Bool
  digits : Digits

def Exponent.render (e : Exponent) : List UInt8 :=
  (if e.capital then 69 else 101) ::
    ((e.sign.elim [] fun neg => [if neg then minus else 43]) ++ e.digits.render)

/-- A number: its integer part has no leading zero. -/
structure Decimal where
  negative : Bool
  int : ℕ
  frac : Option Digits
  exp : Option Exponent

def Decimal.render (n : Decimal) : List UInt8 :=
  (if n.negative then [minus] else []) ++ decimal n.int ++
    (n.frac.elim [] fun f => dot :: f.render) ++ n.exp.elim [] Exponent.render

def grammarScript : Script Unescaped Decimal where
  char c := String.utf8EncodeChar c.char
  number := Decimal.render

/-- The texts of the JSON grammar, with comments. -/
def IsJson (s : List UInt8) : Prop := ∃ x : Text Unescaped Decimal, x.render grammarScript = s

/-! ### First characters -/

/-- What a space or a comment starts with. -/
def StartsSpace (c : UInt8) : Prop := isspace c = true ∨ c = hash ∨ c = slash

lemma Mark.head (m : Mark) : ∃ c r, m.render = c :: r ∧ (c = Json.hash ∨ c = slash) := by
  cases m with
  | hash => exact ⟨_, _, rfl, .inl rfl⟩
  | slashes => exact ⟨_, _, rfl, .inr rfl⟩

lemma Space.head (sp : Space) : ∃ c r, sp.render = c :: r ∧ StartsSpace c := by
  cases sp with
  | white c h =>
    refine ⟨c, [], rfl, .inl ?_⟩
    rcases h with rfl | rfl | rfl | rfl <;> decide
  | line m body _ =>
    obtain ⟨c, r, hm, hc⟩ := m.head
    exact ⟨c, r ++ body ++ [newline], by rw [Space.render, hm]; rfl, .inr hc⟩
  | block body _ => exact ⟨_, _, rfl, .inr (.inr rfl)⟩

lemma Gap.head {g : Gap} {c : UInt8} (h : c ∈ g.render.head?) : StartsSpace c := by
  cases g with
  | nil => cases h
  | cons sp g =>
    obtain ⟨d, r, hsp, hd⟩ := sp.head
    have heq : (Gap.render (sp :: g)).head? = some d := by
      rw [Gap.render, List.flatMap_cons, hsp]
      rfl
    rw [heq] at h
    obtain rfl := Option.mem_some_iff.mp h
    exact hd

lemma Gap.nil_of_head {g : Gap} {c : UInt8} {r s : List UInt8} (h : g.render ++ s = c :: r)
    (hc : ¬ StartsSpace c) : g.render = [] := by
  rcases hg : g.render with _ | ⟨d, t⟩
  · rfl
  · rw [hg] at h
    obtain rfl := (List.cons.inj h).1
    exact absurd (Gap.head (c := d) (by rw [hg]; rfl)) hc

lemma Text.rest_head {x : Text κ ν} {c : UInt8} (h : c ∈ x.rest.head?) : StartsSpace c := by
  unfold Text.rest at h
  rcases hg : x.trail.render with _ | ⟨d, t⟩
  · rw [hg, List.nil_append] at h
    rcases hl : x.last with _ | ⟨m, body⟩
    · rw [hl] at h
      cases h
    · obtain ⟨d, r, hm, hd⟩ := m.head
      simp only [hl, Option.elim_some, hm, List.cons_append, List.head?_cons,
        Option.mem_some_iff] at h
      exact .inr (h ▸ hd)
  · rw [hg] at h
    exact Gap.head (by rw [hg]; exact h)

lemma Decimal.head (n : Decimal) : ∃ c r, n.render = c :: r ∧ (isDigit c = true ∨ c = minus) := by
  unfold Decimal.render
  cases n.negative with
  | true => exact ⟨minus, _, rfl, .inr rfl⟩
  | false =>
    rcases hd : decimal n.int with _ | ⟨c, r⟩
    · exact absurd hd (decimal_ne_nil _)
    · exact ⟨c, _, rfl, .inl (isDigit_decimal (hd ▸ List.mem_cons_self))⟩

end MmrService.Json
