import MmrService.JsonParse
import Mathlib.Logic.Relation

/-!
The language of the parser, as a grammar on what is left of a text.

It is wider than JSON: any value may stand as a key, any character behind a backslash, any
digits, dots and minus signs in a number, and anything behind the root. The grammar also says
where a value is expected, which strings and numbers meet the end of the text, and which arrays
are too long.
-/

namespace MmrService.Json

open Scan Relation

variable (N : Numbers)

/-! ### Tokens -/

/-- A space or a comment. A block comment ends at the first end mark, which may share the star
of the opening. -/
inductive Blank : List UInt8 → List UInt8 → Prop
  | space {c : UInt8} {s : List UInt8} (h : isspace c = true) : Blank (c :: s) s
  | line {s t : List UInt8} (hm : [hash] <+: s ∨ [slash, slash] <+: s)
      (h : First [newline] s t) : Blank s t
  | block {s t : List UInt8} (hm : [slash, star] <+: s) (h : First [star, slash] s t) : Blank s t

/-- `t` is what is left when all spaces and comments are skipped. -/
def Skips (s t : List UInt8) : Prop := ReflTransGen Blank s t ∧ ∀ u, ¬ Blank t u

/-- The characters of a string, what they add up to, and what is left behind the quote. -/
inductive Chars : List UInt8 → List UInt8 → List UInt8 → Prop
  | close {t : List UInt8} : Chars (quote :: t) [] t
  | char {c : UInt8} {s w t : List UInt8} (hq : c ≠ quote) (hb : c ≠ backslash)
      (h : Chars s w t) : Chars (c :: s) (c :: w) t
  | escape {c : UInt8} {s w t : List UInt8} (hu : c ≠ letterU) (h : Chars s w t) :
      Chars (backslash :: c :: s) (unescape c ++ w) t
  | unicode {hex s w t : List UInt8} (hlen : hex.length = 4) (hx : ∀ c ∈ hex, isHex c = true)
      (h : Chars s w t) :
      Chars (backslash :: letterU :: (hex ++ s)) (backslash :: letterU :: (hex ++ w)) t

/-- A string that is not closed. -/
inductive OpenChars : List UInt8 → Prop
  | nil : OpenChars []
  | char {c : UInt8} {s : List UInt8} (hq : c ≠ quote) (hb : c ≠ backslash)
      (h : OpenChars s) : OpenChars (c :: s)
  | backslash : OpenChars [backslash]
  | escape {c : UInt8} {s : List UInt8} (hu : c ≠ letterU) (h : OpenChars s) :
      OpenChars (backslash :: c :: s)
  | unicode {hex s : List UInt8} (hlen : hex.length = 4) (hx : ∀ c ∈ hex, isHex c = true)
      (h : OpenChars s) : OpenChars (backslash :: letterU :: (hex ++ s))

/-- What stands between the `e` and the digits of an exponent, and the sign it makes. -/
inductive Sign : List UInt8 → List UInt8 → Prop
  | plus {c : UInt8} (h : c ≠ minus) : Sign [c] []
  | minus (c : UInt8) : Sign [minus, c] [minus]

def isNumber (c : UInt8) : Bool := c = minus || isDigit c || c = dot

def isExponent (c : UInt8) : Bool := c = 69 || c = 101

/-- A number, its value, and what is left. -/
inductive Number : List UInt8 → Value N.Double → List UInt8 → Prop
  | plain {val t : List UInt8} {c : UInt8} {v : Value N.Double}
      (hval : ∀ d ∈ val, isNumber d = true) (hc : isStop c = true)
      (hv : numberValue N val (decide (dot ∈ val)) [] 0 = .ok v) :
      Number (val ++ c :: t) v (c :: t)
  | exponent {val mark sign ds t : List UInt8} {e c : UInt8} {exp : ℤ} {v : Value N.Double}
      (hval : ∀ d ∈ val, isNumber d = true) (he : isExponent e = true) (hs : Sign mark sign)
      (hds : ∀ d ∈ ds, isDigit d = true) (hc : isStop c = true)
      (hexp : stol N (sign ++ ds) = .ok exp)
      (hv : numberValue N val (decide (dot ∈ val)) (sign ++ ds) exp = .ok v) :
      Number (val ++ e :: (mark ++ (ds ++ c :: t))) v (c :: t)

/-- An exponent that ends before its first digit could. -/
inductive CutExponent : List UInt8 → Prop
  | mk {val mark : List UInt8} {e : UInt8} (hval : ∀ d ∈ val, isNumber d = true)
      (he : isExponent e = true) (hm : mark = [] ∨ mark = [minus]) :
      CutExponent (val ++ e :: mark)

/-- A number that goes on to the end of the text. -/
inductive OpenNumber : List UInt8 → Prop
  | plain {val : List UInt8} (hval : ∀ d ∈ val, isNumber d = true) : OpenNumber val
  | cut {s : List UInt8} (h : CutExponent s) : OpenNumber s
  | exponent {val mark sign ds : List UInt8} {e : UInt8} (hval : ∀ d ∈ val, isNumber d = true)
      (he : isExponent e = true) (hs : Sign mark sign) (hds : ∀ d ∈ ds, isDigit d = true) :
      OpenNumber (val ++ e :: (mark ++ ds))

/-- A number starts with a digit or a minus sign. -/
def StartsNumber (s : List UInt8) : Prop := ∃ c ∈ s.head?, isDigit c = true ∨ c = minus

/-- A value that is neither an array nor an object. -/
inductive Token : List UInt8 → Value N.Double → List UInt8 → Prop
  | string {s w t : List UInt8} (h : Chars s w t) : Token (quote :: s) (.string w) t
  | number {s t : List UInt8} {v : Value N.Double} (hs : StartsNumber s)
      (h : Number N s v t) : Token s v t
  | true_ {t : List UInt8} : Token (trueText ++ t) (.boolean true) t
  | false_ {t : List UInt8} : Token (falseText ++ t) (.boolean false) t
  | null {t : List UInt8} : Token (nullText ++ t) .null t

/-! ### Values -/

/-- The map of an object after its members have been stored one after the other. -/
def build {D : Type} (Map : List (List UInt8 × Value D)) (ms : List (Value D × Value D)) :
    List (List UInt8 × Value D) :=
  ms.foldl (fun Map m => Value.insert m.1.ToString m.2 Map) Map

mutual

/-- A value, behind spaces and comments, and what is left. The elements of an array are counted
in an `unsigned`. -/
inductive Reads : List UInt8 → Value N.Double → List UInt8 → Prop
  | token {s s' t : List UInt8} {v : Value N.Double} (hs : Skips s s') (h : Token N s' v t) :
      Reads s v t
  | arrayNil {s s' t : List UInt8} (hs : Skips s (lbracket :: s'))
      (ht : Skips s' (rbracket :: t)) : Reads s (.array []) t
  | array {s s' t : List UInt8} {vs : List (Value N.Double)} (hs : Skips s (lbracket :: s'))
      (h : Elements s' vs t) (hlen : vs.length < 2 ^ 32) : Reads s (.array vs) t
  | objectNil {s s' t : List UInt8} (hs : Skips s (lbrace :: s'))
      (ht : Skips s' (rbrace :: t)) : Reads s (.object []) t
  | object {s s' t : List UInt8} {ms : List (Value N.Double × Value N.Double)}
      (hs : Skips s (lbrace :: s')) (h : Members s' ms t) : Reads s (.object (build [] ms)) t

/-- The elements of an array, up to and with its bracket. -/
inductive Elements : List UInt8 → List (Value N.Double) → List UInt8 → Prop
  | last {s s' t : List UInt8} {v : Value N.Double} (h : Reads s v s')
      (ht : Skips s' (rbracket :: t)) : Elements s [v] t
  | more {s s' s'' t : List UInt8} {v : Value N.Double} {vs : List (Value N.Double)}
      (h : Reads s v s') (hc : Skips s' (comma :: s'')) (hr : Elements s'' vs t) :
      Elements s (v :: vs) t

/-- The members of an object, up to and with its brace; the keys are values. -/
inductive Members : List UInt8 → List (Value N.Double × Value N.Double) → List UInt8 → Prop
  | last {s s' s'' r t : List UInt8} {k v : Value N.Double} (hk : Reads s k s')
      (hc : Skips s' (colon :: s'')) (hv : Reads s'' v r) (ht : Skips r (rbrace :: t)) :
      Members s [(k, v)] t
  | more {s s' s'' r r' t : List UInt8} {k v : Value N.Double}
      {ms : List (Value N.Double × Value N.Double)} (hk : Reads s k s')
      (hc : Skips s' (colon :: s'')) (hv : Reads s'' v r) (hm : Skips r (comma :: r'))
      (hr : Members r' ms t) : Members s ((k, v) :: ms) t

end

mutual

/-- Reading a value at `s`, a value is expected at `t`. -/
inductive Starts : List UInt8 → List UInt8 → Prop
  | here {s t : List UInt8} (hs : Skips s t) : Starts s t
  | array {s s' t : List UInt8} (hs : Skips s (lbracket :: s')) (h : StartsElement s' t) :
      Starts s t
  | object {s s' t : List UInt8} (hs : Skips s (lbrace :: s')) (h : StartsMember s' t) :
      Starts s t

inductive StartsElement : List UInt8 → List UInt8 → Prop
  | here {s t : List UInt8} (h : Starts s t) : StartsElement s t
  | later {s s' s'' t : List UInt8} {v : Value N.Double} (hv : Reads N s v s')
      (hc : Skips s' (comma :: s'')) (h : StartsElement s'' t) : StartsElement s t

inductive StartsMember : List UInt8 → List UInt8 → Prop
  | key {s t : List UInt8} (h : Starts s t) : StartsMember s t
  | value {s s' s'' t : List UInt8} {k : Value N.Double} (hk : Reads N s k s')
      (hc : Skips s' (colon :: s'')) (h : Starts s'' t) : StartsMember s t
  | later {s s' s'' r r' t : List UInt8} {k v : Value N.Double} (hk : Reads N s k s')
      (hc : Skips s' (colon :: s'')) (hv : Reads N s'' v r) (hm : Skips r (comma :: r'))
      (h : StartsMember r' t) : StartsMember s t

end

/-- A string that is not closed stands here. -/
def OpenString (s : List UInt8) : Prop := ∃ r, s = quote :: r ∧ OpenChars r

/-- The first elements of an array, and what is left behind the last of them. -/
inductive FirstElements : List UInt8 → List (Value N.Double) → List UInt8 → Prop
  | one {s t : List UInt8} {v : Value N.Double} (h : Reads N s v t) : FirstElements s [v] t
  | more {s s' s'' t : List UInt8} {v : Value N.Double} {vs : List (Value N.Double)}
      (h : Reads N s v s') (hc : Skips s' (comma :: s'')) (hr : FirstElements s'' vs t) :
      FirstElements s (v :: vs) t

/-- An array stands here that has more elements than an `unsigned` counts. -/
def LongArray (s : List UInt8) : Prop :=
  ∃ s' vs t, s = lbracket :: s' ∧ FirstElements N s' vs t ∧ vs.length = 2 ^ 32

/-! ### Skipping -/

variable {s t : List UInt8}

lemma Blank.length (h : Blank s t) : t.length < s.length := by
  cases h with
  | space => simp
  | line _ h => have := h.length; simp at this; omega
  | block _ h => have := h.length; simp at this; omega

lemma not_blank_nil : ¬ Blank [] t := fun h => absurd h.length (by simp)

/-- What a space or comment is told by its first characters. -/
lemma Blank.head {c : UInt8} (h : Blank (c :: s) t) : isspace c = true ∨ c = hash ∨ c = slash := by
  cases h with
  | space h => exact .inl h
  | line hm _ =>
    rcases hm with hm | hm
    · exact .inr (.inl (List.cons_prefix_cons.mp hm).1.symm)
    · exact .inr (.inr (List.cons_prefix_cons.mp hm).1.symm)
  | block hm _ => exact .inr (.inr (List.cons_prefix_cons.mp hm).1.symm)

lemma Blank.unique {t' : List UInt8} (h : Blank s t) (h' : Blank s t') : t = t' := by
  have hspace : ∀ {c : UInt8} {r : List UInt8}, isspace c = true →
      ¬ ([hash] <+: c :: r ∨ [slash, slash] <+: c :: r) ∧ ¬ [slash, star] <+: c :: r := by
    intro c r hc
    constructor
    · rintro (hm | hm) <;> rw [← (List.cons_prefix_cons.mp hm).1] at hc <;>
        exact absurd hc (by decide)
    · intro hm
      rw [← (List.cons_prefix_cons.mp hm).1] at hc
      exact absurd hc (by decide)
  have hblock : ∀ {s : List UInt8}, ([hash] <+: s ∨ [slash, slash] <+: s) →
      ¬ [slash, star] <+: s := by
    rintro s (⟨r, rfl⟩ | ⟨r, rfl⟩) hm
    · exact absurd (List.cons_prefix_cons.mp hm).1 (by decide)
    · exact absurd (List.cons_prefix_cons.mp (List.cons_prefix_cons.mp hm).2).1 (by decide)
  cases h with
  | space hc =>
    cases h' with
    | space => rfl
    | line hm => exact absurd hm (hspace hc).1
    | block hm => exact absurd hm (hspace hc).2
  | line hm h =>
    cases h' with
    | space hc => exact absurd hm (hspace hc).1
    | line _ h' => exact h.unique h'
    | block hm' => exact absurd hm' (hblock hm)
  | block hm h =>
    cases h' with
    | space hc => exact absurd hm (hspace hc).2
    | line hm' => exact absurd hm (hblock hm')
    | block _ h' => exact h.unique h'

lemma Skips.unique {t' : List UInt8} (h : Skips s t) (h' : Skips s t') : t = t' := by
  have hu : Relator.RightUnique Blank := fun _ _ _ hb hc => hb.unique hc
  have hstop : ∀ {a b : List UInt8}, (∀ u, ¬ Blank a u) → ReflTransGen Blank a b → a = b := by
    intro a b ha hab
    rcases hab.cases_head with he | ⟨u, hau, -⟩
    · exact he
    · exact absurd hau (ha u)
  rcases ReflTransGen.total_of_right_unique hu h.1 h'.1 with hr | hr
  · exact hstop h.2 hr
  · exact (hstop h'.2 hr).symm

lemma blanks_length (h : ReflTransGen Blank s t) : t.length ≤ s.length := by
  induction h with
  | refl => exact Nat.le_refl _
  | tail _ hb ih => exact hb.length.le.trans ih

lemma Skips.length (h : Skips s t) : t.length ≤ s.length := blanks_length h.1

/-- What is left has nothing more to skip. -/
lemma Skips.again (h : Skips s t) : Skips t t := ⟨.refl, h.2⟩

/-- A character that starts neither a space nor a comment. -/
lemma skips_self {c : UInt8} (h : isspace c = false ∧ c ≠ hash ∧ c ≠ slash) :
    Skips (c :: s) (c :: s) := by
  refine ⟨.refl, fun u hu => ?_⟩
  rcases hu.head with hc | hc | hc
  · rw [h.1] at hc; cases hc
  · exact h.2.1 hc
  · exact h.2.2 hc

lemma Skips.behind {u : List UInt8} (h : Skips u t) (hb : ReflTransGen Blank s u) : Skips s t :=
  ⟨hb.trans h.1, h.2⟩

end MmrService.Json
