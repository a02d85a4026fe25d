import MmrService.Lib.Bytes
import MmrService.Lib.SortedMap
import Mathlib.Data.List.Lex
import Mathlib.Data.Nat.Digits.Defs

/-!
`Json::Value`: the values of the parser, and their output by `dumpFast` and `dumpStyle`.

Strings are lists of bytes. The members of an object are in the order of their keys, which is
the order of the bytes.
-/

namespace MmrService.Json

/-! ### Characters -/

def quote : UInt8 := 34
def hash : UInt8 := 35
def star : UInt8 := 42
def comma : UInt8 := 44
def minus : UInt8 := 45
def dot : UInt8 := 46
def slash : UInt8 := 47
def colon : UInt8 := 58
def lbracket : UInt8 := 91
def backslash : UInt8 := 92
def rbracket : UInt8 := 93
def lbrace : UInt8 := 123
def rbrace : UInt8 := 125
def newline : UInt8 := 10
def tabulator : UInt8 := 9
def blank : UInt8 := 32
/-- `'u'`. -/
def letterU : UInt8 := 117

def isDigit (c : UInt8) : Bool := 48 ≤ c && c ≤ 57

/-- `isspace` in the C locale. -/
def isspace (c : UInt8) : Bool := c = 32 || 9 ≤ c && c ≤ 13

/-- The bytes of a message. -/
def text (s : String) : List UInt8 := s.toList.map fun c => UInt8.ofNat c.toNat

/-- `null`, `true` and `false`. -/
def nullText : List UInt8 := [110, 117, 108, 108]
def trueText : List UInt8 := [116, 114, 117, 101]
def falseText : List UInt8 := [102, 97, 108, 115, 101]

/-! ### Numbers -/

/-- What the code uses of the numbers of a platform: the width of `long`, and the arithmetic
of `double`. `stod` fails with the text of its exception. -/
structure Numbers where
  longBits : ℕ
  Double : Type
  stod : List UInt8 → Except (List UInt8) Double
  ofLong : ℤ → Double
  mul : Double → Double → Double
  pow10 : ℤ → Double
  to_string : Double → List UInt8

/-- A value of `long`. -/
def Numbers.IsLong (N : Numbers) (i : ℤ) : Prop :=
  -2 ^ (N.longBits - 1) ≤ i ∧ i < 2 ^ (N.longBits - 1)

instance (N : Numbers) (i : ℤ) : Decidable (N.IsLong i) :=
  inferInstanceAs (Decidable (_ ∧ _))

/-- The number some digits denote. -/
def ofDigits (ds : List UInt8) : ℕ := ds.foldl (fun n d => n * 10 + (d.toNat - 48)) 0

/-- The number `strtol` reads: white space, a sign, and as many digits as there are. -/
def strtol (s : List UInt8) : Option ℤ :=
  let s := s.dropWhile isspace
  let neg := s.head? = some minus
  let digits := (if neg ∨ s.head? = some 43 then s.tail else s).takeWhile isDigit
  if digits = [] then none
  else some (if neg then -(ofDigits digits : ℤ) else ofDigits digits)

/-- `std::stol`: no number, and one out of range, are reported alike. -/
def stol (N : Numbers) (s : List UInt8) : Except (List UInt8) ℤ :=
  match strtol s with
  | none => .error (text "stol")
  | some i => if N.IsLong i then .ok i else .error (text "stol")

/-- The decimal digits of a number, of which there is at least one. -/
def decimal (n : ℕ) : List UInt8 :=
  if n = 0 then [48] else (Nat.digits 10 n).reverse.map fun d => UInt8.ofNat (48 + d)

/-- `std::to_string(long)`. -/
def to_string (i : ℤ) : List UInt8 :=
  if i < 0 then minus :: decimal i.natAbs else decimal i.natAbs

lemma decimal_ne_nil (n : ℕ) : decimal n ≠ [] := by
  unfold decimal
  split_ifs with h
  · simp
  · simpa using Nat.digits_ne_nil_iff_ne_zero.mpr h

lemma toNat_digit {d : ℕ} (h : d < 10) : (UInt8.ofNat (48 + d)).toNat = 48 + d := by
  rw [UInt8.toNat_ofNat']
  omega

lemma isDigit_decimal {n : ℕ} {c : UInt8} (h : c ∈ decimal n) : isDigit c = true := by
  unfold decimal at h
  split_ifs at h with hn
  · rw [List.mem_singleton.mp h]
    decide
  · obtain ⟨d, hd, rfl⟩ := List.mem_map.mp h
    have hlt := Nat.digits_lt_base (by decide) (List.mem_reverse.mp hd)
    have hnat := toNat_digit hlt
    simp only [isDigit, Bool.and_eq_true, decide_eq_true_eq, UInt8.le_iff_toNat_le, hnat]
    exact ⟨Nat.le_add_right _ _, show 48 + d ≤ 57 by omega⟩

/-- The digits of a number are read back. -/
lemma ofDigits_decimal (n : ℕ) : ofDigits (decimal n) = n := by
  have hfold : ∀ l : List ℕ, (∀ d ∈ l, d < 10) →
      l.foldr (fun d n => n * 10 + ((UInt8.ofNat (48 + d)).toNat - 48)) 0 = Nat.ofDigits 10 l := by
    intro l hl
    induction l with
    | nil => rfl
    | cons d l ih =>
      rw [List.foldr_cons, ih fun d hd => hl d (List.mem_cons_of_mem _ hd), Nat.ofDigits_cons,
        toNat_digit (hl d List.mem_cons_self)]
      omega
  unfold decimal ofDigits
  split_ifs with hn
  · rw [hn]
    rfl
  · rw [List.foldl_map, List.foldl_reverse, hfold _ fun d hd => Nat.digits_lt_base (by decide) hd,
      Nat.ofDigits_digits]

/-! ### Values -/

inductive Value (D : Type) where
  | null
  | object (Map : List (List UInt8 × Value D))
  | array (List : List (Value D))
  | string (String : List UInt8)
  | floating (Float : D)
  | integral (Int : ℤ)
  | boolean (Bool : Bool)

variable {N : Numbers} {D : Type}

/-- What `json_escape` writes for a character. -/
def escapeChar (c : UInt8) : List UInt8 :=
  if c = quote then [backslash, quote]
  else if c = backslash then [backslash, backslash]
  else if c = 8 then [backslash, 98]
  else if c = 12 then [backslash, 102]
  else if c = 10 then [backslash, 110]
  else if c = 13 then [backslash, 114]
  else if c = 9 then [backslash, 116]
  else [c]

def json_escape (str : List UInt8) : List UInt8 := str.flatMap escapeChar

namespace Value

/-- `ToString`: the text of a string, escaped; nothing for a value of another type. -/
def ToString : Value D → List UInt8
  | .string s => json_escape s
  | _ => []

/-- `Object[key] = value`. -/
def insert (key : List UInt8) (value : Value D) (Map : List (List UInt8 × Value D)) :
    List (List UInt8 × Value D) :=
  SortedMap.alterList key (fun _ => value) Map

/-! ### Output -/

mutual

def dumpFast (N : Numbers) : Value N.Double → List UInt8
  | .null => nullText
  | .object Map => lbrace :: dumpFastMembers N true Map ++ [rbrace]
  | .array List => lbracket :: dumpFastElements N true List ++ [rbracket]
  | .string String => quote :: json_escape String ++ [quote]
  | .floating Float => N.to_string Float
  | .integral Int => Json.to_string Int
  | .boolean Bool => if Bool then trueText else falseText

/-- The members of an object; the comma before the first one is skipped. -/
def dumpFastMembers (N : Numbers) (skip : Bool) :
    List (List UInt8 × Value N.Double) → List UInt8
  | [] => []
  | (key, value) :: r =>
    (if skip then [] else [comma]) ++ (quote :: key ++ [quote, colon] ++ dumpFast N value) ++
      dumpFastMembers N false r

def dumpFastElements (N : Numbers) (skip : Bool) : List (Value N.Double) → List UInt8
  | [] => []
  | value :: r =>
    (if skip then [] else [comma]) ++ dumpFast N value ++ dumpFastElements N false r

end

/-- `tab`, `depth` times. -/
def pad (depth : ℕ) (tab : List UInt8) : List UInt8 := (List.replicate depth tab).flatten

mutual

def dumpStyle (N : Numbers) (depth : ℕ) (tab : List UInt8) : Value N.Double → List UInt8
  | .null => nullText
  | .object Map =>
    (if depth = 0 then pad depth tab ++ [lbrace, newline]
      else newline :: pad depth tab ++ [lbrace, newline]) ++
      dumpStyleMembers N depth tab true Map ++ (newline :: pad depth tab ++ [rbrace])
  | .array List =>
    (newline :: pad depth tab ++ [lbracket, newline]) ++
      dumpStyleElements N depth tab true List ++ (newline :: pad depth tab ++ [rbracket])
  | .string String => quote :: json_escape String ++ [quote]
  | .floating Float => N.to_string Float
  | .integral Int => Json.to_string Int
  | .boolean Bool => if Bool then trueText else falseText

def dumpStyleMembers (N : Numbers) (depth : ℕ) (tab : List UInt8) (skip : Bool) :
    List (List UInt8 × Value N.Double) → List UInt8
  | [] => []
  | (key, value) :: r =>
    (if skip then [] else [comma, newline]) ++
      (pad depth tab ++ tab ++ (quote :: key ++ [quote, blank, colon, blank]) ++
        dumpStyle N (depth + 1) tab value) ++
      dumpStyleMembers N depth tab false r

def dumpStyleElements (N : Numbers) (depth : ℕ) (tab : List UInt8) (skip : Bool) :
    List (Value N.Double) → List UInt8
  | [] => []
  | value :: r =>
    (if skip then [] else [comma, newline]) ++ (pad depth tab ++ tab) ++
      dumpStyle N (depth + 1) tab value ++ dumpStyleElements N depth tab false r

end

end Value

end MmrService.Json
