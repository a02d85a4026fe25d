import MmrService.JsonValue
import MmrService.Lib.Scan

/-!
`Json::load` and its parser.

Each function moves the one offset as the source does, and reads `str[offset]` wherever that
is. A loop of the source gets a turn for every position of the text, and `parse_next` a call
inside another one for every position as well.
-/

namespace MmrService.Json

open Scan Reader

/-- A parser function: what it returns or throws, and how it moves the offset. -/
abbrev Parser (α : Type) := Reader (List UInt8) α

/-- `str[offset + k]`. -/
abbrev look (str : List UInt8) (k : ℕ) : Parser UInt8 := peek 0 str k

/-- `str[offset++]`. -/
abbrev take (str : List UInt8) : Parser UInt8 := next 0 str

/-- More turns than a loop can take. -/
def turns (str : List UInt8) : ℕ := str.length + 1

/-! ### White space and comments -/

/-- `while (isspace(str[offset])) ++offset;` -/
def skipSpaces (str : List UInt8) : ℕ → Parser Unit
  | 0 => unfinished
  | n + 1 => do
    let c ← look str 0
    if isspace c then do
      advance 1
      skipSpaces str n
    else pure ()

/-- A comment up to its end mark, and what follows; a comment without end is left alone. -/
def skipComment (str endMark : List UInt8) (again : Parser Unit) : Parser Unit := do
  let o ← offset
  match find str endMark o with
  | some endPos => do
    moveTo (endPos + endMark.length)
    again
  | none => pure ()

def skipAll (str : List UInt8) : ℕ → Parser Unit
  | 0 => unfinished
  | n + 1 => do
    skipSpaces str (turns str)
    let c ← look str 0
    if c = hash then skipComment str [newline] (skipAll str n)
    else if c = slash then do
      let c ← look str 1
      if c = slash then skipComment str [newline] (skipAll str n)
      else if c = star then skipComment str [star, slash] (skipAll str n)
      else pure ()
    else pure ()

def consume_ws (str : List UInt8) : Parser Unit := skipAll str (turns str)

/-! ### Strings -/

def isHex (c : UInt8) : Bool :=
  (48 ≤ c && c ≤ 57) || (97 ≤ c && c ≤ 102) || (65 ≤ c && c ≤ 70)

/-- What an escape adds to a string, `\u` apart. -/
def unescape (c : UInt8) : List UInt8 :=
  if c = quote then [quote]
  else if c = backslash then [backslash]
  else if c = slash then [slash]
  else if c = 98 then [8]
  else if c = 102 then [12]
  else if c = 110 then [10]
  else if c = 114 then [13]
  else if c = 116 then [9]
  else [backslash]

/-- The characters of a unicode escape, from the `i`-th behind the offset on. -/
def hexDigits (str : List UInt8) : ℕ → ℕ → Parser (List UInt8)
  | 0, _ => pure []
  | k + 1, i => do
    let c ← look str i
    if isHex c then do
      let r ← hexDigits str k (i + 1)
      pure (c :: r)
    else throw (text "ERROR: String: Expected hex character in unicode escape, found '" ++ [c] ++
      text "'.")

def stringLoop (str : List UInt8) : ℕ → List UInt8 → Parser (List UInt8)
  | 0, _ => unfinished
  | n + 1, val => do
    advance 1
    let c ← look str 0
    if c = quote then pure val
    else if c = backslash then do
      advance 1
      let c ← look str 0
      if c = letterU then do
        let hex ← hexDigits str 4 1
        advance 4
        stringLoop str n (val ++ backslash :: letterU :: hex)
      else stringLoop str n (val ++ unescape c)
    else stringLoop str n (val ++ [c])

variable (N : Numbers)

def parse_string (str : List UInt8) : Parser (Value N.Double) := do
  let val ← stringLoop str (turns str) []
  advance 1
  pure (.string val)

/-! ### Numbers -/

/-- What may follow a number. -/
def isStop (c : UInt8) : Bool := isspace c || c = comma || c = rbracket || c = rbrace

/-- The characters of a number, and the one that ends them. -/
def numberLoop (str : List UInt8) : ℕ → List UInt8 → Bool → Parser (List UInt8 × Bool × UInt8)
  | 0, _, _ => unfinished
  | n + 1, val, isDouble => do
    let c ← take str
    if c = minus || isDigit c then numberLoop str n (val ++ [c]) isDouble
    else if c = dot then numberLoop str n (val ++ [c]) true
    else pure (val, isDouble, c)

def exponentLoop (str : List UInt8) : ℕ → List UInt8 → Parser (List UInt8)
  | 0, _ => unfinished
  | n + 1, exp_str => do
    let c ← take str
    if isDigit c then exponentLoop str n (exp_str ++ [c])
    else if isStop c then pure exp_str
    else throw (text "ERROR: Number: Expected a number for exponent, found '" ++ [c] ++ text "'.")

/-- The text and the value of the exponent: the character behind the `e` is read and dropped,
and behind a minus sign one more is passed over. -/
def exponent (str : List UInt8) : Parser (List UInt8 × ℤ) := do
  let c ← take str
  let sign ← if c = minus then do
      advance 1
      pure [minus]
    else pure []
  let exp_str ← exponentLoop str (turns str) sign
  let exp ← ofExcept (stol N exp_str)
  pure (exp_str, exp)

/-- The value of a number. -/
def numberValue (val : List UInt8) (isDouble : Bool) (exp_str : List UInt8) (exp : ℤ) :
    Except (List UInt8) (Value N.Double) := do
  if isDouble then do
    let d ← N.stod val
    pure (.floating (N.mul d (N.pow10 exp)))
  else if exp_str ≠ [] then do
    let i ← stol N val
    pure (.floating (N.mul (N.ofLong i) (N.pow10 exp)))
  else do
    let i ← stol N val
    pure (.integral i)

def parse_number (str : List UInt8) : Parser (Value N.Double) := do
  let (val, isDouble, c) ← numberLoop str (turns str) [] false
  let (exp_str, exp) ← if c = 69 || c = 101 then exponent N str
    else if isStop c then pure ([], 0)
    else throw (text "ERROR: Number: unexpected character '" ++ [c] ++ text "'.")
  retreat
  ofExcept (numberValue N val isDouble exp_str exp)

/-! ### Literals -/

/-- `str.substr(offset, n)`. -/
def substr (str : List UInt8) (n : ℕ) : Parser (List UInt8) := do
  let o ← offset
  if o ≤ str.length then pure (Bytes.slice str o n)
  else throw (text "basic_string::substr")

def parse_bool (str : List UInt8) : Parser (Value N.Double) := do
  let s ← substr str 4
  if s = trueText then do
    advance 4
    pure (.boolean true)
  else do
    let s ← substr str 5
    if s = falseText then do
      advance 5
      pure (.boolean false)
    else throw (text "ERROR: Bool: Expected 'true' or 'false', found '" ++ s ++ text "'.")

def parse_null (str : List UInt8) : Parser (Value N.Double) := do
  let s ← substr str 4
  if s ≠ nullText then
    throw (text "ERROR: Null: Expected 'null', found '" ++ s ++ text "'.")
  else do
    advance 4
    pure .null

/-! ### Arrays and objects -/

/-- `Array[index] = value`: a list that is too short is resized to `index + 1` elements, an
`unsigned`, and is too short still when that is zero. -/
def setElement {D : Type} (Array : List (Value D)) (index : ℕ) (value : Value D) :
    Parser (List (Value D)) :=
  let size := (index + 1) % 2 ^ 32
  let Array := if Array.length ≤ index then
      Array.take size ++ .replicate (size - Array.length) .null
    else Array
  if index < Array.length then pure (Array.set index value) else outside index

variable {N} in
def arrayLoop (str : List UInt8) (parse_next : Parser (Value N.Double)) :
    ℕ → ℕ → List (Value N.Double) → Parser (Value N.Double)
  | 0, _, _ => unfinished
  | n + 1, index, Array => do
    let v ← parse_next
    let Array ← setElement Array index v
    let index := (index + 1) % 2 ^ 32
    consume_ws str
    let c ← look str 0
    if c = comma then do
      advance 1
      arrayLoop str parse_next n index Array
    else if c = rbracket then do
      advance 1
      pure (.array Array)
    else throw (text "ERROR: Array: Expected ',' or ']', found '" ++ [c] ++ text "'.")

variable {N} in
def parse_array (str : List UInt8) (parse_next : Parser (Value N.Double)) :
    Parser (Value N.Double) := do
  advance 1
  consume_ws str
  let c ← look str 0
  if c = rbracket then do
    advance 1
    pure (.array [])
  else arrayLoop str parse_next (turns str) 0 []

variable {N} in
def objectLoop (str : List UInt8) (parse_next : Parser (Value N.Double)) :
    ℕ → List (List UInt8 × Value N.Double) → Parser (Value N.Double)
  | 0, _ => unfinished
  | n + 1, Object => do
    let Key ← parse_next
    consume_ws str
    let c ← look str 0
    if c ≠ colon then
      throw (text "Error: Object: Expected ':', found '" ++ [c] ++ text "'.")
    else do
      advance 1
      consume_ws str
      let value ← parse_next
      let Object := Value.insert Key.ToString value Object
      consume_ws str
      let c ← look str 0
      if c = comma then do
        advance 1
        objectLoop str parse_next n Object
      else if c = rbrace then do
        advance 1
        pure (.object Object)
      else throw (text "ERROR: Object: Expected ',' or '\x7d', found '" ++ [c] ++ text "'.")

variable {N} in
def parse_object (str : List UInt8) (parse_next : Parser (Value N.Double)) :
    Parser (Value N.Double) := do
  advance 1
  consume_ws str
  let c ← look str 0
  if c = rbrace then do
    advance 1
    pure (.object [])
  else objectLoop str parse_next (turns str) []

def parse_next (str : List UInt8) : ℕ → Parser (Value N.Double)
  | 0 => unfinished
  | n + 1 => do
    consume_ws str
    let value ← look str 0
    if value = lbracket then parse_array str (parse_next str n)
    else if value = lbrace then parse_object str (parse_next str n)
    else if value = quote then parse_string N str
    else if value = 116 || value = 102 then parse_bool N str
    else if value = 110 then parse_null N str
    else if isDigit value || value = minus then parse_number N str
    else throw (text "ERROR: Parse: Unknown starting character '" ++ [value] ++ text "'.")

/-! ### Loading a text -/

/-- The row and column of an error: the line ends up to it are counted. -/
def errorPos (str : List UInt8) (o : ℕ) : ℕ → ℕ → ℕ → Parser (ℕ × ℕ)
  | 0, _, _ => unfinished
  | n + 1, rowNum, posLineEnd =>
    match find str [newline] posLineEnd with
    | some poslastEnd =>
      let rowNum := (rowNum + 1) % 2 ^ 32
      if o < poslastEnd + 1 then pure (rowNum, (o - posLineEnd + 1) % 2 ^ 32)
      else if poslastEnd + 1 < o then errorPos str o n rowNum (poslastEnd + 1)
      else pure (rowNum, 0)
    | none => pure (rowNum, (o - posLineEnd + 1) % 2 ^ 32)

/-- What a string makes of `what()`: it ends before the first NUL. -/
def what (e : List UInt8) : List UInt8 := e.takeWhile (· ≠ 0)

/-- The error string, which is empty when nothing was thrown, and the root, which is then the
value parsed; the position is that of the offset at the end. -/
def load (str : List UInt8) (jsonRoot : Value N.Double) :
    Res (List UInt8) (List UInt8 × Value N.Double) :=
  match parse_next N str (turns str) 0 with
  | .ok v o => .ok ([], v) o
  | .throw e o =>
    (if 0 < o then errorPos str o (turns str) 0 0 o else .ok (0, 0) o).bind fun p o =>
      .ok (what e ++ text "row:" ++ decimal p.1 ++ text " col:" ++ decimal p.2, jsonRoot) o
  | .outside i => .outside i
  | .unfinished => .unfinished

end MmrService.Json
