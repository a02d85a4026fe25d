import MmrService.Lib.Ownership

/-!
`mmrUtil::CVariant`: a tag, and a union whose string or byte array is an object of its own.

To use an object that is not alive is undefined, and so is to read a member of the union that
was not the last one stored or to follow a null pointer. An allocation succeeds. A `char` is its
byte, a `float` and a `double` are their bits.
-/

namespace MmrService.Variant

inductive EM_DataType
  | VAR_TYPE_INVALID | VAR_TYPE_BOOL | VAR_TYPE_CHAR | VAR_TYPE_INT32 | VAR_TYPE_UINT32
  | VAR_TYPE_INT64 | VAR_TYPE_UINT64 | VAR_TYPE_FLOAT | VAR_TYPE_DOUBLE | VAR_TYPE_STRING
  | VAR_TYPE_BYTE_ARRAY
  deriving DecidableEq, Repr

/-- The members of the union with a value of their own. -/
inductive Scalar
  | bValue | cValue | i32Value | u32Value | i64Value | u64Value | fValue | dValue
  deriving DecidableEq, Repr

def Scalar.Val : Scalar → Type
  | bValue => Bool
  | cValue => UInt8
  | i32Value => Int32
  | u32Value => UInt32
  | i64Value => Int64
  | u64Value => UInt64
  | fValue => UInt32
  | dValue => UInt64

/-- The members that are pointers. -/
inductive Pointer
  | strValue | byteArrValue
  deriving DecidableEq, Repr

/-- The union, with the member that was stored last. -/
inductive unData
  | indeterminate
  | scalar (m : Scalar) (x : m.Val)
  | pointer (m : Pointer) (p : Option ℕ)

/-- A `std::string`, to which a `strValue` points, or a `std::vector<char>`. -/
structure Payload where
  type : Pointer
  content : List UInt8

structure CVariant where
  m_type : EM_DataType
  m_data : unData

/-- The variants that are alive, at their addresses, and what they allocate. -/
structure World where
  vars : ℕ → Option CVariant
  heap : Ledger Payload

/-! ### Accesses -/

def unData.get (m : Scalar) : unData → Except Fault m.Val
  | .scalar m' x => if h : m' = m then .ok (h ▸ x) else .error .undefined
  | _ => .error .undefined

def unData.ptr (m : Pointer) : unData → Except Fault (Option ℕ)
  | .pointer m' p => if m' = m then .ok p else .error .undefined
  | _ => .error .undefined

namespace World

/-- No variant, and nothing was ever allocated. -/
def start : World := ⟨fun _ => none, .empty⟩

def get (w : World) (this : ℕ) : Except Fault CVariant :=
  match w.vars this with
  | some v => .ok v
  | none => .error .undefined

def set (w : World) (this : ℕ) (v : CVariant) : World :=
  { w with vars := Function.update w.vars this (some v) }

/-- The storage of a variant is given back. -/
def drop (w : World) (this : ℕ) : World :=
  { w with vars := Function.update w.vars this none }

/-- `*p`. -/
def deref (w : World) (m : Pointer) : Option ℕ → Except Fault (List UInt8)
  | none => .error .undefined
  | some a => do
    let d ← w.heap.store.read a
    if d.type = m then .ok d.content else .error .undefined

def new (w : World) (d : Payload) : ℕ × World :=
  ((w.heap.alloc d).1, { w with heap := (w.heap.alloc d).2 })

/-- To `delete` a null pointer has no effect. -/
def delete (w : World) (m : Pointer) : Option ℕ → Except Fault World
  | none => .ok w
  | some a => do
    let _ ← w.deref m (some a)
    let g ← w.heap.release a
    .ok { w with heap := g }

end World

/-! ### Copies and moves -/

/-- What `resetCheck` does to a pointer. -/
def resetPointer (w : World) (this : ℕ) (v : CVariant) (m : Pointer) : Except Fault World := do
  let p ← v.m_data.ptr m
  let w ← w.delete m p
  .ok (w.set this { v with m_data := .pointer m none })

def resetCheck (w : World) (this : ℕ) : Except Fault World := do
  let v ← w.get this
  match v.m_type with
  | .VAR_TYPE_STRING => resetPointer w this v .strValue
  | .VAR_TYPE_BYTE_ARRAY => resetPointer w this v .byteArrValue
  | _ => .ok w

/-- What an assignment does to a pointer: the payload is copied. -/
def copyPointer (w : World) (this : ℕ) (v : CVariant) (m : Pointer) : Except Fault World := do
  let p ← v.m_data.ptr m
  let content ← w.deref m p
  let (a, w) := w.new ⟨m, content⟩
  .ok (w.set this ⟨v.m_type, .pointer m (some a)⟩)

/-- The copy of the tag and the switch of the assignment. -/
def copyFrom (w : World) (this var : ℕ) : Except Fault World := do
  let v ← w.get var
  match v.m_type with
  | .VAR_TYPE_INVALID | .VAR_TYPE_BOOL | .VAR_TYPE_CHAR | .VAR_TYPE_INT32
  | .VAR_TYPE_UINT32 | .VAR_TYPE_INT64 | .VAR_TYPE_UINT64 | .VAR_TYPE_FLOAT
  | .VAR_TYPE_DOUBLE => .ok (w.set this ⟨v.m_type, v.m_data⟩)
  | .VAR_TYPE_STRING => copyPointer w this v .strValue
  | .VAR_TYPE_BYTE_ARRAY => copyPointer w this v .byteArrValue

/-- `operator = (const CVariant& var)`. -/
def copyAssign (w : World) (this var : ℕ) : Except Fault World :=
  if this = var then .ok w
  else do
    let w ← resetCheck w this
    copyFrom w this var

/-- `CVariant(const CVariant& var)`: the assignment to a variant with no union yet. -/
def copyConstruct (w : World) (this var : ℕ) : Except Fault World :=
  copyAssign (w.set this ⟨.VAR_TYPE_INVALID, .indeterminate⟩) this var

/-- What a move does to a pointer: the payload changes hands. -/
def movePointer (w : World) (this var : ℕ) (m_type : EM_DataType) (m : Pointer) :
    Except Fault World := do
  let v ← w.get var
  let p ← v.m_data.ptr m
  let w := w.set var { v with m_data := .pointer m none }
  .ok (w.set this ⟨m_type, .pointer m p⟩)

/-- The exchange of the tags and the switch, which are the same in both moves. -/
def moveFrom (w : World) (this var : ℕ) : Except Fault World := do
  let v ← w.get var
  let w := w.set var { v with m_type := .VAR_TYPE_INVALID }
  match v.m_type with
  | .VAR_TYPE_INVALID | .VAR_TYPE_BOOL | .VAR_TYPE_CHAR | .VAR_TYPE_INT32
  | .VAR_TYPE_UINT32 | .VAR_TYPE_INT64 | .VAR_TYPE_UINT64 | .VAR_TYPE_FLOAT
  | .VAR_TYPE_DOUBLE => .ok (w.set this ⟨v.m_type, v.m_data⟩)
  | .VAR_TYPE_STRING => movePointer w this var v.m_type .strValue
  | .VAR_TYPE_BYTE_ARRAY => movePointer w this var v.m_type .byteArrValue

/-- `CVariant(CVariant&& var)`. -/
def moveConstruct (w : World) (this var : ℕ) : Except Fault World := moveFrom w this var

/-- `operator = (CVariant&& var)`, which returns by value: `ret` is a copy of the target. -/
def moveAssign (w : World) (this var ret : ℕ) : Except Fault World := do
  let w ← if this = var then .ok w
    else do
      let w ← resetCheck w this
      moveFrom w this var
  copyConstruct w ret this

/-- `~CVariant`. -/
def destroy (w : World) (this : ℕ) : Except Fault World := do
  let w ← resetCheck w this
  .ok (w.drop this)

/-! ### Constructors -/

/-- `CVariant()`. -/
def construct (w : World) (this : ℕ) : World :=
  w.set this ⟨.VAR_TYPE_INVALID, .scalar .i64Value (0 : Int64)⟩

def constructScalar (tag : EM_DataType) (m : Scalar) (w : World) (this : ℕ) (x : m.Val) : World :=
  w.set this ⟨tag, .scalar m x⟩

def constructBool := constructScalar .VAR_TYPE_BOOL .bValue
def constructChar := constructScalar .VAR_TYPE_CHAR .cValue
def constructInt32 := constructScalar .VAR_TYPE_INT32 .i32Value
def constructUint32 := constructScalar .VAR_TYPE_UINT32 .u32Value
def constructInt64 := constructScalar .VAR_TYPE_INT64 .i64Value
def constructUint64 := constructScalar .VAR_TYPE_UINT64 .u64Value
def constructFloat := constructScalar .VAR_TYPE_FLOAT .fValue
def constructDouble := constructScalar .VAR_TYPE_DOUBLE .dValue

def constructPointer (tag : EM_DataType) (m : Pointer) (w : World) (this : ℕ)
    (content : List UInt8) : World :=
  let (a, w) := w.new ⟨m, content⟩
  w.set this ⟨tag, .pointer m (some a)⟩

/-- From a `const std::string&`, and from a `std::string&&`. -/
def constructString := constructPointer .VAR_TYPE_STRING .strValue

/-- From a `const std::vector<char>&`, and from a `std::vector<char>&&`. -/
def constructByteArray := constructPointer .VAR_TYPE_BYTE_ARRAY .byteArrValue

/-- From a `const char*` with the memory behind it. -/
def constructSz (w : World) (this : ℕ) (szValue : List UInt8) : Except Fault World :=
  if szValue.contains 0 then .ok (constructString w this (szValue.takeWhile (· ≠ 0)))
  else .error .undefined

/-! ### Setters -/

def setScalar (tag : EM_DataType) (m : Scalar) (w : World) (this : ℕ) (x : m.Val) :
    Except Fault World := do
  let w ← resetCheck w this
  .ok (w.set this ⟨tag, .scalar m x⟩)

def setBoolData := setScalar .VAR_TYPE_BOOL .bValue
def setCharData := setScalar .VAR_TYPE_CHAR .cValue
def setInt32Data := setScalar .VAR_TYPE_INT32 .i32Value
def setUint32Data := setScalar .VAR_TYPE_UINT32 .u32Value
def setInt64Data := setScalar .VAR_TYPE_INT64 .i64Value
def setUint64Data := setScalar .VAR_TYPE_UINT64 .u64Value
def setFloatData := setScalar .VAR_TYPE_FLOAT .fValue
def setDoubleData := setScalar .VAR_TYPE_DOUBLE .dValue

def setPointer (tag : EM_DataType) (m : Pointer) (w : World) (this : ℕ) (content : List UInt8) :
    Except Fault World := do
  let w ← resetCheck w this
  let (a, w) := w.new ⟨m, content⟩
  .ok (w.set this ⟨tag, .pointer m (some a)⟩)

def setStringData := setPointer .VAR_TYPE_STRING .strValue
def setByteArrayData := setPointer .VAR_TYPE_BYTE_ARRAY .byteArrValue

/-! ### Getters -/

/-- The value, or the text of the `std::logic_error`. -/
def getScalar (tag : EM_DataType) (what : String) (m : Scalar) (w : World) (this : ℕ) :
    Except Fault (Except String m.Val) := do
  let v ← w.get this
  if tag ≠ v.m_type then .ok (.error what)
  else do
    let x ← v.m_data.get m
    .ok (.ok x)

def getBoolData := getScalar .VAR_TYPE_BOOL "variant m_type is not bool!" .bValue
def getCharData := getScalar .VAR_TYPE_CHAR "variant m_type is not char!" .cValue
def getInt32Data := getScalar .VAR_TYPE_INT32 "variant m_type is not int32!" .i32Value
def getUint32Data := getScalar .VAR_TYPE_UINT32 "variant m_type is not uint32!" .u32Value
def getInt64Data := getScalar .VAR_TYPE_INT64 "variant m_type is not int64!" .i64Value
def getUint64Data := getScalar .VAR_TYPE_UINT64 "variant m_type is not uint64!" .u64Value
def getFloatData := getScalar .VAR_TYPE_FLOAT "variant m_type is not float!" .fValue
def getDoubleData := getScalar .VAR_TYPE_DOUBLE "variant m_type is not double!" .dValue

def getPointer (tag : EM_DataType) (what : String) (m : Pointer) (w : World) (this : ℕ) :
    Except Fault (Except String (List UInt8)) := do
  let v ← w.get this
  if tag ≠ v.m_type then .ok (.error what)
  else do
    let p ← v.m_data.ptr m
    let content ← w.deref m p
    .ok (.ok content)

def getStringData := getPointer .VAR_TYPE_STRING "variant m_type is not string!" .strValue
def getByteArrayData := getPointer .VAR_TYPE_BYTE_ARRAY "variant m_type is not array!" .byteArrValue

def getType (w : World) (this : ℕ) : Except Fault EM_DataType := do
  let v ← w.get this
  .ok v.m_type

/-! ### The functions of a member -/

namespace Scalar

def construct : (m : Scalar) → World → ℕ → m.Val → World
  | bValue => constructBool
  | cValue => constructChar
  | i32Value => constructInt32
  | u32Value => constructUint32
  | i64Value => constructInt64
  | u64Value => constructUint64
  | fValue => constructFloat
  | dValue => constructDouble

def setData : (m : Scalar) → World → ℕ → m.Val → Except Fault World
  | bValue => setBoolData
  | cValue => setCharData
  | i32Value => setInt32Data
  | u32Value => setUint32Data
  | i64Value => setInt64Data
  | u64Value => setUint64Data
  | fValue => setFloatData
  | dValue => setDoubleData

def getData : (m : Scalar) → World → ℕ → Except Fault (Except String m.Val)
  | bValue => getBoolData
  | cValue => getCharData
  | i32Value => getInt32Data
  | u32Value => getUint32Data
  | i64Value => getInt64Data
  | u64Value => getUint64Data
  | fValue => getFloatData
  | dValue => getDoubleData

end Scalar

namespace Pointer

def construct : Pointer → World → ℕ → List UInt8 → World
  | strValue => constructString
  | byteArrValue => constructByteArray

def setData : Pointer → World → ℕ → List UInt8 → Except Fault World
  | strValue => setStringData
  | byteArrValue => setByteArrayData

def getData : Pointer → World → ℕ → Except Fault (Except String (List UInt8))
  | strValue => getStringData
  | byteArrValue => getByteArrayData

end Pointer

/-! ### Calls -/

/-- What a program does with variants; `this` and `ret` of a construction have no variant yet. -/
inductive Call
  | construct (this : ℕ)
  | constructScalar (this : ℕ) (m : Scalar) (x : m.Val)
  | constructPointer (this : ℕ) (m : Pointer) (content : List UInt8)
  | constructSz (this : ℕ) (szValue : List UInt8)
  | copyConstruct (this var : ℕ)
  | moveConstruct (this var : ℕ)
  | destroy (this : ℕ)
  | copyAssign (this var : ℕ)
  | moveAssign (this var ret : ℕ)
  | setScalar (this : ℕ) (m : Scalar) (x : m.Val)
  | setPointer (this : ℕ) (m : Pointer) (content : List UInt8)
  | getScalar (this : ℕ) (m : Scalar)
  | getPointer (this : ℕ) (m : Pointer)
  | getType (this : ℕ)

/-- What a call gives back. -/
inductive Result
  | nothing
  | scalar (m : Scalar) (x : m.Val)
  | content (m : Pointer) (content : List UInt8)
  | type (tag : EM_DataType)
  | logic_error (what : String)

def Result.ofExcept {α : Type} (f : α → Result) : Except String α → Result
  | .ok x => f x
  | .error what => .logic_error what

def step (w : World) : Call → Except Fault (Result × World)
  | .construct this => .ok (.nothing, construct w this)
  | .constructScalar this m x => .ok (.nothing, m.construct w this x)
  | .constructPointer this m content => .ok (.nothing, m.construct w this content)
  | .constructSz this szValue => return (.nothing, ← constructSz w this szValue)
  | .copyConstruct this var => return (.nothing, ← copyConstruct w this var)
  | .moveConstruct this var => return (.nothing, ← moveConstruct w this var)
  | .destroy this => return (.nothing, ← destroy w this)
  | .copyAssign this var => return (.nothing, ← copyAssign w this var)
  | .moveAssign this var ret => return (.nothing, ← moveAssign w this var ret)
  | .setScalar this m x => return (.nothing, ← m.setData w this x)
  | .setPointer this m content => return (.nothing, ← m.setData w this content)
  | .getScalar this m => return (.ofExcept (.scalar m) (← m.getData w this), w)
  | .getPointer this m => return (.ofExcept (.content m) (← m.getData w this), w)
  | .getType this => return (.type (← getType w this), w)

/-- The calls one after another, with what each of them gives back. -/
def run (w : World) : List Call → Except Fault (List Result × World)
  | [] => .ok ([], w)
  | c :: cs => do
    let (r, w) ← step w c
    let (rs, w) ← run w cs
    .ok (r :: rs, w)

end MmrService.Variant
