import MmrService.Variant

/-!
Variants are independent tagged values.

Each variant that is alive stands for a value, which its own calls change and no other's, apart
from a variant that is moved from. What a string or a byte array allocates has one owner until
it is released.
-/

namespace MmrService.Variant

/-! ### The values that variants stand for -/

inductive Value
  | invalid
  | scalar (m : Scalar) (x : m.Val)
  | payload (m : Pointer) (content : List UInt8)

namespace Scalar

def tag : Scalar → EM_DataType
  | bValue => .VAR_TYPE_BOOL
  | cValue => .VAR_TYPE_CHAR
  | i32Value => .VAR_TYPE_INT32
  | u32Value => .VAR_TYPE_UINT32
  | i64Value => .VAR_TYPE_INT64
  | u64Value => .VAR_TYPE_UINT64
  | fValue => .VAR_TYPE_FLOAT
  | dValue => .VAR_TYPE_DOUBLE

/-- What an error calls the type. -/
def typeName : Scalar → String
  | bValue => "bool"
  | cValue => "char"
  | i32Value => "int32"
  | u32Value => "uint32"
  | i64Value => "int64"
  | u64Value => "uint64"
  | fValue => "float"
  | dValue => "double"

end Scalar

namespace Pointer

def tag : Pointer → EM_DataType
  | strValue => .VAR_TYPE_STRING
  | byteArrValue => .VAR_TYPE_BYTE_ARRAY

def typeName : Pointer → String
  | strValue => "string"
  | byteArrValue => "array"

end Pointer

/-- The text of the error of a getter. -/
def notOfType (typeName : String) : String := "variant m_type is not " ++ typeName ++ "!"

namespace Value

def tag : Value → EM_DataType
  | invalid => .VAR_TYPE_INVALID
  | scalar m _ => m.tag
  | payload m _ => m.tag

def getScalar (m : Scalar) : Value → Result
  | scalar m' x => if m' = m then .scalar m' x else .logic_error (notOfType m.typeName)
  | _ => .logic_error (notOfType m.typeName)

def getPointer (m : Pointer) : Value → Result
  | payload m' content =>
    if m' = m then .content m' content else .logic_error (notOfType m.typeName)
  | _ => .logic_error (notOfType m.typeName)

end Value

/-- The value of each variant that is alive. -/
abbrev Values := ℕ → Option Value

namespace Values

def assign (vs : Values) (this : ℕ) (x : Value) : Values := Function.update vs this (some x)

/-- A new variant, where there is none. -/
def make (vs : Values) (this : ℕ) (x : Value) : Option (Result × Values) :=
  match vs this with
  | none => some (.nothing, vs.assign this x)
  | some _ => none

/-- What a call does to the values, where the variants it uses are alive. -/
def step (vs : Values) : Call → Option (Result × Values)
  | .construct this => vs.make this .invalid
  | .constructScalar this m x => vs.make this (.scalar m x)
  | .constructPointer this m content => vs.make this (.payload m content)
  | .constructSz this szValue =>
    if szValue.contains 0 then vs.make this (.payload .strValue (szValue.takeWhile (· ≠ 0))) else none
  | .copyConstruct this var => do
    let x ← vs var
    vs.make this x
  | .moveConstruct this var => do
    let x ← vs var
    (vs.assign var .invalid).make this x
  | .destroy this => do
    let _ ← vs this
    some (.nothing, Function.update vs this none)
  | .copyAssign this var => do
    let _ ← vs this
    let x ← vs var
    some (.nothing, vs.assign this x)
  | .moveAssign this var ret => do
    let _ ← vs this
    let x ← vs var
    (if this = var then vs else (vs.assign this x).assign var .invalid).make ret x
  | .setScalar this m x => do
    let _ ← vs this
    some (.nothing, vs.assign this (.scalar m x))
  | .setPointer this m content => do
    let _ ← vs this
    some (.nothing, vs.assign this (.payload m content))
  | .getScalar this m => do
    let x ← vs this
    some (x.getScalar m, vs)
  | .getPointer this m => do
    let x ← vs this
    some (x.getPointer m, vs)
  | .getType this => do
    let x ← vs this
    some (.type x.tag, vs)

def run (vs : Values) : List Call → Option (List Result × Values)
  | [] => some ([], vs)
  | c :: cs => do
    let (r, vs) ← step vs c
    let (rs, vs) ← run vs cs
    some (r :: rs, vs)

end Values

/-! ### What a variant holds -/

/-- The address of the payload that the destructor releases. -/
def CVariant.owned (v : CVariant) : Option ℕ :=
  match v.m_type, v.m_data with
  | .VAR_TYPE_STRING, .pointer .strValue p => p
  | .VAR_TYPE_BYTE_ARRAY, .pointer .byteArrValue p => p
  | _, _ => none

def World.owner (w : World) (i : ℕ) : Option ℕ := (w.vars i).bind CVariant.owned

/-- The variant has the tag and the content of the value. -/
inductive CVariant.Holds (h : NodeStore Payload) : CVariant → Value → Prop
  | invalid (d : unData) : Holds h ⟨.VAR_TYPE_INVALID, d⟩ .invalid
  | scalar (m : Scalar) (x : m.Val) : Holds h ⟨m.tag, .scalar m x⟩ (.scalar m x)
  | payload (m : Pointer) (a : ℕ) (content : List UInt8) (ha : h.nodes a = some ⟨m, content⟩) :
    Holds h ⟨m.tag, .pointer m (some a)⟩ (.payload m content)

/-- The world is that of the values. -/
structure Independent (w : World) (vs : Values) : Prop where
  alive : ∀ i, w.vars i = none ↔ vs i = none
  tag : ∀ i v x, w.vars i = some v → vs i = some x → v.m_type = x.tag
  content : ∀ i v x, w.vars i = some v → vs i = some x → v.Holds w.heap.store x
  scalar_throws : ∀ i v (m : Scalar), w.vars i = some v →
    ((∃ what, m.getData w i = .ok (.error what)) ↔ v.m_type ≠ m.tag)
  pointer_throws : ∀ i v (m : Pointer), w.vars i = some v →
    ((∃ what, m.getData w i = .ok (.error what)) ↔ v.m_type ≠ m.tag)
  /-- A payload that is alive is one variant's. -/
  owner : ∀ a d, w.heap.store.nodes a = some d → ∃! i, w.owner i = some a
  /-- What a variant owns was not released. -/
  kept : ∀ i a, w.owner i = some a → w.heap.released.count a = 0
  /-- What was allocated and is no variant's any more was released once. -/
  released : ∀ a < w.heap.store.next, (∀ i, w.owner i ≠ some a) → w.heap.released.count a = 1

/-! ### The functions of a member are those of its tag -/

lemma Scalar.construct_eq (m : Scalar) : m.construct = constructScalar m.tag m := by
  cases m <;> rfl

lemma Scalar.setData_eq (m : Scalar) : m.setData = setScalar m.tag m := by
  cases m <;> rfl

lemma Scalar.getData_eq (m : Scalar) :
    m.getData = getScalar m.tag (notOfType m.typeName) m := by
  cases m <;> rfl

lemma Pointer.construct_eq (m : Pointer) : m.construct = constructPointer m.tag m := by
  cases m <;> rfl

lemma Pointer.setData_eq (m : Pointer) : m.setData = setPointer m.tag m := by
  cases m <;> rfl

lemma Pointer.getData_eq (m : Pointer) :
    m.getData = getPointer m.tag (notOfType m.typeName) m := by
  cases m <;> rfl

end MmrService.Variant
