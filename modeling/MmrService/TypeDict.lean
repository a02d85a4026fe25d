import MmrService.Lib.Ownership

/-!
`mmrComm::VarTypeDict`: a value of any type for each tag, the types known to the compiler and
the values behind untyped pointers.

The templates are functions on lists of types, with no result where a program that instantiates
them does not compile. To read an object as another type than its own is undefined.
-/

namespace MmrService.TypeDict

/-- The types of C++, as far as `std::decay_t` looks into them. -/
inductive CType
  | named (name : String)
  | pointer (T : CType)
  | const (T : CType)
  | volatile (T : CType)
  | lvalueRef (T : CType)
  | rvalueRef (T : CType)
  | array (T : CType) (bound : Option ℕ)
  | function (signature : String)
  deriving DecidableEq, Repr

namespace CType

def NullParameter : CType := named "NullParameter"

def removeReference : CType → CType
  | lvalueRef T => T
  | rvalueRef T => T
  | T => T

def removeCv : CType → CType
  | const T => removeCv T
  | volatile T => removeCv T
  | T => T

/-- `std::decay_t`. -/
def decay (T : CType) : CType :=
  match removeReference T with
  | array U _ => pointer U
  | function signature => pointer (function signature)
  | U => removeCv U

end CType

open CType

/-! ### Lists of types -/

section Templates

variable {Tag : Type} [DecidableEq Tag]

def IsTypeInList (T : Tag) : List Tag → Bool
  | [] => false
  | U :: Args => if T = U then true else IsTypeInList T Args

/-- There is no definition for no types at all. -/
def HasDuplicateTypes : List Tag → Option Bool
  | [] => none
  | [_] => some false
  | T :: U :: Args =>
    if IsTypeInList T (U :: Args) then some true else HasDuplicateTypes (U :: Args)

def Tag2ID_ (TFindTag : Tag) (N : ℕ) : List Tag → Option ℕ
  | [] => none
  | TCurTag :: TTags => if TFindTag = TCurTag then some N else Tag2ID_ TFindTag (N + 1) TTags

def Tag2ID (TFindTag : Tag) (TTags : List Tag) : Option ℕ := Tag2ID_ TFindTag 0 TTags

def Pos2Type : ℕ → List CType → Option CType
  | _, [] => none
  | Pos, TCur :: TTags => if Pos = 0 then some TCur else Pos2Type (Pos - 1) TTags

def Create_ : ℕ → List CType → List CType
  | 0, T => T
  | N + 1, T => Create_ N (NullParameter :: T)

def NewTupleType_ (TVal : CType) (N M : ℕ) (TModifiedTypes : List CType) :
    List CType → Option (List CType)
  | [] => none
  | TCurType :: TRemainTypes =>
    if M = N then some (TModifiedTypes ++ TVal :: TRemainTypes)
    else NewTupleType_ TVal N (M + 1) (TModifiedTypes ++ [TCurType]) TRemainTypes

def NewTupleType (TVal : CType) (TagPos : ℕ) (TRemainTypes : List CType) : Option (List CType) :=
  NewTupleType_ TVal TagPos 0 [] TRemainTypes

end Templates

/-! ### Pointers and objects -/

/-- An object, with the type it was created as. -/
abbrev Object (Val : CType → Type) := (T : CType) × Val T

abbrev Heap (Val : CType → Type) := Ledger (Object Val)

inductive Failure
  /-- There is no program to run. -/
  | illFormed
  | fault (f : Fault)
  deriving DecidableEq, Repr

variable {α : Type} {Val : CType → Type}

/-- What the compiler computes. -/
def static : Option α → Except Failure α
  | some a => .ok a
  | none => .error .illFormed

def checked : Except Fault α → Except Failure α
  | .ok a => .ok a
  | .error f => .error (.fault f)

/-- A `std::shared_ptr<void>`, which is never copied here, gives up its object. -/
def reset (g : Heap Val) : Option ℕ → Except Failure (Heap Val)
  | none => .ok g
  | some a => checked (g.release a)

/-! ### `Values` -/

/-- An object of the class `Values<TTypes...>`. -/
structure Values where
  TTypes : List CType
  m_tuple : List (Option ℕ)
  length_eq : m_tuple.length = TTypes.length

/-- The loop of the constructor from `i` on, with what it leaves of its argument. -/
def moveLoop : ℕ → ℕ → List (Option ℕ) → List (Option ℕ) →
    List (Option ℕ) × List (Option ℕ)
  | 0, _, m_tuple, input => (m_tuple, input)
  | n + 1, i, m_tuple, input =>
    moveLoop n (i + 1) (m_tuple.set i (input.getD i none)) (input.set i none)

lemma length_moveLoop (n i : ℕ) (m_tuple input : List (Option ℕ)) :
    (moveLoop n i m_tuple input).1.length = m_tuple.length ∧
      (moveLoop n i m_tuple input).2.length = input.length := by
  induction n generalizing i m_tuple input with
  | zero => exact ⟨rfl, rfl⟩
  | succ n ih =>
    obtain ⟨hm, hinput⟩ := ih (i + 1) (m_tuple.set i (input.getD i none)) (input.set i none)
    rw [List.length_set] at hm hinput
    exact ⟨hm, hinput⟩

namespace Values

/-- `Values()`: null pointers. -/
def init (TTypes : List CType) : Values :=
  ⟨TTypes, List.replicate TTypes.length none, List.length_replicate⟩

/-- `new_type(std::move(m_tuple))`, for an array of as many pointers: `this`, whose pointers
were moved from, and the new object. -/
def moved (this : Values) (new_type : List CType) : Option (Values × Values) :=
  if this.m_tuple.length = new_type.length then
    some
      ({ TTypes := this.TTypes
         m_tuple := (moveLoop new_type.length 0 (init new_type).m_tuple this.m_tuple).2
         length_eq := (length_moveLoop ..).2.trans this.length_eq },
        { TTypes := new_type
          m_tuple := (moveLoop new_type.length 0 (init new_type).m_tuple this.m_tuple).1
          length_eq := (length_moveLoop ..).1.trans (init new_type).length_eq })
  else none

/-- `m_tuple[TagPos] = p`. -/
def setAt (this : Values) (TagPos : ℕ) (p : Option ℕ) : Values :=
  { this with
    m_tuple := this.m_tuple.set TagPos p
    length_eq := List.length_set.trans this.length_eq }

/-- `~Values`. -/
def destroy (this : Values) (g : Heap Val) : Except Failure (Heap Val) :=
  this.m_tuple.foldlM reset g

end Values

/-- A call `Set<tag>(val)` with `val` deduced as a `TVal`; `val` is what `std::forward<TVal>(val)`
makes of an object of the decayed type. -/
structure Call (Tag : Type) (Val : CType → Type) where
  tag : Tag
  TVal : CType
  val : Val TVal.decay

/-- What `std::make_shared` creates for the call. -/
def Call.object {Tag : Type} (c : Call Tag Val) : Object Val := ⟨c.TVal.decay, c.val⟩

section Dict

variable {Tag : Type} [DecidableEq Tag] (TParameters : List Tag)

/-- The dictionary and what it has allocated. -/
structure State (Val : CType → Type) where
  heap : Heap Val
  dict : Values

/-- The class is checked for duplicate tags. -/
def Create : Except Failure Values := do
  let duplicate ← static (HasDuplicateTypes TParameters)
  if duplicate then .error .illFormed
  else .ok (.init (Create_ TParameters.length []))

/-- `Set`: what is left of the object, the new one, and the heap. -/
def Values.Set (this : Values) (g : Heap Val) (c : Call Tag Val) :
    Except Failure (Values × Values × Heap Val) := do
  let TagPos ← static (Tag2ID c.tag TParameters)
  let rawVal := c.TVal.decay
  let (a, g) := g.alloc ⟨rawVal, c.val⟩
  match this.m_tuple[TagPos]? with
  | none => .error (.fault .undefined)
  | some p =>
    let g ← reset g p
    let this := this.setAt TagPos (some a)
    let new_type ← static (NewTupleType rawVal TagPos this.TTypes)
    let (this, new) ← static (this.moved new_type)
    .ok (this, new, g)

/-- `Get`: the object that the reference of the type of the position refers to. -/
def Values.Get (this : Values) (g : Heap Val) (tag : Tag) : Except Failure (Object Val) := do
  let TagPos ← static (Tag2ID tag TParameters)
  let AimType ← static (Pos2Type TagPos this.TTypes)
  match this.m_tuple[TagPos]? with
  | some (some tmp) =>
    let res ← checked (g.store.read tmp)
    if res.1 = AimType then .ok res else .error (.fault .undefined)
  | _ => .error (.fault .undefined)

/-- A call on a temporary, which is destroyed when its values have been moved on. -/
def State.Set (s : State Val) (c : Call Tag Val) : Except Failure (State Val) := do
  let (old, dict, g) ← s.dict.Set TParameters s.heap c
  let g ← old.destroy g
  .ok ⟨g, dict⟩

def State.Get (s : State Val) (tag : Tag) : Except Failure (Object Val) :=
  s.dict.Get TParameters s.heap tag

/-- `Create()` and a chain of calls. -/
def run (calls : List (Call Tag Val)) : Except Failure (State Val) := do
  let dict ← Create TParameters
  calls.foldlM (State.Set TParameters) ⟨.empty, dict⟩

end Dict

end MmrService.TypeDict
