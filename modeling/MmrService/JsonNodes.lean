import MmrService.JsonValue
import MmrService.Lib.NodeStore

/-!
`Json::Value` on a store of nodes: a value is a cell with a type and a union, and what a
container or a string owns are nodes of their own.

The members of a map are in the order of their keys. A destructor or a copy goes as deep as the
tree it meets, which `fuel` bounds.
-/

namespace MmrService.Json

inductive emJsonType
  | Null | Object | Array | String | Floating | Integral | Boolean
  deriving DecidableEq, Repr

/-- The union; `List`, `Map` and `String` are pointers. -/
inductive BackingData (D : Type)
  | pointer (p : Option ℕ)
  | Float (Float : D)
  | Int (Int : ℤ)
  | Bool (Bool : Bool)

/-- The members of a `Value`. -/
structure Cell (D : Type) where
  Internal : BackingData D
  JSONType : emJsonType

/-- A `Value`, or what its pointer points to; the values of a container are nodes too. -/
inductive Node (D : Type)
  | value (c : Cell D)
  | map (Map : List (List UInt8 × ℕ))
  | list (List : List ℕ)
  | string (String : List UInt8)

abbrev Store (D : Type) := NodeStore (Node D)

variable {D : Type}

namespace Store

/-! ### Reading a node -/

def value (h : Store D) (a : ℕ) : Except Fault (Cell D) := do
  match ← h.read a with
  | .value c => .ok c
  | _ => .error .undefined

def map (h : Store D) (p : ℕ) : Except Fault (List (List UInt8 × ℕ)) := do
  match ← h.read p with
  | .map Map => .ok Map
  | _ => .error .undefined

def list (h : Store D) (p : ℕ) : Except Fault (List ℕ) := do
  match ← h.read p with
  | .list List => .ok List
  | _ => .error .undefined

def string (h : Store D) (p : ℕ) : Except Fault (List UInt8) := do
  match ← h.read p with
  | .string String => .ok String
  | _ => .error .undefined

end Store

/-- The pointer of the union. -/
def BackingData.get : BackingData D → Except Fault (Option ℕ)
  | .pointer p => .ok p
  | _ => .error .undefined

/-- The pointer of the union, followed. -/
def BackingData.deref : BackingData D → Except Fault ℕ
  | .pointer (some p) => .ok p
  | _ => .error .undefined

/-! ### Destruction -/

/-- The values of a container, each destroyed and its node released. -/
def destroyAll (clear : Store D → ℕ → Except Fault (Store D)) (h : Store D) :
    List ℕ → Except Fault (Store D)
  | [] => .ok h
  | a :: as => do
    let h ← clear h a
    let h ← h.release a
    destroyAll clear h as

/-- `ClearInternal`, which is all that `~Value` does; to `delete` a null pointer has no effect. -/
def ClearInternal : ℕ → Store D → ℕ → Except Fault (Store D)
  | 0, _, _ => .error .outOfFuel
  | fuel + 1, h, this => do
    let c ← Store.value h this
    match c.JSONType with
    | .Object =>
      match ← c.Internal.get with
      | none => .ok h
      | some p =>
        let Map ← Store.map h p
        let h ← destroyAll (ClearInternal fuel) h (Map.map Prod.snd)
        h.release p
    | .Array =>
      match ← c.Internal.get with
      | none => .ok h
      | some p =>
        let List ← Store.list h p
        let h ← destroyAll (ClearInternal fuel) h List
        h.release p
    | .String =>
      match ← c.Internal.get with
      | none => .ok h
      | some p => h.release p
    | _ => .ok h

/-! ### Copies -/

/-- The values of a container, each copied to a node of its own. -/
def copyAll (copy : Store D → ℕ → Except Fault (Cell D × Store D)) (h : Store D) :
    List ℕ → Except Fault (List ℕ × Store D)
  | [] => .ok ([], h)
  | b :: bs => do
    let (c, h) ← copy h b
    let (a, h) := h.alloc (.value c)
    let (as, h) ← copyAll copy h bs
    .ok (a :: as, h)

/-- `Value(const Value &other)`: the members of the copy. -/
def copyConstruct : ℕ → Store D → ℕ → Except Fault (Cell D × Store D)
  | 0, _, _ => .error .outOfFuel
  | fuel + 1, h, other => do
    let c ← Store.value h other
    match c.JSONType with
    | .Object =>
      let p ← c.Internal.deref
      let Map ← Store.map h p
      let (as, h) ← copyAll (copyConstruct fuel) h (Map.map Prod.snd)
      let (q, h) := h.alloc (.map ((Map.map Prod.fst).zip as))
      .ok (⟨.pointer (some q), .Object⟩, h)
    | .Array =>
      let p ← c.Internal.deref
      let List ← Store.list h p
      let (as, h) ← copyAll (copyConstruct fuel) h List
      let (q, h) := h.alloc (.list as)
      .ok (⟨.pointer (some q), .Array⟩, h)
    | .String =>
      let p ← c.Internal.deref
      let String ← Store.string h p
      let (q, h) := h.alloc (.string String)
      .ok (⟨.pointer (some q), .String⟩, h)
    | _ => .ok (c, h)

/-! ### Assignments -/

/-- `operator = (const Value &other)`, whose cases are those of the copy constructor. -/
def copyAssign (fuel : ℕ) (h : Store D) (this other : ℕ) : Except Fault (Store D) :=
  if this = other then .ok h
  else do
    let h ← ClearInternal fuel h this
    let (c, h) ← copyConstruct fuel h other
    h.put this (.value c)

/-- `operator = (Value&& other)`. -/
def moveAssign (fuel : ℕ) (h : Store D) (this other : ℕ) : Except Fault (Store D) :=
  if this = other then .ok h
  else do
    let h ← ClearInternal fuel h this
    let c ← Store.value h other
    let h ← h.put this (.value c)
    h.put other (.value ⟨.pointer none, .Null⟩)

end MmrService.Json
