import Mathlib.Data.Nat.Basic
import Mathlib.Logic.Function.Basic
import Mathlib.Order.Lattice

/-!
The binary heap of the event loop's timers: nodes that point to their parent and children.

A function reads the node that the path of bits leads to, and has no result where it follows a
null pointer, where its assertion fails, where the count of the elements overflows, or where a
loop has not come to its end after as many rounds as the heap has elements.
-/

namespace MmrService.Heap

/-- The address of a node, or a null pointer. -/
abbrev Ptr := Option ℕ

@[ext]
structure heap_node where
  parent : Ptr
  left : Ptr
  right : Ptr
  deriving DecidableEq

/-- The largest `int`. -/
def INT_MAX : ℕ := 2147483647

/-- The heap, and the nodes in memory. The member `nelts` is an `int`. -/
structure heap where
  root : Ptr
  nelts : ℕ
  nodes : ℕ → heap_node

namespace heap

variable (h : heap)

/-- `p->parent = v` -/
def setParent (p : ℕ) (v : Ptr) : heap :=
  { h with nodes := Function.update h.nodes p { h.nodes p with parent := v } }

/-- `p->left = v` -/
def setLeft (p : ℕ) (v : Ptr) : heap :=
  { h with nodes := Function.update h.nodes p { h.nodes p with left := v } }

/-- `p->right = v` -/
def setRight (p : ℕ) (v : Ptr) : heap :=
  { h with nodes := Function.update h.nodes p { h.nodes p with right := v } }

/-- `if (p) p->parent = v` -/
def adopt (p v : Ptr) : heap := p.elim h fun p => h.setParent p v

/-- What points to `s` from the parent `pp` of `s`, or from the heap, points to `r`. -/
def relink (pp : Ptr) (s : ℕ) (r : Ptr) : heap :=
  pp.elim { h with root := r } fun pp =>
    if (h.nodes pp).left = some s then h.setLeft pp r
    else if (h.nodes pp).right = some s then h.setRight pp r
    else h

end heap

def heap_init : heap := ⟨none, 0, fun _ => ⟨none, none, none⟩⟩

/-- replace s with r -/
def heap_replace (h : heap) (s r : ℕ) : heap :=
  let h := h.relink (h.nodes s).parent s r
  let h := h.adopt (h.nodes s).left r
  let h := h.adopt (h.nodes s).right r
  let h := h.setParent r (h.nodes s).parent
  let h := h.setLeft r (h.nodes s).left
  h.setRight r (h.nodes s).right

def heap_swap (h : heap) (parent child : ℕ) : Option heap :=
  if (h.nodes child).parent = some parent ∧
      ((h.nodes parent).left = some child ∨ (h.nodes parent).right = some child) then
    let pparent := (h.nodes parent).parent
    let lchild := (h.nodes child).left
    let rchild := (h.nodes child).right
    let h := h.relink pparent parent child
    let h := h.adopt lchild parent
    let h := h.adopt rchild parent
    let h := h.setParent child pparent
    let left := (h.nodes parent).left = some child
    let sibling := if left then (h.nodes parent).right else (h.nodes parent).left
    let h := h.setLeft child (if left then some parent else sibling)
    let h := h.setRight child (if left then sibling else some parent)
    let h := h.adopt sibling child
    let h := h.setParent parent child
    let h := h.setLeft parent lchild
    some (h.setRight parent rchild)
  else none

/-- `for (d = 0, n = nelts; n >= 2; ++d, n>>=1) path = (path << 1) | (n & 1);`, which has fewer
rounds than `nelts`. -/
def getPath : ℕ → ℕ → ℕ → ℕ → ℕ × ℕ
  | 0, _, path, d => (path, d)
  | fuel + 1, n, path, d =>
    if 2 ≤ n then getPath fuel (n >>> 1) (path <<< 1 ||| n &&& 1) (d + 1) else (path, d)

/-- `while (d > 1) parent = (path & 1) ? parent->right : parent->left, ..` -/
def descend (h : heap) : ℕ → ℕ → Ptr → Option (ℕ × Ptr)
  | d + 2, path, parent => do
    let p ← parent
    descend h (d + 1) (path >>> 1)
      (if path &&& 1 = 1 then (h.nodes p).right else (h.nodes p).left)
  | _, path, parent => some (path, parent)

variable {κ : Type*} [LinearOrder κ]

/-- Exchange `node` with its parent while `compare` has it before the parent. -/
def siftUp (key : ℕ → κ) : ℕ → heap → ℕ → Option heap
  | 0, _, _ => none
  | fuel + 1, h, node =>
    match (h.nodes node).parent with
    | none => some h
    | some parent =>
      if key node < key parent then do
        let h ← heap_swap h parent node
        siftUp key fuel h node
      else some h

/-- `if (c) est = heap->compare(est, c) ? est : c;` -/
def pick (key : ℕ → κ) (est : ℕ) (c : Ptr) : ℕ :=
  c.elim est fun c => if key est < key c then est else c

/-- Exchange `v` with one of its children until `compare` has it before both. -/
def siftDown (key : ℕ → κ) : ℕ → heap → ℕ → Option heap
  | 0, _, _ => none
  | fuel + 1, h, v =>
    let est := pick key (pick key v (h.nodes v).left) (h.nodes v).right
    if est = v then some h
    else do
      let h ← heap_swap h v est
      siftDown key fuel h v

/-- The node becomes the root, or the child of `parent` on the side that `path` tells. -/
def heap.attach (h : heap) (node path : ℕ) (parent : Ptr) : heap :=
  let h := h.setParent node parent
  match parent with
  | none => { h with root := some node }
  | some p => if path &&& 1 = 1 then h.setRight p node else h.setLeft p node

/-- `++heap->nelts` must not overflow. -/
def heap_insert (key : ℕ → κ) (h : heap) (node : ℕ) : Option heap :=
  if h.nelts = INT_MAX then none
  else do
    let h := { h with nelts := h.nelts + 1 }
    let (path, d) := getPath h.nelts h.nelts 0 0
    let (path, parent) ← descend h d path h.root
    siftUp key h.nelts (h.attach node path parent) node

/-- The child of `p` on the side that `path` tells, which is taken off. -/
def heap.detach (h : heap) (path p : ℕ) : Ptr × heap :=
  if path &&& 1 = 1 then ((h.nodes p).right, h.setRight p none)
  else ((h.nodes p).left, h.setLeft p none)

/-- `node->parent = node->left = node->right = NULL;` -/
def heap.clear (h : heap) (node : ℕ) : heap :=
  ((h.setParent node none).setLeft node none).setRight node none

def heap_remove (key : ℕ → κ) (h : heap) (node : ℕ) : Option heap :=
  if h.nelts = 0 then some h
  else do
    let (path, d) := getPath h.nelts h.nelts 0 0
    let h := { h with nelts := h.nelts - 1 }
    let (path, parent) ← descend h d path h.root
    match parent with
    | none => some h
    | some p =>
      let (last, h) := h.detach path p
      match last with
      | none => some (if h.root = some node then { h with root := none } else h)
      | some last =>
        let h := (heap_replace h node last).clear node
        let h ← siftDown key h.nelts h last
        siftUp key h.nelts h last

/-- `heap->root` is followed, which must not be null unless the heap is empty. -/
def heap_dequeue (key : ℕ → κ) (h : heap) : Option heap :=
  match h.root with
  | none => if h.nelts = 0 then some h else none
  | some r => heap_remove key h r

end MmrService.Heap
