import MmrService.Lib.SplitCount
import MmrService.Lib.Transition
import Mathlib.Data.Int.DivMod
import Mathlib.Logic.Function.Basic

/-!
`CLockFreeStack`: a stack of nodes with a count in the word that leads to a node and another
in the node, so that a node is deleted by the last thread that may still look into it.

Any number of threads run `push` and `pop`, one operation on shared memory at a time: the load
of the head, the compare-and-exchange, an access to a node. A new node is at any address
without one, so an address is used again once its node is deleted. What C++ leaves undefined
has no step: an access to a node that is gone, and an `int` that gets too large.
-/

namespace MmrService.Stack

open Transition

structure CountedNodePtr (π : Type) where
  external_count : ℤ
  ptr : Option π
  deriving DecidableEq

/-- The serial number is ghost state: it tells nodes apart that are at one address one after
the other. -/
structure Node (π α : Type) where
  data : Option α
  internal_count : ℤ
  next : CountedNodePtr π
  serial : ℕ

/-- A pointer to a node, and as ghost state which node is meant. -/
structure Ref (π : Type) where
  ptr : π
  serial : ℕ
  deriving DecidableEq

/-- Where a thread is, each constructor before the operation it is named after. -/
inductive Pc (π α : Type)
  | idle
  /-- `push`: the load of the head into `next`, and the compare-and-exchange. -/
  | pushLoad (data : α) (new_node : Ref π)
  | pushCas (data : α) (new_node : Ref π)
  /-- `increase_head_count`, with the head last seen. -/
  | increasing (old_head : CountedNodePtr π)
  /-- `pop`: the read of `ptr->next`, and the compare-and-exchange. -/
  | held (old_head : CountedNodePtr π) (ptr : Ref π)
  | popping (old_head : CountedNodePtr π) (ptr : Ref π) (next : CountedNodePtr π)
  /-- After a compare-and-exchange that failed: `fetch_add(-1)`, the load, and `delete`. -/
  | leaving (old_head : CountedNodePtr π) (ptr : Ref π)
  | loadCount (old_head : CountedNodePtr π) (ptr : Ref π)
  | deleteLeft (old_head : CountedNodePtr π) (ptr : Ref π)
  /-- After one that succeeded: the exchange of the data, `fetch_add`, and `delete`. -/
  | taking (external_count : ℤ) (ptr : Ref π)
  | counting (external_count : ℤ) (ptr : Ref π) (res : Option α)
  | deletePopped (ptr : Ref π) (res : Option α)
  /-- The end of `pop`, with the data of a node or with null. -/
  | returning (ptr : Ref π) (res : Option α)
  | returnNull

/-- The stack, the memory and the threads; the rest is ghost state: what was pushed and what
was returned, the nodes deleted, and how many calls of `pop` and increments there were. -/
structure State (τ π α : Type) where
  head : CountedNodePtr π
  mem : π → Option (Node π α)
  pc : τ → Pc π α
  serial : ℕ
  pushed : List (Ref π × α)
  returned : List (Ref π × Option α)
  deleted : List (Ref π)
  pops : ℕ
  increments : ℕ

variable {τ π α : Type}

/-- An empty stack. -/
def init : State τ π α where
  head := ⟨0, none⟩
  mem _ := none
  pc _ := .idle
  serial := 0
  pushed := []
  returned := []
  deleted := []
  pops := 0
  increments := 0

/-- A value of `int`. -/
def IsInt (i : ℤ) : Prop := -2 ^ 31 ≤ i ∧ i < 2 ^ 31

instance instDecidableIsInt (i : ℤ) : Decidable (IsInt i) := inferInstanceAs (Decidable (_ ∧ _))

/-- What `std::atomic<int>::fetch_add` stores. -/
def fetch_add (i d : ℤ) : ℤ := (i + d).bmod (2 ^ 32)

section Step

variable [DecidableEq τ] [DecidableEq π]

/-- The node a pointer is to, if it is there. -/
def State.node (s : State τ π α) (r : Ref π) : Option (Node π α) :=
  (s.mem r.ptr).filter fun nd => decide (nd.serial = r.serial)

def State.store (s : State τ π α) (r : Ref π) (nd : Option (Node π α)) : State τ π α :=
  { s with mem := Function.update s.mem r.ptr nd }

def State.goto (s : State τ π α) (t : τ) (pc : Pc π α) : State τ π α :=
  { s with pc := Function.update s.pc t pc }

/-- A pointer to the node that is at an address now. -/
def State.ref (s : State τ π α) (p : π) : Ref π := ⟨p, ((s.mem p).map Node.serial).getD 0⟩

/-- The next operation of a thread; `compare_exchange_weak` may fail without a reason. -/
def advance (s : State τ π α) (t : τ) (spurious : Bool) : Pc π α → Option (State τ π α)
  | .idle => none
  | .pushLoad data r =>
    (s.node r).map fun nd =>
      (s.store r (some { nd with next := s.head })).goto t (.pushCas data r)
  | .pushCas data r =>
    (s.node r).map fun nd =>
      if s.head = nd.next ∧ spurious = false then
        { s.goto t .idle with
          head := ⟨1, some r.ptr⟩
          pushed := s.pushed ++ [(r, data)] }
      else (s.store r (some { nd with next := s.head })).goto t (.pushLoad data r)
  | .increasing old_head =>
    if ¬ IsInt (old_head.external_count + 1) then none
    else if s.head = old_head then
      let new_counter := { old_head with external_count := old_head.external_count + 1 }
      match old_head.ptr with
      | none =>
        some { s.goto t .returnNull with
          head := new_counter
          increments := s.increments + 1 }
      | some p =>
        some { s.goto t (.held new_counter (s.ref p)) with
          head := new_counter
          increments := s.increments + 1 }
    else some (s.goto t (.increasing s.head))
  | .held old_head r => (s.node r).map fun nd => s.goto t (.popping old_head r nd.next)
  | .popping old_head r next =>
    if s.head = old_head then
      some { s.goto t (.taking old_head.external_count r) with head := next }
    else some (s.goto t (.leaving s.head r))
  | .leaving old_head r =>
    (s.node r).map fun nd =>
      (s.store r (some { nd with internal_count := fetch_add nd.internal_count (-1) })).goto t
        (if nd.internal_count = 1 then .loadCount old_head r else .increasing old_head)
  | .loadCount old_head r => (s.node r).map fun _ => s.goto t (.deleteLeft old_head r)
  | .deleteLeft old_head r =>
    (s.node r).map fun _ =>
      { (s.store r none).goto t (.increasing old_head) with deleted := s.deleted ++ [r] }
  | .taking external_count r =>
    (s.node r).map fun nd =>
      (s.store r (some { nd with data := none })).goto t (.counting external_count r nd.data)
  | .counting external_count r res =>
    let count_increase := external_count - 2
    if ¬ IsInt count_increase ∨ ¬ IsInt (-count_increase) then none
    else (s.node r).map fun nd =>
      (s.store r
        (some { nd with internal_count := fetch_add nd.internal_count count_increase })).goto t
        (if nd.internal_count = -count_increase then .deletePopped r res else .returning r res)
  | .deletePopped r res =>
    (s.node r).map fun _ =>
      { (s.store r none).goto t (.returning r res) with deleted := s.deleted ++ [r] }
  | .returning r res => some { s.goto t .idle with returned := s.returned ++ [(r, res)] }
  | .returnNull => some (s.goto t .idle)

/-- A call of `push`, up to its first load of the head, and one of `pop`; and the next operation
of a call. -/
inductive Action (τ π α : Type)
  | push (t : τ) (data : α) (p : π)
  | pop (t : τ)
  | next (t : τ) (spurious : Bool)

def step (s : State τ π α) : Action τ π α → Option (State τ π α)
  | .push t data p =>
    match s.pc t, s.mem p with
    | .idle, none =>
      some
        { s with
          mem := Function.update s.mem p (some ⟨some data, 0, s.head, s.serial⟩)
          pc := Function.update s.pc t (.pushCas data ⟨p, s.serial⟩)
          serial := s.serial + 1 }
    | _, _ => none
  | .pop t =>
    match s.pc t with
    | .idle => some { s.goto t (.increasing s.head) with pops := s.pops + 1 }
    | _ => none
  | .next t spurious => advance s t spurious (s.pc t)

end Step

/-- What a thread can go on with. -/
def Enabled (s : State τ π α) : Action τ π α → Prop
  | .push t _ p => s.pc t = .idle ∧ s.mem p = none
  | .pop t => s.pc t = .idle
  | .next t _ => s.pc t ≠ .idle

end MmrService.Stack
