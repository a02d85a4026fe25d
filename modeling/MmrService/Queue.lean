import Mathlib.Logic.Function.Basic
import Mathlib.Order.Basic
import MmrService.Lib.Transition
import MmrService.Lib.Word

/-!
The queue that `QUEUE_DECL` declares: a part of a block, which moves towards its end as elements
are taken from the front, and back to its beginning when the end is reached.

A function has no result where it reads or writes outside of the block, where its assertion
fails, or where the block would have as many elements as no `int` can count. For every run the
queue holds what a list holds under the same operations.
-/

namespace MmrService.Queue

def QUEUE_INIT_SIZE : ℕ := 16

structure queue (α : Type*) where
  ptr : ℕ → α
  size : ℕ
  maxsize : ℕ
  _offset : ℕ

variable {α : Type*}

/-- A queue of zeros. -/
def zeroed [Inhabited α] : queue α := ⟨fun _ => default, 0, 0, 0⟩

namespace queue

/-- An element of the block. -/
def at? (q : queue α) (i : ℕ) : Option α := if i < q.maxsize then some (q.ptr i) else none

/-- `empty` -/
def isEmpty (q : queue α) : Bool := q.size == 0

/-- What `front` points to, where the queue is not empty. -/
def front (q : queue α) : Option α := if q.size = 0 then none else q.at? q._offset

/-- What `back` points to, where the queue is not empty. -/
def back (q : queue α) : Option α :=
  if q.size = 0 then none else q.at? (q._offset + q.size - 1)

/-- What `front` points to is written. -/
def setFront (q : queue α) (elem : α) : queue α :=
  { q with ptr := Function.update q.ptr q._offset elem }

variable [Inhabited α]

def init (_ : queue α) (maxsize : ℕ) : queue α := ⟨fun _ => default, 0, maxsize, 0⟩

def clear (q : queue α) : queue α := { q with ptr := fun _ => default, size := 0, _offset := 0 }

def cleanup (_ : queue α) : queue α := zeroed

def resize (q : queue α) (maxsize : ℕ) : Option (queue α) :=
  let maxsize := if maxsize = 0 then QUEUE_INIT_SIZE else maxsize
  if maxsize < 2 ^ 31 then
    some { q with ptr := fun i => if i < q.maxsize then q.ptr i else default, maxsize := maxsize }
  else none

def double_resize (q : queue α) : Option (queue α) := q.resize (q.maxsize * 2)

/-- The elements are moved to the beginning of the block. -/
def moveDown (q : queue α) : queue α :=
  { q with ptr := fun i => if i < q.size then q.ptr (q._offset + i) else q.ptr i, _offset := 0 }

/-- Make room behind the last element. -/
def makeRoom (q : queue α) : Option (queue α) :=
  if q.size = q.maxsize then q.double_resize
  else if q._offset + q.size = q.maxsize then some q.moveDown else some q

def push_back (q : queue α) (elem : α) : Option (queue α) := do
  let q ← q.makeRoom
  if q._offset + q.size < q.maxsize then
    some { q with ptr := Function.update q.ptr (q._offset + q.size) elem, size := q.size + 1 }
  else none

omit [Inhabited α]

def pop_front (q : queue α) : Option (queue α) :=
  if q.size = 0 then none
  else some { q with
    size := q.size - 1, _offset := if q._offset + 1 = q.maxsize then 0 else q._offset + 1 }

def pop_back (q : queue α) : Option (queue α) :=
  if q.size = 0 then none else some { q with size := q.size - 1 }

/-! ### The elements -/

/-- The elements, from the front to the back. -/
def elems (q : queue α) : List α := (List.range q.size).map fun i => q.ptr (q._offset + i)

/-- The elements are in the block, and `xs` is what they are. -/
structure Good (q : queue α) (xs : List α) : Prop where
  inside : q._offset + q.size ≤ q.maxsize
  start : q._offset < q.maxsize ∨ q.maxsize = 0
  elems : q.elems = xs

variable {q : queue α} {xs : List α} {x : α}

lemma elems_mk (ptr : ℕ → α) (size maxsize offset : ℕ) :
    (⟨ptr, size, maxsize, offset⟩ : queue α).elems =
      (List.range size).map fun i => ptr (offset + i) := rfl

@[simp] lemma length_elems (q : queue α) : q.elems.length = q.size := by simp [elems]

lemma Good.size (h : q.Good xs) : q.size = xs.length := by rw [← h.elems, length_elems]

lemma Good.isEmpty (h : q.Good xs) : q.isEmpty = xs.isEmpty := by
  rw [queue.isEmpty, h.size, Bool.eq_iff_iff, beq_iff_eq, List.isEmpty_iff, List.length_eq_zero_iff]

lemma elems_congr {p q : queue α} (hsize : p.size = q.size)
    (h : ∀ i, i < q.size → p.ptr (p._offset + i) = q.ptr (q._offset + i)) : p.elems = q.elems := by
  rw [elems, elems, hsize]
  exact List.map_congr_left fun i hi => h i (List.mem_range.mp hi)

lemma good_zeroed [Inhabited α] : (zeroed : queue α).Good [] := ⟨Nat.zero_le 0, .inr rfl, rfl⟩

lemma Good.init [Inhabited α] (q : queue α) (n : ℕ) : (q.init n).Good [] := by
  refine ⟨Nat.zero_le n, ?_, rfl⟩
  dsimp only [queue.init]
  omega

lemma Good.clear [Inhabited α] (h : q.Good xs) : q.clear.Good [] := by
  have hstart := h.start
  refine ⟨Nat.zero_le _, ?_, rfl⟩
  dsimp only [queue.clear]
  omega

/-- The front is the first element. -/
lemma Good.front (h : q.Good xs) : q.front = xs.head? := by
  have hin := h.inside
  rw [← h.elems, queue.front, at?]
  split_ifs with h0 hlt
  · rw [queue.elems, h0]
    rfl
  · obtain ⟨n, hn⟩ := Nat.exists_eq_succ_of_ne_zero h0
    rw [queue.elems, hn, List.range_succ_eq_map]
    rfl
  · omega

lemma elems_succ {n : ℕ} (hn : q.size = n + 1) :
    q.elems = (List.range n).map (fun i => q.ptr (q._offset + i)) ++ [q.ptr (q._offset + n)] := by
  rw [queue.elems, hn, List.range_succ, List.map_append]
  rfl

/-- The back is the last element. -/
lemma Good.back (h : q.Good xs) : q.back = xs.getLast? := by
  have hin := h.inside
  rw [← h.elems, queue.back, at?]
  split_ifs with h0 hlt
  · rw [queue.elems, h0]
    rfl
  · obtain ⟨n, hn⟩ := Nat.exists_eq_succ_of_ne_zero h0
    rw [elems_succ hn, List.getLast?_concat, hn, Nat.add_succ_sub_one]
  · omega

/-- The first element is written in place. -/
lemma Good.setFront (h : q.Good (x :: xs)) (y : α) : (q.setFront y).Good (y :: xs) := by
  refine ⟨h.inside, h.start, ?_⟩
  have hsize := h.size
  rw [List.length_cons] at hsize
  have htail := h.elems
  rw [queue.elems, hsize, List.range_succ_eq_map, List.map_cons, List.cons.injEq] at htail
  rw [queue.setFront, elems_mk, hsize, List.range_succ_eq_map, List.map_cons, List.cons.injEq]
  refine ⟨Function.update_self .., ?_⟩
  apply Eq.trans _ htail.2
  rw [List.map_map, List.map_map]
  refine List.map_congr_left fun i _ => ?_
  exact Function.update_of_ne (by omega) ..

/-- The first element is taken out. -/
lemma Good.pop_front (h : q.Good (x :: xs)) : ∃ q', q.pop_front = some q' ∧ q'.Good xs := by
  have hsize := h.size
  have hin := h.inside
  rw [List.length_cons] at hsize
  refine ⟨_, if_neg (by omega), ⟨?_, ?_, ?_⟩⟩
  · dsimp only
    split_ifs <;> omega
  · dsimp only
    split_ifs <;> omega
  · have htail := h.elems
    rw [queue.elems, hsize, List.range_succ_eq_map, List.map_cons, List.cons.injEq,
      List.map_map] at htail
    rw [elems_mk, hsize, Nat.add_sub_cancel]
    apply Eq.trans _ htail.2
    refine List.map_congr_left fun i hi => ?_
    have hlt := List.mem_range.mp hi
    dsimp only [Function.comp]
    rw [if_neg (by omega), Nat.add_assoc, Nat.add_comm 1 i]

/-- The last element is taken out. -/
lemma Good.pop_back (h : q.Good (xs ++ [x])) : ∃ q', q.pop_back = some q' ∧ q'.Good xs := by
  have hsize := h.size
  have hin := h.inside
  rw [List.length_append, List.length_singleton] at hsize
  refine ⟨_, if_neg (by omega), ⟨by dsimp only; omega, h.start, ?_⟩⟩
  have hall := h.elems
  rw [elems_succ hsize] at hall
  rw [queue.elems, hsize, Nat.add_sub_cancel]
  exact (List.append_inj' hall rfl).1

variable [Inhabited α]

/-- The block can grow. -/
lemma exists_makeRoom (h : q.Good xs) (hlen : xs.length < 2 ^ 30) : ∃ q', q.makeRoom = some q' := by
  have hsize := h.size
  rw [makeRoom]
  split_ifs with hfull hend
  · have hlt : (if q.maxsize * 2 = 0 then QUEUE_INIT_SIZE else q.maxsize * 2) < 2 ^ 31 := by
      split_ifs
      · exact by decide
      · omega
    exact ⟨_, if_pos hlt⟩
  · exact ⟨_, rfl⟩
  · exact ⟨_, rfl⟩

/-- There is room behind the last element. -/
lemma Good.makeRoom {q' : queue α} (h : q.Good xs) (hroom : q.makeRoom = some q') :
    q'.Good xs ∧ q'._offset + q'.size < q'.maxsize := by
  have hsize := h.size
  have hin := h.inside
  have hstart := h.start
  rw [queue.makeRoom] at hroom
  split_ifs at hroom with hfull hend
  · rw [double_resize, resize] at hroom
    obtain ⟨-, hroom⟩ := Option.ite_none_right_eq_some.mp hroom
    obtain rfl := Option.some.inj hroom
    have hgt : q.maxsize < if q.maxsize * 2 = 0 then QUEUE_INIT_SIZE else q.maxsize * 2 := by
      split_ifs with h0
      · rw [show q.maxsize = 0 by omega]
        exact by decide
      · omega
    refine ⟨⟨?_, ?_, ?_⟩, ?_⟩
    · dsimp only
      omega
    · dsimp only
      omega
    · rw [← h.elems]
      exact elems_congr rfl fun i hi => if_pos (by dsimp only; omega)
    · dsimp only
      omega
  · obtain rfl := Option.some.inj hroom
    refine ⟨⟨?_, ?_, ?_⟩, ?_⟩
    · rw [moveDown]
      dsimp only
      omega
    · rw [moveDown]
      dsimp only
      omega
    · rw [← h.elems]
      refine elems_congr rfl fun i hi => ?_
      rw [moveDown, Nat.zero_add]
      exact if_pos hi
    · rw [moveDown]
      dsimp only
      omega
  · obtain rfl := Option.some.inj hroom
    exact ⟨h, by omega⟩

/-- An element is put behind the last one. -/
lemma Good.push_back {q' : queue α} (h : q.Good xs) (hpush : q.push_back x = some q') :
    q'.Good (xs ++ [x]) := by
  obtain ⟨p, hroom, hpush⟩ := Option.bind_eq_some_iff.mp hpush
  obtain ⟨hp, hlt⟩ := h.makeRoom hroom
  rw [if_pos hlt] at hpush
  obtain rfl := Option.some.inj hpush
  refine ⟨hlt, hp.start, ?_⟩
  rw [elems_mk, List.range_succ, List.map_append, List.map_singleton, Function.update_self,
    ← hp.elems, queue.elems]
  congr 1
  refine List.map_congr_left fun i hi => ?_
  have hi := List.mem_range.mp hi
  exact Function.update_of_ne (by omega) ..

lemma Good.exists_push_back (h : q.Good xs) (hlen : xs.length < 2 ^ 30) (x : α) :
    ∃ q', q.push_back x = some q' ∧ q'.Good (xs ++ [x]) := by
  obtain ⟨p, hroom⟩ := exists_makeRoom h hlen
  obtain ⟨hp, hlt⟩ := h.makeRoom hroom
  obtain ⟨q', hpush⟩ : ∃ q', q.push_back x = some q' := by
    rw [queue.push_back, hroom, Option.bind_eq_bind, Option.bind_some, if_pos hlt]
    exact ⟨_, rfl⟩
  exact ⟨q', hpush, h.push_back hpush⟩

end queue

/-! ### Runs -/

/-- An operation. -/
inductive Op (α : Type*) where
  | init (maxsize : ℕ)
  | push_back (x : α)
  | pop_front
  | pop_back
  | clear
  | cleanup

variable [Inhabited α]

def step (q : queue α) : Op α → Option (queue α)
  | .init maxsize => some (q.init maxsize)
  | .push_back x => q.push_back x
  | .pop_front => q.pop_front
  | .pop_back => q.pop_back
  | .clear => some q.clear
  | .cleanup => some q.cleanup

/-- What the operation does to a list, which may have `2 ^ 30` elements. -/
def specStep (xs : List α) : Op α → Option (List α)
  | .push_back x => if xs.length < 2 ^ 30 then some (xs ++ [x]) else none
  | .pop_front => if xs = [] then none else some xs.tail
  | .pop_back => if xs = [] then none else some xs.dropLast
  | .init _ | .clear | .cleanup => some []

/-- An operation does to the elements what it does to a list. -/
lemma good_step {q : queue α} {xs ys : List α} {a : Op α} (h : q.Good xs)
    (hs : specStep xs a = some ys) : ∃ q', step q a = some q' ∧ q'.Good ys := by
  cases a with
  | init maxsize =>
    obtain rfl := Option.some.inj hs
    exact ⟨_, rfl, queue.Good.init q maxsize⟩
  | push_back x =>
    obtain ⟨hlt, hs⟩ := Option.ite_none_right_eq_some.mp hs
    obtain rfl := Option.some.inj hs
    exact h.exists_push_back hlt x
  | pop_front =>
    obtain ⟨hne, hs⟩ := Option.ite_none_left_eq_some.mp hs
    obtain rfl := Option.some.inj hs
    obtain ⟨x, xs, rfl⟩ := List.exists_cons_of_ne_nil hne
    exact h.pop_front
  | pop_back =>
    obtain ⟨hne, hs⟩ := Option.ite_none_left_eq_some.mp hs
    obtain rfl := Option.some.inj hs
    rw [← List.dropLast_concat_getLast hne] at h
    exact h.pop_back
  | clear =>
    obtain rfl := Option.some.inj hs
    exact ⟨_, rfl, h.clear⟩
  | cleanup =>
    obtain rfl := Option.some.inj hs
    exact ⟨_, rfl, queue.good_zeroed⟩

lemma good_run {as : List (Op α)} {q : queue α} {xs ys : List α} (h : q.Good xs)
    (hs : Transition.exec specStep xs as = some ys) :
    ∃ q', Transition.exec step q as = some q' ∧ q'.Good ys := by
  induction as generalizing q xs with
  | nil =>
    obtain rfl := Option.some.inj hs
    exact ⟨q, rfl, h⟩
  | cons a as ih =>
    rw [Transition.exec_cons] at hs
    obtain ⟨zs, hzs, hs⟩ := Option.bind_eq_some_iff.mp hs
    obtain ⟨q', hq', hgood⟩ := good_step h hzs
    rw [Transition.exec_cons, hq', Option.bind_some]
    exact ih hgood hs

/-- **The queue is a list.** A run that a list has, a queue with its elements has as well: nothing
is read or written outside of its block and no assertion fails, and it ends with the elements of
the list, of which `front` and `back` are the first and the last. -/
theorem queue_run (q₀ : queue α) (xs₀ : List α) (h0 : q₀.Good xs₀) (as : List (Op α))
    (xs : List α) (h : Transition.exec specStep xs₀ as = some xs) :
    ∃ q, Transition.exec step q₀ as = some q ∧ q.elems = xs ∧ q.size = xs.length ∧
      q.front = xs.head? ∧ q.back = xs.getLast? := by
  obtain ⟨q, hq, hgood⟩ := good_run h0 h
  exact ⟨q, hq, hgood.elems, hgood.size, hgood.front, hgood.back⟩

/-- A queue of zeros is initialised, two elements are put in and one is taken out. -/
theorem queue_run_two :
    ∃ q, Transition.exec step (zeroed : queue ℕ) [.init 4, .push_back 7, .push_back 8, .pop_front] =
      some q ∧ q.elems = [8] := by
  obtain ⟨q, hq, helems, -⟩ := queue_run zeroed [] queue.good_zeroed
    [.init 4, .push_back 7, .push_back 8, .pop_front] [8] (by decide)
  exact ⟨q, hq, helems⟩

end MmrService.Queue
