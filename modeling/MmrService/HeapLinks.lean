import MmrService.Heap
import MmrService.Lib.HeapOrder

/-!
The pointers of the heap are those of the binary tree of its positions.

A heap of `n` nodes has an arrangement `a` of them at the positions `1`, .., `n`, and each node
points to the nodes at the positions above and below its own. Exchanging a node with its parent
exchanges the two positions, and the path of bits of a number leads to the position of that
number.
-/

namespace MmrService.Heap

/-! ### Fields after an assignment -/

namespace heap

variable (h : heap) (p x : ℕ) (q v : Ptr)

@[simp] lemma setParent_parent :
    ((h.setParent p v).nodes x).parent = if x = p then v else (h.nodes x).parent := by
  by_cases hx : x = p <;> simp [setParent, hx]

@[simp] lemma setParent_left : ((h.setParent p v).nodes x).left = (h.nodes x).left := by
  by_cases hx : x = p <;> simp [setParent, hx]

@[simp] lemma setParent_right : ((h.setParent p v).nodes x).right = (h.nodes x).right := by
  by_cases hx : x = p <;> simp [setParent, hx]

@[simp] lemma setLeft_parent : ((h.setLeft p v).nodes x).parent = (h.nodes x).parent := by
  by_cases hx : x = p <;> simp [setLeft, hx]

@[simp] lemma setLeft_left :
    ((h.setLeft p v).nodes x).left = if x = p then v else (h.nodes x).left := by
  by_cases hx : x = p <;> simp [setLeft, hx]

@[simp] lemma setLeft_right : ((h.setLeft p v).nodes x).right = (h.nodes x).right := by
  by_cases hx : x = p <;> simp [setLeft, hx]

@[simp] lemma setRight_parent : ((h.setRight p v).nodes x).parent = (h.nodes x).parent := by
  by_cases hx : x = p <;> simp [setRight, hx]

@[simp] lemma setRight_left : ((h.setRight p v).nodes x).left = (h.nodes x).left := by
  by_cases hx : x = p <;> simp [setRight, hx]

@[simp] lemma setRight_right :
    ((h.setRight p v).nodes x).right = if x = p then v else (h.nodes x).right := by
  by_cases hx : x = p <;> simp [setRight, hx]

@[simp] lemma adopt_parent :
    ((h.adopt q v).nodes x).parent = if q = some x then v else (h.nodes x).parent := by
  cases q with
  | none => simp [adopt]
  | some q => simp [adopt, eq_comm (a := x)]

@[simp] lemma adopt_left : ((h.adopt q v).nodes x).left = (h.nodes x).left := by
  cases q <;> simp [adopt]

@[simp] lemma adopt_right : ((h.adopt q v).nodes x).right = (h.nodes x).right := by
  cases q <;> simp [adopt]

@[simp] lemma relink_parent (s : ℕ) (r : Ptr) :
    ((h.relink q s r).nodes x).parent = (h.nodes x).parent := by
  cases q with
  | none => rfl
  | some q => simp only [relink, Option.elim_some]; split_ifs <;> simp

@[simp] lemma relink_left (s : ℕ) (r : Ptr) :
    ((h.relink q s r).nodes x).left =
      if q = some x ∧ (h.nodes x).left = some s then r else (h.nodes x).left := by
  cases q with
  | none => simp [relink]
  | some q =>
    simp only [relink, Option.elim_some]
    by_cases hx : q = x
    · subst hx
      split_ifs <;> simp_all
    · split_ifs <;> simp_all [Ne.symm hx]

@[simp] lemma relink_right (s : ℕ) (r : Ptr) :
    ((h.relink q s r).nodes x).right =
      if q = some x ∧ (h.nodes x).left ≠ some s ∧ (h.nodes x).right = some s then r
      else (h.nodes x).right := by
  cases q with
  | none => simp [relink]
  | some q =>
    simp only [relink, Option.elim_some]
    by_cases hx : q = x
    · subst hx
      split_ifs <;> simp_all
    · split_ifs <;> simp_all [Ne.symm hx]

@[simp] lemma setParent_root : (h.setParent p v).root = h.root := rfl

@[simp] lemma setLeft_root : (h.setLeft p v).root = h.root := rfl

@[simp] lemma setRight_root : (h.setRight p v).root = h.root := rfl

@[simp] lemma adopt_root : (h.adopt q v).root = h.root := by cases q <;> rfl

@[simp] lemma relink_root (s : ℕ) (r : Ptr) :
    (h.relink q s r).root = if q = none then r else h.root := by
  cases q with
  | none => rfl
  | some q => simp only [relink, Option.elim_some]; split_ifs <;> simp_all

@[simp] lemma setParent_nelts : (h.setParent p v).nelts = h.nelts := rfl

@[simp] lemma setLeft_nelts : (h.setLeft p v).nelts = h.nelts := rfl

@[simp] lemma setRight_nelts : (h.setRight p v).nelts = h.nelts := rfl

@[simp] lemma adopt_nelts : (h.adopt q v).nelts = h.nelts := by cases q <;> rfl

@[simp] lemma relink_nelts (s : ℕ) (r : Ptr) : (h.relink q s r).nelts = h.nelts := by
  cases q with
  | none => rfl
  | some q => simp only [relink, Option.elim_some]; split_ifs <;> simp

variable (path : ℕ)

@[simp] lemma attach_parent :
    ((h.attach p path q).nodes x).parent = if x = p then q else (h.nodes x).parent := by
  cases q with
  | none => simp only [attach, setParent_parent]
  | some q => simp only [attach]; split_ifs <;> simp [*]

@[simp] lemma attach_left :
    ((h.attach p path q).nodes x).left =
      if q = some x ∧ path &&& 1 ≠ 1 then some p else (h.nodes x).left := by
  cases q with
  | none => simp only [attach, setParent_left]; simp
  | some q => simp only [attach]; split_ifs <;> simp_all [eq_comm (a := x)]

@[simp] lemma attach_right :
    ((h.attach p path q).nodes x).right =
      if q = some x ∧ path &&& 1 = 1 then some p else (h.nodes x).right := by
  cases q with
  | none => simp only [attach, setParent_right]; simp
  | some q => simp only [attach]; split_ifs <;> simp_all [eq_comm (a := x)]

@[simp] lemma attach_root : (h.attach p path q).root = if q = none then some p else h.root := by
  cases q with
  | none => rfl
  | some q => simp only [attach]; split_ifs <;> simp_all

@[simp] lemma attach_nelts : (h.attach p path q).nelts = h.nelts := by
  cases q with
  | none => rfl
  | some q => simp only [attach]; split_ifs <;> rfl

@[simp] lemma detach_parent : ((h.detach path p).2.nodes x).parent = (h.nodes x).parent := by
  rw [detach]
  split_ifs <;> simp

@[simp] lemma detach_left :
    ((h.detach path p).2.nodes x).left =
      if x = p ∧ path &&& 1 ≠ 1 then none else (h.nodes x).left := by
  rw [detach]
  split_ifs <;> simp_all

@[simp] lemma detach_right :
    ((h.detach path p).2.nodes x).right =
      if x = p ∧ path &&& 1 = 1 then none else (h.nodes x).right := by
  rw [detach]
  split_ifs <;> simp_all

@[simp] lemma detach_root : (h.detach path p).2.root = h.root := by
  rw [detach]
  split_ifs <;> rfl

@[simp] lemma detach_nelts : (h.detach path p).2.nelts = h.nelts := by
  rw [detach]
  split_ifs <;> rfl

@[simp] lemma clear_parent :
    ((h.clear p).nodes x).parent = if x = p then none else (h.nodes x).parent := by simp [clear]

@[simp] lemma clear_left :
    ((h.clear p).nodes x).left = if x = p then none else (h.nodes x).left := by simp [clear]

@[simp] lemma clear_right :
    ((h.clear p).nodes x).right = if x = p then none else (h.nodes x).right := by simp [clear]

@[simp] lemma clear_root : (h.clear p).root = h.root := rfl

@[simp] lemma clear_nelts : (h.clear p).nelts = h.nelts := rfl

end heap

/-! ### The tree -/

/-- The node at position `j` of `n`, if there is one. -/
def ptrAt (a : ℕ → ℕ) (n j : ℕ) : Ptr := if 1 ≤ j ∧ j ≤ n then some (a j) else none

/-- What the node at position `j` of `n` points to. -/
def nodeAt (a : ℕ → ℕ) (n j : ℕ) : heap_node :=
  ⟨ptrAt a n (j / 2), ptrAt a n (2 * j), ptrAt a n (2 * j + 1)⟩

open HeapOrder

/-- The nodes of the heap are arranged as `a` at the positions up to `n`, and no other node has
children. -/
structure Links (h : heap) (n : ℕ) (a : ℕ → ℕ) : Prop where
  root : h.root = ptrAt a n 1
  inj : Distinct a n
  node : ∀ j, 1 ≤ j → j ≤ n → h.nodes (a j) = nodeAt a n j
  others : ∀ x, ¬ Holds a n x → (h.nodes x).left = none ∧ (h.nodes x).right = none

variable {h : heap} {n i j : ℕ} {a : ℕ → ℕ}

lemma ptrAt_eq (h1 : 1 ≤ j) (hn : j ≤ n) : ptrAt a n j = some (a j) := if_pos ⟨h1, hn⟩

lemma ptrAt_swapped (h1 : 1 ≤ i) (hi : i ≤ n) (h1' : 1 ≤ j) (hj : j ≤ n) (x : ℕ) :
    ptrAt (swapped a i j) n x =
      if x = i then ptrAt a n j else if x = j then ptrAt a n i else ptrAt a n x := by
  split_ifs with hxi hxj
  · rw [hxi, ptrAt_eq h1 hi, ptrAt_eq h1' hj, swapped_left]
  · rw [hxj, ptrAt_eq h1' hj, ptrAt_eq h1 hi, swapped_right]
  · rw [ptrAt, ptrAt, swapped_of_ne hxi hxj]

namespace Links

variable (l : Links h n a)
include l

lemma parent (h1 : 1 ≤ j) (hn : j ≤ n) : (h.nodes (a j)).parent = ptrAt a n (j / 2) := by
  rw [l.node j h1 hn, nodeAt]

lemma left (h1 : 1 ≤ j) (hn : j ≤ n) : (h.nodes (a j)).left = ptrAt a n (2 * j) := by
  rw [l.node j h1 hn, nodeAt]

lemma right (h1 : 1 ≤ j) (hn : j ≤ n) : (h.nodes (a j)).right = ptrAt a n (2 * j + 1) := by
  rw [l.node j h1 hn, nodeAt]

lemma ptrAt_eq_some (h1 : 1 ≤ j) (hn : j ≤ n) : ptrAt a n i = some (a j) ↔ i = j := by
  constructor
  · intro he
    rw [ptrAt] at he
    split_ifs at he with hi
    exact l.inj i j hi.1 hi.2 h1 hn (Option.some.inj he)
  · rintro rfl
    exact ptrAt_eq h1 hn

lemma eq_iff (hi : 1 ≤ i) (hin : i ≤ n) (hj : 1 ≤ j) (hjn : j ≤ n) : a i = a j ↔ i = j :=
  ⟨l.inj i j hi hin hj hjn, fun he => he ▸ rfl⟩

end Links

lemma ptrAt_half (h1 : 1 ≤ j) (hn : j ≤ n) : ptrAt a n (j / 2) = none ↔ j = 1 := by
  rw [ptrAt, ite_eq_right_iff]
  simp only [reduceCtorEq, imp_false]
  omega

/-- The assertion of the exchange holds of a node and its parent, and their positions are
exchanged. -/
lemma Links.swap {m : ℕ} (l : Links h n a) (h2 : 2 ≤ i) (hn : i ≤ n) (hm : m = i / 2) :
    ∃ h', heap_swap h (a m) (a i) = some h' ∧ h'.nelts = h.nelts ∧
      Links h' n (swapped a i m) := by
  have h1 : 1 ≤ i := by omega
  have hm1 : 1 ≤ m := by omega
  have hmn : m ≤ n := by omega
  have hmm : m / 2 ≠ m := by omega
  have hside : 2 * m = i ∨ 2 * m ≠ i ∧ 2 * m + 1 = i := by omega
  have hptr := @ptrAt_eq n i a h1 hn
  have hptr' := @ptrAt_eq n m a hm1 hmn
  have hassert : (h.nodes (a i)).parent = some (a m) ∧
      ((h.nodes (a m)).left = some (a i) ∨ (h.nodes (a m)).right = some (a i)) := by
    rw [l.parent h1 hn, l.left hm1 hmn, l.right hm1 hmn, l.ptrAt_eq_some hm1 hmn,
      l.ptrAt_eq_some h1 hn, l.ptrAt_eq_some h1 hn]
    omega
  rw [heap_swap, if_pos hassert]
  refine ⟨_, rfl, by simp, ?_, l.inj.swapped ⟨h1, hn⟩ ⟨hm1, hmn⟩, ?_, ?_⟩
  · have hhalf := ptrAt_half (a := a) hm1 hmn
    simp only [heap.setRight_root, heap.setLeft_root, heap.setParent_root, heap.adopt_root,
      heap.relink_root, l.parent hm1 hmn, l.root, ptrAt_swapped h1 hn hm1 hmn]
    grind
  · intro j hj1 hj
    by_cases hji : j = i
    · subst hji
      simp [nodeAt, heap_node.ext_iff, l.parent, l.left, l.right, l.ptrAt_eq_some, ptrAt_swapped,
        hm1, hmn, h1, hn, hmm]
      grind
    · by_cases hjm : j = m
      · subst hjm
        simp [nodeAt, heap_node.ext_iff, l.parent, l.left, l.right, l.ptrAt_eq_some, l.eq_iff,
          ptrAt_swapped, hm1, hmn, h1, hn, hmm]
        rcases hside with hside | ⟨hside, hside'⟩
        · simp [hside, l.ptrAt_eq_some, h1, hn]
          grind
        · simp [hside, l.ptrAt_eq_some, h1, hn]
          grind
      · rw [swapped_of_ne hji hjm]
        simp [nodeAt, heap_node.ext_iff, l.parent, l.left, l.right, l.ptrAt_eq_some, l.eq_iff,
          ptrAt_swapped, hm1, hmn, h1, hn, hj1, hj, hji, hjm, hmm]
        rcases hside with hside | ⟨hside, hside'⟩
        · simp [hside, l.ptrAt_eq_some, hj1, hj]
          grind
        · simp [hside, l.ptrAt_eq_some, hj1, hj]
          grind
  · intro x hx
    rw [holds_swapped ⟨h1, hn⟩ ⟨hm1, hmn⟩] at hx
    have hxi : x ≠ a i := fun he => hx ⟨i, h1, hn, he.symm⟩
    have hxm : x ≠ a m := fun he => hx ⟨m, hm1, hmn, he.symm⟩
    have hpp : ptrAt a n (m / 2) ≠ some x := by
      rw [ptrAt]
      split_ifs with hr
      · exact fun he => hx ⟨m / 2, hr.1, hr.2, Option.some.inj he⟩
      · simp
    have hold := l.others x hx
    simp [l.parent, hxi, hxm, hpp, hm1, hmn, hold]

/-! ### The path to a position -/

lemma getPath_of_lt (f : ℕ) {path d : ℕ} (hn : n < 2) : getPath f n path d = (path, d) := by
  cases f with
  | zero => rfl
  | succ f => rw [getPath, if_neg (by omega)]

lemma getPath_of_le (f : ℕ) {path d : ℕ} (hn : 2 ≤ n) :
    getPath (f + 1) n path d = getPath f (n / 2) (2 * path + n % 2) (d + 1) := by
  have hbit : path <<< 1 ||| n &&& 1 = 2 * path + n % 2 := by
    rw [Nat.and_one_is_mod, ← Nat.shiftLeft_add_eq_or_of_lt (by omega), Nat.shiftLeft_eq]
    omega
  rw [getPath, if_pos hn, hbit]
  rfl

/-- The path to a position leads there, and then on. -/
lemma Links.descend_getPath (l : Links h n a) :
    ∀ {f x path d : ℕ}, 1 ≤ x → x ≤ n → x ≤ f → 1 ≤ d →
      descend h (getPath f x path d).2 (getPath f x path d).1 h.root =
        descend h d path (some (a x)) := by
  intro f
  induction f with
  | zero => omega
  | succ f ih =>
    intro x path d h1 hn hf hd
    by_cases hx : x = 1
    · subst hx
      rw [getPath_of_lt _ (by omega), l.root, ptrAt_eq h1 hn]
    · rw [getPath_of_le _ (by omega), ih (by omega) (by omega) (by omega) (by omega)]
      obtain ⟨d, rfl⟩ : ∃ e, d = e + 1 := ⟨d - 1, by omega⟩
      have hbit : (2 * path + x % 2) &&& 1 = x % 2 := by
        rw [Nat.and_one_is_mod]
        omega
      have hrest : (2 * path + x % 2) >>> 1 = path := by
        rw [Nat.shiftRight_eq_div_pow]
        omega
      have hchild : (if x % 2 = 1 then (h.nodes (a (x / 2))).right
          else (h.nodes (a (x / 2))).left) = some (a x) := by
        rw [l.left (by omega) (by omega), l.right (by omega) (by omega)]
        split_ifs with hodd
        · rw [l.ptrAt_eq_some h1 hn]
          omega
        · rw [l.ptrAt_eq_some h1 hn]
          omega
      rw [descend, Option.bind_eq_bind, Option.bind_some, hbit, hrest, hchild]

end MmrService.Heap
