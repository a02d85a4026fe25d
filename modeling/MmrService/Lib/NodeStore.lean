import Mathlib.Data.List.Nodup
import Mathlib.Order.Lattice
import Mathlib.Order.Nat
import Mathlib.Tactic.Common

/-!
A store of nodes at addresses.

A node is alive from its allocation to its release, and no address is given out twice: an
access through a pointer that was left over is undefined, also when the memory has found
another use.
-/

inductive Fault
  /-- A node is read, written or released that is not alive. -/
  | undefined
  | outOfFuel
  deriving DecidableEq, Repr

/-- Addresses from `next` on have never been given out. -/
structure NodeStore (α : Type*) where
  nodes : ℕ → Option α
  next : ℕ
  fresh : ∀ a, next ≤ a → nodes a = none

namespace NodeStore

variable {α : Type*}

def read (h : NodeStore α) (a : ℕ) : Except Fault α :=
  match h.nodes a with
  | some n => .ok n
  | none => .error .undefined

def alloc (h : NodeStore α) (n : α) : ℕ × NodeStore α :=
  (h.next,
    { nodes := Function.update h.nodes h.next (some n)
      next := h.next + 1
      fresh := by
        intro a ha
        rw [Function.update_of_ne (by omega)]
        exact h.fresh a (by omega) })

/-- The node alive at `a` is written over. -/
def put (h : NodeStore α) (a : ℕ) (n : α) : Except Fault (NodeStore α) :=
  if ha : (h.nodes a).isSome then
    .ok
      { nodes := Function.update h.nodes a (some n)
        next := h.next
        fresh := by
          intro b hb
          rw [Function.update_of_ne]
          · exact h.fresh b hb
          · rintro rfl
            rw [h.fresh b hb] at ha
            exact absurd ha (by simp) }
  else .error .undefined

/-- The store with some addresses no longer alive. -/
def without (h : NodeStore α) (as : List ℕ) : NodeStore α where
  nodes a := if as.contains a then none else h.nodes a
  next := h.next
  fresh a ha := by rw [h.fresh a ha, ite_self]

def release (h : NodeStore α) (a : ℕ) : Except Fault (NodeStore α) :=
  if (h.nodes a).isSome then .ok (h.without [a]) else .error .undefined

/-! ### One operation -/

lemma lt_next {h : NodeStore α} {a : ℕ} {n : α} (ha : h.nodes a = some n) : a < h.next := by
  by_contra hge
  rw [h.fresh a (not_lt.mp hge)] at ha
  exact absurd ha (by simp)

lemma read_some {h : NodeStore α} {a : ℕ} {n : α} (ha : h.nodes a = some n) :
    h.read a = .ok n := by
  unfold read
  rw [ha]

lemma read_none {h : NodeStore α} {a : ℕ} (ha : h.nodes a = none) :
    h.read a = .error .undefined := by
  unfold read
  rw [ha]

lemma release_some {h : NodeStore α} {a : ℕ} {n : α} (ha : h.nodes a = some n) :
    h.release a = .ok (h.without [a]) := by
  unfold release
  rw [if_pos (by rw [ha]; rfl)]

lemma put_some {h : NodeStore α} {a : ℕ} {n : α} (ha : h.nodes a = some n) (m : α) :
    ∃ h', h.put a m = .ok h' ∧ h'.nodes = Function.update h.nodes a (some m) := by
  unfold put
  rw [dif_pos (by rw [ha]; rfl)]
  exact ⟨_, rfl, rfl⟩

@[simp] lemma nodes_without (h : NodeStore α) (as : List ℕ) (a : ℕ) :
    (h.without as).nodes a = if a ∈ as then none else h.nodes a := by
  unfold without
  simp only [List.contains_iff_mem]

lemma without_of_notMem {h : NodeStore α} {as : List ℕ} {a : ℕ} (ha : a ∉ as) :
    (h.without as).nodes a = h.nodes a := by
  rw [nodes_without, if_neg ha]

lemma without_of_mem {h : NodeStore α} {as : List ℕ} {a : ℕ} (ha : a ∈ as) :
    (h.without as).nodes a = none := by
  rw [nodes_without, if_pos ha]

lemma ext_nodes {h g : NodeStore α} (hn : h.nodes = g.nodes) (hx : h.next = g.next) : h = g := by
  cases h
  cases g
  obtain rfl : _ = _ := hn
  obtain rfl : _ = _ := hx
  rfl

@[simp] lemma without_nil (h : NodeStore α) : h.without [] = h :=
  ext_nodes (funext fun a => by simp) rfl

lemma without_without (h : NodeStore α) (as bs : List ℕ) :
    (h.without as).without bs = h.without (as ++ bs) := by
  refine ext_nodes (funext fun a => ?_) rfl
  simp only [nodes_without, List.mem_append]
  by_cases hb : a ∈ bs <;> by_cases ha : a ∈ as <;> simp [ha, hb]

/-! ### What is added to a store -/

/-- Everything that was ever given out is as before. -/
structure Extends (h h' : NodeStore α) : Prop where
  next : h.next ≤ h'.next
  same : ∀ a < h.next, h'.nodes a = h.nodes a

lemma Extends.refl (h : NodeStore α) : Extends h h := ⟨le_rfl, fun _ _ => rfl⟩

lemma Extends.trans {h h' h'' : NodeStore α} (h1 : Extends h h') (h2 : Extends h' h'') :
    Extends h h'' where
  next := h1.next.trans h2.next
  same a ha := (h2.same a (ha.trans_le h1.next)).trans (h1.same a ha)

lemma Extends.some {h h' : NodeStore α} (he : Extends h h') {a : ℕ} {n : α}
    (ha : h.nodes a = some n) : h'.nodes a = some n :=
  (he.same a (lt_next ha)).trans ha

/-- The addresses given out from one store to the other. -/
structure Added (h h' : NodeStore α) (as : List ℕ) : Prop where
  ext : Extends h h'
  nodup : as.Nodup
  range : ∀ a ∈ as, h.next ≤ a ∧ a < h'.next

lemma Added.nil (h : NodeStore α) : Added h h [] := ⟨.refl h, List.nodup_nil, by simp⟩

lemma Added.append {h h' h'' : NodeStore α} {as bs : List ℕ} (h1 : Added h h' as)
    (h2 : Added h' h'' bs) : Added h h'' (as ++ bs) where
  ext := h1.ext.trans h2.ext
  nodup := by
    refine List.nodup_append.mpr ⟨h1.nodup, h2.nodup, ?_⟩
    rintro a ha _ hb rfl
    have hlt := (h1.range a ha).2
    have hge := (h2.range a hb).1
    omega
  range := by
    intro a ha
    have hle1 := h1.ext.next
    have hle2 := h2.ext.next
    rcases List.mem_append.mp ha with ha | ha
    · obtain ⟨hge, hlt⟩ := h1.range a ha
      omega
    · obtain ⟨hge, hlt⟩ := h2.range a ha
      omega

lemma added_alloc (h : NodeStore α) (n : α) : Added h (h.alloc n).2 [(h.alloc n).1] where
  ext := ⟨Nat.le_succ _, fun _ ha => Function.update_of_ne (Nat.ne_of_lt ha) _ _⟩
  nodup := List.nodup_singleton _
  range := by
    intro a ha
    rw [List.mem_singleton.mp ha]
    exact ⟨le_rfl, Nat.lt_succ_self _⟩

lemma alloc_nodes (h : NodeStore α) (n : α) : (h.alloc n).2.nodes (h.alloc n).1 = some n :=
  Function.update_self ..

/-- The new address, and the store that has the node there. -/
lemma exists_alloc (h : NodeStore α) (n : α) :
    ∃ a g, h.alloc n = (a, g) ∧ g.nodes a = some n ∧ Added h g [a] :=
  ⟨_, _, rfl, alloc_nodes h n, added_alloc h n⟩

end NodeStore
