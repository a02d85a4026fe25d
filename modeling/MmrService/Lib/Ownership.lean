import MmrService.Lib.NodeStore

/-!
Nodes with one owner each.

Slots own nodes of a store, and a ledger has every release. Where each node that is alive has
one slot that owns it and no slot owns any other node, nothing is released twice, and what no
slot owns any more has been released.
-/

/-- A store, and the addresses that were released, in their order. -/
structure Ledger (α : Type*) where
  store : NodeStore α
  released : List ℕ

namespace Ledger

variable {α ι : Type*}

/-- Nothing was ever given out. -/
def empty : Ledger α := ⟨⟨fun _ => none, 0, fun _ _ => rfl⟩, []⟩

def alloc (g : Ledger α) (n : α) : ℕ × Ledger α :=
  ((g.store.alloc n).1, ⟨(g.store.alloc n).2, g.released⟩)

def release (g : Ledger α) (a : ℕ) : Except Fault (Ledger α) := do
  let h ← g.store.release a
  .ok ⟨h, g.released ++ [a]⟩

/-- The nodes that are alive are those that a slot owns, each of them one slot's. -/
structure Owned (g : Ledger α) (own : ι → Option ℕ) : Prop where
  alive : ∀ i a, own i = some a → ∃ n, g.store.nodes a = some n
  inj : ∀ i j a, own i = some a → own j = some a → i = j
  owner : ∀ a n, g.store.nodes a = some n → ∃ i, own i = some a
  once : ∀ a, g.released.count a =
    if a < g.store.next ∧ g.store.nodes a = none then 1 else 0

namespace Owned

variable {g : Ledger α} {own own' : ι → Option ℕ}

lemma empty : (empty : Ledger α).Owned fun _ : ι => none where
  alive _ _ h := by cases h
  inj _ _ _ h := by cases h
  owner _ _ h := by cases h
  once a := by
    rw [if_neg (fun h => Nat.not_lt_zero a h.1)]
    rfl

/-- A node that is alive has exactly one owner. -/
lemma existsUnique (h : g.Owned own) {a : ℕ} {n : α} (ha : g.store.nodes a = some n) :
    ∃! i, own i = some a := by
  obtain ⟨i, hi⟩ := h.owner a n ha
  exact ⟨i, hi, fun j hj => h.inj j i a hj hi⟩

/-- What no slot owns has been released, and once. -/
lemma count_eq_one (h : g.Owned own) {a : ℕ} (ha : a < g.store.next)
    (hnot : ∀ i, own i ≠ some a) : g.released.count a = 1 := by
  have hnone : g.store.nodes a = none := by
    rcases hn : g.store.nodes a with _ | n
    · rfl
    · obtain ⟨i, hi⟩ := h.owner a n hn
      exact absurd hi (hnot i)
  rw [h.once, if_pos ⟨ha, hnone⟩]

lemma count_eq_zero (h : g.Owned own) {i : ι} {a : ℕ} (ha : own i = some a) :
    g.released.count a = 0 := by
  obtain ⟨n, hn⟩ := h.alive i a ha
  rw [h.once, if_neg fun hnone => by simp [hnone.2] at hn]

/-- A slot that owns nothing is none that owns something. -/
lemma ne_of_eq_some {i k : ι} {a : ℕ} (hi : own i = none) (hk : own k = some a) : k ≠ i := by
  rintro rfl
  rw [hi] at hk
  cases hk

variable [DecidableEq ι]

/-- What a slot owns while `i` owns nothing, it owned before. -/
lemma update_none_eq_some {i k : ι} {a : ℕ} (h : Function.update own i none k = some a) :
    k ≠ i ∧ own k = some a := by
  by_cases hk : k = i
  · rw [hk, Function.update_self] at h
    cases h
  · rw [Function.update_of_ne hk] at h
    exact ⟨hk, h⟩

/-- A slot that owns nothing takes what another slot owns. -/
lemma move (h : g.Owned own) {i j : ι} (hi : own i = none) :
    g.Owned (Function.update (Function.update own i (own j)) j none) := by
  -- A slot other than `j` that owns something now is `i`, with what was of `j`, or as it was.
  have key : ∀ {k a}, Function.update (Function.update own i (own j)) j none k = some a →
      k ≠ j ∧ own (if k = i then j else k) = some a := by
    intro k a hk
    obtain ⟨hkj, hk⟩ := update_none_eq_some hk
    refine ⟨hkj, ?_⟩
    by_cases hki : k = i
    · rw [if_pos hki]
      rwa [hki, Function.update_self] at hk
    · rw [if_neg hki]
      rwa [Function.update_of_ne hki] at hk
  exact
    { alive := fun k a hk => h.alive _ a (key hk).2
      inj := by
        intro k l a hk hl
        obtain ⟨hkj, hk⟩ := key hk
        obtain ⟨hlj, hl⟩ := key hl
        have heq := h.inj _ _ a hk hl
        by_cases hki : k = i <;> by_cases hli : l = i
        · rw [hki, hli]
        · rw [if_pos hki, if_neg hli] at heq
          exact absurd heq.symm hlj
        · rw [if_neg hki, if_pos hli] at heq
          exact absurd heq hkj
        · rwa [if_neg hki, if_neg hli] at heq
      owner := by
        intro a n ha
        obtain ⟨k, hk⟩ := h.owner a n ha
        have hki : k ≠ i := ne_of_eq_some hi hk
        by_cases hkj : k = j
        · subst hkj
          refine ⟨i, ?_⟩
          rw [Function.update_of_ne (Ne.symm hki), Function.update_self, hk]
        · exact ⟨k, by rw [Function.update_of_ne hkj, Function.update_of_ne hki, hk]⟩
      once := h.once }

/-- A slot that owns nothing gets a new node. -/
lemma alloc (h : g.Owned own) {i : ι} (hi : own i = none) (n : α) :
    (g.alloc n).2.Owned (Function.update own i (some (g.alloc n).1)) := by
  have hnodes : (g.alloc n).2.store.nodes
      = Function.update g.store.nodes g.store.next (some n) := rfl
  have hold : ∀ {k a}, own k = some a → a < g.store.next := by
    intro k a hk
    obtain ⟨m, hm⟩ := h.alive k a hk
    exact NodeStore.lt_next hm
  have key : ∀ {k a}, Function.update own i (some (g.alloc n).1) k = some a →
      k = i ∧ a = g.store.next ∨ k ≠ i ∧ own k = some a := by
    intro k a hk
    by_cases hki : k = i
    · subst hki
      rw [Function.update_self] at hk
      exact .inl ⟨rfl, (Option.some.inj hk).symm⟩
    · rw [Function.update_of_ne hki] at hk
      exact .inr ⟨hki, hk⟩
  constructor
  case alive =>
    intro k a hk
    rw [hnodes]
    obtain ⟨-, rfl⟩ | ⟨-, hk⟩ := key hk
    · exact ⟨n, Function.update_self ..⟩
    · rw [Function.update_of_ne (hold hk).ne]
      exact h.alive k a hk
  case inj =>
    intro k l a hk hl
    obtain ⟨hki, hak⟩ | ⟨-, hk⟩ := key hk <;> obtain ⟨hli, hal⟩ | ⟨-, hl⟩ := key hl
    · rw [hki, hli]
    · exact absurd (hak ▸ hold hl) (lt_irrefl _)
    · exact absurd (hal ▸ hold hk) (lt_irrefl _)
    · exact h.inj k l a hk hl
  case owner =>
    intro a m ha
    rw [hnodes] at ha
    by_cases hlast : a = g.store.next
    · exact ⟨i, by rw [Function.update_self, hlast]; rfl⟩
    · rw [Function.update_of_ne hlast] at ha
      obtain ⟨k, hk⟩ := h.owner a m ha
      exact ⟨k, by rw [Function.update_of_ne (ne_of_eq_some hi hk), hk]⟩
  case once =>
    intro a
    have hnext : (g.alloc n).2.store.next = g.store.next + 1 := rfl
    have hcount := h.once a
    rw [hnodes, hnext]
    by_cases hlast : a = g.store.next
    · rw [if_neg (fun hc => lt_irrefl _ (hlast ▸ hc.1))] at hcount
      subst hlast
      rw [Function.update_self, if_neg (by simp)]
      exact hcount
    · rw [Function.update_of_ne hlast]
      have hlt : a < g.store.next + 1 ↔ a < g.store.next := by omega
      simp only [hlt]
      exact hcount

/-- The node of a slot is released. -/
lemma release (h : g.Owned own) {i : ι} {a : ℕ} (hi : own i = some a) :
    ∃ g', g.release a = .ok g' ∧ g'.Owned (Function.update own i none) ∧
      ∀ b, b ≠ a → g'.store.nodes b = g.store.nodes b := by
  obtain ⟨n, hn⟩ := h.alive i a hi
  have hkept : ∀ b, b ≠ a → (g.store.without [a]).nodes b = g.store.nodes b := fun b hb =>
    NodeStore.without_of_notMem (by simpa using hb)
  have hgone : (g.store.without [a]).nodes a = none := NodeStore.without_of_mem (by simp)
  have key : ∀ {k b}, Function.update own i none k = some b → k ≠ i ∧ own k = some b ∧ b ≠ a := by
    intro k b hk
    obtain ⟨hki, hk⟩ := update_none_eq_some hk
    refine ⟨hki, hk, ?_⟩
    rintro rfl
    exact hki (h.inj k i b hk hi)
  refine ⟨⟨g.store.without [a], g.released ++ [a]⟩, ?_, ?_, hkept⟩
  · rw [Ledger.release, NodeStore.release_some hn]
    rfl
  constructor
  case alive =>
    intro k b hk
    obtain ⟨-, hk, hb⟩ := key hk
    rw [hkept b hb]
    exact h.alive k b hk
  case inj =>
    intro k l b hk hl
    exact h.inj k l b (key hk).2.1 (key hl).2.1
  case owner =>
    intro b m hb
    have hba : b ≠ a := by
      rintro rfl
      rw [hgone] at hb
      cases hb
    rw [hkept b hba] at hb
    obtain ⟨k, hk⟩ := h.owner b m hb
    refine ⟨k, ?_⟩
    rw [Function.update_of_ne, hk]
    rintro rfl
    exact hba (Option.some.inj (hk.symm.trans hi))
  case once =>
    intro b
    have hcount := h.once b
    have hnext : (g.store.without [a]).next = g.store.next := rfl
    rw [List.count_append, hcount, hnext]
    by_cases hba : b = a
    · subst hba
      rw [hn, hgone, if_neg (by simp), if_pos ⟨NodeStore.lt_next hn, rfl⟩]
      simp
    · rw [hkept b hba, List.count_singleton, beq_false_of_ne (Ne.symm hba)]
      rfl

end Owned

end Ledger
