import Mathlib.Data.List.Basic
import Mathlib.Data.List.Perm.Basic
import Mathlib.Data.List.Sort
import Mathlib.Order.Lattice
import Mathlib.Tactic.Common

/-!
Finite maps kept as a list of entries in increasing order of their keys.

The order is part of the type, so the entries can be walked in key order, the last entry
is the one of the largest key, and a map is determined by its list of entries.
-/

/-- A finite map as its entries in increasing key order. -/
structure SortedMap (κ α : Type*) [LinearOrder κ] where
  entries : List (κ × α)
  sorted : entries.Pairwise fun a b => a.1 < b.1

namespace SortedMap

variable {κ α β : Type*} [LinearOrder κ]

/-- The map with no entries. -/
def empty : SortedMap κ α := ⟨[], List.Pairwise.nil⟩

/-- The value stored under a key. -/
def find (m : SortedMap κ α) (k : κ) : Option α :=
  (m.entries.find? fun e => decide (e.1 = k)).map Prod.snd

/-- Replace what an entry list stores under `k` by `f` of it, adding an entry if needed. -/
def alterList (k : κ) (f : Option α → α) : List (κ × α) → List (κ × α)
  | [] => [(k, f none)]
  | e :: r =>
    if k < e.1 then (k, f none) :: e :: r
    else if k = e.1 then (k, f (some e.2)) :: r
    else e :: alterList k f r

lemma key_of_mem_alterList {k : κ} {f : Option α → α} {l : List (κ × α)} {e : κ × α}
    (h : e ∈ alterList k f l) : e.1 = k ∨ e ∈ l := by
  induction l with
  | nil => simp only [alterList, List.mem_singleton] at h; exact Or.inl (by rw [h])
  | cons a r ih =>
    rw [alterList] at h
    split_ifs at h with h1 h2
    · rcases List.mem_cons.mp h with rfl | h'
      · exact Or.inl rfl
      · exact Or.inr h'
    · rcases List.mem_cons.mp h with rfl | h'
      · exact Or.inl rfl
      · exact Or.inr (List.mem_cons_of_mem _ h')
    · rcases List.mem_cons.mp h with rfl | h'
      · exact Or.inr (List.mem_cons_self ..)
      · exact (ih h').imp_right (List.mem_cons_of_mem _)

lemma mem_alterList_const {k : κ} {v : α} {l : List (κ × α)} {e : κ × α}
    (h : e ∈ alterList k (fun _ => v) l) : e = (k, v) ∨ e ∈ l := by
  induction l with
  | nil => exact .inl (List.mem_singleton.mp h)
  | cons a r ih =>
    rw [alterList] at h
    split_ifs at h with h1 h2
    · exact (List.mem_cons.mp h)
    · exact (List.mem_cons.mp h).imp_right (List.mem_cons_of_mem _)
    · rcases List.mem_cons.mp h with rfl | h'
      · exact .inr List.mem_cons_self
      · exact (ih h').imp_right (List.mem_cons_of_mem _)

lemma alterList_sorted (k : κ) (f : Option α → α) {l : List (κ × α)}
    (h : l.Pairwise fun a b => a.1 < b.1) :
    (alterList k f l).Pairwise fun a b => a.1 < b.1 := by
  induction l with
  | nil => simp [alterList]
  | cons a r ih =>
    obtain ⟨ha, hr⟩ := List.pairwise_cons.mp h
    rw [alterList]
    split_ifs with h1 h2
    · refine List.pairwise_cons.mpr ⟨fun b hb => ?_, h⟩
      rcases List.mem_cons.mp hb with rfl | hb
      · exact h1
      · exact h1.trans (ha b hb)
    · exact List.pairwise_cons.mpr ⟨fun b hb => by rw [h2]; exact ha b hb, hr⟩
    · refine List.pairwise_cons.mpr ⟨fun b hb => ?_, ih hr⟩
      rcases key_of_mem_alterList hb with hk | hb
      · rw [hk]; exact lt_of_le_of_ne (not_lt.mp h1) (Ne.symm h2)
      · exact ha b hb

/-- Store under `k` what `f` makes of the value stored there. -/
def alter (m : SortedMap κ α) (k : κ) (f : Option α → α) : SortedMap κ α :=
  ⟨alterList k f m.entries, alterList_sorted k f m.sorted⟩

/-- Store `v` under `k`. -/
def insert (m : SortedMap κ α) (k : κ) (v : α) : SortedMap κ α := m.alter k fun _ => v

/-- Replace every value by `f` of it, dropping the entries for which there is none. -/
def filterMap (m : SortedMap κ α) (f : κ → α → Option β) : SortedMap κ β :=
  ⟨m.entries.filterMap fun e => (f e.1 e.2).map fun v => (e.1, v), by
    refine List.Pairwise.filterMap _ (fun a b hab c hc d hd => ?_) m.sorted
    obtain ⟨v, -, rfl⟩ := Option.map_eq_some_iff.mp hc
    obtain ⟨w, -, rfl⟩ := Option.map_eq_some_iff.mp hd
    exact hab⟩

/-- Remove the entry of `k`. -/
def erase (m : SortedMap κ α) (k : κ) : SortedMap κ α :=
  m.filterMap fun k' v => if k' = k then none else some v

/-- The entry of the largest key. -/
def last? (m : SortedMap κ α) : Option (κ × α) := m.entries.getLast?

/-! ### Looking up -/

@[simp] lemma find_empty (k : κ) : (empty : SortedMap κ α).find k = none := rfl

lemma mem_entries {m : SortedMap κ α} {k : κ} {v : α} :
    (k, v) ∈ m.entries ↔ m.find k = some v := by
  obtain ⟨l, hl⟩ := m
  simp only [find]
  induction l with
  | nil => simp
  | cons a r ih =>
    obtain ⟨ha, hr⟩ := List.pairwise_cons.mp hl
    by_cases hk : a.1 = k
    · have hnot : (k, v) ∉ r := fun hm => (ha _ hm).ne hk
      rw [List.find?_cons_of_pos (by simpa using hk)]
      simp only [List.mem_cons, hnot, or_false, Option.map_some, Option.some.injEq]
      exact ⟨fun h => by rw [← h], fun h => by rw [← hk, ← h]⟩
    · rw [List.find?_cons_of_neg (by simpa using hk), ← ih hr, List.mem_cons]
      exact or_iff_right fun h => hk (by rw [← h])

lemma find_none_iff {m : SortedMap κ α} {k : κ} :
    m.find k = none ↔ ∀ v, (k, v) ∉ m.entries := by
  simp only [mem_entries, Option.eq_none_iff_forall_ne_some, ne_eq]

lemma find_filterMap (m : SortedMap κ α) (f : κ → α → Option β) (k : κ) :
    (m.filterMap f).find k = (m.find k).bind (f k) := by
  ext v
  rw [← mem_entries, Option.bind_eq_some_iff]
  simp only [filterMap, List.mem_filterMap, Option.map_eq_some_iff, Prod.mk.injEq]
  constructor
  · rintro ⟨⟨k', w⟩, hm, u, hu, rfl, rfl⟩
    exact ⟨w, mem_entries.mp hm, hu⟩
  · rintro ⟨w, hw, hf⟩
    exact ⟨(k, w), mem_entries.mpr hw, v, hf, rfl, rfl⟩

lemma find_erase (m : SortedMap κ α) (k k' : κ) :
    (m.erase k).find k' = if k' = k then none else m.find k' := by
  rw [erase, find_filterMap]
  split_ifs with h
  · cases m.find k' <;> simp
  · cases m.find k' <;> simp

@[simp] lemma find_erase_self (m : SortedMap κ α) (k : κ) : (m.erase k).find k = none := by
  rw [find_erase, if_pos rfl]

/-! ### The entries after a change -/

lemma erase_entries (m : SortedMap κ α) (k : κ) :
    (m.erase k).entries = m.entries.filter fun e => decide (e.1 ≠ k) := by
  simp only [erase, filterMap]
  rw [← List.filterMap_eq_filter]
  refine List.filterMap_congr fun e _ => ?_
  by_cases h : e.1 = k <;> simp [h, Option.guard]

lemma erase_of_find_none {m : SortedMap κ α} {k : κ} (h : m.find k = none) :
    (m.erase k).entries = m.entries := by
  rw [erase_entries]
  refine List.filter_eq_self.mpr fun e he => ?_
  simp only [ne_eq, decide_eq_true_eq]
  rintro rfl
  exact find_none_iff.mp h e.2 he

/-- An entry and the rest of the map. -/
lemma perm_cons_erase {m : SortedMap κ α} {k : κ} {v : α} (h : m.find k = some v) :
    m.entries.Perm ((k, v) :: (m.erase k).entries) := by
  obtain ⟨l, hl⟩ := m
  rw [← mem_entries] at h
  rw [erase_entries]
  simp only at h ⊢
  induction l with
  | nil => simp at h
  | cons a r ih =>
    obtain ⟨ha, hr⟩ := List.pairwise_cons.mp hl
    rcases List.mem_cons.mp h with h | h
    · subst h
      have hrest : r.filter (fun e => decide (e.1 ≠ k)) = r :=
        List.filter_eq_self.mpr fun e he => by simpa using (ha e he).ne'
      rw [List.filter_cons_of_neg (by simp), hrest]
    · have hne : a.1 ≠ k := (ha _ h).ne
      rw [List.filter_cons_of_pos (by simpa using hne)]
      exact ((ih hr h).cons a).trans (List.Perm.swap ..)

/-- After a change at `k` the map is the new entry of `k` and what the map had elsewhere. -/
lemma alter_perm (m : SortedMap κ α) (k : κ) (f : Option α → α) :
    (m.alter k f).entries.Perm ((k, f (m.find k)) :: (m.erase k).entries) := by
  obtain ⟨l, hl⟩ := m
  rw [erase_entries]
  simp only [alter, find]
  induction l with
  | nil => simp [alterList]
  | cons a r ih =>
    obtain ⟨ha, hr⟩ := List.pairwise_cons.mp hl
    rw [alterList]
    split_ifs with h1 h2
    · have hout : ∀ e ∈ a :: r, e.1 ≠ k := by
        intro e he
        rcases List.mem_cons.mp he with rfl | he
        · exact h1.ne'
        · exact (h1.trans (ha e he)).ne'
      have hnone : (a :: r).find? (fun e => decide (e.1 = k)) = none :=
        List.find?_eq_none.mpr fun e he => by simpa using hout e he
      rw [hnone, List.filter_eq_self.mpr fun e he => by simpa using hout e he]
      simp
    · have hrest : r.filter (fun e => decide (e.1 ≠ k)) = r :=
        List.filter_eq_self.mpr fun e he => by rw [h2]; simpa using (ha e he).ne'
      rw [List.find?_cons_of_pos (by simpa using h2.symm),
        List.filter_cons_of_neg (by simpa using h2.symm), hrest]
      simp
    · rw [List.find?_cons_of_neg (by simpa using Ne.symm h2),
        List.filter_cons_of_pos (by simpa using Ne.symm h2)]
      exact ((ih hr).cons a).trans (List.Perm.swap ..)

lemma find_alter (m : SortedMap κ α) (k k' : κ) (f : Option α → α) :
    (m.alter k f).find k' = if k' = k then some (f (m.find k)) else m.find k' := by
  ext v
  rw [← mem_entries, (alter_perm m k f).mem_iff, List.mem_cons, mem_entries, find_erase]
  split_ifs with h
  · subst h; simp [eq_comm]
  · simp [h]

lemma find_insert (m : SortedMap κ α) (k k' : κ) (v : α) :
    (m.insert k v).find k' = if k' = k then some v else m.find k' := find_alter m k k' _

lemma find_last {m : SortedMap κ α} {e : κ × α} (h : m.last? = some e) :
    m.find e.1 = some e.2 :=
  mem_entries.mp (List.mem_of_getLast? h)

/-- The last entry has the largest key. -/
lemma le_last {m : SortedMap κ α} {k : κ} {v : α} (h : m.find k = some v) :
    ∃ e, m.last? = some e ∧ k ≤ e.1 := by
  have hmem := mem_entries.mpr h
  obtain ⟨e, he⟩ : ∃ e, m.last? = some e :=
    ⟨_, List.getLast?_eq_some_getLast (List.ne_nil_of_mem hmem)⟩
  refine ⟨e, he, ?_⟩
  have hsplit : m.entries = m.entries.dropLast ++ [e] :=
    (List.dropLast_append_getLast? e he).symm
  rw [hsplit] at hmem
  rcases List.mem_append.mp hmem with hk | hk
  · have hsorted := m.sorted
    rw [hsplit, List.pairwise_append] at hsorted
    exact (hsorted.2.2 _ hk e List.mem_cons_self).le
  · rw [← List.mem_singleton.mp hk]

lemma eq_of_entries {m m' : SortedMap κ α} (h : m.entries = m'.entries) : m = m' := by
  obtain ⟨l, hl⟩ := m
  obtain ⟨l', hl'⟩ := m'
  obtain rfl : l = l' := h
  rfl

/-- A map is what it has under each key. -/
lemma ext_find {m m' : SortedMap κ α} (h : ∀ k, m.find k = m'.find k) : m = m' := by
  have hirr : Std.Irrefl fun a b : κ × α => a.1 < b.1 := ⟨fun a => lt_irrefl a.1⟩
  have hanti : Std.Antisymm fun a b : κ × α => a.1 < b.1 :=
    ⟨fun a b hab hba => absurd hab hba.asymm⟩
  refine eq_of_entries (List.Pairwise.eq_of_mem_iff m.sorted m'.sorted fun a => ?_)
  rw [mem_entries (k := a.1) (v := a.2), h]
  exact mem_entries.symm

/-! ### Storing a list -/

/-- The last value a list has for a key. -/
def lookupLast (k : κ) : List (κ × α) → Option α
  | [] => none
  | e :: l => (lookupLast k l).or (if e.1 = k then some e.2 else none)

/-- The entries stored one after the other. -/
def ofList (l : List (κ × α)) : SortedMap κ α := l.foldl (fun m e => m.insert e.1 e.2) empty

lemma find_foldl_insert (l : List (κ × α)) (m : SortedMap κ α) (k : κ) :
    (l.foldl (fun m e => m.insert e.1 e.2) m).find k = (lookupLast k l).or (m.find k) := by
  induction l generalizing m with
  | nil => rfl
  | cons e l ih =>
    rw [List.foldl_cons, ih, find_insert, lookupLast, Option.or_assoc]
    congr 1
    by_cases h : e.1 = k
    · rw [if_pos h, if_pos h.symm, Option.some_or]
    · rw [if_neg h, if_neg (Ne.symm h), Option.none_or]

lemma find_ofList (l : List (κ × α)) (k : κ) : (ofList l).find k = lookupLast k l := by
  rw [ofList, find_foldl_insert, find_empty, Option.or_none]

lemma lookupLast_isSome {k : κ} {l : List (κ × α)} :
    (lookupLast k l).isSome ↔ k ∈ l.map Prod.fst := by
  induction l with
  | nil => simp [lookupLast]
  | cons e l ih =>
    rw [lookupLast, Option.isSome_or, Bool.or_eq_true, ih, List.map_cons, List.mem_cons, or_comm]
    by_cases h : e.1 = k
    · simp [h]
    · simp [h, Ne.symm h]

/-- The entries of a map that is stored into a list of entries. -/
lemma foldl_alterList (l : List (κ × α)) (m : SortedMap κ α) :
    (l.foldl (fun m e => m.insert e.1 e.2) m).entries =
      l.foldl (fun r e => alterList e.1 (fun _ => e.2) r) m.entries := by
  induction l generalizing m with
  | nil => rfl
  | cons e l ih => exact ih _

/-- Two lists make the same map if they have the same last values. -/
lemma ofList_eq_iff {l l' : List (κ × α)} :
    ofList l = ofList l' ↔ ∀ k, lookupLast k l = lookupLast k l' := by
  constructor
  · intro h k
    rw [← find_ofList, h, find_ofList]
  · intro h
    exact ext_find fun k => by rw [find_ofList, find_ofList, h]

/-- The entries of a map make the map. -/
lemma ofList_entries (m : SortedMap κ α) : ofList m.entries = m := by
  refine ext_find fun k => ?_
  rw [find_ofList]
  ext v
  rw [← mem_entries]
  obtain ⟨l, hl⟩ := m
  induction l with
  | nil => simp [lookupLast]
  | cons e r ih =>
    obtain ⟨he, hr⟩ := List.pairwise_cons.mp hl
    rw [lookupLast, List.mem_cons]
    by_cases hk : e.1 = k
    · have hnone : lookupLast k r = none := by
        refine Option.not_isSome_iff_eq_none.mp fun hsome => ?_
        obtain ⟨a, ha, hak⟩ := List.mem_map.mp (lookupLast_isSome.mp hsome)
        exact (he a ha).ne (hk.trans hak.symm)
      have hnot : (k, v) ∉ r := fun hm => (he _ hm).ne hk
      rw [hnone, Option.none_or, if_pos hk, or_iff_left hnot, Option.some_inj, ← hk]
      exact ⟨fun h => by rw [← h], fun h => by rw [← h]⟩
    · rw [if_neg hk, Option.or_none, ih hr]
      exact (or_iff_right fun h => hk (by rw [← h])).symm

end SortedMap
