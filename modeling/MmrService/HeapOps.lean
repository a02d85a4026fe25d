import MmrService.HeapLinks
import MmrService.Lib.Transition
import Mathlib.Data.Finset.Card

/-!
What the operations of the heap do.

The arrangement in the tree is sifted as the pointers are, so a node that is put in or taken out
leaves the nodes in heap order, and the root is one that no other is before.
-/

namespace MmrService.Heap

open HeapOrder

variable {κ : Type*} [LinearOrder κ] {key : ℕ → κ} {h : heap} {n i fuel : ℕ} {a : ℕ → ℕ}

/-! ### Sifting -/

/-- The loop that sifts up comes to its end, with the nodes where the tree has them. -/
lemma Links.siftUp (key : ℕ → κ) (fuel : ℕ) (l : Links h n a) (h1 : 1 ≤ i) (hn : i ≤ n)
    (hf : i ≤ fuel) :
    ∃ h', siftUp key fuel h (a i) = some h' ∧ h'.nelts = h.nelts ∧
      Links h' n (HeapOrder.siftUp key a i) := by
  obtain ⟨fuel, rfl⟩ : ∃ f, fuel = f + 1 := ⟨fuel - 1, by omega⟩
  induction a, i using HeapOrder.siftUp.induct key generalizing h fuel with
  | case1 a i hc ih =>
    obtain ⟨h2, hlt⟩ := hc
    obtain ⟨fuel, rfl⟩ : ∃ f, fuel = f + 1 := ⟨fuel - 1, by omega⟩
    obtain ⟨h', hswap, hsize, l'⟩ := l.swap h2 hn rfl
    obtain ⟨h'', hsift, hsize', l''⟩ := ih l' (by omega) (by omega) fuel (by omega)
    rw [swapped_right] at hsift
    rw [Heap.siftUp, l.parent h1 hn, ptrAt_eq (by omega) (by omega), HeapOrder.siftUp,
      if_pos ⟨h2, hlt⟩]
    simp only [if_pos hlt, hswap, Option.bind_eq_bind, Option.bind_some]
    exact ⟨h'', hsift, hsize'.trans hsize, l''⟩
  | case2 a i hc =>
    refine ⟨h, ?_, rfl, by rwa [HeapOrder.siftUp, if_neg hc]⟩
    rw [Heap.siftUp, l.parent h1 hn]
    by_cases hi : i = 1
    · rw [hi]
      rfl
    · rw [ptrAt_eq (by omega) (by omega)]
      exact if_neg fun hlt => hc ⟨by omega, hlt⟩

lemma pick_eq (e c : ℕ) (hc : 1 ≤ c) :
    pick key (a e) (ptrAt a n c) = a (HeapOrder.pick (fun j => key (a j)) n e c) := by
  rw [HeapOrder.pick]
  by_cases hn : c ≤ n
  · rw [ptrAt_eq hc hn, if_pos hn, pick, Option.elim_some]
    split_ifs <;> rfl
  · rw [if_neg hn, ptrAt, if_neg (by omega)]
    rfl

/-- The loop that sifts down comes to its end, with the nodes where the tree has them. -/
lemma Links.siftDown (key : ℕ → κ) (fuel : ℕ) (l : Links h n a) (h1 : 1 ≤ i) (hn : i ≤ n)
    (hf : n < fuel + i) :
    ∃ h', siftDown key fuel h (a i) = some h' ∧ h'.nelts = h.nelts ∧
      Links h' n (HeapOrder.siftDown key n a i).1 ∧
      (HeapOrder.siftDown key n a i).1 (HeapOrder.siftDown key n a i).2 = a i := by
  obtain ⟨fuel, rfl⟩ : ∃ f, fuel = f + 1 := ⟨fuel - 1, by omega⟩
  induction a, i using HeapOrder.siftDown.induct key n generalizing h fuel with
  | case1 a i hc =>
    have hest : est (fun j => key (a j)) n i = i := hc.resolve_right (by omega)
    refine ⟨h, ?_, rfl, ?_⟩
    · rw [Heap.siftDown, l.left h1 hn, l.right h1 hn, pick_eq i _ (by omega),
        pick_eq _ _ (by omega)]
      exact if_pos (congrArg a hest)
    · rw [HeapOrder.siftDown, if_pos hc]
      exact ⟨l, rfl⟩
  | case2 a i hc ih =>
    have hcases := est_cases (fun j => key (a j)) n i
    have hne : est (fun j => key (a j)) n i ≠ i := fun he => hc (.inl he)
    have hchild : 2 ≤ est (fun j => key (a j)) n i := by omega
    have hle : est (fun j => key (a j)) n i ≤ n := by omega
    obtain ⟨fuel, rfl⟩ : ∃ f, fuel = f + 1 := ⟨fuel - 1, by omega⟩
    obtain ⟨h', hswap, hsize, l'⟩ := l.swap hchild hle (show i = _ / 2 by omega)
    rw [swapped_comm] at l'
    obtain ⟨h'', hsift, hsize', l'', hend⟩ := ih l' (by omega) hle fuel (by omega)
    rw [swapped_right] at hsift hend
    rw [Heap.siftDown, l.left h1 hn, l.right h1 hn, pick_eq i _ (by omega),
      pick_eq _ _ (by omega), HeapOrder.siftDown, if_neg hc]
    refine ⟨h'', ?_, hsize'.trans hsize, l'', hend⟩
    have hdiff : a (est (fun j => key (a j)) n i) ≠ a i :=
      fun he => hne (l.inj _ _ (by omega) hle h1 hn he)
    change (if a (est (fun j => key (a j)) n i) = a i then some h else
      (heap_swap h (a i) (a (est (fun j => key (a j)) n i))).bind fun h =>
        Heap.siftDown key (fuel + 1) h (a i)) = some h''
    rw [if_neg hdiff, hswap, Option.bind_some, hsift]

/-! ### Putting a node in -/

lemma Links.nelts (l : Links h n a) (m : ℕ) : Links { h with nelts := m } n a :=
  ⟨l.root, l.inj, l.node, l.others⟩

/-- The place of position `x` behind the root: its parent, and the bit that tells the side. -/
lemma Links.descend_parent (l : Links h n a) {x : ℕ} (h2 : 2 ≤ x) (hn : x / 2 ≤ n) :
    descend h (getPath x x 0 0).2 (getPath x x 0 0).1 h.root = some (x % 2, some (a (x / 2))) := by
  obtain ⟨f, hf⟩ : ∃ f, x = f + 1 := ⟨x - 1, by omega⟩
  have hpath : getPath x x 0 0 = getPath f (x / 2) (2 * 0 + x % 2) 1 := by
    rw [← getPath_of_le f h2, ← hf]
  rw [hpath, l.descend_getPath (by omega) hn (by omega) le_rfl]
  simp only [Nat.mul_zero, Nat.zero_add]
  rfl

/-- The place behind the last node. -/
lemma Links.descend_next (l : Links h n a) :
    ∃ path, descend h (getPath (n + 1) (n + 1) 0 0).2 (getPath (n + 1) (n + 1) 0 0).1 h.root =
      some (path, ptrAt a n ((n + 1) / 2)) ∧ (n ≠ 0 → path &&& 1 = (n + 1) % 2) := by
  by_cases hn : n = 0
  · subst hn
    refine ⟨0, ?_, fun h0 => absurd rfl h0⟩
    rw [getPath_of_lt _ (by omega), l.root]
    rfl
  · refine ⟨(n + 1) % 2, ?_, fun _ => ?_⟩
    · rw [l.descend_parent (by omega) (by omega), ptrAt_eq (by omega) (by omega)]
    · rw [Nat.and_one_is_mod, Nat.mod_mod]

lemma ptrAt_append (x j : ℕ) :
    ptrAt (Function.update a (n + 1) x) (n + 1) j = if j = n + 1 then some x else ptrAt a n j := by
  split_ifs with hj
  · rw [hj, ptrAt_eq (by omega) le_rfl, Function.update_self]
  · rw [ptrAt, ptrAt, Function.update_of_ne hj]
    congr 1
    simp only [eq_iff_iff]
    omega

/-- A node behind the last one. -/
lemma Links.attach (l : Links h n a) {x path : ℕ} (hx : ¬ Holds a n x)
    (hpath : n ≠ 0 → path &&& 1 = (n + 1) % 2) :
    Links (h.attach x path (ptrAt a n ((n + 1) / 2))) (n + 1)
      (Function.update a (n + 1) x) := by
  have hxa : ∀ j, 1 ≤ j → j ≤ n → a j ≠ x := fun j h1 hn he => hx ⟨j, h1, hn, he⟩
  have hlast : ptrAt a n (n + 1) = none := if_neg (by omega)
  have hroot := l.root
  have hother := l.others x hx
  constructor
  case root =>
    have hnone := @ptrAt_half (n + 1) (n + 1) a (by omega) le_rfl
    have hup : ptrAt a (n + 1) ((n + 1) / 2) = ptrAt a n ((n + 1) / 2) := by
      rw [ptrAt, ptrAt]
      congr 1
      simp only [eq_iff_iff]
      omega
    rw [hup] at hnone
    simp only [heap.attach_root, ptrAt_append, hroot]
    grind
  case inj =>
    intro i j hi hin hj hjn
    simp only [Function.update_apply]
    have hinj := l.inj i j
    grind
  case node =>
    intro j h1 hj
    by_cases hjn : j = n + 1
    · rw [hjn, Function.update_self]
      simp only [heap_node.ext_iff, nodeAt, ptrAt_append, heap.attach_parent, heap.attach_left,
        heap.attach_right]
      have hnone : ∀ i, n < i → ptrAt a n i = none := fun i hi => if_neg (by omega)
      have hnot : ptrAt a n ((n + 1) / 2) ≠ some x := by
        rw [ptrAt]
        grind
      grind
    · have hjn' : j ≤ n := by omega
      have hbit := hpath (by omega)
      rw [Function.update_of_ne hjn]
      simp only [heap_node.ext_iff, nodeAt, ptrAt_append, heap.attach_parent, heap.attach_left,
        heap.attach_right, l.ptrAt_eq_some h1 hjn', l.parent h1 hjn', l.left h1 hjn',
        l.right h1 hjn', hxa j h1 hjn', hbit]
      grind
  case others =>
    intro y hy
    have hyx : y ≠ x := fun he => hy ⟨n + 1, by omega, le_rfl, by rw [he, Function.update_self]⟩
    have hya : ¬ Holds a n y := by
      rintro ⟨j, h1, hn, rfl⟩
      exact hy ⟨j, h1, by omega, by rw [Function.update_of_ne (by omega)]⟩
    have hnot : ptrAt a n ((n + 1) / 2) ≠ some y := by
      rw [ptrAt]
      split_ifs with hr
      · exact fun he => hya ⟨_, hr.1, hr.2, Option.some.inj he⟩
      · simp
    have hold := l.others y hya
    simp [hnot, hold]

/-! ### Taking a node out -/

lemma ptrAt_replace (hi : 1 ≤ i) (x j : ℕ) :
    ptrAt (Function.update a i x) n j =
      if j = i ∧ i ≤ n then some x else ptrAt a n j := by
  by_cases hj : j = i
  · subst hj
    rw [ptrAt, ptrAt, Function.update_self]
    grind
  · rw [if_neg fun hc => hj hc.1, ptrAt, ptrAt, Function.update_of_ne hj]

lemma ptrAt_succ (j : ℕ) : ptrAt a (n + 1) j = if j = n + 1 then some (a j) else ptrAt a n j := by
  rw [ptrAt, ptrAt]
  grind

/-- The last node is taken off its parent, and points to it as before. -/
lemma Links.detach (l : Links h (n + 1) a) {p path : ℕ} (hp : p = (n + 1) / 2) (hp1 : 1 ≤ p)
    (hpath : path &&& 1 = (n + 1) % 2) :
    (h.detach path (a p)).1 = some (a (n + 1)) ∧
      ∀ j, 1 ≤ j → j ≤ n + 1 → (h.detach path (a p)).2.nodes (a j) = nodeAt a n j := by
  have hpn : p ≤ n + 1 := by omega
  constructor
  · rw [heap.detach, hpath]
    split_ifs with hodd
    · rw [l.right hp1 hpn, ptrAt_eq (by omega) (by omega)]
      grind
    · rw [l.left hp1 hpn, ptrAt_eq (by omega) (by omega)]
      grind
  · intro j h1 hj
    simp only [heap_node.ext_iff, nodeAt, heap.detach_parent, heap.detach_left, heap.detach_right,
      l.parent h1 hj, l.left h1 hj, l.right h1 hj, l.eq_iff h1 hj hp1 hpn, ptrAt_succ, hpath]
    have hnone : ∀ i, n < i → ptrAt a n i = none := fun i hi => if_neg (by omega)
    clear hpath
    grind

/-- The node at `i` is replaced with the last one, which no node points to. -/
lemma replace_links (hinj : Distinct a (n + 1)) (h1 : 1 ≤ i) (hi : i ≤ n + 1)
    (hnode : ∀ j, 1 ≤ j → j ≤ n + 1 → h.nodes (a j) = nodeAt a n j) :
    ∀ j, 1 ≤ j → j ≤ n →
      ((heap_replace h (a i) (a (n + 1))).clear (a i)).nodes
          (Function.update a i (a (n + 1)) j) =
        nodeAt (Function.update a i (a (n + 1))) n j := by
  have hparent : ∀ j, 1 ≤ j → j ≤ n + 1 → (h.nodes (a j)).parent = ptrAt a n (j / 2) :=
    fun j h1 hj => by rw [hnode j h1 hj, nodeAt]
  have hleft : ∀ j, 1 ≤ j → j ≤ n + 1 → (h.nodes (a j)).left = ptrAt a n (2 * j) :=
    fun j h1 hj => by rw [hnode j h1 hj, nodeAt]
  have hright : ∀ j, 1 ≤ j → j ≤ n + 1 → (h.nodes (a j)).right = ptrAt a n (2 * j + 1) :=
    fun j h1 hj => by rw [hnode j h1 hj, nodeAt]
  have heq : ∀ j k, 1 ≤ j → j ≤ n + 1 → 1 ≤ k → k ≤ n + 1 → (a j = a k ↔ j = k) :=
    fun j k hj hjn hk hkn => ⟨hinj j k hj hjn hk hkn, fun he => he ▸ rfl⟩
  have hptr : ∀ j k, 1 ≤ k → k ≤ n + 1 → (ptrAt a n j = some (a k) ↔ j = k ∧ k ≤ n) := by
    intro j k hk hkn
    rw [ptrAt]
    have := heq j k
    grind
  intro j hj1 hj
  have hjn : j ≤ n + 1 := by omega
  by_cases hji : j = i
  · subst hji
    rw [Function.update_self]
    simp [heap_node.ext_iff, nodeAt, ptrAt_replace, heap_replace, hparent, hleft, hright, heq, hptr,
      h1, hi]
    grind
  · rw [Function.update_of_ne hji]
    simp [heap_node.ext_iff, nodeAt, ptrAt_replace, heap_replace, hparent, hleft, hright, heq, hptr,
      h1, hi, hj1, hjn]
    grind

/-- The last node takes the place of the node at `i`. -/
lemma Links.removed (l : Links h (n + 1) a) {p path : ℕ} (hp : p = (n + 1) / 2) (hp1 : 1 ≤ p)
    (hpath : path &&& 1 = (n + 1) % 2) (h1 : 1 ≤ i) (hi : i ≤ n + 1) :
    Links ((heap_replace (h.detach path (a p)).2 (a i) (a (n + 1))).clear (a i)) n
      (Function.update a i (a (n + 1))) := by
  obtain ⟨-, hnode⟩ := l.detach hp hp1 hpath
  refine ⟨?_, ?_, replace_links l.inj h1 hi hnode, ?_⟩
  · have hparent : ((h.detach path (a p)).2.nodes (a i)).parent = ptrAt a n (i / 2) := by
      rw [hnode i h1 hi, nodeAt]
    have hhalf : ptrAt a n (i / 2) = none ↔ i = 1 := by
      rw [ptrAt, ite_eq_right_iff]
      simp only [reduceCtorEq, imp_false]
      omega
    simp only [heap_replace, heap.clear_root, heap.setRight_root, heap.setLeft_root,
      heap.setParent_root, heap.adopt_root, heap.relink_root, heap.detach_root, hparent, l.root,
      ptrAt_replace h1, hhalf, ptrAt_eq le_rfl (show 1 ≤ n by omega),
      ptrAt_eq le_rfl (show 1 ≤ n + 1 by omega)]
    grind
  · intro j k hj hjn hk hkn
    simp only [Function.update_apply]
    have hinj := l.inj
    rw [Distinct] at hinj
    grind
  · intro y hy
    by_cases hyi : y = a i
    · simp [hyi]
    · have hnot : ∀ j, 1 ≤ j → j ≤ n + 1 → a j ≠ y := by
        intro j hj hjn hjy
        by_cases hlast : j = n + 1
        · refine hy ⟨i, h1, ?_, by rw [Function.update_self, ← hlast, hjy]⟩
          by_contra hin
          exact hyi (by rw [← hjy, hlast, show i = n + 1 by omega])
        · refine hy ⟨j, hj, by omega, ?_⟩
          rw [Function.update_of_ne, hjy]
          rintro rfl
          exact hyi hjy.symm
      have hold : (h.nodes y).left = none ∧ (h.nodes y).right = none := by
        apply l.others
        rintro ⟨j, hj, hjn, hjy⟩
        exact hnot j hj hjn hjy
      have hpy : y ≠ a p := fun he => hnot p hp1 (by omega) he.symm
      have hly : y ≠ a (n + 1) := fun he => hnot (n + 1) (by omega) le_rfl he.symm
      have hparent : ((h.detach path (a p)).2.nodes (a i)).parent ≠ some y := by
        rw [hnode i h1 hi, nodeAt, ptrAt]
        split_ifs with hr
        · exact fun he => hnot _ hr.1 (by omega) (Option.some.inj he)
        · simp
      rw [heap.detach_parent] at hparent
      simp [heap_replace, hyi, hly, hpy, hparent, hold]

/-- The heap has the nodes of `s`, with the pointers of a tree in heap order. -/
def Valid (key : ℕ → κ) (h : heap) (s : Finset ℕ) : Prop :=
  h.nelts = s.card ∧
  ∃ a, Links h s.card a ∧ Ordered (fun j => key (a j)) s.card ∧ ∀ x, x ∈ s ↔ Holds a s.card x

lemma valid_init (key : ℕ → κ) : Valid key heap_init ∅ := by
  have hnone : ∀ j : ℕ, 1 ≤ j → ¬ j ≤ (∅ : Finset ℕ).card := by
    intro j h1
    rw [Finset.card_empty]
    omega
  refine ⟨rfl, fun _ => 0, ⟨rfl, ?_, ?_, fun _ _ => ⟨rfl, rfl⟩⟩, ?_, ?_⟩
  · exact fun i j h1 hn => absurd hn (hnone i h1)
  · exact fun j h1 hn => absurd hn (hnone j h1)
  · exact fun j h2 hn => absurd hn (hnone j (by omega))
  · intro x
    refine ⟨fun hx => absurd hx (by simp), ?_⟩
    rintro ⟨j, h1, hn, -⟩
    exact absurd hn (hnone j h1)

variable {s : Finset ℕ} {x : ℕ}

/-- Keys of other nodes do not matter. -/
lemma Valid.congr {key' : ℕ → κ} (hv : Valid key h s) (heq : ∀ x ∈ s, key' x = key x) :
    Valid key' h s := by
  obtain ⟨hsize, a, l, ho, hs⟩ := hv
  refine ⟨hsize, a, l, fun j h2 hn => ?_, hs⟩
  change key' (a (j / 2)) ≤ key' (a j)
  rw [heq _ ((hs _).mpr ⟨j / 2, by omega, by omega, rfl⟩),
    heq _ ((hs _).mpr ⟨j, by omega, hn, rfl⟩)]
  exact ho j h2 hn

/-- The root is there unless the heap is empty, and no node is before it. -/
theorem Valid.root (hv : Valid key h s) :
    (h.root = none ↔ s = ∅) ∧ ∀ r, h.root = some r → r ∈ s ∧ ∀ x ∈ s, key r ≤ key x := by
  obtain ⟨hsize, a, l, ho, hs⟩ := hv
  rw [l.root]
  constructor
  · rw [← Finset.card_eq_zero, ptrAt, ite_eq_right_iff]
    simp only [reduceCtorEq, imp_false]
    omega
  · intro r hr
    rw [ptrAt] at hr
    split_ifs at hr with hc
    obtain rfl := Option.some.inj hr
    refine ⟨(hs _).mpr ⟨1, hc.1, hc.2, rfl⟩, fun x hx => ?_⟩
    obtain ⟨j, h1, hn, rfl⟩ := (hs x).mp hx
    exact ho.root_le j h1 hn

lemma holds_append : Holds (Function.update a (n + 1) x) (n + 1) i ↔ i = x ∨ Holds a n i := by
  constructor
  · rintro ⟨j, h1, hn, rfl⟩
    by_cases hj : j = n + 1
    · exact .inl (by rw [hj, Function.update_self])
    · exact .inr ⟨j, h1, by omega, by rw [Function.update_of_ne hj]⟩
  · rintro (rfl | ⟨j, h1, hn, rfl⟩)
    · exact ⟨n + 1, by omega, le_rfl, Function.update_self ..⟩
    · exact ⟨j, h1, by omega, Function.update_of_ne (by omega) ..⟩

omit [LinearOrder κ] in
lemma key_update (i y : ℕ) : (fun j => key (Function.update a i y j)) =
    Function.update (fun j => key (a j)) i (key y) := by
  funext j
  by_cases hj : j = i
  · subst hj
    simp only [Function.update_self]
  · simp only [Function.update_of_ne hj]

/-- A node that is not in the heap is put into it. -/
theorem Valid.inserted (hv : Valid key h s) (hx : x ∉ s) (hroom : s.card ≠ INT_MAX) :
    ∃ h', heap_insert key h x = some h' ∧ Valid key h' (insert x s) := by
  obtain ⟨hsize, a, l, ho, hs⟩ := hv
  have hxa : ¬ Holds a s.card x := fun hh => hx ((hs x).mpr hh)
  have hcard : (insert x s).card = s.card + 1 := Finset.card_insert_of_notMem hx
  obtain ⟨path, hdescend, hpath⟩ := (l.nelts (s.card + 1)).descend_next
  have la := (l.nelts (s.card + 1)).attach hxa hpath
  obtain ⟨hnear, hbelow⟩ := ho.nearly_append (key x)
  rw [← key_update] at hnear hbelow
  obtain ⟨h', hsift, hsize', l'⟩ := la.siftUp key _ (by omega) le_rfl le_rfl
  rw [Function.update_self] at hsift
  refine ⟨h', ?_, ?_, HeapOrder.siftUp key (Function.update a (s.card + 1) x) (s.card + 1), ?_,
    ?_, ?_⟩
  · rw [heap_insert, if_neg (by rwa [hsize])]
    simp only [hsize, hdescend, Option.bind_eq_bind, Option.bind_some]
    exact hsift
  · rw [hsize', heap.attach_nelts, hcard]
  · rwa [hcard]
  · rw [hcard]
    exact ordered_siftUp key _ _ le_rfl hnear hbelow
  · intro y
    rw [hcard, holds_siftUp _ _ _ le_rfl, holds_append, Finset.mem_insert, hs]

/-- A node without links is where it is to be. -/
lemma sift_alone (key : ℕ → κ) {m : ℕ} (hm : 1 ≤ m) (hp : (h.nodes x).parent = none)
    (hl : (h.nodes x).left = none) (hr : (h.nodes x).right = none) :
    Heap.siftDown key m h x = some h ∧ Heap.siftUp key m h x = some h := by
  obtain ⟨m, rfl⟩ : ∃ k, m = k + 1 := ⟨m - 1, by omega⟩
  rw [Heap.siftDown, Heap.siftUp, hp, hl, hr]
  exact ⟨if_pos rfl, rfl⟩

lemma holds_replace (hinj : Distinct a (n + 1)) (h1 : 1 ≤ i) (hi : i ≤ n + 1) {y : ℕ} :
    Holds (Function.update a i (a (n + 1))) n y ↔ y ≠ a i ∧ Holds a (n + 1) y := by
  constructor
  · rintro ⟨j, hj, hjn, rfl⟩
    by_cases hji : j = i
    · subst hji
      rw [Function.update_self]
      refine ⟨fun he => ?_, n + 1, by omega, le_rfl, rfl⟩
      have := hinj _ _ (by omega) le_rfl h1 hi he
      omega
    · rw [Function.update_of_ne hji]
      exact ⟨fun he => hji (hinj _ _ hj (by omega) h1 hi he), j, hj, by omega, rfl⟩
  · rintro ⟨hyi, j, hj, hjn, rfl⟩
    by_cases hlast : j = n + 1
    · subst hlast
      refine ⟨i, h1, ?_, Function.update_self ..⟩
      by_contra hin
      exact hyi (by rw [show i = n + 1 by omega])
    · refine ⟨j, hj, by omega, Function.update_of_ne ?_ ..⟩
      rintro rfl
      exact hyi rfl

/-- The last node, in place of the one at `i`, is sifted down and up. -/
lemma Links.resift (ho : Ordered (fun j => key (a j)) (n + 1)) (hn : 1 ≤ n) (h1 : 1 ≤ i)
    (hi : i ≤ n + 1) (hsize : h.nelts = n) (l : Links h n (Function.update a i (a (n + 1))))
    (hlast : i = n + 1 → h.nodes (a (n + 1)) = ⟨none, none, none⟩) :
    ∃ h' b, ((Heap.siftDown key h.nelts h (a (n + 1))).bind fun h =>
        Heap.siftUp key h.nelts h (a (n + 1))) = some h' ∧ h'.nelts = n ∧ Links h' n b ∧
      Ordered (fun j => key (b j)) n ∧
      ∀ y, Holds b n y ↔ Holds (Function.update a i (a (n + 1))) n y := by
  by_cases hin : i = n + 1
  · subst hin
    rw [Function.update_eq_self] at l ⊢
    have hnode := hlast rfl
    obtain ⟨hdown, hup⟩ := sift_alone key (show 1 ≤ h.nelts by omega)
      (congrArg heap_node.parent hnode) (congrArg heap_node.left hnode)
      (congrArg heap_node.right hnode)
    refine ⟨h, a, ?_, hsize, l, fun j h2 hj => ho j h2 (by omega), fun y => Iff.rfl⟩
    rw [hdown, Option.bind_some, hup]
  · have hi' : i ≤ n := by omega
    have hnear := ho.nearly_replace (i := i) (key (a (n + 1)))
    rw [← key_update] at hnear
    obtain ⟨h₁, hdown, hsize₁, l₁, hend⟩ := l.siftDown key n h1 hi' (by omega)
    obtain ⟨hnear', hbelow⟩ := nearly_siftDown key _ i h1 hnear
    obtain ⟨hd1, hdn⟩ := siftDown_le key (Function.update a i (a (n + 1))) i h1 hi'
    obtain ⟨h₂, hup, hsize₂, l₂⟩ := l₁.siftUp key n hd1 hdn hdn
    rw [hend, Function.update_self] at hup
    rw [Function.update_self] at hdown
    refine ⟨h₂, _, ?_, by omega, l₂, ordered_siftUp key _ _ hdn hnear' hbelow, fun y => ?_⟩
    · rw [hsize, hdown, Option.bind_some, hsize₁, hsize, hup]
    · rw [holds_siftUp key _ _ hdn, holds_siftDown key _ _ h1 hi']

/-- A node of the heap is taken out of it. -/
theorem Valid.removed (hv : Valid key h s) (hx : x ∈ s) :
    ∃ h', heap_remove key h x = some h' ∧ Valid key h' (s.erase x) := by
  obtain ⟨hsize, a, l, ho, hs⟩ := hv
  obtain ⟨i, h1, hi, rfl⟩ := (hs x).mp hx
  obtain ⟨n, hcard⟩ : ∃ n, s.card = n + 1 := ⟨s.card - 1, by omega⟩
  have herase : (s.erase (a i)).card = n := by rw [Finset.card_erase_of_mem hx, hcard]; rfl
  rw [hcard] at hsize l ho hs hi
  have hmem : ∀ y, y ∈ s.erase (a i) ↔ Holds (Function.update a i (a (n + 1))) n y := fun y => by
    rw [Finset.mem_erase, hs, holds_replace l.inj h1 hi]
  have ln := l.nelts n
  rw [heap_remove, if_neg (by omega), hsize, Nat.add_sub_cancel]
  by_cases hn : n = 0
  · -- it is the root
    subst hn
    obtain rfl : i = 1 := by omega
    have hroot : h.root = some (a 1) := by rw [l.root, ptrAt_eq le_rfl le_rfl]
    have hleft : (h.nodes (a 1)).left = none := by
      rw [l.left le_rfl le_rfl]
      rfl
    have hright : (h.nodes (a 1)).right = none := by
      rw [l.right le_rfl le_rfl]
      rfl
    refine ⟨{ h.setLeft (a 1) none with root := none, nelts := 0 }, ?_, herase.symm, a,
      ⟨?_, ?_, ?_, ?_⟩, ?_, ?_⟩
    · rw [getPath_of_lt _ (by omega)]
      simp only [descend, Option.bind_eq_bind, Option.bind_some, hroot, heap.detach]
      simp [hleft]
      rfl
    all_goals rw [herase]
    · rfl
    · exact fun i j h1 hi => absurd h1 (by omega)
    · exact fun j h1 hj => absurd h1 (by omega)
    · intro y _
      by_cases hy : y = a 1
      · subst hy
        simp [hright]
      · have hold := l.others y (by
          rintro ⟨j, h1, hj, rfl⟩
          exact hy (by rw [show j = 1 by omega]))
        simp [hy, hold]
    · exact fun j h2 hj => absurd h2 (by omega)
    · intro y
      rw [hmem]
      constructor <;> rintro ⟨j, h1, hj, -⟩ <;> omega
  · -- the last node is taken off its parent
    have hbit : (n + 1) % 2 &&& 1 = (n + 1) % 2 := by rw [Nat.and_one_is_mod, Nat.mod_mod]
    obtain ⟨hlast, hnode⟩ := ln.detach rfl (show 1 ≤ (n + 1) / 2 by omega) hbit
    have lr := ln.removed rfl (by omega) hbit h1 hi
    obtain ⟨h', b, hsift, hsize', lb, hob, hb⟩ := lr.resift ho (by omega) h1 hi
      (by simp [heap_replace]) fun he => by simp [heap_node.ext_iff, he]
    refine ⟨h', ?_, hsize'.trans herase.symm, b, ?_, ?_, ?_⟩
    · simp only [ln.descend_parent (show 2 ≤ n + 1 by omega) (by omega), hlast, Option.bind_eq_bind,
        Option.bind_some]
      exact hsift
    · rwa [herase]
    · rwa [herase]
    · intro y
      rw [herase, hb, hmem]

/-! ### Runs -/

/-- A call; a node that is put in has its key from then on. -/
inductive Op (κ : Type*) where
  | insert (x : ℕ) (k : κ)
  | remove (x : ℕ)
  | dequeue

/-- The heap, the keys, and the nodes that were put in and not taken out. -/
structure State (κ : Type*) where
  heap : heap
  key : ℕ → κ
  nodes : Finset ℕ

/-- Only a node that is not in the heap is put in, while an `int` can count one more, and only
one that is in it is taken out. -/
def Op.Allowed (s : Finset ℕ) : Op κ → Prop
  | .insert x _ => x ∉ s ∧ s.card ≠ INT_MAX
  | .remove x => x ∈ s
  | .dequeue => True

instance (s : Finset ℕ) (o : Op κ) : Decidable (o.Allowed s) :=
  match o with
  | .insert x _ => inferInstanceAs (Decidable (x ∉ s ∧ s.card ≠ INT_MAX))
  | .remove x => inferInstanceAs (Decidable (x ∈ s))
  | .dequeue => inferInstanceAs (Decidable True)

def step (s : State κ) : Op κ → Option (State κ)
  | .insert x k =>
    let key := Function.update s.key x k
    (heap_insert key s.heap x).map fun h => ⟨h, key, insert x s.nodes⟩
  | .remove x => (heap_remove s.key s.heap x).map fun h => ⟨h, s.key, s.nodes.erase x⟩
  | .dequeue => (heap_dequeue s.key s.heap).map fun h =>
      ⟨h, s.key, s.heap.root.elim s.nodes s.nodes.erase⟩

/-- A call has a result, and the heap is as it is to be. -/
lemma step_valid {s : State κ} (hv : Valid s.key s.heap s.nodes) {o : Op κ}
    (ho : o.Allowed s.nodes) : ∃ t, step s o = some t ∧ Valid t.key t.heap t.nodes := by
  cases o with
  | insert x k =>
    have hv' : Valid (Function.update s.key x k) s.heap s.nodes := hv.congr fun y hy => by
      rw [Function.update_of_ne]
      rintro rfl
      exact ho.1 hy
    obtain ⟨h, hh, hvh⟩ := hv'.inserted ho.1 ho.2
    exact ⟨_, by rw [step, hh]; rfl, hvh⟩
  | remove x =>
    obtain ⟨h, hh, hvh⟩ := hv.removed ho
    exact ⟨_, by rw [step, hh]; rfl, hvh⟩
  | dequeue =>
    obtain ⟨hnone, hsome⟩ := hv.root
    cases hr : s.heap.root with
    | none =>
      have hsize : s.heap.nelts = 0 := by
        rw [hv.1, hnone.mp hr, Finset.card_empty]
      refine ⟨s, ?_, hv⟩
      rw [step, heap_dequeue, hr]
      simp only [hsize, if_pos, Option.map_some, Option.elim_none]
    | some r =>
      obtain ⟨h, hh, hvh⟩ := hv.removed (hsome r hr).1
      refine ⟨⟨h, s.key, s.nodes.erase r⟩, ?_, hvh⟩
      rw [step, heap_dequeue, hr]
      simp only [hh, Option.map_some, Option.elim_some]

/-- **The heap.** In every run that puts in nodes that are not in the heap, never more than an
`int` can count, and takes out nodes that are, no null pointer is followed, no assertion fails
and every loop ends; the heap has the nodes that were put in and not taken out, each pointing to
its parent and children, and its root is one of them whose key no other key is less than. -/
theorem heap_run (key : ℕ → κ) (os : List (Op κ))
    (h : Transition.Always step (fun _ s o => o.Allowed s.nodes) ⟨heap_init, key, ∅⟩ os) :
    ∃ t, Transition.exec step ⟨heap_init, key, ∅⟩ os = some t ∧ t.heap.nelts = t.nodes.card ∧
      (∃ a, Links t.heap t.nodes.card a ∧ ∀ x, x ∈ t.nodes ↔ Holds a t.nodes.card x) ∧
      (t.heap.root = none ↔ t.nodes = ∅) ∧
      ∀ r, t.heap.root = some r → r ∈ t.nodes ∧ ∀ x ∈ t.nodes, t.key r ≤ t.key x := by
  have hrun : ∃ t, Transition.exec step ⟨heap_init, key, ∅⟩ os = some t ∧
      Valid t.key t.heap t.nodes := by
    induction os using List.reverseRecOn with
    | nil => exact ⟨_, rfl, valid_init key⟩
    | append_singleton os o ih =>
      obtain ⟨t, ht, hv⟩ := ih h.left
      obtain ⟨u, hu, hvu⟩ := step_valid hv (h.last ht)
      exact ⟨u, by rw [Transition.exec_snoc, ht]; exact hu, hvu⟩
  obtain ⟨t, ht, hv⟩ := hrun
  obtain ⟨hsize, a, l, -, ha⟩ := id hv
  exact ⟨t, ht, hsize, ⟨a, l, ha⟩, hv.root⟩

/-- Three nodes, the last of them taken out again, and then the first one. -/
theorem heap_run_three :
    ∃ t, Transition.exec step ⟨heap_init, id, ∅⟩
        [.insert 4 7, .insert 5 3, .insert 6 5, .remove 6, .dequeue] = some t ∧
      t.heap.nelts = t.nodes.card ∧
      (∃ a, Links t.heap t.nodes.card a ∧ ∀ x, x ∈ t.nodes ↔ Holds a t.nodes.card x) ∧
      (t.heap.root = none ↔ t.nodes = ∅) ∧
      ∀ r, t.heap.root = some r → r ∈ t.nodes ∧ ∀ x ∈ t.nodes, t.key r ≤ t.key x :=
  heap_run id _ (Transition.always_of_check (q := fun s o => decide (o.Allowed s.nodes))
    (fun _ _ h => of_decide_eq_true h) (by decide))

end MmrService.Heap
