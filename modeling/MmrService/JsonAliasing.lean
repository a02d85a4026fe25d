import MmrService.JsonNodes

/-!
Assignments between a `Value` and a value inside it.

An assignment releases what its target owns before it reads the source. A source inside the
target is released with it. A source around the target still has the target among its values,
whose type says that it owns what is already released, unless there was nothing to release.
-/

namespace MmrService.Json

open NodeStore

variable {D : Type}

/-! ### Trees of nodes -/

/-- A value that owns nothing. Nothing reads the union of a null value. -/
inductive Scalar (D : Type)
  | null (Internal : BackingData D)
  | floating (Float : D)
  | integral (Int : ℤ)
  | boolean (Bool : Bool)

def Scalar.cell : Scalar D → Cell D
  | .null Internal => ⟨Internal, .Null⟩
  | .floating Float => ⟨.Float Float, .Floating⟩
  | .integral Int => ⟨.Int Int, .Integral⟩
  | .boolean Bool => ⟨.Bool Bool, .Boolean⟩

def Scalar.value : Scalar D → Value D
  | .null _ => .null
  | .floating Float => .floating Float
  | .integral Int => .integral Int
  | .boolean Bool => .boolean Bool

/-- A value with its address `a`, the address `p` of what it owns, and the values in it. -/
inductive Tree (D : Type)
  | scalar (a : ℕ) (s : Scalar D)
  | string (a p : ℕ) (String : List UInt8)
  | object (a p : ℕ) (keys : List (List UInt8)) (ts : List (Tree D))
  | array (a p : ℕ) (ts : List (Tree D))

namespace Tree

def root : Tree D → ℕ
  | scalar a _ | string a _ _ | object a _ _ _ | array a _ _ => a

def setRoot (a : ℕ) : Tree D → Tree D
  | scalar _ s => scalar a s
  | string _ p String => string a p String
  | object _ p keys ts => object a p keys ts
  | array _ p ts => array a p ts

def cell : Tree D → Cell D
  | scalar _ s => s.cell
  | string _ p _ => ⟨.pointer (some p), .String⟩
  | object _ p _ _ => ⟨.pointer (some p), .Object⟩
  | array _ p _ => ⟨.pointer (some p), .Array⟩

def children : Tree D → List (Tree D)
  | scalar _ _ | string _ _ _ => []
  | object _ _ _ ts | array _ _ ts => ts

/-- The value has no pointer to release. -/
def IsScalar : Tree D → Prop
  | scalar _ _ => True
  | _ => False

mutual

/-- The value that the nodes stand for. -/
def value : Tree D → Value D
  | scalar _ s => s.value
  | string _ _ String => .string String
  | object _ _ keys ts => .object (keys.zip (valueAll ts))
  | array _ _ ts => .array (valueAll ts)

def valueAll : List (Tree D) → List (Value D)
  | [] => []
  | t :: ts => t.value :: valueAll ts

end

mutual

/-- The nodes of the tree other than its root, in the order in which they are released. -/
def under : Tree D → List ℕ
  | scalar _ _ => []
  | string _ p _ => [p]
  | object _ p _ ts | array _ p ts => addrsAll ts ++ [p]

def addrsAll : List (Tree D) → List ℕ
  | [] => []
  | t :: ts => t.under ++ [t.root] ++ addrsAll ts

end

def addrs (t : Tree D) : List ℕ := t.under ++ [t.root]

mutual

def depth : Tree D → ℕ
  | scalar _ _ | string _ _ _ => 0
  | object _ _ _ ts | array _ _ ts => depthAll ts + 1

def depthAll : List (Tree D) → ℕ
  | [] => 0
  | t :: ts => max t.depth (depthAll ts)

end

mutual

/-- The store has what the root of the tree owns. -/
def HoldsUnder (h : Store D) : Tree D → Prop
  | scalar _ _ => True
  | string _ p String => h.nodes p = some (.string String)
  | object _ p keys ts =>
    keys.length = ts.length ∧ h.nodes p = some (.map (keys.zip (ts.map root))) ∧ HoldsAll h ts
  | array _ p ts => h.nodes p = some (.list (ts.map root)) ∧ HoldsAll h ts

def HoldsAll (h : Store D) : List (Tree D) → Prop
  | [] => True
  | t :: ts => h.nodes t.root = some (.value t.cell) ∧ HoldsUnder h t ∧ HoldsAll h ts

end

/-- The store has the nodes of the tree. -/
def Holds (h : Store D) (t : Tree D) : Prop :=
  h.nodes t.root = some (.value t.cell) ∧ t.HoldsUnder h

/-- Each node of the tree has one owner. -/
structure Owned (h : Store D) (t : Tree D) : Prop where
  holds : t.Holds h
  nodup : t.addrs.Nodup

/-- `d` is the value `t` or inside it. -/
inductive Inside (d : Tree D) : Tree D → Prop
  | refl : Inside d d
  | step {t u : Tree D} : u ∈ t.children → Inside d u → Inside d t

/-- `d` is a value inside `t`. -/
def Descends (d t : Tree D) : Prop := ∃ u ∈ t.children, Inside d u

@[simp] lemma root_setRoot (a : ℕ) (t : Tree D) : (t.setRoot a).root = a := by cases t <;> rfl

@[simp] lemma cell_setRoot (a : ℕ) (t : Tree D) : (t.setRoot a).cell = t.cell := by
  cases t <;> rfl

@[simp] lemma value_setRoot (a : ℕ) (t : Tree D) : (t.setRoot a).value = t.value := by
  cases t <;> simp only [setRoot, value]

@[simp] lemma under_setRoot (a : ℕ) (t : Tree D) : (t.setRoot a).under = t.under := by
  cases t <;> simp only [setRoot, under]

@[simp] lemma holdsUnder_setRoot (h : Store D) (a : ℕ) (t : Tree D) :
    (t.setRoot a).HoldsUnder h ↔ t.HoldsUnder h := by
  cases t <;> simp only [setRoot, HoldsUnder]

lemma holdsAll_cons {h : Store D} {t : Tree D} {ts : List (Tree D)} :
    HoldsAll h (t :: ts) ↔ t.Holds h ∧ HoldsAll h ts := by
  simp only [HoldsAll, Holds, and_assoc]

lemma addrsAll_cons (t : Tree D) (ts : List (Tree D)) :
    addrsAll (t :: ts) = t.addrs ++ addrsAll ts := rfl

lemma addrsAll_append (ts us : List (Tree D)) :
    addrsAll (ts ++ us) = addrsAll ts ++ addrsAll us := by
  induction ts with
  | nil => rfl
  | cons t ts ih => rw [List.cons_append, addrsAll_cons, addrsAll_cons, ih, List.append_assoc]

lemma holdsAll_append {h : Store D} {ts us : List (Tree D)} :
    HoldsAll h (ts ++ us) ↔ HoldsAll h ts ∧ HoldsAll h us := by
  induction ts with
  | nil => simp [HoldsAll]
  | cons t ts ih => rw [List.cons_append, holdsAll_cons, holdsAll_cons, ih, and_assoc]

lemma depth_le_depthAll {t : Tree D} {ts : List (Tree D)} (ht : t ∈ ts) :
    t.depth ≤ depthAll ts := by
  induction ts with
  | nil => cases ht
  | cons u ts ih =>
    rw [depthAll]
    rcases List.mem_cons.mp ht with rfl | ht
    · exact le_max_left _ _
    · exact (ih ht).trans (le_max_right _ _)

lemma addrs_subset_addrsAll {t : Tree D} {ts : List (Tree D)} (ht : t ∈ ts) :
    t.addrs ⊆ addrsAll ts := by
  induction ts with
  | nil => cases ht
  | cons u ts ih =>
    rw [addrsAll_cons]
    rcases List.mem_cons.mp ht with rfl | ht
    · exact List.subset_append_left _ _
    · exact List.Subset.trans (ih ht) (List.subset_append_right _ _)

lemma addrsAll_children_subset (t : Tree D) : addrsAll t.children ⊆ t.under := by
  cases t with
  | scalar | string => simp [children, addrsAll]
  | object | array =>
    simp only [children, under]
    exact List.subset_append_left _ _

lemma Inside.addrs_subset {d t : Tree D} (h : Inside d t) : d.addrs ⊆ t.addrs := by
  induction h with
  | refl => exact List.Subset.refl _
  | @step t u hu _ ih =>
    calc d.addrs ⊆ u.addrs := ih
      _ ⊆ addrsAll t.children := addrs_subset_addrsAll hu
      _ ⊆ t.under := addrsAll_children_subset t
      _ ⊆ t.addrs := List.subset_append_left _ _

lemma Descends.addrs_subset {d t : Tree D} (h : Descends d t) : d.addrs ⊆ t.under := by
  obtain ⟨u, hu, hd⟩ := h
  calc d.addrs ⊆ u.addrs := hd.addrs_subset
    _ ⊆ addrsAll t.children := addrs_subset_addrsAll hu
    _ ⊆ t.under := addrsAll_children_subset t

mutual

/-- A tree is held by a store that has its nodes. -/
lemma HoldsUnder.mono {h h' : Store D} : ∀ {t : Tree D},
    (∀ a n, a ∈ t.under → h.nodes a = some n → h'.nodes a = some n) → t.HoldsUnder h →
      t.HoldsUnder h'
  | scalar _ _, _, _ => trivial
  | string _ p _, hn, ht => hn p _ (by simp [under]) ht
  | object _ p _ _, hn, ⟨hlen, hp, hts⟩ => by
    refine ⟨hlen, hn p _ (by simp [under]) hp, ?_⟩
    exact HoldsAll.mono (fun a n ha => hn a n (by simp [under, ha])) hts
  | array _ p _, hn, ⟨hp, hts⟩ => by
    refine ⟨hn p _ (by simp [under]) hp, ?_⟩
    exact HoldsAll.mono (fun a n ha => hn a n (by simp [under, ha])) hts

lemma HoldsAll.mono {h h' : Store D} : ∀ {ts : List (Tree D)},
    (∀ a n, a ∈ addrsAll ts → h.nodes a = some n → h'.nodes a = some n) → HoldsAll h ts →
      HoldsAll h' ts
  | [], _, _ => trivial
  | t :: ts, hn, ⟨hroot, ht, hts⟩ => by
    refine ⟨hn t.root _ (by simp [addrsAll]) hroot, ?_, ?_⟩
    · exact HoldsUnder.mono (fun a n ha => hn a n (by simp [addrsAll, ha])) ht
    · exact HoldsAll.mono (fun a n ha => hn a n (by simp [addrsAll, ha])) hts

end

mutual

lemma HoldsUnder.lt_next {h : Store D} : ∀ {t : Tree D}, t.HoldsUnder h → ∀ a ∈ t.under,
    a < h.next
  | scalar _ _, _, a, ha => by simp [under] at ha
  | string _ p _, ht, a, ha => by
    rw [List.mem_singleton.mp ha]
    exact NodeStore.lt_next ht
  | object _ p _ _, ⟨_, hp, hts⟩, a, ha => by
    rcases List.mem_append.mp ha with ha | ha
    · exact HoldsAll.lt_next hts a ha
    · rw [List.mem_singleton.mp ha]
      exact NodeStore.lt_next hp
  | array _ p _, ⟨hp, hts⟩, a, ha => by
    rcases List.mem_append.mp ha with ha | ha
    · exact HoldsAll.lt_next hts a ha
    · rw [List.mem_singleton.mp ha]
      exact NodeStore.lt_next hp

lemma HoldsAll.lt_next {h : Store D} : ∀ {ts : List (Tree D)}, HoldsAll h ts →
    ∀ a ∈ addrsAll ts, a < h.next
  | [], _, a, ha => by cases ha
  | t :: ts, ⟨hroot, ht, hts⟩, a, ha => by
    rcases List.mem_append.mp ha with ha | ha
    · rcases List.mem_append.mp ha with ha | ha
      · exact HoldsUnder.lt_next ht a ha
      · rw [List.mem_singleton.mp ha]
        exact NodeStore.lt_next hroot
    · exact HoldsAll.lt_next hts a ha

end

lemma Holds.lt_next {h : Store D} {t : Tree D} (ht : t.Holds h) : ∀ a ∈ t.addrs, a < h.next := by
  intro a ha
  rcases List.mem_append.mp ha with ha | ha
  · exact ht.2.lt_next a ha
  · rw [List.mem_singleton.mp ha]
    exact NodeStore.lt_next ht.1

end Tree

/-! ### Reading the nodes of a tree -/

namespace Store

lemma value_of_nodes {h : Store D} {a : ℕ} {c : Cell D} (ha : h.nodes a = some (.value c)) :
    Store.value h a = .ok c := by
  rw [Store.value, read_some ha]
  rfl

lemma map_of_nodes {h : Store D} {p : ℕ} {Map : List (List UInt8 × ℕ)}
    (hp : h.nodes p = some (.map Map)) : Store.map h p = .ok Map := by
  rw [Store.map, read_some hp]
  rfl

lemma list_of_nodes {h : Store D} {p : ℕ} {List : List ℕ}
    (hp : h.nodes p = some (.list List)) : Store.list h p = .ok List := by
  rw [Store.list, read_some hp]
  rfl

lemma string_of_nodes {h : Store D} {p : ℕ} {String : List UInt8}
    (hp : h.nodes p = some (.string String)) : Store.string h p = .ok String := by
  rw [Store.string, read_some hp]
  rfl

end Store

lemma snd_zip_roots {keys : List (List UInt8)} {ts : List (Tree D)}
    (hlen : keys.length = ts.length) :
    (keys.zip (ts.map Tree.root)).map Prod.snd = ts.map Tree.root :=
  List.map_snd_zip (by rw [List.length_map]; omega)

lemma fst_zip_roots {keys : List (List UInt8)} {ts : List (Tree D)}
    (hlen : keys.length = ts.length) : (keys.zip (ts.map Tree.root)).map Prod.fst = keys :=
  List.map_fst_zip (by rw [List.length_map]; omega)

/-! ### Destruction -/

lemma Tree.root_notMem_under {t : Tree D} (hn : t.addrs.Nodup) : t.root ∉ t.under := by
  intro h
  exact (List.nodup_append.mp hn).2.2 _ h _ (List.mem_singleton_self _) rfl

/-- A tree is held as before when none of its nodes is released. -/
lemma Tree.Holds.without {h : Store D} {t : Tree D} (ht : t.Holds h) {as : List ℕ}
    (has : ∀ a ∈ t.addrs, a ∉ as) : t.Holds (h.without as) := by
  refine ⟨?_, ?_⟩
  · rw [without_of_notMem (has _ (by simp [addrs]))]
    exact ht.1
  · refine HoldsUnder.mono (fun a n ha hn => ?_) ht.2
    rw [without_of_notMem (has a (by simp [addrs, ha]))]
    exact hn

lemma Tree.HoldsAll.without {h : Store D} {ts : List (Tree D)} (ht : HoldsAll h ts)
    {as : List ℕ} (has : ∀ a ∈ addrsAll ts, a ∉ as) : HoldsAll (h.without as) ts := by
  refine HoldsAll.mono (fun a n ha hn => ?_) ht
  rw [without_of_notMem (has a ha)]
  exact hn

/-- The values of a container are released one after the other. -/
lemma destroyAll_spec {clear : Store D → ℕ → Except Fault (Store D)} {ts : List (Tree D)}
    (hclear : ∀ t ∈ ts, ∀ g, t.Holds g → t.addrs.Nodup →
      clear g t.root = .ok (g.without t.under)) {h : Store D} (hts : Tree.HoldsAll h ts)
    (hn : (Tree.addrsAll ts).Nodup) :
    destroyAll clear h (ts.map Tree.root) = .ok (h.without (Tree.addrsAll ts)) := by
  induction ts generalizing h with
  | nil => rw [Tree.addrsAll, without_nil]; rfl
  | cons t ts ih =>
    obtain ⟨ht, hrest⟩ := Tree.holdsAll_cons.mp hts
    rw [Tree.addrsAll_cons] at hn
    obtain ⟨hnt, hnts, hdisj⟩ := List.nodup_append.mp hn
    have hroot : (h.without t.under).nodes t.root = some (.value t.cell) := by
      rw [without_of_notMem (Tree.root_notMem_under hnt)]
      exact ht.1
    have hrest' : Tree.HoldsAll (h.without t.addrs) ts :=
      hrest.without fun a ha hat => hdisj a hat a ha rfl
    calc destroyAll clear h ((t :: ts).map Tree.root)
        = destroyAll clear (h.without t.addrs) (ts.map Tree.root) := by
          rw [List.map_cons, destroyAll, hclear t (by simp) h ht hnt]
          change (NodeStore.release _ _ >>= _) = _
          rw [release_some hroot, without_without]
          rfl
      _ = .ok (h.without (Tree.addrsAll (t :: ts))) := by
          rw [ih (fun u hu => hclear u (by simp [hu])) hrest' hnts, without_without,
            Tree.addrsAll_cons]

/-- `ClearInternal` releases what a value owns, each node once. -/
lemma clearInternal_spec {fuel : ℕ} : ∀ {h : Store D} {t : Tree D}, t.depth < fuel →
    t.Holds h → t.addrs.Nodup → ClearInternal fuel h t.root = .ok (h.without t.under) := by
  induction fuel with
  | zero => intro h t hf; omega
  | succ fuel ih =>
    intro h t hf ht hn
    -- the block of the values is alive when they are all released
    have hblock : ∀ {p : ℕ} {n : Node D} {ts : List (Tree D)}, h.nodes p = some n →
        Tree.depthAll ts < fuel → Tree.HoldsAll h ts → (Tree.addrsAll ts ++ [p]).Nodup →
        (destroyAll (ClearInternal fuel) h (ts.map Tree.root) >>= fun h => h.release p) =
          .ok (h.without (Tree.addrsAll ts ++ [p])) := by
      intro p n ts hp hdepth hts hnts
      obtain ⟨h1, -, h2⟩ := List.nodup_append.mp hnts
      rw [destroyAll_spec (fun u hu g => ih ((Tree.depth_le_depthAll hu).trans_lt hdepth)) hts h1]
      change NodeStore.release _ _ = _
      rw [release_some (n := n), without_without]
      rw [without_of_notMem fun hmem => h2 p hmem p (by simp) rfl]
      exact hp
    obtain ⟨hroot, hunder⟩ := ht
    rw [ClearInternal, Store.value_of_nodes hroot]
    cases t with
    | scalar a s =>
      rw [Tree.under, without_nil]
      cases s <;> rfl
    | string a p String =>
      change NodeStore.release _ _ = _
      rw [release_some hunder, Tree.under]
    | object a p keys ts =>
      obtain ⟨hlen, hp, hts⟩ := hunder
      change (Store.map h p >>= _) = _
      rw [Store.map_of_nodes hp]
      change (destroyAll _ h ((keys.zip (ts.map Tree.root)).map Prod.snd) >>= _) = _
      rw [snd_zip_roots hlen, Tree.under]
      exact hblock hp (by rw [Tree.depth] at hf; omega) hts (List.nodup_append.mp hn).1
    | array a p ts =>
      obtain ⟨hp, hts⟩ := hunder
      change (Store.list h p >>= _) = _
      rw [Store.list_of_nodes hp, Tree.under]
      exact hblock hp (by rw [Tree.depth] at hf; omega) hts (List.nodup_append.mp hn).1

/-! ### Copies -/

lemma Tree.Holds.extend {h h' : Store D} {t : Tree D} (ht : t.Holds h) (he : Extends h h') :
    t.Holds h' :=
  ⟨he.some ht.1, HoldsUnder.mono (fun _ _ _ hn => he.some hn) ht.2⟩

lemma Tree.HoldsAll.extend {h h' : Store D} {ts : List (Tree D)} (ht : HoldsAll h ts)
    (he : Extends h h') : HoldsAll h' ts :=
  HoldsAll.mono (fun _ _ _ hn => he.some hn) ht

/-- `t'` has the value of `t` in nodes of its own, its root apart. -/
structure Copied (h h' : Store D) (t t' : Tree D) : Prop where
  value : t'.value = t.value
  holds : t'.HoldsUnder h'
  added : Added h h' t'.under

/-- The values of a container are copied one after the other. -/
lemma copyAll_spec {copy : Store D → ℕ → Except Fault (Cell D × Store D)} {ts : List (Tree D)}
    (hcopy : ∀ t ∈ ts, ∀ g, t.Holds g →
      ∃ t' g', copy g t.root = .ok (t'.cell, g') ∧ Copied g g' t t') {h : Store D}
    (hts : Tree.HoldsAll h ts) :
    ∃ ts' h', copyAll copy h (ts.map Tree.root) = .ok (ts'.map Tree.root, h') ∧
      Tree.valueAll ts' = Tree.valueAll ts ∧ ts'.length = ts.length ∧ Tree.HoldsAll h' ts' ∧
      Added h h' (Tree.addrsAll ts') := by
  induction ts generalizing h with
  | nil => exact ⟨[], h, rfl, rfl, rfl, trivial, Added.nil h⟩
  | cons t ts ih =>
    obtain ⟨ht, hrest⟩ := Tree.holdsAll_cons.mp hts
    obtain ⟨t', g, hg, hcopied⟩ := hcopy t (by simp) h ht
    obtain ⟨a, g', ha, hnode, hadded⟩ := exists_alloc g (.value t'.cell)
    have hnew := hcopied.added.append hadded
    obtain ⟨ts', h', hh', hvalue, hlen, hholds, hall⟩ :=
      ih (fun u hu => hcopy u (by simp [hu])) (hrest.extend hnew.ext)
    refine ⟨t'.setRoot a :: ts', h', ?_, ?_, ?_, ?_, ?_⟩
    · rw [List.map_cons, copyAll, hg]
      change (copyAll copy (g.alloc (.value t'.cell)).2 (ts.map Tree.root) >>=
        fun r => .ok ((g.alloc (.value t'.cell)).1 :: r.1, r.2)) = _
      rw [ha, hh', List.map_cons, Tree.root_setRoot]
      rfl
    · rw [Tree.valueAll, Tree.valueAll, Tree.value_setRoot, hcopied.value, hvalue]
    · rw [List.length_cons, List.length_cons, hlen]
    · refine Tree.holdsAll_cons.mpr ⟨⟨?_, ?_⟩, hholds⟩
      · rw [Tree.root_setRoot, Tree.cell_setRoot]
        exact hall.ext.some hnode
      · rw [Tree.holdsUnder_setRoot]
        exact Tree.HoldsUnder.mono
          (fun _ _ _ hn => hall.ext.some (hadded.ext.some hn)) hcopied.holds
    · rw [Tree.addrsAll_cons, Tree.addrs, Tree.under_setRoot, Tree.root_setRoot]
      exact hnew.append hall

/-- The copy constructor makes a tree of new nodes. -/
lemma copyConstruct_spec {fuel : ℕ} : ∀ {h : Store D} {t : Tree D}, t.depth < fuel →
    t.Holds h → ∃ t' h', copyConstruct fuel h t.root = .ok (t'.cell, h') ∧ Copied h h' t t' := by
  induction fuel with
  | zero => intro h t hf; omega
  | succ fuel ih =>
    intro h t hf ht
    obtain ⟨hroot, hunder⟩ := ht
    rw [copyConstruct, Store.value_of_nodes hroot]
    cases t with
    | scalar a s =>
      refine ⟨.scalar a s, h, ?_, rfl, trivial, Added.nil h⟩
      cases s <;> rfl
    | string a p String =>
      obtain ⟨q, h', hq, hnode, hadded⟩ := exists_alloc h (.string String)
      refine ⟨.string a q String, h', ?_, rfl, hnode, hadded⟩
      change (Store.string h p >>= _) = _
      rw [Store.string_of_nodes hunder]
      change Except.ok ((⟨.pointer (some (h.alloc (.string String)).1), .String⟩ : Cell D),
        (h.alloc (.string String)).2) = _
      rw [hq]
      rfl
    | object a p keys ts =>
      obtain ⟨hlen, hp, hts⟩ := hunder
      have hdepth : Tree.depthAll ts < fuel := by rw [Tree.depth] at hf; omega
      obtain ⟨ts', g, hg, hvalue, hlen', hholds, hall⟩ :=
        copyAll_spec (fun u hu g => ih ((Tree.depth_le_depthAll hu).trans_lt hdepth)) hts
      obtain ⟨q, h', hq, hnode, hadded⟩ :=
        exists_alloc g (.map (keys.zip (ts'.map Tree.root)))
      refine ⟨.object a q keys ts', h', ?_, ?_, ⟨by rw [hlen, hlen'], hnode,
        hholds.extend hadded.ext⟩, hall.append hadded⟩
      · change (Store.map h p >>= _) = _
        rw [Store.map_of_nodes hp]
        change (copyAll _ h ((keys.zip (ts.map Tree.root)).map Prod.snd) >>= _) = _
        rw [snd_zip_roots hlen, hg]
        change Except.ok ((⟨.pointer (some (g.alloc (.map (((keys.zip (ts.map Tree.root)).map
          Prod.fst).zip (ts'.map Tree.root)))).1), .Object⟩ : Cell D),
          (g.alloc (.map (((keys.zip (ts.map Tree.root)).map Prod.fst).zip
            (ts'.map Tree.root)))).2) = _
        rw [fst_zip_roots hlen, hq]
        rfl
      · rw [Tree.value, Tree.value, hvalue]
    | array a p ts =>
      obtain ⟨hp, hts⟩ := hunder
      have hdepth : Tree.depthAll ts < fuel := by rw [Tree.depth] at hf; omega
      obtain ⟨ts', g, hg, hvalue, -, hholds, hall⟩ :=
        copyAll_spec (fun u hu g => ih ((Tree.depth_le_depthAll hu).trans_lt hdepth)) hts
      obtain ⟨q, h', hq, hnode, hadded⟩ := exists_alloc g (.list (ts'.map Tree.root))
      refine ⟨.array a q ts', h', ?_, ?_, ⟨hnode, hholds.extend hadded.ext⟩,
        hall.append hadded⟩
      · change (Store.list h p >>= _) = _
        rw [Store.list_of_nodes hp]
        change (copyAll _ h (ts.map Tree.root) >>= _) = _
        rw [hg]
        change Except.ok ((⟨.pointer (some (g.alloc (.list (ts'.map Tree.root))).1), .Array⟩ :
          Cell D), (g.alloc (.list (ts'.map Tree.root))).2) = _
        rw [hq]
        rfl
      · rw [Tree.value, Tree.value, hvalue]

/-! ### Copies of what is released in part -/

/-- Among the values that are copied is one that cannot be. -/
lemma copyAll_fault {copy : Store D → ℕ → Except Fault (Cell D × Store D)} {u : Tree D}
    {pre : List (Tree D)} (post : List (Tree D)) {h : Store D}
    (hcopy : ∀ t ∈ pre, ∀ g, t.Holds g →
      ∃ t' g', copy g t.root = .ok (t'.cell, g') ∧ Copied g g' t t')
    (hfault : ∀ g, Extends h g → copy g u.root = .error .undefined)
    (hpre : Tree.HoldsAll h pre) :
    copyAll copy h ((pre ++ u :: post).map Tree.root) = .error .undefined := by
  induction pre generalizing h with
  | nil =>
    rw [List.nil_append, List.map_cons, copyAll, hfault h (.refl h)]
    rfl
  | cons t pre ih =>
    obtain ⟨ht, hrest⟩ := Tree.holdsAll_cons.mp hpre
    obtain ⟨t', g, hg, hcopied⟩ := hcopy t (by simp) h ht
    have hext := hcopied.added.ext.trans (added_alloc g (.value t'.cell)).ext
    have hlater := ih (fun v hv => hcopy v (by simp [hv]))
      (fun k hk => hfault k (hext.trans hk)) (hrest.extend hext)
    rw [List.cons_append, List.map_cons, copyAll, hg]
    change (copyAll copy (g.alloc (.value t'.cell)).2 ((pre ++ u :: post).map Tree.root) >>=
      fun r => .ok ((g.alloc (.value t'.cell)).1 :: r.1, r.2)) = _
    rw [hlater]
    rfl

/-- What is left at the addresses of `t` once what `d` owned is released. -/
def Left (h g : Store D) (d t : Tree D) : Prop :=
  ∀ a ∈ t.addrs, a < g.next ∧ g.nodes a = (h.without d.under).nodes a

lemma Left.extend {h g g' : Store D} {d t : Tree D} (hl : Left h g d t) (he : Extends g g') :
    Left h g' d t :=
  fun a ha => ⟨(hl a ha).1.trans_le he.next, (he.same a (hl a ha).1).trans (hl a ha).2⟩

lemma Left.mono {h g : Store D} {d t u : Tree D} (hl : Left h g d t) (hu : u.addrs ⊆ t.addrs) :
    Left h g d u :=
  fun a ha => hl a (hu ha)

/-- The values of a container are copied up to the one that has lost what it owned. -/
lemma copyAll_left {h g : Store D} {d u t : Tree D} {ts : List (Tree D)} {fuel : ℕ}
    (hu : u ∈ ts) (hd : Tree.Inside d u) (hts : Tree.HoldsAll h ts)
    (hn : (Tree.addrsAll ts).Nodup) (hdepth : Tree.depthAll ts < fuel) (hl : Left h g d t)
    (hsub : Tree.addrsAll ts ⊆ t.addrs)
    (hfault : ∀ g', Left h g' d u → u.Owned h → copyConstruct fuel g' u.root = .error .undefined) :
    copyAll (copyConstruct fuel) g (ts.map Tree.root) = .error .undefined := by
  have hdu : d.under ⊆ u.addrs := List.Subset.trans (List.subset_append_left _ _) hd.addrs_subset
  have hut : u.addrs ⊆ t.addrs := List.Subset.trans (Tree.addrs_subset_addrsAll hu) hsub
  obtain ⟨pre, post, rfl⟩ := List.append_of_mem hu
  obtain ⟨hpre, hrest⟩ := Tree.holdsAll_append.mp hts
  rw [Tree.addrsAll_append, Tree.addrsAll_cons] at hn hsub
  obtain ⟨-, hnu, hdisj⟩ := List.nodup_append.mp hn
  have howned : u.Owned h :=
    ⟨(Tree.holdsAll_cons.mp hrest).1, (List.nodup_append.mp hnu).1⟩
  refine copyAll_fault post (fun v hv k hk => ?_) (fun g' hg => ?_) ?_
  · refine copyConstruct_spec ((Tree.depth_le_depthAll ?_).trans_lt hdepth) hk
    exact List.mem_append_left _ hv
  · exact hfault g' ((hl.extend hg).mono hut) howned
  · refine Tree.HoldsAll.mono (fun a n ha hnode => ?_) hpre
    have hnot : a ∉ d.under := fun h => hdisj a ha a (List.mem_append_left _ (hdu h)) rfl
    rw [(hl a (hsub (List.mem_append_left _ ha))).2, without_of_notMem hnot]
    exact hnode

/-- A copy of the tree around `d` comes to `d`, whose type is still the one it had. -/
lemma copyConstruct_fault {h : Store D} {d t : Tree D} (hd : ¬ d.IsScalar)
    (hin : Tree.Inside d t) : ∀ {fuel : ℕ} {g : Store D}, t.depth < fuel → t.Owned h →
      Left h g d t → copyConstruct fuel g t.root = .error .undefined := by
  induction hin with
  | refl =>
    intro fuel g hf ho hl
    obtain ⟨fuel, rfl⟩ : ∃ n, fuel = n + 1 := ⟨fuel - 1, by omega⟩
    have hroot : g.nodes d.root = some (.value d.cell) := by
      rw [(hl d.root (by simp [Tree.addrs])).2,
        without_of_notMem (Tree.root_notMem_under ho.nodup)]
      exact ho.holds.1
    have hgone : ∀ p ∈ d.under, g.read p = .error .undefined := fun p hp =>
      read_none (by rw [(hl p (by simp [Tree.addrs, hp])).2, without_of_mem hp])
    rw [copyConstruct, Store.value_of_nodes hroot]
    cases d with
    | scalar a s => exact absurd trivial hd
    | string a p String =>
      change (Store.string g p >>= _) = _
      rw [Store.string, hgone p (by simp [Tree.under])]
      rfl
    | object a p keys ts =>
      change (Store.map g p >>= _) = _
      rw [Store.map, hgone p (by simp [Tree.under])]
      rfl
    | array a p ts =>
      change (Store.list g p >>= _) = _
      rw [Store.list, hgone p (by simp [Tree.under])]
      rfl
  | @step t u hu hin ih =>
    intro fuel g hf ho hl
    obtain ⟨fuel, rfl⟩ : ∃ n, fuel = n + 1 := ⟨fuel - 1, by omega⟩
    have hdt : d.addrs ⊆ Tree.addrsAll t.children :=
      List.Subset.trans hin.addrs_subset (Tree.addrs_subset_addrsAll hu)
    have hsub : Tree.addrsAll t.children ⊆ t.addrs :=
      List.Subset.trans (Tree.addrsAll_children_subset t) (List.subset_append_left _ _)
    -- the nodes of `t` that are not among those of its values are alive
    have hkept : ∀ a ∈ t.addrs, a ∉ Tree.addrsAll t.children → g.nodes a = h.nodes a := by
      intro a ha hnot
      rw [(hl a ha).2, without_of_notMem fun hmem => hnot (hdt (by simp [Tree.addrs, hmem]))]
    have hroot : g.nodes t.root = some (.value t.cell) := by
      rw [hkept _ (by simp [Tree.addrs]) fun hmem =>
        Tree.root_notMem_under ho.nodup (Tree.addrsAll_children_subset t hmem)]
      exact ho.holds.1
    have hvalues : Tree.HoldsAll h t.children → (Tree.addrsAll t.children).Nodup →
        Tree.depthAll t.children < fuel →
        copyAll (copyConstruct fuel) g (t.children.map Tree.root) = .error .undefined :=
      fun hts hnts hdepth => copyAll_left hu hin hts hnts hdepth hl hsub fun g' hl' ho' =>
        ih ((Tree.depth_le_depthAll hu).trans_lt hdepth) ho' hl'
    rw [copyConstruct, Store.value_of_nodes hroot]
    obtain ⟨⟨-, hunder⟩, hn⟩ := ho
    cases t with
    | scalar | string => cases hu
    | object a p keys ts =>
      obtain ⟨hlen, hp, hts⟩ := hunder
      obtain ⟨hnts, -, hpn⟩ := List.nodup_append.mp (List.nodup_append.mp hn).1
      have hnode := hkept p (by simp [Tree.addrs, Tree.under]) fun hmem =>
        hpn p hmem p (by simp) rfl
      change (Store.map g p >>= _) = _
      rw [Store.map_of_nodes (hnode.trans hp)]
      change (copyAll _ g ((keys.zip (ts.map Tree.root)).map Prod.snd) >>= _) = _
      rw [Tree.depth] at hf
      have hcopy : copyAll (copyConstruct fuel) g (ts.map Tree.root) = .error .undefined :=
        hvalues hts hnts (Nat.lt_of_succ_lt_succ hf)
      rw [snd_zip_roots hlen, hcopy]
      rfl
    | array a p ts =>
      obtain ⟨hp, hts⟩ := hunder
      obtain ⟨hnts, -, hpn⟩ := List.nodup_append.mp (List.nodup_append.mp hn).1
      have hnode := hkept p (by simp [Tree.addrs, Tree.under]) fun hmem =>
        hpn p hmem p (by simp) rfl
      change (Store.list g p >>= _) = _
      rw [Store.list_of_nodes (hnode.trans hp)]
      change (copyAll _ g (ts.map Tree.root) >>= _) = _
      rw [Tree.depth] at hf
      have hcopy : copyAll (copyConstruct fuel) g (ts.map Tree.root) = .error .undefined :=
        hvalues hts hnts (Nat.lt_of_succ_lt_succ hf)
      rw [hcopy]
      rfl

/-! ### Assignments -/

/-- The assignments between a value `v` and a value `d` inside it. -/
inductive Assignment
  /-- `v = d`. -/
  | copyToOuter
  /-- `v = std::move(d)`. -/
  | moveToOuter
  /-- `d = v`. -/
  | copyToInner
  deriving DecidableEq

def Assignment.run (fuel : ℕ) (h : Store D) (v d : ℕ) : Assignment → Except Fault (Store D)
  | .copyToOuter => copyAssign fuel h v d
  | .moveToOuter => moveAssign fuel h v d
  | .copyToInner => copyAssign fuel h d v

/-- The target is a tree of its own with the value the source had. -/
def HasValue (h' : Store D) (target source : Tree D) : Prop :=
  ∃ t' : Tree D, t'.root = target.root ∧ t'.Owned h' ∧ t'.value = source.value

/-- The store after the assignment is as it should be. -/
def Assignment.Right (h h' : Store D) (v d : Tree D) : Assignment → Prop
  | .copyToOuter | .moveToOuter => HasValue h' v d
  | .copyToInner => HasValue h' d v ∧
    ∀ a n, h.nodes a = some n → a ∉ d.addrs → h'.nodes a = some n

/-- The assignment comes to its end, without an access to a node that is not alive, and to the
right store. -/
def Assigns (h : Store D) (v d : Tree D) (op : Assignment) : Prop :=
  ∃ n, ∀ fuel, n ≤ fuel → ∃ h', op.run fuel h v.root d.root = .ok h' ∧ op.Right h h' v d

/-- What is inside the target is released before it is read. -/
lemma read_inner {h : Store D} {v d : Tree D} (hd : Tree.Descends d v) :
    Store.value (h.without v.under) d.root = .error .undefined := by
  rw [Store.value, read_none (without_of_mem (hd.addrs_subset (by simp [Tree.addrs])))]
  rfl

lemma root_ne {h : Store D} {v d : Tree D} (hv : v.Owned h) (hd : Tree.Descends d v) :
    v.root ≠ d.root := by
  intro heq
  refine Tree.root_notMem_under hv.nodup (heq ▸ hd.addrs_subset ?_)
  simp [Tree.addrs]

lemma copyToOuter_fault {h : Store D} {v d : Tree D} (hv : v.Owned h) (hd : Tree.Descends d v)
    {fuel : ℕ} (hf : v.depth < fuel) :
    copyAssign fuel h v.root d.root = .error .undefined := by
  obtain ⟨fuel, rfl⟩ : ∃ n, fuel = n + 1 := ⟨fuel - 1, by omega⟩
  rw [copyAssign, if_neg (root_ne hv hd), clearInternal_spec hf hv.holds hv.nodup]
  change (copyConstruct _ _ _ >>= _) = _
  rw [copyConstruct, read_inner hd]
  rfl

lemma moveToOuter_fault {h : Store D} {v d : Tree D} (hv : v.Owned h) (hd : Tree.Descends d v)
    {fuel : ℕ} (hf : v.depth < fuel) :
    moveAssign fuel h v.root d.root = .error .undefined := by
  rw [moveAssign, if_neg (root_ne hv hd), clearInternal_spec hf hv.holds hv.nodup]
  change (Store.value _ _ >>= _) = _
  rw [read_inner hd]
  rfl

lemma Tree.HoldsAll.holds_of_mem {h : Store D} {t : Tree D} {ts : List (Tree D)}
    (hts : HoldsAll h ts) (ht : t ∈ ts) : t.Holds h := by
  obtain ⟨pre, post, rfl⟩ := List.append_of_mem ht
  exact (holdsAll_cons.mp (holdsAll_append.mp hts).2).1

lemma Tree.nodup_of_mem {t : Tree D} {ts : List (Tree D)} (hn : (addrsAll ts).Nodup)
    (ht : t ∈ ts) : t.addrs.Nodup := by
  obtain ⟨pre, post, rfl⟩ := List.append_of_mem ht
  rw [addrsAll_append, addrsAll_cons] at hn
  exact (List.nodup_append.mp (List.nodup_append.mp hn).2.1).1

/-- A value inside a tree is itself one. -/
lemma Tree.Inside.owned {h : Store D} {d t : Tree D} (hin : Inside d t) :
    t.Owned h → d.Owned h ∧ d.depth ≤ t.depth := by
  induction hin with
  | refl => exact fun ho => ⟨ho, le_rfl⟩
  | @step t u hu _ ih =>
    rintro ⟨⟨-, hunder⟩, hn⟩
    have hdepth := depth_le_depthAll hu
    have hn := (List.nodup_append.mp hn).1
    cases t with
    | scalar | string => cases hu
    | object a p keys ts =>
      obtain ⟨hd, hle⟩ := ih ⟨hunder.2.2.holds_of_mem hu,
        nodup_of_mem (List.nodup_append.mp hn).1 hu⟩
      exact ⟨hd, hle.trans (hdepth.trans (Nat.le_succ _))⟩
    | array a p ts =>
      obtain ⟨hd, hle⟩ := ih ⟨hunder.2.holds_of_mem hu,
        nodup_of_mem (List.nodup_append.mp hn).1 hu⟩
      exact ⟨hd, hle.trans (hdepth.trans (Nat.le_succ _))⟩

lemma Tree.Descends.inside {d t : Tree D} (h : Descends d t) : Inside d t := by
  obtain ⟨u, hu, hd⟩ := h
  exact .step hu hd

lemma copyToInner_fault {h : Store D} {v d : Tree D} (hv : v.Owned h) (hd : Tree.Descends d v)
    (hs : ¬ d.IsScalar) {fuel : ℕ} (hf : v.depth < fuel) :
    copyAssign fuel h d.root v.root = .error .undefined := by
  obtain ⟨hdo, hdepth⟩ := hd.inside.owned hv
  rw [copyAssign, if_neg (root_ne hv hd).symm,
    clearInternal_spec (hdepth.trans_lt hf) hdo.holds hdo.nodup]
  change (copyConstruct _ _ _ >>= _) = _
  have hleft : Left h (h.without d.under) d v := fun a ha => ⟨hv.holds.lt_next a ha, rfl⟩
  rw [copyConstruct_fault hs hd.inside hf hv hleft]
  rfl

/-- A target that has nothing to release is copied with the rest, and then overwritten. -/
lemma copyToInner_right {h : Store D} {v d : Tree D} (hv : v.Owned h) (hd : Tree.Descends d v)
    (hs : d.IsScalar) {fuel : ℕ} (hf : v.depth < fuel) :
    ∃ h', copyAssign fuel h d.root v.root = .ok h' ∧
      Assignment.Right h h' v d .copyToInner := by
  obtain ⟨hdo, hdepth⟩ := hd.inside.owned hv
  have hunder : d.under = [] := by
    cases d with
    | scalar a s => rfl
    | _ => cases hs
  obtain ⟨t', g, hg, hcopied⟩ := copyConstruct_spec hf hv.holds
  have hroot := hdo.holds.1
  obtain ⟨h', hput, hnodes⟩ := put_some (hcopied.added.ext.some hroot) (.value t'.cell)
  have hlt := NodeStore.lt_next hroot
  have hother : ∀ a n, a ≠ d.root → g.nodes a = some n → h'.nodes a = some n := by
    intro a n ha hn
    rw [hnodes, Function.update_of_ne ha]
    exact hn
  have hnew : ∀ a ∈ t'.under, a ≠ d.root := by
    intro a ha
    have hge := (hcopied.added.range a ha).1
    omega
  refine ⟨h', ?_, ⟨t'.setRoot d.root, Tree.root_setRoot .., ⟨⟨?_, ?_⟩, ?_⟩, ?_⟩, ?_⟩
  · rw [copyAssign, if_neg (root_ne hv hd).symm,
      clearInternal_spec (hdepth.trans_lt hf) hdo.holds hdo.nodup, hunder, without_nil]
    change (copyConstruct _ _ _ >>= _) = _
    rw [hg]
    exact hput
  · rw [Tree.root_setRoot, Tree.cell_setRoot, hnodes, Function.update_self]
  · rw [Tree.holdsUnder_setRoot]
    exact Tree.HoldsUnder.mono (fun a n ha hn => hother a n (hnew a ha) hn) hcopied.holds
  · rw [Tree.addrs, Tree.under_setRoot, Tree.root_setRoot]
    refine List.nodup_append.mpr ⟨hcopied.added.nodup, List.nodup_singleton _, ?_⟩
    intro a ha b hb
    rw [List.mem_singleton.mp hb]
    exact hnew a ha
  · rw [Tree.value_setRoot, hcopied.value]
  · intro a n hn ha
    refine hother a n (fun h => ha ?_) (hcopied.added.ext.some hn)
    rw [h]
    simp [Tree.addrs]

/-- **Assignments within a value**: an assignment from a value to one around it never comes to
its end, and one to a value inside it does exactly when that owns nothing. -/
theorem assigns_iff {h : Store D} {v d : Tree D} (hv : v.Owned h) (hd : Tree.Descends d v)
    (op : Assignment) : Assigns h v d op ↔ op = .copyToInner ∧ d.IsScalar := by
  have hfault : (∃ n, ∀ fuel, n ≤ fuel → op.run fuel h v.root d.root = .error .undefined) →
      ¬ Assigns h v d op := by
    rintro ⟨n, hn⟩ ⟨m, hm⟩
    obtain ⟨h', hh', -⟩ := hm (max n m) (le_max_right _ _)
    rw [hn _ (le_max_left _ _)] at hh'
    cases hh'
  cases op with
  | copyToOuter =>
    refine iff_of_false (hfault ⟨v.depth + 1, fun fuel hf => ?_⟩) (by simp)
    exact copyToOuter_fault hv hd hf
  | moveToOuter =>
    refine iff_of_false (hfault ⟨v.depth + 1, fun fuel hf => ?_⟩) (by simp)
    exact moveToOuter_fault hv hd hf
  | copyToInner =>
    by_cases hs : d.IsScalar
    · exact iff_of_true ⟨v.depth + 1, fun fuel hf => copyToInner_right hv hd hs hf⟩ ⟨rfl, hs⟩
    · refine iff_of_false (hfault ⟨v.depth + 1, fun fuel hf => ?_⟩) fun h => hs h.2
      exact copyToInner_fault hv hd hs hf

/-- The value `[[], 5]` at 0, its list at 4, the inner values at 1 and 3. -/
def pairTree : Tree ℕ := .array 0 4 [.array 1 2 [], .scalar 3 (.integral 5)]

def pairStore : Store ℕ where
  nodes a := match a with
    | 0 => some (.value ⟨.pointer (some 4), .Array⟩)
    | 1 => some (.value ⟨.pointer (some 2), .Array⟩)
    | 2 => some (.list [])
    | 3 => some (.value ⟨.Int 5, .Integral⟩)
    | 4 => some (.list [1, 3])
    | _ => none
  next := 5
  fresh a ha := by
    obtain ⟨k, rfl⟩ := Nat.exists_eq_add_of_le' ha
    rfl

lemma pairTree_owned : pairTree.Owned pairStore where
  holds := ⟨rfl, rfl, rfl, ⟨rfl, trivial⟩, rfl, trivial, trivial⟩
  nodup := by decide

/-- Neither `v = v[0]` nor `v[0] = v` comes to its end. -/
theorem pairTree_not_assigns :
    ¬ Assigns pairStore pairTree (.array 1 2 []) .copyToOuter ∧
      ¬ Assigns pairStore pairTree (.array 1 2 []) .copyToInner := by
  have hd : Tree.Descends (.array 1 2 []) pairTree := ⟨_, List.mem_cons_self, .refl⟩
  have hdepth : pairTree.depth = 2 := rfl
  constructor
  · rintro ⟨n, hn⟩
    obtain ⟨h', hh', -⟩ := hn (max n 3) (le_max_left _ _)
    rw [Assignment.run, copyToOuter_fault pairTree_owned hd (by omega)] at hh'
    cases hh'
  · rintro ⟨n, hn⟩
    obtain ⟨h', hh', -⟩ := hn (max n 3) (le_max_left _ _)
    rw [Assignment.run, copyToInner_fault pairTree_owned hd id (by omega)] at hh'
    cases hh'

/-- `v[1] = v` does. -/
theorem pairTree_assigns :
    Assigns pairStore pairTree (.scalar 3 (.integral 5)) .copyToInner :=
  (assigns_iff pairTree_owned ⟨.scalar 3 (.integral 5), by simp [pairTree, Tree.children], .refl⟩
    .copyToInner).mpr ⟨rfl, trivial⟩

end MmrService.Json
