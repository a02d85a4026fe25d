import MmrService.ChunkLockFree
import Mathlib.Data.List.Nodup

/-!
Who owns the blocks of a `ChunkLockFree`.

The free list, the blocks held by threads and the blocks on their way back are disjoint as
long as no compare-and-exchange of `allocate` installs a stale link. The head is a bare
index, so nothing in the code rules such an exchange out: the head can be popped, other
blocks popped behind it, and the head pushed back, between the read of its link and the
exchange.
-/

namespace MmrService.LockFree

open Transition Chain

variable {τ : Type} [DecidableEq τ]

/-! ### Addresses -/

lemma blockPtr_inj {c : ChunkLockFree} (hbs : 0 < c.m_blockSize) {i k : UInt8}
    (h : blockPtr c i = blockPtr c k) : i = k :=
  UInt8.toNat_inj.mp (Nat.eq_of_mul_eq_mul_right hbs h)

lemma blockIndex_blockPtr {c : ChunkLockFree} (hbs : 0 < c.m_blockSize) (i : UInt8) :
    blockIndex c (blockPtr c i) = i := by
  unfold blockIndex blockPtr
  rw [Nat.mul_div_cancel _ hbs, UInt8.ofNat_toNat]

/-- A write inside one block leaves the links of the others. -/
lemma link_poke {c : ChunkLockFree} {i k : UInt8} {j : ℕ} (hj : j < c.m_blockSize)
    (hik : k ≠ i) (b : UInt8) : link (poke c (blockPtr c i + j) b) k = link c k := by
  have hne : blockPtr c k ≠ blockPtr c i + j := by
    intro he
    have hdiv : blockPtr c k / c.m_blockSize = (blockPtr c i + j) / c.m_blockSize := by rw [he]
    unfold blockPtr at hdiv
    rw [Nat.mul_div_cancel _ (by omega), Nat.mul_comm, Nat.mul_add_div (by omega),
      Nat.div_eq_of_lt hj] at hdiv
    exact hik (UInt8.toNat_inj.mp hdiv)
  exact Function.update_of_ne hne _ _

/-! ### The invariant -/

/-- A thread inside `deallocate` that has not yet put its block on the free list. -/
def Freeing (p : Pc) (ptr : ℕ) : Prop := (∃ h, p = .storing ptr h) ∨ p = .pushing ptr

/-- The free list is `l`, and every block is on it, or held once, or freed by one thread. -/
structure InvAt (bs : ℕ) (bn : UInt8) (s : State τ) (l : List UInt8) : Prop where
  size : s.chunk.m_blockSize = bs
  num : s.chunk.m_blockNum = bn
  linked : Linked (link s.chunk) bn s.head l
  nodup : l.Nodup
  range : ∀ i ∈ l, i < bn
  popped : ∀ t c n, s.pc t = .linked c n → c ≠ bn
  heldNodup : (s.held.map Prod.snd).Nodup
  heldBlock : ∀ p ∈ s.held.map Prod.snd, ∃ i < bn, p = blockPtr s.chunk i ∧ i ∉ l
  freeing : ∀ t p, Freeing (s.pc t) p →
    (∃ i < bn, p = blockPtr s.chunk i ∧ i ∉ l) ∧ p ∉ s.held.map Prod.snd
  freeingOne : ∀ t t' p, Freeing (s.pc t) p → Freeing (s.pc t') p → t = t'

variable {bs : ℕ} {bn : UInt8} {s : State τ} {l : List UInt8}

lemma pc_goto (s : State τ) (t u : τ) (p : Pc) :
    (s.goto t p).pc u = if u = t then p else s.pc u := by
  simp only [State.goto, Function.update_apply]

/-- A move of a thread that begins no release keeps the invariant. -/
lemma InvAt.goto (h : InvAt bs bn s l) {t : τ} {p : Pc}
    (hf : ∀ q, Freeing p q → Freeing (s.pc t) q) (hl : ∀ c n, p = .linked c n → c ≠ bn) :
    InvAt bs bn (s.goto t p) l := by
  have hfr : ∀ u q, Freeing ((s.goto t p).pc u) q → Freeing (s.pc u) q := by
    intro u q hq
    rw [pc_goto] at hq
    split_ifs at hq with hu
    · rw [hu]; exact hf q hq
    · exact hq
  exact
    { size := h.size
      num := h.num
      linked := h.linked
      nodup := h.nodup
      range := h.range
      popped := fun u c n hu => by
        rw [pc_goto] at hu
        split_ifs at hu with he
        · exact hl c n hu
        · exact h.popped u c n hu
      heldNodup := h.heldNodup
      heldBlock := h.heldBlock
      freeing := fun u q hq => h.freeing u q (hfr u q hq)
      freeingOne := fun u v q hu hv => h.freeingOne u v q (hfr u q hu) (hfr v q hv) }

omit [DecidableEq τ] in
lemma InvAt.counter (h : InvAt bs bn s l) (n : UInt8) :
    InvAt bs bn { s with chunk := { s.chunk with m_availaBlockNum := n } } l :=
  ⟨h.size, h.num, h.linked, h.nodup, h.range, h.popped, h.heldNodup, h.heldBlock, h.freeing,
    h.freeingOne⟩

omit [DecidableEq τ] in
/-- A write inside a block that is not on the free list keeps the invariant. -/
lemma InvAt.poke (h : InvAt bs bn s l) {i : UInt8} {j : ℕ} (hj : j < bs) (hi : i ∉ l)
    (b : UInt8) :
    InvAt bs bn { s with chunk := poke s.chunk (blockPtr s.chunk i + j) b } l where
  size := h.size
  num := h.num
  linked := h.linked.congr fun k hk =>
    link_poke (by rw [h.size]; exact hj) (fun he => hi (by rw [← he]; exact hk)) b
  nodup := h.nodup
  range := h.range
  popped := h.popped
  heldNodup := h.heldNodup
  heldBlock := h.heldBlock
  freeing := h.freeing
  freeingOne := h.freeingOne

/-- Popping the head with its present link gives its block to the thread. -/
lemma InvAt.pop (hbs : 0 < bs) (h : InvAt bs bn s l) {t : τ} {n : UInt8}
    (hpc : s.pc t = .linked s.head n) (hn : n = link s.chunk s.head) :
    ∃ r, InvAt bs bn { (s.setHead n).goto t (.taken (blockPtr s.chunk s.head)) with
      held := (t, blockPtr s.chunk s.head) :: s.held } r := by
  have hcbs : 0 < s.chunk.m_blockSize := by rw [h.size]; exact hbs
  obtain ⟨r, hlr, hr⟩ := h.linked.pop (h.popped t _ _ hpc)
  have hmem : s.head ∈ l := by rw [hlr]; exact List.mem_cons_self ..
  have hsub : ∀ i, i ∉ l → i ∉ r := fun i hi hir =>
    hi (by rw [hlr]; exact List.mem_cons_of_mem _ hir)
  have hout : ∀ i, i ∉ l → blockPtr s.chunk i ≠ blockPtr s.chunk s.head := fun i hi he =>
    hi (by rw [blockPtr_inj hcbs he]; exact hmem)
  have hnd := h.nodup
  rw [hlr, List.nodup_cons] at hnd
  have hnot : blockPtr s.chunk s.head ∉ s.held.map Prod.snd := by
    intro hm
    obtain ⟨i, -, he, hi⟩ := h.heldBlock _ hm
    exact hout i hi he.symm
  have hfr : ∀ u q, Freeing (((s.setHead n).goto t (.taken (blockPtr s.chunk s.head))).pc u) q →
      Freeing (s.pc u) q := by
    intro u q hq
    rw [pc_goto] at hq
    split_ifs at hq
    · rcases hq with ⟨_, hq⟩ | hq <;> simp at hq
    · exact hq
  refine ⟨r, ?_⟩
  exact
    { size := h.size
      num := h.num
      linked := by rw [hn]; exact hr
      nodup := hnd.2
      range := fun i hi => h.range i (by rw [hlr]; exact List.mem_cons_of_mem _ hi)
      popped := fun u c m hu => by
        simp only [pc_goto] at hu
        split_ifs at hu
        exact h.popped u c m hu
      heldNodup := List.nodup_cons.mpr ⟨hnot, h.heldNodup⟩
      heldBlock := fun p hp => by
        rcases List.mem_cons.mp hp with rfl | hp
        · exact ⟨s.head, h.range _ hmem, rfl, hnd.1⟩
        · obtain ⟨i, hib, he, hi⟩ := h.heldBlock p hp
          exact ⟨i, hib, he, hsub i hi⟩
      freeing := fun u q hq => by
        obtain ⟨⟨i, hib, he, hi⟩, hq'⟩ := h.freeing u q (hfr u q hq)
        refine ⟨⟨i, hib, he, hsub i hi⟩, fun hm => ?_⟩
        rcases List.mem_cons.mp hm with hm | hm
        · exact hout i hi (he ▸ hm)
        · exact hq' hm
      freeingOne := fun u v q hu hv => h.freeingOne u v q (hfr u q hu) (hfr v q hv) }

/-- A thread that gives up a block it holds is the only one to free it. -/
lemma InvAt.giveUp (h : InvAt bs bn s l) {t : τ} {ptr : ℕ} (hm : (t, ptr) ∈ s.held) (v : UInt8) :
    InvAt bs bn { s.goto t (.storing ptr v) with held := s.held.erase (t, ptr) } l := by
  have hperm := (List.perm_cons_erase hm).map Prod.snd
  have hnd := hperm.nodup_iff.mp h.heldNodup
  simp only [List.map_cons, List.nodup_cons] at hnd
  have hsub : ∀ p, p ∈ (s.held.erase (t, ptr)).map Prod.snd → p ∈ s.held.map Prod.snd :=
    fun p hp => hperm.mem_iff.mpr (List.mem_cons_of_mem _ hp)
  have hptr : ptr ∈ s.held.map Prod.snd := List.mem_map.mpr ⟨_, hm, rfl⟩
  have hfr : ∀ u q, Freeing ((s.goto t (.storing ptr v)).pc u) q →
      (u = t ∧ q = ptr) ∨ (u ≠ t ∧ Freeing (s.pc u) q) := by
    intro u q hq
    rw [pc_goto] at hq
    split_ifs at hq with hu
    · rcases hq with ⟨w, hq⟩ | hq
      · exact Or.inl ⟨hu, (Pc.storing.inj hq).1.symm⟩
      · simp at hq
    · exact Or.inr ⟨hu, hq⟩
  exact
    { size := h.size
      num := h.num
      linked := h.linked
      nodup := h.nodup
      range := h.range
      popped := fun u c m hu => by
        simp only [pc_goto] at hu
        split_ifs at hu
        exact h.popped u c m hu
      heldNodup := hnd.2
      heldBlock := fun p hp => h.heldBlock p (hsub p hp)
      freeing := fun u q hq => by
        rcases hfr u q hq with ⟨-, rfl⟩ | ⟨-, hq⟩
        · exact ⟨h.heldBlock _ hptr, hnd.1⟩
        · obtain ⟨hb, hq'⟩ := h.freeing u q hq
          exact ⟨hb, fun hm => hq' (hsub q hm)⟩
      freeingOne := fun u w q hu hw => by
        rcases hfr u q hu with ⟨hut, hqu⟩ | ⟨-, hu'⟩ <;>
          rcases hfr w q hw with ⟨hwt, hqw⟩ | ⟨-, hw'⟩
        · exact hut.trans hwt.symm
        · exact absurd (hqu ▸ hptr) (h.freeing w q hw').2
        · exact absurd (hqw ▸ hptr) (h.freeing u q hu').2
        · exact h.freeingOne u w q hu' hw' }

/-- Pushing a block whose link is the present head puts it on the free list. -/
lemma InvAt.push (hbs : 0 < bs) (h : InvAt bs bn s l) {t : τ} {ptr : ℕ}
    (hpc : s.pc t = .pushing ptr) (hl : s.head = s.chunk.m_pData ptr) :
    ∃ r, InvAt bs bn ((s.setHead (blockIndex s.chunk ptr)).goto t .pushed) r := by
  have hcbs : 0 < s.chunk.m_blockSize := by rw [h.size]; exact hbs
  have hft : Freeing (s.pc t) ptr := Or.inr hpc
  obtain ⟨⟨i, hib, rfl, hi⟩, hptr⟩ := h.freeing t ptr hft
  have hfr : ∀ u q, Freeing (((s.setHead i).goto t .pushed).pc u) q →
      u ≠ t ∧ Freeing (s.pc u) q := by
    intro u q hq
    rw [pc_goto] at hq
    split_ifs at hq with hu
    · rcases hq with ⟨_, hq⟩ | hq <;> simp at hq
    · exact ⟨hu, hq⟩
  have hcons : ∀ k p, p = blockPtr s.chunk k → p ≠ blockPtr s.chunk i → k ∉ l → k ∉ i :: l := by
    intro k p hp hne hk hm
    rcases List.mem_cons.mp hm with rfl | hm
    · exact hne hp
    · exact hk hm
  rw [blockIndex_blockPtr hcbs]
  refine ⟨i :: l, ?_⟩
  exact
    { size := h.size
      num := h.num
      linked := h.linked.push hl.symm (UInt8.ne_of_lt hib)
      nodup := List.nodup_cons.mpr ⟨hi, h.nodup⟩
      range := fun k hk => by
        rcases List.mem_cons.mp hk with rfl | hk
        · exact hib
        · exact h.range k hk
      popped := fun u c m hu => by
        simp only [pc_goto] at hu
        split_ifs at hu
        exact h.popped u c m hu
      heldNodup := h.heldNodup
      heldBlock := fun p hp => by
        obtain ⟨k, hkb, he, hk⟩ := h.heldBlock p hp
        exact ⟨k, hkb, he, hcons k p he (fun hc => hptr (hc ▸ hp)) hk⟩
      freeing := fun u q hq => by
        obtain ⟨hu, hq⟩ := hfr u q hq
        obtain ⟨⟨k, hkb, he, hk⟩, hq'⟩ := h.freeing u q hq
        have hne : q ≠ blockPtr s.chunk i := fun hc =>
          hu (h.freeingOne u t q hq (by rw [hc]; exact hft))
        exact ⟨⟨k, hkb, he, hcons k q he hne hk⟩, hq'⟩
      freeingOne := fun u v q hu hv => h.freeingOne u v q (hfr u q hu).2 (hfr v q hv).2 }

/-! ### Every step keeps it -/

lemma inv_step (hbs : 0 < bs) (h : InvAt bs bn s l) {a : Action τ} {u : State τ}
    (hf : LinkFresh s a) (hs : step s a = some u) : ∃ r, InvAt bs bn u r := by
  have hno : ∀ p : Pc, (∀ ptr v, p ≠ .storing ptr v) → (∀ ptr, p ≠ .pushing ptr) →
      ∀ q, ¬ Freeing p q := by
    rintro p h1 h2 q (⟨v, hq⟩ | hq)
    · exact h1 q v hq
    · exact h2 q hq
  cases a with
  | allocLoad t =>
    simp only [step] at hs
    split at hs
    · rw [← Option.some.inj hs]
      exact ⟨l, h.goto (fun q hq => absurd hq (hno _ (by simp) (by simp) q)) (by simp)⟩
    · simp at hs
  | allocRead t =>
    simp only [step] at hs
    split at hs
    · split_ifs at hs with hc <;> rw [← Option.some.inj hs]
      · exact ⟨l, h.goto (fun q hq => absurd hq (hno _ (by simp) (by simp) q)) (by simp)⟩
      · refine ⟨l, h.goto (fun q hq => absurd hq (hno _ (by simp) (by simp) q)) ?_⟩
        intro c n he
        rw [← (Pc.linked.inj he).1, ← h.num]; exact hc
    · simp at hs
  | allocCas t spurious =>
    simp only [step] at hs
    split at hs
    · rename_i cur next hpc
      split_ifs at hs with hc <;> rw [← Option.some.inj hs]
      · have hn := hf (cur, next) (by rw [hpc]; rfl) hc
        obtain ⟨rfl, -⟩ := hc
        exact h.pop hbs hpc hn
      · exact ⟨l, h.goto (fun q hq => absurd hq (hno _ (by simp) (by simp) q)) (by simp)⟩
    · simp at hs
  | allocReturn t =>
    simp only [step] at hs
    split at hs
    · rw [← Option.some.inj hs]
      exact ⟨l, (h.goto (fun q hq => absurd hq (hno _ (by simp) (by simp) q))
        (by simp)).counter _⟩
    · simp at hs
  | freeLoad t ptr =>
    simp only [step] at hs
    split at hs
    · split_ifs at hs with hm
      rw [← Option.some.inj hs]
      exact ⟨l, h.giveUp hm _⟩
    · simp at hs
  | freeStore t =>
    simp only [step] at hs
    split at hs
    · rename_i ptr v hpc
      obtain ⟨⟨i, hib, rfl, hi⟩, -⟩ := h.freeing t ptr (Or.inl ⟨v, hpc⟩)
      have hg : InvAt bs bn (s.goto t (.pushing (blockPtr s.chunk i))) l := by
        refine h.goto (fun q hq => ?_) (by simp)
        rcases hq with ⟨_, hq⟩ | hq
        · simp at hq
        · rw [hpc, Pc.pushing.inj hq]; exact Or.inl ⟨v, rfl⟩
      rw [← Option.some.inj hs]
      exact ⟨l, hg.poke hbs hi v⟩
    · simp at hs
  | freeCas t spurious =>
    simp only [step] at hs
    split at hs
    · rename_i ptr hpc
      split_ifs at hs with hc <;> rw [← Option.some.inj hs]
      · exact h.push hbs hpc hc.1
      · refine ⟨l, h.goto (fun q hq => ?_) (by simp)⟩
        rcases hq with ⟨_, hq⟩ | hq
        · rw [hpc, (Pc.storing.inj hq).1]; exact Or.inr rfl
        · simp at hq
    · simp at hs
  | freeReturn t =>
    simp only [step] at hs
    split at hs
    · rw [← Option.some.inj hs]
      exact ⟨l, (h.goto (fun q hq => absurd hq (hno _ (by simp) (by simp) q))
        (by simp)).counter _⟩
    · simp at hs
  | write t ptr j b =>
    simp only [step] at hs
    split at hs
    · split_ifs at hs with hm
      obtain ⟨i, hib, rfl, hi⟩ := h.heldBlock ptr (List.mem_map.mpr ⟨_, hm.1, rfl⟩)
      rw [← Option.some.inj hs]
      exact ⟨l, h.poke (by rw [← h.size]; exact hm.2) hi b⟩
    · simp at hs

/-! ### The chunk after `init` -/

lemma initLoop_apply (hbs : 0 < bs) (n : ℕ) (i k : UInt8) (m : ℕ → UInt8)
    (hn : i.toNat + n ≤ 255) :
    initLoop bs n i m (k.toNat * bs) =
      if i.toNat ≤ k.toNat ∧ k.toNat < i.toNat + n then k + 1 else m (k.toNat * bs) := by
  induction n generalizing i m with
  | zero => rw [if_neg (by omega)]; rfl
  | succ n ih =>
    have hi : (i + 1).toNat = i.toNat + 1 := by
      rw [UInt8.toNat_add]; exact Nat.mod_eq_of_lt (by simp; omega)
    rw [initLoop, ih (i + 1) _ (by omega), hi, Function.update_apply]
    by_cases hk : k = i
    · subst hk; rw [if_neg (by omega), if_pos rfl, if_pos (by omega)]
    · have hne : k.toNat ≠ i.toNat := fun h => hk (UInt8.toNat_inj.mp h)
      rw [if_neg (fun h => hne (Nat.eq_of_mul_eq_mul_right hbs h))]
      exact if_congr (by omega) rfl rfl

/-- Blocks that link each to the next form the free list of all of them. -/
lemma linked_of_succ {next : UInt8 → UInt8} (hnext : ∀ k < bn, next k = k + 1) (n : ℕ)
    (i : UInt8) (hn : i.toNat + n = bn.toNat) :
    ∃ l, Linked next bn i l ∧ l.Nodup ∧ l.length = n ∧
      ∀ k ∈ l, i.toNat ≤ k.toNat ∧ k < bn := by
  induction n generalizing i with
  | zero => exact ⟨[], UInt8.toNat_inj.mp hn, List.nodup_nil, rfl, by simp⟩
  | succ n ih =>
    have hlt : i < bn := UInt8.lt_iff_toNat_lt.mpr (by omega)
    have hb : bn.toNat < 256 := bn.toNat_lt
    have hi : (i + 1).toNat = i.toNat + 1 := by
      rw [UInt8.toNat_add]; exact Nat.mod_eq_of_lt (by simp; omega)
    obtain ⟨l, hl, hnd, hlen, hr⟩ := ih (i + 1) (by omega)
    refine ⟨i :: l, hl.push (hnext i hlt) (UInt8.ne_of_lt hlt), ?_, congrArg (· + 1) hlen, ?_⟩
    · exact List.nodup_cons.mpr ⟨fun hm => by have := (hr i hm).1; omega, hnd⟩
    · intro k hk
      rcases List.mem_cons.mp hk with rfl | hk
      · exact ⟨Nat.le_refl _, hlt⟩
      · exact ⟨by have := (hr k hk).1; omega, (hr k hk).2⟩

/-- After `init` every block is on the free list. -/
lemma linked_init (hbs : 0 < bs) (bn : UInt8) (m : ℕ → UInt8) :
    ∃ l, Linked (link (init m bs bn)) bn 0 l ∧ l.Nodup ∧ l.length = bn.toNat ∧
      ∀ k ∈ l, (0 : UInt8).toNat ≤ k.toNat ∧ k < bn := by
  have hb : bn.toNat < 256 := bn.toNat_lt
  have hz : (0 : UInt8).toNat = 0 := rfl
  have hlink : ∀ k < bn, link (init m bs bn) k = k + 1 := by
    intro k hk
    have hk' := UInt8.lt_iff_toNat_lt.mp hk
    simp only [link, blockPtr, init]
    rw [initLoop_apply hbs _ _ _ _ (by omega), if_pos (by omega)]
  exact linked_of_succ hlink bn.toNat 0 (by omega)

omit [DecidableEq τ] in
lemma inv_start (hbs : 0 < bs) (m : ℕ → UInt8) :
    ∃ l, InvAt bs bn (start (τ := τ) (init m bs bn)) l := by
  obtain ⟨l, hl, hnd, -, hr⟩ := linked_init hbs bn m
  have hidle : ∀ p, ¬ Freeing .idle p := by rintro p (⟨v, hp⟩ | hp) <;> simp at hp
  exact ⟨l,
    { size := rfl
      num := rfl
      linked := hl
      nodup := hnd
      range := fun i hi => (hr i hi).2
      popped := fun t c n h => by simp [start] at h
      heldNodup := List.nodup_nil
      heldBlock := fun p hp => by simp [start] at hp
      freeing := fun t p hp => absurd hp (hidle p)
      freeingOne := fun t t' p hp => absurd hp (hidle p) }⟩

/-! ### Exclusive ownership -/

omit [DecidableEq τ] in
lemma InvAt.exclusive (h : InvAt bs bn s l) : Exclusive s := by
  refine ⟨h.heldNodup, fun p hp => ?_⟩
  obtain ⟨i, hi, he, -⟩ := h.heldBlock p hp
  exact ⟨i, by rw [h.num]; exact hi, he⟩

/-- **Exclusive blocks**: in a run in which no `allocate` installs a stale link, no block is
held twice and every pointer handed out is a block of the chunk, in every state reached. -/
theorem exclusive_of_linkFresh {blockSize : ℕ} {blockNum : UInt8} (hbs : 0 < blockSize)
    (m : ℕ → UInt8) {as : List (Action τ)}
    (hf : Always step (fun _ => LinkFresh) (start (init m blockSize blockNum)) as)
    (he : exec step (start (init m blockSize blockNum)) as = some s) : Exclusive s := by
  have hstep : ∀ (h : List (Action τ)) (t : State τ) (a : Action τ) (u : State τ),
      (∃ l, InvAt blockSize blockNum t l) → LinkFresh t a → step t a = some u →
      ∃ l, InvAt blockSize blockNum u l :=
    fun _ _ _ _ ⟨_, hl⟩ hp hs => inv_step hbs hl hp hs
  obtain ⟨l, hl⟩ := inv_of_always (I := fun _ t => ∃ l, InvAt blockSize blockNum t l)
    (inv_start hbs m) hstep hf he
  exact hl.exclusive

/-- Two threads allocate at once, one of them writes into its block and gives it back. -/
def twoThreads : List (Action ℕ) :=
  [.allocLoad 0, .allocRead 0, .allocLoad 1, .allocRead 1, .allocCas 0 false, .allocCas 1 false,
    .allocReturn 0, .allocRead 1, .allocCas 1 false, .allocReturn 1, .write 0 0 0 7,
    .freeLoad 0 0, .freeStore 0, .freeCas 0 false, .freeReturn 0]

theorem twoThreads_exclusive :
    ∃ s, exec step (start (init (fun _ => 0) 8 3)) twoThreads = some s ∧ Exclusive s := by
  have hf : Always step (fun _ => LinkFresh) (start (init (fun _ => 0) 8 3)) twoThreads :=
    always_of_check (q := fun s a => decide (LinkFresh s a)) (fun _ _ => of_decide_eq_true)
      (by decide +kernel)
  have he : (exec step (start (init (fun _ => 0) 8 3)) twoThreads).isSome := by decide +kernel
  obtain ⟨s, hs⟩ := Option.isSome_iff_exists.mp he
  exact ⟨s, hs, exclusive_of_linkFresh (by decide) _ hf hs⟩

/-- Between the read of a link and the exchange of thread `0`, thread `1` pops two blocks and
pushes the first one back; the exchange succeeds, and thread `2` pops the other one again. -/
def staleLink : List (Action ℕ) :=
  [.allocLoad 0, .allocRead 0,
    .allocLoad 1, .allocRead 1, .allocCas 1 false, .allocReturn 1,
    .allocLoad 1, .allocRead 1, .allocCas 1 false, .allocReturn 1,
    .freeLoad 1 0, .freeStore 1, .freeCas 1 false, .freeReturn 1,
    .allocCas 0 false, .allocReturn 0,
    .allocLoad 2, .allocRead 2, .allocCas 2 false, .allocReturn 2]

/-- After `staleLink` two threads hold the same block. -/
theorem staleLink_shares_block :
    ¬ ∀ s, exec step (start (init (fun _ => 0) 8 3)) staleLink = some s → Exclusive s := by
  intro h
  have he : (exec step (start (init (fun _ => 0) 8 3)) staleLink).map State.held =
      some [(2, 8), (0, 0), (1, 8)] := by decide
  obtain ⟨s, hs, hheld⟩ := Option.map_eq_some_iff.mp he
  have hn := (h s hs).1
  rw [hheld] at hn
  exact absurd hn (by decide)

end MmrService.LockFree
