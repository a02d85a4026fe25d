import MmrService.TypeDict
import Mathlib.Data.List.GetD
import Mathlib.Data.List.Induction
import Mathlib.Data.List.Nodup

/-!
The types of a dictionary and its pointers stay in step.

After every `Set` each position has the decayed type of the value that was last set for its tag
and the pointer to that value, which is no other position's. So the cast of `Get` is to the type
of the object.
-/

namespace MmrService.TypeDict

open CType

section Templates

variable {Tag : Type} [DecidableEq Tag] {tags : List Tag} {tag : Tag}

/-! ### What the templates compute -/

lemma isTypeInList_eq (T : Tag) (Args : List Tag) : IsTypeInList T Args = decide (T ∈ Args) := by
  induction Args with
  | nil => rfl
  | cons U Args ih =>
    rw [IsTypeInList, ih]
    by_cases h : T = U <;> simp [h]

lemma hasDuplicateTypes_eq (hne : tags ≠ []) :
    HasDuplicateTypes tags = some (decide ¬ tags.Nodup) := by
  induction tags with
  | nil => exact absurd rfl hne
  | cons T Args ih =>
    rcases Args with _ | ⟨U, Args⟩
    · simp [HasDuplicateTypes]
    · rw [HasDuplicateTypes, isTypeInList_eq, ih (by simp)]
      simp only [List.nodup_cons (a := T)]
      by_cases h : T ∈ U :: Args <;> simp [h]

lemma tag2ID_eq (h : tag ∈ tags) : Tag2ID tag tags = some (tags.idxOf tag) := by
  suffices h' : ∀ N, Tag2ID_ tag N tags = some (N + tags.idxOf tag) by
    rw [Tag2ID, h', Nat.zero_add]
  induction tags with
  | nil => cases h
  | cons T TTags ih =>
    intro N
    rw [Tag2ID_]
    by_cases hT : tag = T
    · rw [if_pos hT, hT, List.idxOf_cons_self, Nat.add_zero]
    · rw [if_neg hT, ih ((List.mem_cons.mp h).resolve_left hT), List.idxOf_cons_ne _ (Ne.symm hT)]
      congr 1
      omega

lemma pos2Type_eq (Pos : ℕ) (T : List CType) : Pos2Type Pos T = T[Pos]? := by
  induction T generalizing Pos with
  | nil => rfl
  | cons TCur TTags ih =>
    rw [Pos2Type]
    cases Pos with
    | zero => rfl
    | succ Pos =>
      rw [if_neg (Nat.succ_ne_zero Pos)]
      exact ih Pos

lemma create_eq (N : ℕ) (T : List CType) :
    Create_ N T = List.replicate N NullParameter ++ T := by
  induction N generalizing T with
  | zero => rfl
  | succ N ih =>
    rw [Create_, ih, List.replicate_succ', List.append_assoc]
    rfl

/-- The recursion is over the types that are left; `M` counts those that were passed. -/
lemma newTupleType_eq_set (TVal : CType) (M k : ℕ) (passed T : List CType) (hk : k < T.length) :
    NewTupleType_ TVal (M + k) M passed T = some (passed ++ T.set k TVal) := by
  induction T generalizing M k passed with
  | nil => exact absurd hk (Nat.not_lt_zero k)
  | cons TCur TRemain ih =>
    rw [NewTupleType_]
    cases k with
    | zero =>
      rw [if_pos (Nat.add_zero M).symm]
      rfl
    | succ k =>
      have hM : M + (k + 1) = M + 1 + k := by omega
      rw [if_neg (by omega), hM, ih (M + 1) k _ (Nat.lt_of_succ_lt_succ hk), List.append_assoc]
      rfl

lemma newTupleType_eq (TVal : CType) {TagPos : ℕ} {T : List CType} (h : TagPos < T.length) :
    NewTupleType TVal TagPos T = some (T.set TagPos TVal) := by
  have hset := newTupleType_eq_set TVal 0 TagPos [] T h
  rwa [Nat.zero_add] at hset

end Templates

/-! ### The loop of the constructor -/

lemma take_set_succ {α : Type} {l : List α} {i : ℕ} (h : i < l.length) (x : α) :
    (l.set i x).take (i + 1) = l.take i ++ [x] := by
  have h' : i < (l.set i x).length := by rwa [List.length_set]
  rw [List.take_succ_eq_append_getElem h', List.take_set_of_le le_rfl, List.getElem_set_self]

lemma moveLoop_eq {n i : ℕ} {m_tuple input : List (Option ℕ)} (hm : m_tuple.length = i + n)
    (hinput : input.length = i + n) :
    moveLoop n i m_tuple input
      = (m_tuple.take i ++ input.drop i, input.take i ++ List.replicate n none) := by
  induction n generalizing i m_tuple input with
  | zero =>
    rw [Nat.add_zero] at hm hinput
    rw [moveLoop, List.take_of_length_le hm.le, List.drop_of_length_le hinput.le,
      List.take_of_length_le hinput.le]
    simp
  | succ n ih =>
    have hlt : i < input.length := by omega
    rw [moveLoop, ih (by rw [List.length_set]; omega) (by rw [List.length_set]; omega),
      take_set_succ (by omega), take_set_succ hlt, List.drop_set_of_lt (Nat.lt_succ_self i),
      List.getD_eq_getElem _ _ hlt, List.drop_eq_getElem_cons hlt, List.append_assoc,
      List.append_assoc]
    rfl

/-- A move leaves null pointers behind. -/
lemma Values.moved_eq (this : Values) {new_type : List CType}
    (h : this.m_tuple.length = new_type.length) :
    ∃ old new : Values, this.moved new_type = some (old, new) ∧
      old.m_tuple = List.replicate this.m_tuple.length none ∧ new.TTypes = new_type ∧
      new.m_tuple = this.m_tuple := by
  have hinit : (init new_type).m_tuple.length = 0 + new_type.length :=
    (init new_type).length_eq.trans (Nat.zero_add _).symm
  have hloop := moveLoop_eq hinit (h.trans (Nat.zero_add _).symm)
  refine ⟨_, _, if_pos h, ?_, rfl, ?_⟩
  · change (moveLoop _ _ _ _).2 = _
    rw [hloop, h]
    rfl
  · change (moveLoop _ _ _ _).1 = _
    rw [hloop]
    rfl

/-! ### What the positions have -/

section Dict

variable {Tag : Type} {Val : CType → Type} {tags : List Tag} {s s' : State Val}
  {c : Call Tag Val} {last : Tag → Option (Call Tag Val)}

/-- The type and the pointer of a position, from the last call for its tag. -/
inductive Stored (g : Heap Val) : Option (Call Tag Val) → CType → Option ℕ → Prop
  | never : Stored g none NullParameter none
  | set (c : Call Tag Val) (a : ℕ) (ha : g.store.nodes a = some c.object) :
    Stored g (some c) c.TVal.decay (some a)

/-- Each position has what was set last for its tag. -/
structure InStep (tags : List Tag) (s : State Val) (last : Tag → Option (Call Tag Val)) :
    Prop where
  length : s.dict.TTypes.length = tags.length
  stored : ∀ (i : ℕ) tag, tags[i]? = some tag → ∃ T p, s.dict.TTypes[i]? = some T ∧
    s.dict.m_tuple[i]? = some p ∧ Stored s.heap (last tag) T p

/-- The positions of an array, and before them the pointer that a call creates. -/
def slots (m_tuple : List (Option ℕ)) : Option ℕ → Option ℕ
  | none => none
  | some i => m_tuple.getD i none

/-- And each value is one position's. -/
structure Good (tags : List Tag) (s : State Val) (last : Tag → Option (Call Tag Val)) :
    Prop extends InStep tags s last where
  owned : s.heap.Owned (slots s.dict.m_tuple)

lemma Stored.congr {g g' : Heap Val} {l : Option (Call Tag Val)} {T : CType} {p : Option ℕ}
    (h : Stored g l T p) (heq : ∀ a, p = some a → g'.store.nodes a = g.store.nodes a) :
    Stored g' l T p := by
  cases h with
  | never => exact .never
  | set c a ha => exact .set c a ((heq a rfl).trans ha)

/-- The new pointer takes the place of the one that was there. -/
lemma slots_set {m_tuple : List (Option ℕ)} {i : ℕ} (h : i < m_tuple.length) (p : Option ℕ) :
    slots (m_tuple.set i p) = Function.update (slots m_tuple) (some i) p := by
  funext k
  rcases k with _ | k
  · rw [Function.update_of_ne (by simp)]
    rfl
  · by_cases hk : k = i
    · subst hk
      rw [Function.update_self]
      simp [slots, h]
    · rw [Function.update_of_ne (by simpa using hk)]
      simp [slots, List.getElem?_set_ne (Ne.symm hk)]

/-- A slot gives up what it has. -/
lemma reset_owned {g : Heap Val} {own : Option ℕ → Option ℕ} (h : g.Owned own) (k : Option ℕ) :
    ∃ g', reset g (own k) = .ok g' ∧ g'.Owned (Function.update own k none) ∧
      ∀ b, own k ≠ some b → g'.store.nodes b = g.store.nodes b := by
  rcases hk : own k with _ | a
  · refine ⟨g, rfl, ?_, fun _ _ => rfl⟩
    rw [← hk, Function.update_eq_self]
    exact h
  · obtain ⟨g', hg', howned, hkept⟩ := h.release hk
    refine ⟨g', ?_, howned, fun b hb => hkept b fun heq => hb (congrArg some heq.symm)⟩
    rw [reset, hg']
    rfl

lemma destroy_null (n : ℕ) (g : Heap Val) :
    (List.replicate n (none : Option ℕ)).foldlM reset g = .ok g := by
  induction n with
  | zero => rfl
  | succ n ih =>
    rw [List.replicate_succ, List.foldlM_cons]
    exact ih

variable [DecidableEq Tag]

/-- What a call does: the position gets the type and the new pointer, all others are moved. -/
lemma State.set_eq {i : ℕ} (hTag : Tag2ID c.tag tags = some i) (hi : i < s.dict.TTypes.length)
    {g : Heap Val}
    (hreset : reset (s.heap.alloc c.object).2 (s.dict.m_tuple.getD i none) = .ok g) :
    ∃ new, s.Set tags c = .ok ⟨g, new⟩ ∧ new.TTypes = s.dict.TTypes.set i c.TVal.decay ∧
      new.m_tuple = s.dict.m_tuple.set i (some (s.heap.alloc c.object).1) := by
  have hm : i < s.dict.m_tuple.length := s.dict.length_eq.symm ▸ hi
  obtain ⟨a, ha⟩ : ∃ a, (s.heap.alloc ⟨c.TVal.decay, c.val⟩).1 = a := ⟨_, rfl⟩
  have hlen : (s.dict.setAt i (some a)).m_tuple.length
      = (s.dict.TTypes.set i c.TVal.decay).length := by
    rw [List.length_set]
    exact (s.dict.setAt i (some a)).length_eq
  obtain ⟨old, new, hmoved, hold, hTypes, htuple⟩ := (s.dict.setAt i (some a)).moved_eq hlen
  refine ⟨new, ?_, hTypes, by rw [htuple, Call.object, ha]; rfl⟩
  rw [List.getD_eq_getElem _ _ hm] at hreset
  have hreset' : reset (s.heap.alloc ⟨c.TVal.decay, c.val⟩).2 s.dict.m_tuple[i] = .ok g := hreset
  have hnew : NewTupleType c.TVal.decay i (s.dict.setAt i (some a)).TTypes
      = some (s.dict.TTypes.set i c.TVal.decay) := newTupleType_eq _ hi
  rw [State.Set, Values.Set, hTag]
  simp only [static, bind, Except.bind, List.getElem?_eq_getElem hm, hreset', ha, hnew, hmoved,
    Values.destroy, hold, destroy_null]

/-- A call leaves the types and the pointers in step. -/
lemma Good.set (h : Good tags s last) (hd : tags.Nodup) (hc : c.tag ∈ tags) :
    ∃ s', s.Set tags c = .ok s' ∧ Good tags s' (Function.update last c.tag (some c)) := by
  obtain ⟨i, hi, hidx, htag⟩ : ∃ i, ∃ h : i < tags.length, tags.idxOf c.tag = i ∧
      tags[i] = c.tag :=
    ⟨_, List.idxOf_lt_length_iff.mpr hc, rfl, List.getElem_idxOf _⟩
  have hT : i < s.dict.TTypes.length := h.length.symm ▸ hi
  have hm : i < s.dict.m_tuple.length := s.dict.length_eq.symm ▸ hT
  -- The new object, the release of the old one, and the move to its position.
  have h₁ := h.owned.alloc (i := none) rfl c.object
  obtain ⟨g, hreset, h₂, hkept⟩ := reset_owned h₁ (some i)
  have h₃ := h₂.move (i := some i) (j := none) (Function.update_self ..)
  obtain ⟨a, ha⟩ : ∃ a, a = (s.heap.alloc c.object).1 := ⟨_, rfl⟩
  rw [Function.update_of_ne (by simp)] at hreset
  obtain ⟨new, hset, hTypes, htuple⟩ := State.set_eq ((tag2ID_eq hc).trans (congrArg some hidx)) hT
    hreset
  rw [← ha] at h₁ hkept h₃ htuple
  refine ⟨⟨g, new⟩, hset, ⟨?_, ?_⟩, ?_⟩
  · rw [hTypes, List.length_set]
    exact h.length
  · intro k tag hk
    rw [hTypes, htuple]
    by_cases hki : k = i
    · subst hki
      obtain rfl : c.tag = tag := by
        rw [List.getElem?_eq_getElem hi, htag] at hk
        exact Option.some.inj hk
      refine ⟨c.TVal.decay, some a, List.getElem?_set_self hT, List.getElem?_set_self hm, ?_⟩
      rw [Function.update_self]
      refine .set c a ?_
      rw [hkept a fun hold => Option.some_ne_none k (h₁.inj _ _ a hold (Function.update_self ..)),
        ha]
      exact NodeStore.alloc_nodes s.heap.store _
    · have hne : tag ≠ c.tag := by
        rintro rfl
        obtain ⟨hlt, heq⟩ := List.getElem?_eq_some_iff.mp hk
        exact hki ((hd.getElem_inj_iff).mp (heq.trans htag.symm))
      obtain ⟨T, p, hTk, hpk, hst⟩ := h.stored k tag hk
      refine ⟨T, p, (List.getElem?_set_ne (Ne.symm hki)).trans hTk,
        (List.getElem?_set_ne (Ne.symm hki)).trans hpk, ?_⟩
      rw [Function.update_of_ne hne]
      refine hst.congr fun b hb => ?_
      have hk : slots s.dict.m_tuple (some k) = some b := by
        simp [slots, hpk, hb]
      obtain ⟨o, ho⟩ := h.owned.alive _ b hk
      rw [hkept b fun hib => hki (Option.some.inj
        (h₁.inj _ _ b ((Function.update_of_ne (by simp) ..).trans hk) hib))]
      exact (NodeStore.added_alloc s.heap.store _).ext.same b (NodeStore.lt_next ho)
  · rw [htuple, slots_set hm]
    rw [Function.update_idem, Function.update_of_ne (by simp), Function.update_self,
      Function.update_comm (by simp), Function.update_idem] at h₃
    have hnone : Function.update (slots s.dict.m_tuple) none none = slots s.dict.m_tuple :=
      Function.update_eq_self none _
    rwa [hnone] at h₃

/-! ### Chains of calls -/

/-- The call that set the tag last. -/
def lastSet (calls : List (Call Tag Val)) (tag : Tag) : Option (Call Tag Val) :=
  calls.reverse.find? fun c => c.tag = tag

lemma lastSet_append (calls : List (Call Tag Val)) (c : Call Tag Val) :
    lastSet (calls ++ [c]) = Function.update (lastSet calls) c.tag (some c) := by
  funext tag
  rw [lastSet, List.reverse_append, List.reverse_singleton, List.singleton_append]
  by_cases h : c.tag = tag
  · rw [List.find?_cons_of_pos (by simpa using h), ← h, Function.update_self]
  · rw [List.find?_cons_of_neg (by simpa using h), Function.update_of_ne (Ne.symm h), lastSet]

lemma create_nodup (hd : tags.Nodup) (hne : tags ≠ []) :
    Create tags = .ok (.init (List.replicate tags.length NullParameter)) := by
  rw [Create, hasDuplicateTypes_eq hne, create_eq, List.append_nil]
  simp only [hd, not_true_eq_false, decide_false]
  rfl

lemma good_init (hd : tags.Nodup) (hne : tags ≠ []) :
    ∃ s : State Val, run tags [] = .ok s ∧ Good tags s (lastSet []) := by
  refine ⟨⟨.empty, .init (List.replicate tags.length NullParameter)⟩, ?_, ⟨?_, ?_⟩, ?_⟩
  · rw [run, create_nodup hd hne]
    rfl
  · exact List.length_replicate
  · intro i tag hi
    obtain ⟨hlt, -⟩ := List.getElem?_eq_some_iff.mp hi
    refine ⟨NullParameter, none, ?_, ?_, .never⟩
    · exact List.getElem?_replicate_of_lt hlt
    · exact List.getElem?_replicate_of_lt (by rwa [List.length_replicate])
  · have hslots : slots (Values.init (List.replicate tags.length NullParameter)).m_tuple
        = fun _ => none := by
      funext k
      cases k with
      | none => rfl
      | some k => simp [slots, Values.init]
    rw [hslots]
    exact Ledger.Owned.empty

lemma run_append {calls : List (Call Tag Val)} (hs : run tags calls = .ok s) (c : Call Tag Val) :
    run tags (calls ++ [c]) = s.Set tags c := by
  unfold run at hs ⊢
  rcases hcreate : Create tags with e | dict
  · rw [hcreate] at hs
    cases hs
  · rw [hcreate] at hs
    change List.foldlM _ _ _ = _ at hs
    change List.foldlM _ _ _ = _
    rw [List.foldlM_append, hs]
    change (s.Set tags c).bind _ = _
    cases s.Set tags c <;> rfl

/-- Every chain of calls has a run. -/
lemma run_good (hd : tags.Nodup) (hne : tags ≠ []) (calls : List (Call Tag Val))
    (h : ∀ c ∈ calls, c.tag ∈ tags) :
    ∃ s, run tags calls = .ok s ∧ Good tags s (lastSet calls) := by
  induction calls using List.reverseRecOn with
  | nil => exact good_init hd hne
  | append_singleton calls c ih =>
    obtain ⟨s, hs, hgood⟩ := ih fun c' hc' => h c' (List.mem_append_left _ hc')
    obtain ⟨s', hs', hgood'⟩ := hgood.set hd (h c (by simp))
    refine ⟨s', (run_append hs c).trans hs', ?_⟩
    rw [lastSet_append]
    exact hgood'

/-- `Get` follows the pointer to an object of the type that it expects. -/
lemma InStep.get (h : InStep tags s last) {tag : Tag} (ht : tag ∈ tags) :
    s.Get tags tag = (match last tag with
      | some c => .ok c.object
      | none => .error (.fault .undefined)) := by
  obtain ⟨T, p, hT, hp, hstored⟩ := h.stored _ tag
    ((List.getElem?_eq_getElem (List.idxOf_lt_length_iff.mpr ht)).trans
      (congrArg some (List.getElem_idxOf _)))
  rw [State.Get, Values.Get, tag2ID_eq ht]
  simp only [static, bind, Except.bind, pos2Type_eq, hT, hp]
  generalize last tag = l at hstored
  cases hstored with
  | never => rfl
  | set c a ha =>
    simp only [NodeStore.read_some ha, checked]
    exact if_pos rfl

/-- **The types and the pointers stay in step** through every chain of calls: what is set is
what is got, and nothing else changes. -/
theorem set_inStep {calls : List (Call Tag Val)} {c : Call Tag Val} (hd : tags.Nodup)
    (h : ∀ c' ∈ calls ++ [c], c'.tag ∈ tags) :
    ∃ s s', run tags calls = .ok s ∧ run tags (calls ++ [c]) = .ok s' ∧
      InStep tags s' (lastSet (calls ++ [c])) ∧
      (∀ tag ∈ tags, ∀ c', lastSet (calls ++ [c]) tag = some c' →
        s'.Get tags tag = .ok c'.object) ∧
      s'.Get tags c.tag = .ok c.object ∧
      ∀ tag ∈ tags, tag ≠ c.tag → s'.Get tags tag = s.Get tags tag := by
  have hc : c.tag ∈ tags := h c (by simp)
  have hne : tags ≠ [] := List.ne_nil_of_mem hc
  obtain ⟨s, hs, hgood⟩ := run_good hd hne calls fun c' hc' => h c' (List.mem_append_left _ hc')
  obtain ⟨s', hs', hgood'⟩ := run_good hd hne _ h
  refine ⟨s, s', hs, hs', hgood'.toInStep, ?_, ?_, ?_⟩
  · intro tag ht c' hlast
    rw [hgood'.get ht, hlast]
  · rw [hgood'.get hc, lastSet_append, Function.update_self]
  · intro tag ht htag
    rw [hgood'.get ht, hgood.get ht, lastSet_append, Function.update_of_ne htag]

/-- A tag that is set to a string literal and then to a number. -/
theorem set_twice_inStep :
    let literal : Call Bool fun _ => ℕ :=
      ⟨true, .lvalueRef (.array (.const (.named "char")) (some 4)), (7 : ℕ)⟩
    let number : Call Bool fun _ => ℕ := ⟨true, .const (.named "int"), (8 : ℕ)⟩
    ∃ s s', run [false, true] [literal] = .ok s ∧
      run [false, true] ([literal] ++ [number]) = .ok s' ∧
      InStep [false, true] s' (lastSet ([literal] ++ [number])) ∧
      s'.Get [false, true] true = .ok ⟨.named "int", (8 : ℕ)⟩ ∧
      s'.Get [false, true] false = s.Get [false, true] false := by
  intro literal number
  obtain ⟨s, s', hs, hs', hstep, -, hget, hother⟩ := set_inStep
    (show [false, true].Nodup by decide)
    (show ∀ c' ∈ [literal] ++ [number], c'.tag ∈ [false, true] by simp)
  exact ⟨s, s', hs, hs', hstep, hget, hother false (by decide) (by decide)⟩

end Dict

end MmrService.TypeDict
