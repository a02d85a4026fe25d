import MmrService.VariantValues

/-!
The calls on variants keep the values and the owners apart.

Every function that changes a variant first gives up what the variant owns. `Cleared` is the
state between: nothing is known of the variant but that it owns nothing.
-/

namespace MmrService.Variant

variable {w w' : World} {vs vs' : Values} {this var ret : ℕ} {x y : Value} {v : CVariant}

/-! ### A value and its tag -/

namespace Value

lemma exists_scalar {m : Scalar} (h : x.tag = m.tag) : ∃ b, x = .scalar m b := by
  rcases x with _ | ⟨m', b⟩ | ⟨m', content⟩
  · cases m <;> cases h
  · obtain rfl : m' = m := by cases m <;> cases m' <;> first | rfl | cases h
    exact ⟨b, rfl⟩
  · cases m <;> cases m' <;> cases h

lemma exists_payload {m : Pointer} (h : x.tag = m.tag) : ∃ content, x = .payload m content := by
  rcases x with _ | ⟨m', b⟩ | ⟨m', content⟩
  · cases m <;> cases h
  · cases m <;> cases m' <;> cases h
  · obtain rfl : m' = m := by cases m <;> cases m' <;> first | rfl | cases h
    exact ⟨content, rfl⟩

lemma getScalar_of_ne {m : Scalar} (h : x.tag ≠ m.tag) :
    x.getScalar m = .logic_error (notOfType m.typeName) := by
  cases x with
  | scalar m' b => exact if_neg fun heq => h (congrArg Scalar.tag heq)
  | _ => rfl

lemma getPointer_of_ne {m : Pointer} (h : x.tag ≠ m.tag) :
    x.getPointer m = .logic_error (notOfType m.typeName) := by
  cases x with
  | payload m' content => exact if_neg fun heq => h (congrArg Pointer.tag heq)
  | _ => rfl

end Value

/-! ### A variant and its payload -/

@[simp] lemma owned_invalid (d : unData) : CVariant.owned ⟨.VAR_TYPE_INVALID, d⟩ = none := rfl

@[simp] lemma owned_scalar (m : Scalar) (d : unData) : CVariant.owned ⟨m.tag, d⟩ = none := by
  cases m <;> rfl

@[simp] lemma owned_pointer (m : Pointer) (p : Option ℕ) :
    CVariant.owned ⟨m.tag, .pointer m p⟩ = p := by
  cases m <;> rfl

lemma CVariant.Holds.tag {h : NodeStore Payload} (hv : v.Holds h x) : v.m_type = x.tag := by
  cases hv <;> rfl

/-- What a variant holds depends on its own payload only. -/
lemma CVariant.Holds.congr {h h' : NodeStore Payload} (hv : v.Holds h x)
    (heq : ∀ a, v.owned = some a → h'.nodes a = h.nodes a) : v.Holds h' x := by
  cases hv with
  | invalid d => exact .invalid d
  | scalar m x => exact .scalar m x
  | payload m a content ha =>
    exact .payload m a content ((heq a (owned_pointer m (some a))).trans ha)

lemma unData.get_scalar (m : Scalar) (x : m.Val) : (unData.scalar m x).get m = .ok x := by
  rw [unData.get, dif_pos rfl]

lemma unData.ptr_pointer (m : Pointer) (p : Option ℕ) : (unData.pointer m p).ptr m = .ok p := by
  rw [unData.ptr, if_pos rfl]

namespace World

lemma get_some (h : w.vars this = some v) : w.get this = .ok v := by
  unfold get
  rw [h]

lemma set_set (v v' : CVariant) : (w.set this v).set this v' = w.set this v' := by
  simp [set]

@[simp] lemma vars_set_self : (w.set this v).vars this = some v := Function.update_self ..

lemma vars_set_of_ne {i : ℕ} (h : i ≠ this) : (w.set this v).vars i = w.vars i :=
  Function.update_of_ne h ..

lemma owner_set : (w.set this v).owner = Function.update w.owner this v.owned := by
  funext i
  by_cases h : i = this
  · subst h
    simp [owner]
  · rw [Function.update_of_ne h, owner, vars_set_of_ne h, owner]

lemma vars_drop_of_ne {i : ℕ} (h : i ≠ this) : (w.drop this).vars i = w.vars i :=
  Function.update_of_ne h ..

lemma owner_drop : (w.drop this).owner = Function.update w.owner this none := by
  funext i
  by_cases h : i = this
  · subst h
    simp [owner, drop]
  · rw [Function.update_of_ne h, owner, vars_drop_of_ne h, owner]

lemma deref_some {m : Pointer} {a : ℕ} {content : List UInt8}
    (h : w.heap.store.nodes a = some ⟨m, content⟩) : w.deref m (some a) = .ok content := by
  rw [deref, NodeStore.read_some h]
  exact if_pos rfl

end World

/-! ### The worlds between -/

/-- The variants other than `this` have the values. -/
structure Others (w : World) (vs : Values) (this : ℕ) : Prop where
  alive : ∀ i, i ≠ this → (w.vars i = none ↔ vs i = none)
  holds : ∀ i, i ≠ this → ∀ v x, w.vars i = some v → vs i = some x → v.Holds w.heap.store x

/-- And `this` owns nothing. -/
structure Cleared (w : World) (vs : Values) (this : ℕ) : Prop extends Others w vs this where
  owned : w.heap.Owned w.owner
  nothing : w.owner this = none

/-- All variants have the values, and every payload has one owner. -/
structure Agrees (w : World) (vs : Values) : Prop where
  owned : w.heap.Owned w.owner
  alive : ∀ i, w.vars i = none ↔ vs i = none
  holds : ∀ i v x, w.vars i = some v → vs i = some x → v.Holds w.heap.store x

lemma agrees_start : Agrees World.start fun _ => none where
  owned := Ledger.Owned.empty
  alive _ := ⟨fun _ => rfl, fun _ => rfl⟩
  holds _ _ _ h := by cases h

lemma exists_holds (halive : w.vars var = none ↔ vs var = none)
    (hholds : ∀ v x, w.vars var = some v → vs var = some x → v.Holds w.heap.store x)
    (hx : vs var = some x) : ∃ v, w.vars var = some v ∧ v.Holds w.heap.store x := by
  rcases hv : w.vars var with _ | v
  · rw [halive.mp hv] at hx
    cases hx
  · exact ⟨v, rfl, hholds v x hv hx⟩

namespace Others

lemma get (h : Others w vs this) (hne : var ≠ this) (hx : vs var = some x) :
    ∃ v, w.vars var = some v ∧ v.Holds w.heap.store x :=
  exists_holds (h.alive var hne) (h.holds var hne) hx

/-- What happens to the payloads of no other variant goes unnoticed. -/
lemma heap (h : Others w vs this) {g : Ledger Payload}
    (heq : ∀ i a, i ≠ this → w.owner i = some a → g.store.nodes a = w.heap.store.nodes a) :
    Others { w with heap := g } vs this where
  alive := h.alive
  holds i hi v x hv hx := by
    refine (h.holds i hi v x hv hx).congr fun a ha => heq i a hi ?_
    rw [World.owner, show w.vars i = some v from hv]
    exact ha

/-- Nor does what is stored in `this`. -/
lemma set_self (h : Others w vs this) (v : CVariant) : Others (w.set this v) vs this where
  alive i hi := by
    rw [World.vars_set_of_ne hi]
    exact h.alive i hi
  holds i hi := by
    rw [World.vars_set_of_ne hi]
    exact h.holds i hi

lemma assign_self (h : Others w vs this) (x : Value) : Others w (vs.assign this x) this where
  alive i hi := by
    rw [Values.assign, Function.update_of_ne hi]
    exact h.alive i hi
  holds i hi := by
    rw [Values.assign, Function.update_of_ne hi]
    exact h.holds i hi

/-- A variant has the values when it is given a value and the owners are right again. -/
lemma agrees (h : Others w vs this) (hv : w.vars this = some v) (hx : vs this = some x)
    (hholds : v.Holds w.heap.store x) (ho : w.heap.Owned w.owner) : Agrees w vs where
  owned := ho
  alive i := by
    by_cases hi : i = this
    · rw [hi, hv, hx]
      simp
    · exact h.alive i hi
  holds i v' x' hv' hx' := by
    by_cases hi : i = this
    · rw [hi, hv] at hv'
      rw [hi, hx] at hx'
      rw [← Option.some.inj hv', ← Option.some.inj hx']
      exact hholds
    · exact h.holds i hi v' x' hv' hx'

lemma set (h : Others w vs this) (hholds : v.Holds w.heap.store x)
    (ho : w.heap.Owned (Function.update w.owner this v.owned)) :
    Agrees (w.set this v) (vs.assign this x) := by
  refine ((h.set_self v).assign_self x).agrees World.vars_set_self (Function.update_self ..)
    hholds ?_
  rw [World.owner_set]
  exact ho

end Others

namespace Agrees

lemma others (h : Agrees w vs) (this : ℕ) : Others w vs this :=
  ⟨fun i _ => h.alive i, fun i _ => h.holds i⟩

lemma get (h : Agrees w vs) (hx : vs this = some x) :
    ∃ v, w.vars this = some v ∧ v.Holds w.heap.store x :=
  exists_holds (h.alive this) (h.holds this) hx

/-- A variant that owns nothing may get another value. -/
lemma cleared (h : Agrees w vs) (hnone : w.owner this = none) : Cleared w vs this :=
  ⟨h.others this, h.owned, hnone⟩

/-- A variant that is alive has a value. -/
lemma exists_value (h : Agrees w vs) (hv : w.vars this = some v) :
    ∃ x, vs this = some x ∧ v.m_type = x.tag := by
  rcases hx : vs this with _ | x
  · rw [(h.alive this).mpr hx] at hv
    cases hv
  · exact ⟨x, rfl, (h.holds this v x hv hx).tag⟩

lemma cleared_of_dead (h : Agrees w vs) (hdead : vs this = none) : Cleared w vs this := by
  refine h.cleared ?_
  rw [World.owner, (h.alive this).mpr hdead]
  rfl

end Agrees

namespace Cleared

/-- A value with no payload is stored. -/
lemma set (h : Cleared w vs this) (hholds : v.Holds w.heap.store x) (hnone : v.owned = none) :
    Agrees (w.set this v) (vs.assign this x) := by
  refine h.toOthers.set hholds ?_
  rw [hnone, ← h.nothing, Function.update_eq_self]
  exact h.owned

/-- A payload is allocated and stored. -/
lemma new (h : Cleared w vs this) (m : Pointer) (content : List UInt8) :
    Agrees ((w.new ⟨m, content⟩).2.set this ⟨m.tag, .pointer m (some (w.new ⟨m, content⟩).1)⟩)
      (vs.assign this (.payload m content)) := by
  have hothers : Others (w.new ⟨m, content⟩).2 vs this := by
    refine h.toOthers.heap fun i a _ ha => ?_
    obtain ⟨d, hd⟩ := h.owned.alive i a ha
    exact (NodeStore.added_alloc w.heap.store _).ext.same a (NodeStore.lt_next hd)
  refine hothers.set (.payload m _ content (NodeStore.alloc_nodes w.heap.store _)) ?_
  rw [owned_pointer]
  exact h.owned.alloc h.nothing _

/-- The variant is gone. -/
lemma drop (h : Cleared w vs this) : Agrees (w.drop this) (Function.update vs this none) where
  owned := by
    rw [World.owner_drop, ← h.nothing, Function.update_eq_self]
    exact h.owned
  alive i := by
    by_cases hi : i = this
    · subst hi
      simp [World.drop]
    · rw [World.vars_drop_of_ne hi, Function.update_of_ne hi]
      exact h.alive i hi
  holds i := by
    by_cases hi : i = this
    · subst hi
      simp [World.drop]
    · rw [World.vars_drop_of_ne hi, Function.update_of_ne hi]
      exact h.holds i hi

/-- Another variant's value is taken over, with what it owns. -/
lemma take (h : Cleared w vs this) (hne : this ≠ var) (hv : w.vars var = some v)
    (hx : vs var = some x) (d : unData) :
    Agrees ((w.set var ⟨.VAR_TYPE_INVALID, d⟩).set this v)
      ((vs.assign this x).assign var .invalid) := by
  have hholds : v.Holds w.heap.store x := h.holds var hne.symm v x hv hx
  have hothers : Others (w.set var ⟨.VAR_TYPE_INVALID, d⟩) (vs.assign var .invalid) this := by
    constructor
    case alive =>
      intro i hi
      by_cases hiv : i = var
      · subst hiv
        simp [Values.assign]
      · rw [World.vars_set_of_ne hiv, Values.assign, Function.update_of_ne hiv]
        exact h.alive i hi
    case holds =>
      intro i hi v' x' hv' hx'
      by_cases hiv : i = var
      · subst hiv
        rw [World.vars_set_self] at hv'
        rw [Values.assign, Function.update_self] at hx'
        rw [← Option.some.inj hv', ← Option.some.inj hx']
        exact .invalid d
      · rw [World.vars_set_of_ne hiv] at hv'
        rw [Values.assign, Function.update_of_ne hiv] at hx'
        exact h.holds i hi v' x' hv' hx'
  have hcomm : (vs.assign this x).assign var .invalid = (vs.assign var .invalid).assign this x :=
    Function.update_comm hne ..
  rw [hcomm]
  refine hothers.set hholds ?_
  have hvar : w.owner var = v.owned := by
    rw [World.owner, hv]
    rfl
  rw [World.owner_set, owned_invalid, Function.update_comm hne.symm, ← hvar]
  exact h.owned.move h.nothing

end Cleared

/-! ### Copies and moves -/

/-- The tag is not one of a payload. -/
def EM_DataType.Plain (t : EM_DataType) : Prop := ∀ m : Pointer, t ≠ m.tag

/-- The switches tell what a variant may hold: a payload of its own, or a value with none. -/
lemma CVariant.Holds.plain_or_pointer {h : NodeStore Payload} (hv : v.Holds h x) :
    v.m_type.Plain ∧ v.owned = none ∨
      ∃ m a content, v = ⟨m.tag, .pointer m (some a)⟩ ∧ x = .payload m content ∧
        h.nodes a = some ⟨m, content⟩ := by
  cases hv with
  | invalid d => exact .inl ⟨fun m => by cases m <;> simp [Pointer.tag], rfl⟩
  | scalar m x =>
    refine .inl ⟨fun m' => ?_, owned_scalar m _⟩
    cases m <;> cases m' <;> simp [Pointer.tag, Scalar.tag]
  | payload m a content ha => exact .inr ⟨m, a, content, rfl, rfl, ha⟩

lemma owner_eq (hv : w.vars this = some v) : w.owner this = v.owned := by
  rw [World.owner, hv]
  rfl

section Switches

variable {t : EM_DataType} {m : Pointer} {d : unData}

lemma resetCheck_of_plain (hv : w.vars this = some ⟨t, d⟩) (ht : t.Plain) :
    resetCheck w this = .ok w := by
  unfold resetCheck
  rw [World.get_some hv]
  cases t
  case VAR_TYPE_STRING => exact absurd rfl (ht .strValue)
  case VAR_TYPE_BYTE_ARRAY => exact absurd rfl (ht .byteArrValue)
  all_goals rfl

lemma resetCheck_of_pointer (hv : w.vars this = some ⟨m.tag, d⟩) :
    resetCheck w this = resetPointer w this ⟨m.tag, d⟩ m := by
  unfold resetCheck
  rw [World.get_some hv]
  cases m <;> rfl

lemma copyFrom_of_plain (hv : w.vars var = some ⟨t, d⟩) (ht : t.Plain) :
    copyFrom w this var = .ok (w.set this ⟨t, d⟩) := by
  unfold copyFrom
  rw [World.get_some hv]
  cases t
  case VAR_TYPE_STRING => exact absurd rfl (ht .strValue)
  case VAR_TYPE_BYTE_ARRAY => exact absurd rfl (ht .byteArrValue)
  all_goals rfl

lemma copyFrom_of_pointer (hv : w.vars var = some ⟨m.tag, d⟩) :
    copyFrom w this var = copyPointer w this ⟨m.tag, d⟩ m := by
  unfold copyFrom
  rw [World.get_some hv]
  cases m <;> rfl

lemma moveFrom_of_plain (hv : w.vars var = some ⟨t, d⟩) (ht : t.Plain) :
    moveFrom w this var = .ok ((w.set var ⟨.VAR_TYPE_INVALID, d⟩).set this ⟨t, d⟩) := by
  unfold moveFrom
  rw [World.get_some hv]
  cases t
  case VAR_TYPE_STRING => exact absurd rfl (ht .strValue)
  case VAR_TYPE_BYTE_ARRAY => exact absurd rfl (ht .byteArrValue)
  all_goals rfl

lemma moveFrom_of_pointer (hv : w.vars var = some ⟨m.tag, d⟩) :
    moveFrom w this var = movePointer (w.set var ⟨.VAR_TYPE_INVALID, d⟩) this var m.tag m := by
  unfold moveFrom
  rw [World.get_some hv]
  cases m <;> rfl

end Switches

/-- `resetCheck` gives up what the variant owns, and nothing else. -/
lemma Agrees.resetCheck (h : Agrees w vs) (hx : vs this = some x) :
    ∃ w', resetCheck w this = .ok w' ∧ Cleared w' vs this := by
  obtain ⟨v, hv, hholds⟩ := h.get hx
  obtain ⟨hplain, hnone⟩ | ⟨m, a, content, rfl, rfl, ha⟩ := hholds.plain_or_pointer
  · exact ⟨w, resetCheck_of_plain hv hplain, h.cleared (by rw [owner_eq hv, hnone])⟩
  have howner : w.owner this = some a := by rw [owner_eq hv, owned_pointer]
  obtain ⟨g, hg, howned, hkept⟩ := h.owned.release howner
  have hothers : Others { w with heap := g } vs this := by
    refine (h.others this).heap fun i b hi hb => hkept b ?_
    rintro rfl
    exact hi (h.owned.inj i this b hb howner)
  refine ⟨({ w with heap := g } : World).set this ⟨m.tag, .pointer m none⟩, ?_,
    hothers.set_self _, ?_, ?_⟩
  · rw [resetCheck_of_pointer hv, resetPointer, unData.ptr_pointer]
    change ((w.deref m (some a)).bind _).bind _ = _
    rw [World.deref_some ha]
    change ((w.heap.release a).bind _).bind _ = _
    rw [hg]
    rfl
  · rw [World.owner_set, owned_pointer]
    exact howned
  · rw [World.owner_set, Function.update_self, owned_pointer]

/-- The end of an assignment. -/
lemma Cleared.copyFrom (h : Cleared w vs this) (hne : this ≠ var) (hx : vs var = some x) :
    ∃ w', copyFrom w this var = .ok w' ∧ Agrees w' (vs.assign this x) := by
  obtain ⟨v, hv, hholds⟩ := h.toOthers.get hne.symm hx
  obtain ⟨hplain, hnone⟩ | ⟨m, a, content, rfl, rfl, ha⟩ := hholds.plain_or_pointer
  · exact ⟨_, copyFrom_of_plain hv hplain, h.set hholds hnone⟩
  refine ⟨_, ?_, h.new m content⟩
  rw [copyFrom_of_pointer hv, copyPointer, unData.ptr_pointer]
  change (w.deref m (some a)).bind _ = _
  rw [World.deref_some ha]
  rfl

/-- The end of a move. -/
lemma Cleared.moveFrom (h : Cleared w vs this) (hne : this ≠ var) (hx : vs var = some x) :
    ∃ w', moveFrom w this var = .ok w' ∧
      Agrees w' ((vs.assign this x).assign var .invalid) := by
  obtain ⟨v, hv, hholds⟩ := h.toOthers.get hne.symm hx
  obtain ⟨hplain, hnone⟩ | ⟨m, a, content, rfl, rfl, ha⟩ := hholds.plain_or_pointer
  · exact ⟨_, moveFrom_of_plain hv hplain, h.take hne hv hx _⟩
  refine ⟨_, ?_, h.take hne hv hx (.pointer m none)⟩
  rw [moveFrom_of_pointer hv, movePointer, World.get_some World.vars_set_self]
  change ((unData.pointer m (some a)).ptr m).bind _ = _
  rw [unData.ptr_pointer]
  change Except.ok (World.set (World.set _ _ _) _ _) = _
  rw [World.set_set]

namespace Agrees

lemma copyAssign (h : Agrees w vs) (hy : vs this = some y) (hx : vs var = some x) :
    ∃ w', copyAssign w this var = .ok w' ∧ Agrees w' (vs.assign this x) := by
  by_cases hne : this = var
  · refine ⟨w, if_pos hne, ?_⟩
    rw [Values.assign, hne, ← hx, Function.update_eq_self]
    exact h
  obtain ⟨w₁, hw₁, h₁⟩ := h.resetCheck hy
  obtain ⟨w₂, hw₂, h₂⟩ := h₁.copyFrom hne hx
  refine ⟨w₂, ?_, h₂⟩
  rw [Variant.copyAssign, if_neg hne, hw₁]
  exact hw₂

lemma ne_of_dead (hdead : vs this = none) (hx : vs var = some x) : this ≠ var := by
  rintro rfl
  rw [hdead] at hx
  cases hx

lemma copyConstruct (h : Agrees w vs) (hdead : vs this = none) (hx : vs var = some x) :
    ∃ w', copyConstruct w this var = .ok w' ∧ Agrees w' (vs.assign this x) := by
  have hnew := (h.cleared_of_dead hdead).set (.invalid .indeterminate) rfl
  have hne := ne_of_dead hdead hx
  obtain ⟨w', hw', h'⟩ := hnew.copyAssign (Function.update_self ..)
    ((Function.update_of_ne hne.symm ..).trans hx)
  refine ⟨w', hw', ?_⟩
  rwa [Values.assign, Values.assign, Function.update_idem] at h'

lemma moveConstruct (h : Agrees w vs) (hdead : vs this = none) (hx : vs var = some x) :
    ∃ w', moveConstruct w this var = .ok w' ∧
      Agrees w' ((vs.assign this x).assign var .invalid) :=
  (h.cleared_of_dead hdead).moveFrom (ne_of_dead hdead hx) hx

lemma moveAssign (h : Agrees w vs) (hy : vs this = some y) (hx : vs var = some x)
    (hdead : vs ret = none) :
    ∃ w', moveAssign w this var ret = .ok w' ∧
      Agrees w' ((if this = var then vs else (vs.assign this x).assign var .invalid).assign
        ret x) := by
  by_cases hne : this = var
  · subst hne
    obtain ⟨w', hw', h'⟩ := h.copyConstruct hdead hx
    rw [if_pos rfl]
    refine ⟨w', ?_, h'⟩
    rw [Variant.moveAssign, if_pos rfl]
    exact hw'
  obtain ⟨w₁, hw₁, h₁⟩ := h.resetCheck hy
  obtain ⟨w₂, hw₂, h₂⟩ := h₁.moveFrom hne hx
  have hthis : ((vs.assign this x).assign var .invalid) this = some x := by
    rw [Values.assign, Function.update_of_ne hne, Values.assign, Function.update_self]
  have hret : ((vs.assign this x).assign var .invalid) ret = none := by
    rw [Values.assign, Function.update_of_ne (ne_of_dead hdead hx), Values.assign,
      Function.update_of_ne (ne_of_dead hdead hy), hdead]
  obtain ⟨w₃, hw₃, h₃⟩ := h₂.copyConstruct hret hthis
  rw [if_neg hne]
  refine ⟨w₃, ?_, h₃⟩
  rw [Variant.moveAssign, if_neg hne, hw₁]
  change (Variant.moveFrom w₁ this var).bind _ = _
  rw [hw₂]
  exact hw₃

lemma destroy (h : Agrees w vs) (hx : vs this = some x) :
    ∃ w', destroy w this = .ok w' ∧ Agrees w' (Function.update vs this none) := by
  obtain ⟨w₁, hw₁, h₁⟩ := h.resetCheck hx
  refine ⟨w₁.drop this, ?_, h₁.drop⟩
  rw [Variant.destroy, hw₁]
  rfl

/-! ### Setters and getters -/

lemma setScalar (h : Agrees w vs) (hy : vs this = some y) (m : Scalar) (x : m.Val) :
    ∃ w', setScalar m.tag m w this x = .ok w' ∧ Agrees w' (vs.assign this (.scalar m x)) := by
  obtain ⟨w₁, hw₁, h₁⟩ := h.resetCheck hy
  refine ⟨_, ?_, h₁.set (.scalar m x) (owned_scalar m _)⟩
  rw [Variant.setScalar, hw₁]
  rfl

lemma setPointer (h : Agrees w vs) (hy : vs this = some y) (m : Pointer)
    (content : List UInt8) : ∃ w', setPointer m.tag m w this content = .ok w' ∧
      Agrees w' (vs.assign this (.payload m content)) := by
  obtain ⟨w₁, hw₁, h₁⟩ := h.resetCheck hy
  refine ⟨_, ?_, h₁.new m content⟩
  rw [Variant.setPointer, hw₁]
  rfl

/-- The value is given back, or an error where the tag is another one. -/
lemma getScalar (h : Agrees w vs) (hx : vs this = some x) (m : Scalar) :
    ∃ r, m.getData w this = .ok r ∧ Result.ofExcept (.scalar m) r = x.getScalar m ∧
      ((∃ what, r = .error what) ↔ x.tag ≠ m.tag) := by
  obtain ⟨v, hv, hholds⟩ := h.get hx
  rw [m.getData_eq, Variant.getScalar, World.get_some hv]
  change ∃ r, (if m.tag ≠ v.m_type then _ else _) = Except.ok r ∧ _
  rw [hholds.tag]
  by_cases htag : x.tag = m.tag
  · obtain ⟨b, rfl⟩ := Value.exists_scalar htag
    rw [if_neg (not_not.mpr htag.symm)]
    cases hholds
    refine ⟨.ok b, ?_, (if_pos rfl).symm, by simp [htag]⟩
    change ((unData.scalar m b).get m).bind _ = _
    rw [unData.get_scalar]
    rfl
  · rw [if_pos (Ne.symm htag)]
    exact ⟨_, rfl, (Value.getScalar_of_ne htag).symm, by simp [htag]⟩

lemma getPointer (h : Agrees w vs) (hx : vs this = some x) (m : Pointer) :
    ∃ r, m.getData w this = .ok r ∧ Result.ofExcept (.content m) r = x.getPointer m ∧
      ((∃ what, r = .error what) ↔ x.tag ≠ m.tag) := by
  obtain ⟨v, hv, hholds⟩ := h.get hx
  rw [m.getData_eq, Variant.getPointer, World.get_some hv]
  change ∃ r, (if m.tag ≠ v.m_type then _ else _) = Except.ok r ∧ _
  rw [hholds.tag]
  by_cases htag : x.tag = m.tag
  · obtain ⟨content, rfl⟩ := Value.exists_payload htag
    rw [if_neg (not_not.mpr htag.symm)]
    obtain ⟨-, hnone⟩ | ⟨_, a, _, rfl, heq, ha⟩ := hholds.plain_or_pointer
    · cases hholds
      rw [owned_pointer] at hnone
      cases hnone
    cases heq
    refine ⟨.ok content, ?_, (if_pos rfl).symm, by simp [htag]⟩
    change ((unData.pointer m (some a)).ptr m).bind _ = _
    rw [unData.ptr_pointer]
    change (w.deref m (some a)).bind _ = _
    rw [World.deref_some ha]
    rfl
  · rw [if_pos (Ne.symm htag)]
    exact ⟨_, rfl, (Value.getPointer_of_ne htag).symm, by simp [htag]⟩

lemma getType (h : Agrees w vs) (hx : vs this = some x) : getType w this = .ok x.tag := by
  obtain ⟨v, hv, hholds⟩ := h.get hx
  rw [Variant.getType, World.get_some hv]
  exact congrArg Except.ok hholds.tag

/-! ### Runs -/

/-- A call that gives nothing back. -/
lemma of_nothing {e : Except Fault World} (h : ∃ w', e = .ok w' ∧ Agrees w' vs') :
    ∃ w', (do return (Result.nothing, ← e)) = Except.ok (.nothing, w') ∧ Agrees w' vs' := by
  obtain ⟨w', rfl, h'⟩ := h
  exact ⟨w', rfl, h'⟩

lemma of_make {r : Result} (h : vs.make this x = some (r, vs')) :
    vs this = none ∧ r = .nothing ∧ vs' = vs.assign this x := by
  unfold Values.make at h
  rcases hthis : vs this with _ | y
  · rw [hthis] at h
    cases h
    exact ⟨rfl, rfl, rfl⟩
  · rw [hthis] at h
    cases h

/-- A call that gives back what a getter does. -/
lemma of_getter {α : Type} {e : Except Fault (Except String α)} {f : α → Result} {r : Result}
    (h : Agrees w vs) (he : ∃ y, e = .ok y ∧ Result.ofExcept f y = r) :
    ∃ w', (do return (Result.ofExcept f (← e), w)) = Except.ok (r, w') ∧ Agrees w' vs := by
  obtain ⟨y, rfl, rfl⟩ := he
  exact ⟨w, rfl, h⟩

/-- A call does to the variants what it does to the values. -/
lemma step (h : Agrees w vs) {c : Call} {r : Result} (hs : vs.step c = some (r, vs')) :
    ∃ w', step w c = .ok (r, w') ∧ Agrees w' vs' := by
  cases c with
  | construct this =>
    obtain ⟨hdead, rfl, rfl⟩ := of_make hs
    exact ⟨_, rfl, (h.cleared_of_dead hdead).set (.invalid _) rfl⟩
  | constructScalar this m x =>
    obtain ⟨hdead, rfl, rfl⟩ := of_make hs
    refine ⟨_, rfl, ?_⟩
    rw [m.construct_eq]
    exact (h.cleared_of_dead hdead).set (.scalar m x) (owned_scalar m _)
  | constructPointer this m content =>
    obtain ⟨hdead, rfl, rfl⟩ := of_make hs
    refine ⟨_, rfl, ?_⟩
    rw [m.construct_eq]
    exact (h.cleared_of_dead hdead).new m content
  | constructSz this szValue =>
    obtain ⟨hzero, hs⟩ := Option.ite_none_right_eq_some.mp hs
    obtain ⟨hdead, rfl, rfl⟩ := of_make hs
    refine of_nothing ⟨_, if_pos hzero, ?_⟩
    exact (h.cleared_of_dead hdead).new .strValue _
  | copyConstruct this var =>
    obtain ⟨x, hx, hs⟩ := Option.bind_eq_some_iff.mp hs
    obtain ⟨hdead, rfl, rfl⟩ := of_make hs
    exact of_nothing (h.copyConstruct hdead hx)
  | moveConstruct this var =>
    obtain ⟨x, hx, hs⟩ := Option.bind_eq_some_iff.mp hs
    obtain ⟨hdead, rfl, rfl⟩ := of_make hs
    have hne : this ≠ var := by
      rintro rfl
      simp [Values.assign] at hdead
    rw [Values.assign, Function.update_of_ne hne] at hdead
    have hcomm : (vs.assign var .invalid).assign this x = (vs.assign this x).assign var .invalid :=
      Function.update_comm hne.symm ..
    rw [hcomm]
    exact of_nothing (h.moveConstruct hdead hx)
  | destroy this =>
    obtain ⟨x, hx, hs⟩ := Option.bind_eq_some_iff.mp hs
    cases hs
    exact of_nothing (h.destroy hx)
  | copyAssign this var =>
    obtain ⟨y, hy, hs⟩ := Option.bind_eq_some_iff.mp hs
    obtain ⟨x, hx, hs⟩ := Option.bind_eq_some_iff.mp hs
    cases hs
    exact of_nothing (h.copyAssign hy hx)
  | moveAssign this var ret =>
    obtain ⟨y, hy, hs⟩ := Option.bind_eq_some_iff.mp hs
    obtain ⟨x, hx, hs⟩ := Option.bind_eq_some_iff.mp hs
    obtain ⟨hdead, rfl, rfl⟩ := of_make hs
    refine of_nothing (h.moveAssign hy hx ?_)
    by_cases hne : this = var
    · rwa [if_pos hne] at hdead
    · rw [if_neg hne] at hdead
      unfold Values.assign at hdead
      by_cases hrv : ret = var
      · simp [hrv] at hdead
      · by_cases hrt : ret = this
        · simp [hrt, hne] at hdead
        · rwa [Function.update_of_ne hrv, Function.update_of_ne hrt] at hdead
  | setScalar this m x =>
    obtain ⟨y, hy, hs⟩ := Option.bind_eq_some_iff.mp hs
    cases hs
    refine of_nothing ?_
    rw [m.setData_eq]
    exact h.setScalar hy m x
  | setPointer this m content =>
    obtain ⟨y, hy, hs⟩ := Option.bind_eq_some_iff.mp hs
    cases hs
    refine of_nothing ?_
    rw [m.setData_eq]
    exact h.setPointer hy m content
  | getScalar this m =>
    obtain ⟨x, hx, hs⟩ := Option.bind_eq_some_iff.mp hs
    cases hs
    obtain ⟨r, hr, heq, -⟩ := h.getScalar hx m
    exact h.of_getter ⟨r, hr, heq⟩
  | getPointer this m =>
    obtain ⟨x, hx, hs⟩ := Option.bind_eq_some_iff.mp hs
    cases hs
    obtain ⟨r, hr, heq, -⟩ := h.getPointer hx m
    exact h.of_getter ⟨r, hr, heq⟩
  | getType this =>
    obtain ⟨x, hx, hs⟩ := Option.bind_eq_some_iff.mp hs
    cases hs
    refine ⟨w, ?_, h⟩
    change (Variant.getType w this).bind _ = _
    rw [h.getType hx]
    rfl

lemma run {cs : List Call} {rs : List Result} (h : Agrees w vs)
    (hr : vs.run cs = some (rs, vs')) : ∃ w', run w cs = .ok (rs, w') ∧ Agrees w' vs' := by
  induction cs generalizing w vs rs with
  | nil =>
    cases hr
    exact ⟨w, rfl, h⟩
  | cons c cs ih =>
    obtain ⟨⟨r, vs₁⟩, hs, hr⟩ := Option.bind_eq_some_iff.mp hr
    obtain ⟨⟨rs, vs₂⟩, hr, heq⟩ := Option.bind_eq_some_iff.mp hr
    cases heq
    obtain ⟨w₁, hw₁, h₁⟩ := h.step hs
    obtain ⟨w₂, hw₂, h₂⟩ := ih h₁ hr
    refine ⟨w₂, ?_, h₂⟩
    change (Variant.step w c).bind _ = _
    rw [hw₁]
    change (Variant.run w₁ cs).bind _ = _
    rw [hw₂]
    rfl

lemma independent (h : Agrees w vs) : Independent w vs where
  alive := h.alive
  tag i v x hv hx := (h.holds i v x hv hx).tag
  content := h.holds
  scalar_throws i v m hv := by
    obtain ⟨x, hx, htag⟩ := h.exists_value hv
    obtain ⟨r, hr, -, hiff⟩ := h.getScalar hx m
    rw [hr, htag]
    simpa using hiff
  pointer_throws i v m hv := by
    obtain ⟨x, hx, htag⟩ := h.exists_value hv
    obtain ⟨r, hr, -, hiff⟩ := h.getPointer hx m
    rw [hr, htag]
    simpa using hiff
  owner _ _ ha := h.owned.existsUnique ha
  kept _ _ ha := h.owned.count_eq_zero ha
  released _ ha hnot := h.owned.count_eq_one ha hnot

end Agrees

/-- **Variants are independent tagged values** in every run of calls on variants that are
alive. -/
theorem variants_independent {cs : List Call} {rs : List Result}
    (h : Values.run (fun _ => none) cs = some (rs, vs)) :
    ∃ w, run World.start cs = .ok (rs, w) ∧ Independent w vs := by
  obtain ⟨w, hw, h'⟩ := agrees_start.run h
  exact ⟨w, hw, h'.independent⟩

/-- A number that becomes a string, is assigned and moved to itself, and moved away. -/
theorem self_move_independent : ∃ vs w,
    run World.start
        [.constructScalar 0 .dValue (0x4025000000000000 : UInt64), .getScalar 0 .dValue,
          .setPointer 0 .strValue [115, 116], .copyAssign 0 0, .moveAssign 0 0 1, .destroy 1,
          .moveConstruct 2 0, .getPointer 2 .strValue, .getScalar 0 .bValue] =
      .ok ([.nothing, .scalar .dValue (0x4025000000000000 : UInt64),
          .nothing, .nothing, .nothing, .nothing,
          .nothing, .content .strValue [115, 116],
          .logic_error "variant m_type is not bool!"], w) ∧
    Independent w vs ∧ vs 0 = some .invalid ∧ vs 2 = some (.payload .strValue [115, 116]) := by
  obtain ⟨w, hw, h⟩ := variants_independent (rfl : Values.run (fun _ => none)
    [.constructScalar 0 .dValue (0x4025000000000000 : UInt64), .getScalar 0 .dValue,
      .setPointer 0 .strValue [115, 116], .copyAssign 0 0, .moveAssign 0 0 1, .destroy 1,
      .moveConstruct 2 0, .getPointer 2 .strValue, .getScalar 0 .bValue] = some (_, _))
  exact ⟨_, w, hw, h, rfl, rfl⟩

end MmrService.Variant
