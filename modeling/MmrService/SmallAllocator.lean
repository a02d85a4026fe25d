import MmrService.FixedAllocator
import MmrService.Lib.Transition
import Mathlib.Tactic.Ring

/-!
`SmallAllocator`: which `FixedAllocator` serves an allocation.

Small types are served by the vector of the instance that is asked. For large types each
instantiation of `Make_Shared` and `Make_Unique` keeps a pointer in a static of its own, set
by its first call, while the allocators belong to an instance that `Singleton` destroys and
creates again.
-/

namespace MmrService.SmallAllocator

open Transition

/-- `_MaxObjectSize`. -/
def MAX_OBJECT_SIZE : ℕ := 1024

/-- The instantiations of `Make_Shared` and `Make_Unique` in a program, with the size of their
type, and `sizeof(void*)`. -/
structure Program (ι : Type) where
  sizeof : ι → ℕ
  _StepSize : ℕ
  sizeof_pos : ∀ i, 0 < sizeof i
  sizeof_le : ∀ i, sizeof i ≤ FixedAllocator.ALLOC_CHUNK_SIZE
  step_pos : 0 < _StepSize
  step_dvd : MAX_OBJECT_SIZE % _StepSize = 0

/-- A `FixedAllocator*`: its address is the number of allocators made before it. -/
structure FixedAllocatorPtr where
  address : ℕ
  m_blockSize : ℕ
  deriving DecidableEq

/-- An instance, with its allocators by index and by size. -/
structure Instance where
  m_vecPool : List FixedAllocatorPtr
  m_mapPool : List (ℕ × FixedAllocatorPtr)

/-- The allocator is a member of the instance, or of a map that is. -/
def Instance.owns (inst : Instance) (p : FixedAllocatorPtr) : Prop :=
  p ∈ inst.m_vecPool ∨ p ∈ inst.m_mapPool.map Prod.snd

instance Instance.decidableOwns (inst : Instance) (p : FixedAllocatorPtr) :
    Decidable (inst.owns p) :=
  inferInstanceAs (Decidable (_ ∨ _))

/-- `Singleton::m_pInstance`, the static `ptrFixAlloc` of every instantiation, and the number
of allocators made so far. -/
structure State (ι : Type) where
  m_pInstance : Option Instance
  ptrFixAlloc : ι → Option FixedAllocatorPtr
  made : ℕ

inductive Action (ι : Type)
  | initInstance
  | destroyInstance
  /-- `getInstance()->Make_Shared<Type>(...)` or `Make_Unique`, by its instantiation. -/
  | make (i : ι)

variable {ι : Type}

namespace Program

variable (T : Program ι)

def _MaxIndex : ℕ := MAX_OBJECT_SIZE / T._StepSize

def large (i : ι) : Bool := MAX_OBJECT_SIZE < T.sizeof i

def allocIndex (i : ι) : ℕ := (T.sizeof i + T._StepSize - 1) / T._StepSize - 1

def allocSize (i : ι) : ℕ := (T.sizeof i + T._StepSize - 1) / T._StepSize * T._StepSize

/-- The constructor of `SmallAllocator`, with `made` allocators made before. -/
def construct (made : ℕ) : Instance where
  m_vecPool := (List.range T._MaxIndex).map fun k => ⟨made + k, (k + 1) * T._StepSize⟩
  m_mapPool := []

end Program

/-- `getBigFixAllocator`: the allocator of a size, which is made at the first call. -/
def getBigFixAllocator (inst : Instance) (made allocSize : ℕ) : FixedAllocatorPtr × Instance × ℕ :=
  match inst.m_mapPool.lookup allocSize with
  | some ptrRet => (ptrRet, inst, made)
  | none =>
    let ptrNew := ⟨made, allocSize⟩
    (ptrNew, { inst with m_mapPool := (allocSize, ptrNew) :: inst.m_mapPool }, made + 1)

variable [DecidableEq ι] (T : Program ι)

namespace State

/-- The allocator that serves a call on the current instance, and the state the call leaves. -/
def serve (s : State ι) (i : ι) : Option (FixedAllocatorPtr × State ι) :=
  match s.m_pInstance with
  | none => none
  | some inst =>
    if T.large i then
      match s.ptrFixAlloc i with
      | some ptrFixAlloc => some (ptrFixAlloc, s)
      | none =>
        let (ptrRet, inst, made) := getBigFixAllocator inst s.made (T.allocSize i)
        some (ptrRet, ⟨some inst, Function.update s.ptrFixAlloc i (some ptrRet), made⟩)
    else inst.m_vecPool[T.allocIndex i]?.map fun p => (p, s)

def step (s : State ι) : Action ι → Option (State ι)
  | .initInstance =>
    match s.m_pInstance with
    | none => some { s with m_pInstance := some (T.construct s.made), made := s.made + T._MaxIndex }
    | some _ => some s
  | .destroyInstance => some { s with m_pInstance := none }
  | .make i => (s.serve T i).map Prod.snd

/-- Nothing created, no static set. -/
def start (ι : Type) : State ι := ⟨none, fun _ => none, 0⟩

/-- An allocation, with an instance there, is served by an allocator of that instance. -/
def Served (s : State ι) (a : Action ι) : Prop :=
  ∀ i, a = .make i → s.m_pInstance.isSome →
    ∃ p t inst, s.serve T i = some (p, t) ∧ t.m_pInstance = some inst ∧ inst.owns p

end State

/-- The instantiation was called before the last `destroyInstance`. -/
def Crossed (h : List (Action ι)) (i : ι) : Prop :=
  ∃ g r, h = g ++ .destroyInstance :: r ∧ .make i ∈ g

/-- An instantiation for a large type is called under the instance of its first call. -/
def Uncrossed (h : List (Action ι)) (s : State ι) (a : Action ι) : Prop :=
  ∀ i, a = .make i → T.large i = true → s.m_pInstance.isSome → ¬ Crossed h i

variable {T} {h : List (Action ι)} {s t : State ι} {i : ι}

omit [DecidableEq ι] in
lemma crossed_snoc {a : Action ι} :
    Crossed (h ++ [a]) i ↔ Crossed h i ∨ a = .destroyInstance ∧ .make i ∈ h := by
  constructor
  · rintro ⟨g, r, he, hm⟩
    rcases List.eq_nil_or_concat r with rfl | ⟨r, b, rfl⟩
    · obtain ⟨rfl, ha⟩ := List.append_inj' he rfl
      exact .inr ⟨(List.cons.inj ha).1, hm⟩
    · rw [List.concat_eq_append, ← List.cons_append, ← List.append_assoc] at he
      exact .inl ⟨g, r, (List.append_inj' he rfl).1, hm⟩
  · rintro (⟨g, r, rfl, hm⟩ | ⟨rfl, hm⟩)
    · exact ⟨g, r ++ [a], by simp, hm⟩
    · exact ⟨h, [], rfl, hm⟩

omit [DecidableEq ι] in
/-- A static that is not set has not been crossed. -/
lemma Crossed.mem (hc : Crossed h i) : .make i ∈ h := by
  obtain ⟨g, r, rfl, hm⟩ := hc
  exact List.mem_append_left _ hm

/-! ### The allocators of an instance -/

omit [DecidableEq ι] in
/-- A type that is not large has an index in the vector. -/
lemma Program.allocIndex_lt (T : Program ι) (hi : T.large i = false) :
    T.allocIndex i < T._MaxIndex := by
  have hpos := T.step_pos
  have hsize : T.sizeof i ≤ MAX_OBJECT_SIZE := by simpa [Program.large] using hi
  obtain ⟨m, hm⟩ := Nat.dvd_of_mod_eq_zero T.step_dvd
  have hmax : T._MaxIndex = m := by
    rw [Program._MaxIndex, hm, Nat.mul_div_cancel_left m hpos]
  have hm0 : 0 < m := by
    rcases Nat.eq_zero_or_pos m with rfl | h0
    · cases hm
    · exact h0
  have hle : (T.sizeof i + T._StepSize - 1) / T._StepSize ≤ m := by
    apply Nat.le_of_lt_succ
    rw [Nat.div_lt_iff_lt_mul hpos, Nat.succ_mul, Nat.mul_comm m, ← hm]
    omega
  rw [Program.allocIndex, hmax]
  omega

/-- What `getBigFixAllocator` returns is owned, and nothing else becomes so. -/
lemma getBigFixAllocator_owns {inst inst' : Instance} {made made' n : ℕ} {p : FixedAllocatorPtr}
    (hg : getBigFixAllocator inst made n = (p, inst', made')) :
    (∀ q, inst'.owns q ↔ q = p ∨ inst.owns q) ∧ inst'.m_vecPool = inst.m_vecPool ∧
      (inst.owns p ∧ made' = made ∨ p.address = made ∧ made' = made + 1) := by
  unfold getBigFixAllocator at hg
  split at hg
  · next q hq =>
    simp only [Prod.mk.injEq] at hg
    obtain ⟨rfl, rfl, rfl⟩ := hg
    have hown : inst.owns q := by
      obtain ⟨l, r, hl, -⟩ := List.lookup_eq_some_iff.mp hq
      exact .inr (by simp [hl])
    refine ⟨fun r => ⟨.inr, ?_⟩, rfl, .inl ⟨hown, rfl⟩⟩
    rintro (rfl | hr)
    · exact hown
    · exact hr
  · simp only [Prod.mk.injEq] at hg
    obtain ⟨rfl, rfl, rfl⟩ := hg
    refine ⟨fun r => ?_, rfl, .inr ⟨rfl, rfl⟩⟩
    simp only [Instance.owns, List.map_cons, List.mem_cons]
    tauto

omit [DecidableEq ι] in
lemma Program.construct_owns {made : ℕ} {p : FixedAllocatorPtr} (hp : (T.construct made).owns p) :
    made ≤ p.address ∧ p.address < made + T._MaxIndex := by
  rcases hp with hp | hp
  · obtain ⟨k, hk, rfl⟩ := List.mem_map.mp hp
    have hlt := List.mem_range.mp hk
    exact ⟨Nat.le_add_right _ _, Nat.add_lt_add_left hlt _⟩
  · cases hp

/-! ### The statics along a run -/

/-- A static is set by the first call of its instantiation, and what it points to belongs to
the instance that exists unless a `destroyInstance` has come in between. -/
structure Inv (T : Program ι) (h : List (Action ι)) (s : State ι) : Prop where
  unset : ∀ i, T.large i = true → s.ptrFixAlloc i = none → .make i ∉ h
  old : ∀ i p, s.ptrFixAlloc i = some p → .make i ∈ h ∧ p.address < s.made
  gone : ∀ i p, s.ptrFixAlloc i = some p → s.m_pInstance = none → Crossed h i
  owned : ∀ i p inst, s.ptrFixAlloc i = some p → s.m_pInstance = some inst →
    (inst.owns p ↔ ¬ Crossed h i)
  below : ∀ inst p, s.m_pInstance = some inst → inst.owns p → p.address < s.made
  pool : ∀ inst, s.m_pInstance = some inst → inst.m_vecPool.length = T._MaxIndex

omit [DecidableEq ι] in
lemma inv_start (T : Program ι) : Inv T [] (State.start ι) := by
  constructor <;> simp [State.start]

omit [DecidableEq ι] in
/-- A step that leaves the state as it is, and is no first call. -/
lemma Inv.same (hi : Inv T h s) {a : Action ι} (ha : a ≠ .destroyInstance)
    (hmake : ∀ i, T.large i = true → s.ptrFixAlloc i = none → a ≠ .make i) :
    Inv T (h ++ [a]) s := by
  have hcross : ∀ i, Crossed (h ++ [a]) i ↔ Crossed h i := fun i =>
    crossed_snoc.trans (or_iff_left fun hc => ha hc.1)
  refine ⟨fun i hl hn hm => ?_, fun i p hp => ?_, fun i p hp hn => ?_, fun i p inst hp hs => ?_,
    hi.below, hi.pool⟩
  · rcases List.mem_append.mp hm with hm | hm
    · exact hi.unset i hl hn hm
    · exact hmake i hl hn (List.mem_singleton.mp hm).symm
  · exact (hi.old i p hp).imp_left (List.mem_append_left _)
  · exact (hcross i).mpr (hi.gone i p hp hn)
  · rw [hcross]
    exact hi.owned i p inst hp hs

omit [DecidableEq ι] in
/-- A new instance owns nothing that a static points to. -/
lemma Inv.create (hi : Inv T h s) (hn : s.m_pInstance = none) :
    Inv T (h ++ [.initInstance]) { s with
      m_pInstance := some (T.construct s.made), made := s.made + T._MaxIndex } := by
  have hsame := hi.same (a := .initInstance) (by simp) (by simp)
  refine ⟨hsame.unset, fun i p hp => ?_, fun i p hp he => ?_, fun i p inst hp hs => ?_,
    fun inst p hs hp => ?_, fun inst hs => ?_⟩
  · exact (hsame.old i p hp).imp_right (Nat.lt_add_right _)
  · cases he
  · obtain rfl : T.construct s.made = inst := Option.some.inj hs
    refine iff_of_false (fun hown => ?_) (not_not_intro (hsame.gone i p hp hn))
    have hlt := (hi.old i p hp).2
    have hge := (T.construct_owns hown).1
    omega
  · obtain rfl : T.construct s.made = inst := Option.some.inj hs
    exact (T.construct_owns hp).2
  · obtain rfl : T.construct s.made = inst := Option.some.inj hs
    simp [Program.construct]

omit [DecidableEq ι] in
lemma Inv.destroy (hi : Inv T h s) :
    Inv T (h ++ [.destroyInstance]) { s with m_pInstance := none } := by
  refine ⟨fun i hl hn hm => ?_, fun i p hp => ?_, fun i p hp _ => ?_, nofun, nofun, nofun⟩
  · rcases List.mem_append.mp hm with hm | hm
    · exact hi.unset i hl hn hm
    · cases List.mem_singleton.mp hm
  · exact (hi.old i p hp).imp_left (List.mem_append_left _)
  · exact crossed_snoc.mpr (.inr ⟨rfl, (hi.old i p hp).1⟩)

/-- The first call of an instantiation for a large type sets its static. -/
lemma Inv.first (hi : Inv T h s) {inst inst' : Instance} {p : FixedAllocatorPtr} {made' n : ℕ}
    (hl : T.large i = true) (hs : s.m_pInstance = some inst) (hn : s.ptrFixAlloc i = none)
    (hg : getBigFixAllocator inst s.made n = (p, inst', made')) :
    Inv T (h ++ [.make i]) ⟨some inst', Function.update s.ptrFixAlloc i (some p), made'⟩ := by
  obtain ⟨howns, hvec, hnew⟩ := getBigFixAllocator_owns hg
  have hcross : ∀ j, Crossed (h ++ [.make i]) j ↔ Crossed h j := fun j =>
    crossed_snoc.trans (or_iff_left (by simp))
  have hmade : s.made ≤ made' := by
    rcases hnew with ⟨-, hm⟩ | ⟨-, hm⟩ <;> omega
  have hp : p.address < made' := by
    rcases hnew with ⟨hown, hm⟩ | ⟨ha, hm⟩
    · have hlt := hi.below inst p hs hown
      omega
    · omega
  refine ⟨fun j hlj hj hm => ?_, fun j q hq => ?_, nofun, fun j q inst'' hq hs' => ?_,
    fun inst'' q hs' hq => ?_, fun inst'' hs' => ?_⟩
  · simp only [Function.update_apply] at hj
    split_ifs at hj with hji
    rcases List.mem_append.mp hm with hm | hm
    · exact hi.unset j hlj hj hm
    · exact hji (Action.make.inj (List.mem_singleton.mp hm))
  · simp only [Function.update_apply] at hq
    split_ifs at hq with hji
    · obtain rfl : p = q := Option.some.inj hq
      exact ⟨by simp [hji], hp⟩
    · obtain ⟨hmem, hlt⟩ := hi.old j q hq
      exact ⟨List.mem_append_left _ hmem, Nat.lt_of_lt_of_le hlt hmade⟩
  · obtain rfl : inst' = inst'' := Option.some.inj hs'
    simp only [Function.update_apply] at hq
    rw [hcross, howns]
    split_ifs at hq with hji
    · obtain rfl : p = q := Option.some.inj hq
      exact iff_of_true (.inl rfl) fun hc => hi.unset i hl hn (hji ▸ hc).mem
    · -- the other statics do not point to an allocator that has just been made
      rw [← hi.owned j q inst hq hs]
      refine or_iff_right_of_imp fun hqp => ?_
      rcases hnew with ⟨hown, -⟩ | ⟨ha, -⟩
      · exact hqp ▸ hown
      · have hlt := (hi.old j q hq).2
        rw [hqp] at hlt
        omega
  · obtain rfl : inst' = inst'' := Option.some.inj hs'
    rcases (howns q).mp hq with rfl | hq
    · exact hp
    · exact Nat.lt_of_lt_of_le (hi.below inst q hs hq) hmade
  · obtain rfl : inst' = inst'' := Option.some.inj hs'
    rw [hvec]
    exact hi.pool inst hs

lemma Inv.step (hi : Inv T h s) {a : Action ι} (hs : s.step T a = some t) :
    Inv T (h ++ [a]) t := by
  cases a with
  | initInstance =>
    simp only [State.step] at hs
    split at hs <;> cases hs
    · next hn => exact hi.create hn
    · exact hi.same (by simp) (by simp)
  | destroyInstance =>
    cases hs
    exact hi.destroy
  | make i =>
    obtain ⟨⟨p, u⟩, hserve, rfl⟩ := Option.map_eq_some_iff.mp hs
    unfold State.serve at hserve
    split at hserve
    · cases hserve
    · next inst hinst =>
      split_ifs at hserve with hl
      · split at hserve
        · next q hq =>
          cases hserve
          exact hi.same (by simp) fun j _ hj he => by
            obtain rfl := Action.make.inj he
            rw [hq] at hj
            cases hj
        · next hn =>
          cases hserve
          exact hi.first hl hinst hn rfl
      · obtain ⟨q, -, hqu⟩ := Option.map_eq_some_iff.mp hserve
        cases hqu
        exact hi.same (by simp) fun j hj _ he => by
          obtain rfl := Action.make.inj he
          exact hl hj

/-- One call is served by the instance exactly when its static has not outlived one. -/
lemma Inv.served_iff (hi : Inv T h s) (a : Action ι) : s.Served T a ↔ Uncrossed T h s a := by
  unfold State.Served Uncrossed
  refine forall_congr' fun i => imp_congr_right fun _ => ?_
  cases hinst : s.m_pInstance with
  | none => simp
  | some inst =>
    cases hl : T.large i with
    | false =>
      -- the vector has an allocator for every small type
      have hlt : T.allocIndex i < inst.m_vecPool.length := by
        rw [hi.pool inst hinst]
        exact T.allocIndex_lt hl
      refine iff_of_true (fun _ => ⟨inst.m_vecPool[T.allocIndex i], s, inst, ?_, hinst, ?_⟩) nofun
      · simp [State.serve, hinst, hl, hlt]
      · exact .inl (List.getElem_mem hlt)
    | true =>
      cases hp : s.ptrFixAlloc i with
      | none =>
        obtain ⟨⟨p, inst', made'⟩, hg⟩ : ∃ r, getBigFixAllocator inst s.made (T.allocSize i) = r :=
          ⟨_, rfl⟩
        have hown : inst'.owns p := ((getBigFixAllocator_owns hg).1 p).mpr (.inl rfl)
        refine iff_of_true (fun _ => ⟨p, ⟨some inst', Function.update s.ptrFixAlloc i (some p),
          made'⟩, inst', ?_, rfl, hown⟩) fun _ _ hc => hi.unset i hl hp hc.mem
        simp [State.serve, hinst, hl, hp, hg]
      | some p =>
        have hserve : s.serve T i = some (p, s) := by simp [State.serve, hinst, hl, hp]
        rw [← hi.owned i p inst hp hinst]
        constructor
        · intro hserved _ _
          obtain ⟨q, u, inst', hq, hu, hown⟩ := hserved rfl
          rw [hserve] at hq
          cases hq
          obtain rfl : inst = inst' := Option.some.inj (hinst.symm.trans hu)
          exact hown
        · exact fun hown _ => ⟨p, s, inst, hserve, hinst, hown rfl rfl⟩

/-- **Which instance serves.** Every allocation of a run is served by an allocator of the
instance that exists, exactly when no instantiation for a large type is called again after a
`destroyInstance`. -/
theorem served_iff_uncrossed (T : Program ι) (as : List (Action ι)) :
    Always (State.step T) (fun _ => State.Served T) (State.start ι) as ↔
      Always (State.step T) (Uncrossed T) (State.start ι) as :=
  always_congr (P := fun _ => State.Served T) (Q := Uncrossed T) (I := Inv T) (inv_start T)
    (fun _ _ _ _ hi _ hs => hi.step hs) (fun _ _ a hi => hi.served_iff a) as

/-- Two instantiations, for a type of 1028 bytes and one of 104, on a 64-bit machine. -/
def sampleProgram : Program Bool where
  sizeof i := if i then 1028 else 104
  _StepSize := 8
  sizeof_pos i := by cases i <;> decide
  sizeof_le i := by cases i <;> decide
  step_pos := by decide
  step_dvd := by decide

/-- The large type is allocated under two instances, one after the other. -/
def twoInstances : List (Action Bool) :=
  [.initInstance, .make true, .make false, .destroyInstance, .initInstance]

lemma twoInstances_ends :
    (exec (State.step sampleProgram) (State.start Bool) twoInstances).map
      (fun s => (s.m_pInstance.isSome, (s.serve sampleProgram true).bind fun r =>
        r.2.m_pInstance.map fun inst => decide (inst.owns r.1))) = some (true, some false) := by
  decide +kernel

theorem twoInstances_not_served :
    ¬ Always (State.step sampleProgram) (fun _ => State.Served sampleProgram)
      (State.start Bool) (twoInstances ++ [.make true]) := by
  intro h
  obtain ⟨s, hs, he⟩ := Option.map_eq_some_iff.mp twoInstances_ends
  simp only [Prod.mk.injEq] at he
  obtain ⟨hinst, hserved⟩ := he
  obtain ⟨p, t, inst, hserve, ht, hown⟩ := h.last hs true rfl hinst
  simp [hserve, ht, hown] at hserved

end MmrService.SmallAllocator
