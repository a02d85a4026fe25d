import MmrService.Lib.Transition
import MmrService.Lib.Word

/-!
`VecServByIndex`: services in a vector, found by an index kept in each service type.

The index is a static of the type, one for all instances, and `clear` of an instance leaves it
as it is. `τ` are the service types, `ι` the instances and `α` the objects; a stored pointer
may be null.
-/

namespace MmrService.ServiceIndex

open Transition

variable {τ ι α : Type} [DecidableEq τ] [DecidableEq ι]

/-- `GetClassIndexStatic()` of each type, and `m_vecServices` of each instance. -/
structure State (τ ι α : Type) where
  index : τ → ℤ
  m_vecServices : ι → List (Option α)

def init : State τ ι α where
  index _ := -1
  m_vecServices _ := []

/-- The index is an `int32_t`. -/
def registService (s : State τ ι α) (i : ι) (T : τ) (pSer : Option α) : State τ ι α :=
  let vec := s.m_vecServices i ++ [pSer]
  { m_vecServices := Function.update s.m_vecServices i vec
    index := Function.update s.index T (Word.toInt 32 (vec.length - 1)) }

/-- The pointer, cast to the type asked for whatever it was stored as. -/
def getService (s : State τ ι α) (i : ι) (T : τ) : Option α :=
  let index := s.index T
  if index < 0 ∨ ((s.m_vecServices i).length : ℤ) ≤ index then none
  else ((s.m_vecServices i)[index.toNat]?).join

def clear (s : State τ ι α) (i : ι) : State τ ι α :=
  { s with m_vecServices := Function.update s.m_vecServices i [] }

inductive Action (τ ι α : Type) where
  | registService (i : ι) (T : τ) (pSer : Option α)
  | getService (i : ι) (T : τ)
  | clear (i : ι)

def step (s : State τ ι α) : Action τ ι α → Option (State τ ι α)
  | .registService i T pSer => some (registService s i T pSer)
  | .getService _ _ => some s
  | .clear i => some (clear s i)

/-! ### What the history says -/

/-- One action's effect on the registrations of an instance since its last `clear`. -/
def record (i : ι) (l : List (τ × Option α)) : Action τ ι α → List (τ × Option α)
  | .registService j T pSer => if j = i then l ++ [(T, pSer)] else l
  | .getService _ _ => l
  | .clear j => if j = i then [] else l

/-- The registrations on an instance since its last `clear`, in order. -/
def sinceClear (i : ι) (h : List (Action τ ι α)) : List (τ × Option α) := h.foldl (record i) []

/-- The last registration of `T`, on whatever instance, was the one at place `k` there. -/
inductive PlacedAt (T : τ) : List (Action τ ι α) → ℕ → Prop
  | here {h j pSer} : PlacedAt T (h ++ [.registService j T pSer]) (sinceClear j h).length
  | later {h a k} : PlacedAt T h k → (∀ j pSer, a ≠ .registService j T pSer) →
      PlacedAt T (h ++ [a]) k

omit [DecidableEq τ] in
lemma sinceClear_snoc (i : ι) (h : List (Action τ ι α)) (a : Action τ ι α) :
    sinceClear i (h ++ [a]) = record i (sinceClear i h) a := by
  simp [sinceClear, List.foldl_append]

omit [DecidableEq τ] in
/-- The last action decides where a type was placed. -/
lemma placedAt_snoc {T : τ} {h : List (Action τ ι α)} {a : Action τ ι α} {k : ℕ} :
    PlacedAt T (h ++ [a]) k ↔
      (∃ j pSer, a = .registService j T pSer ∧ k = (sinceClear j h).length) ∨
      PlacedAt T h k ∧ ∀ j pSer, a ≠ .registService j T pSer := by
  constructor
  · intro hp
    generalize hl : h ++ [a] = l at hp
    cases hp with
    | here =>
      obtain ⟨rfl, ha⟩ := List.append_inj' hl rfl
      exact Or.inl ⟨_, _, (List.cons.inj ha).1, rfl⟩
    | later hp hne =>
      obtain ⟨rfl, ha⟩ := List.append_inj' hl rfl
      rw [(List.cons.inj ha).1]
      exact Or.inr ⟨hp, hne⟩
  · rintro (⟨j, pSer, rfl, rfl⟩ | ⟨hp, hne⟩)
    · exact .here
    · exact .later hp hne

/-- What holds after the actions `h`: the vectors are the registrations since the last `clear`,
and an index is the place of the last registration of its type, anywhere. -/
structure Inv (h : List (Action τ ι α)) (s : State τ ι α) : Prop where
  vec : ∀ i, s.m_vecServices i = (sinceClear i h).map Prod.snd
  unplaced : ∀ T, (∀ k, ¬ PlacedAt T h k) → s.index T = -1
  placed : ∀ T k, PlacedAt T h k → s.index T = Word.toInt 32 k

omit [DecidableEq τ] in
lemma inv_init : Inv ([] : List (Action τ ι α)) init where
  vec i := rfl
  unplaced T _ := rfl
  placed T k hp := by
    generalize hl : ([] : List (Action τ ι α)) = l at hp
    cases hp <;> simp at hl

lemma inv_step {h : List (Action τ ι α)} {s t : State τ ι α} {a : Action τ ι α}
    (hi : Inv h s) (hs : step s a = some t) : Inv (h ++ [a]) t := by
  cases a with
  | registService i T pSer =>
    obtain rfl := Option.some.inj hs
    have hlen : (s.m_vecServices i ++ [pSer]).length - 1 = (sinceClear i h).length := by
      rw [hi.vec i]; simp
    refine ⟨fun j => ?_, fun U hU => ?_, fun U k hk => ?_⟩
    · rw [sinceClear_snoc]
      by_cases hj : j = i
      · subst hj
        simp [registService, record, hi.vec]
      · simp [registService, record, hi.vec, hj, Ne.symm hj]
    · by_cases hUT : U = T
      · subst hUT
        exact absurd PlacedAt.here (hU _)
      · have hne : ∀ j p, Action.registService i T pSer ≠ .registService j U p := by
          intro j p he
          exact hUT (Action.registService.inj he).2.1.symm
        have := hi.unplaced U fun k hk => hU k (.later hk hne)
        simpa [registService, Function.update_of_ne hUT] using this
    · rcases placedAt_snoc.mp hk with ⟨j, p, he, rfl⟩ | ⟨hk, hne⟩
      · obtain ⟨rfl, rfl, rfl⟩ := Action.registService.inj he
        simp only [registService, Function.update_self, hlen]
      · have hUT : U ≠ T := fun he => hne i pSer (by rw [he])
        simpa [registService, Function.update_of_ne hUT] using hi.placed U k hk
  | getService i T =>
    obtain rfl := Option.some.inj hs
    have hne : ∀ (U : τ) j p, Action.getService i T ≠ (.registService j U p : Action τ ι α) := by
      simp
    refine ⟨fun j => ?_, fun U hU => ?_, fun U k hk => ?_⟩
    · rw [sinceClear_snoc]; exact hi.vec j
    · exact hi.unplaced U fun k hk => hU k (.later hk (hne U))
    · rcases placedAt_snoc.mp hk with ⟨j, p, he, -⟩ | ⟨hk, -⟩
      · exact absurd he (hne U j p)
      · exact hi.placed U k hk
  | clear i =>
    obtain rfl := Option.some.inj hs
    have hne : ∀ (U : τ) j p, Action.clear i ≠ (.registService j U p : Action τ ι α) := by simp
    refine ⟨fun j => ?_, fun U hU => ?_, fun U k hk => ?_⟩
    · rw [sinceClear_snoc]
      by_cases hj : j = i
      · subst hj
        simp [clear, record]
      · simp [clear, record, hi.vec, hj, Ne.symm hj]
    · exact hi.unplaced U fun k hk => hU k (.later hk (hne U))
    · rcases placedAt_snoc.mp hk with ⟨j, p, he, -⟩ | ⟨hk, -⟩
      · exact absurd he (hne U j p)
      · exact hi.placed U k hk

/-! ### What `getService` returns -/

/-- A `getService` returns null or a pointer registered under its type, on its instance, since
the last `clear`. -/
def GetSound (h : List (Action τ ι α)) (s : State τ ι α) (a : Action τ ι α) : Prop :=
  ∀ i T, a = .getService i T → ∀ p, getService s i T = some p → (T, some p) ∈ sinceClear i h

/-- Where the last registration of a type asked for stood, on whatever instance, the instance
asked has nothing, a null pointer, or an object registered on it under that type. -/
def PlaceFits (h : List (Action τ ι α)) (a : Action τ ι α) : Prop :=
  ∀ i T, a = .getService i T → ∀ k, PlacedAt T h k → 0 ≤ Word.toInt 32 k →
    ∀ U p, (sinceClear i h)[(Word.toInt 32 k).toNat]? = some (U, some p) →
      (T, some p) ∈ sinceClear i h

omit [DecidableEq τ] in
lemma getService_eq_some {h : List (Action τ ι α)} {s : State τ ι α} (hi : Inv h s) {i : ι}
    {T : τ} {p : α} : getService s i T = some p ↔ ∃ k U, PlacedAt T h k ∧
      0 ≤ Word.toInt 32 k ∧ (sinceClear i h)[(Word.toInt 32 k).toNat]? = some (U, some p) := by
  constructor
  · intro hg
    unfold getService at hg
    simp only at hg
    split_ifs at hg with hrange
    rw [not_or, not_lt] at hrange
    by_cases hplaced : ∃ k, PlacedAt T h k
    · obtain ⟨k, hk⟩ := hplaced
      rw [hi.placed T k hk, hi.vec i, List.getElem?_map] at hg
      obtain ⟨q, hq, hqp⟩ := Option.join_eq_some_iff.mp hg |> Option.map_eq_some_iff.mp
      exact ⟨k, q.1, hk, hi.placed T k hk ▸ hrange.1, by rw [hq, ← hqp]⟩
    · have := hi.unplaced T fun k hk => hplaced ⟨k, hk⟩
      omega
  · rintro ⟨k, U, hk, hpos, hget⟩
    have hidx := hi.placed T k hk
    have hlt : (Word.toInt 32 k).toNat < (sinceClear i h).length :=
      (List.getElem?_eq_some_iff.mp hget).1
    have hlen : (s.m_vecServices i).length = (sinceClear i h).length := by rw [hi.vec i]; simp
    unfold getService
    simp only [hidx]
    rw [if_neg (by omega), hi.vec i, List.getElem?_map, hget]
    rfl

omit [DecidableEq τ] in
lemma getSound_iff {h : List (Action τ ι α)} {s : State τ ι α} {a : Action τ ι α}
    (hi : Inv h s) : GetSound h s a ↔ PlaceFits h a := by
  constructor
  · intro hs i T ha k hk hpos U p hget
    exact hs i T ha p ((getService_eq_some hi).mpr ⟨k, U, hk, hpos, hget⟩)
  · intro hf i T ha p hg
    obtain ⟨k, U, hk, hpos, hget⟩ := (getService_eq_some hi).mp hg
    exact hf i T ha k hk hpos U p hget

/-- **Services by index**: along a run every `getService` returns null or an object of its type
exactly when each finds, at the place of the last registration of its type, nothing, null or
an object of that type. -/
theorem getSound_run_iff (as : List (Action τ ι α)) :
    Always step GetSound init as ↔ Always step (fun h _ => PlaceFits h) init as :=
  always_congr (P := GetSound) (Q := fun h _ => PlaceFits h) (I := Inv) inv_init
    (fun _ _ _ _ hi _ hs => inv_step hi hs) (fun _ _ _ hi => getSound_iff hi) as

/-- A service of one type, a restart, and a service of another type at the same place. -/
def restart : List (Action Bool Unit ℕ) :=
  [.registService () false (some 1), .clear (), .registService () true (some 2),
    .getService () false]

/-- The first type's old index finds the object of the second type. -/
theorem restart_confuses_types : ¬ Always step GetSound init restart := by
  intro h
  have hs := h (restart.take 3) (.getService () false) [] _ rfl rfl () false rfl 2 (by decide)
  simp [restart, sinceClear, record] at hs

end MmrService.ServiceIndex
