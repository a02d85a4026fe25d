import MmrService.ServiceIndex

/-!
The three policies a framework can keep its services with, on one instance.

`MapServKeyByTypeID` keeps them by type in a `std::map`, whose `insert` leaves an entry that is
there; `VecServByIndex` is `ServiceIndex`; `UnMapServKeyByGUID` keeps them by the GUID of the
type and overwrites. A build selects one of them, and the components cannot tell which.
-/

namespace MmrService.ServicePolicies

open Transition ServiceIndex

variable {τ α : Type} [DecidableEq τ]

/-! ### The policies -/

/-- A map from types to pointers, which may be null. -/
abbrev MapServKeyByTypeID (τ α : Type) := τ → Option (Option α)

namespace MapServKeyByTypeID

def registService (m_mapServices : MapServKeyByTypeID τ α) (T : τ) (pSer : Option α) :
    MapServKeyByTypeID τ α :=
  match m_mapServices T with
  | none => Function.update m_mapServices T (some pSer)
  | some _ => m_mapServices

omit [DecidableEq τ] in
def getService (m_mapServices : MapServKeyByTypeID τ α) (T : τ) : Option α :=
  match m_mapServices T with
  | none => none
  | some pSer => pSer

end MapServKeyByTypeID

/-- A map from GUIDs to pointers, which may be null. -/
abbrev UnMapServKeyByGUID (α : Type) := String → Option (Option α)

namespace UnMapServKeyByGUID

variable (guid : τ → String)

def registService (m_unMapServices : UnMapServKeyByGUID α) (T : τ) (pSer : Option α) :
    UnMapServKeyByGUID α :=
  Function.update m_unMapServices (guid T) (some pSer)

def getService (m_unMapServices : UnMapServKeyByGUID α) (T : τ) : Option α :=
  match m_unMapServices (guid T) with
  | none => none
  | some pSer => pSer

end UnMapServKeyByGUID

/-- One instance of each policy, with the static indices of the second. -/
structure State (τ α : Type) where
  typeID : MapServKeyByTypeID τ α
  index : ServiceIndex.State τ Unit α
  guids : UnMapServKeyByGUID α

def init : State τ α where
  typeID _ := none
  index := ServiceIndex.init
  guids _ := none

variable (guid : τ → String)

/-- The same call on all three. -/
def step (s : State τ α) : Action τ Unit α → Option (State τ α)
  | .registService _ T pSer => some
      { typeID := s.typeID.registService T pSer
        index := ServiceIndex.registService s.index () T pSer
        guids := s.guids.registService guid T pSer }
  | .getService _ _ => some s
  | .clear _ => some
      { typeID := fun _ => none
        index := ServiceIndex.clear s.index ()
        guids := fun _ => none }

/-! ### What the history says -/

/-- What was registered under `T` since the last `clear`, in order. -/
def registrations (T : τ) (h : List (Action τ Unit α)) : List (Option α) :=
  ((sinceClear () h).filter (·.1 = T)).map Prod.snd

/-- What stands at the place a type's index points to, if that is in the vector. -/
def standing (h : List (Action τ Unit α)) (k : ℕ) : Option α :=
  if Word.toInt 32 k < 0 then none
  else (((sinceClear () h)[(Word.toInt 32 k).toNat]?).map Prod.snd).join

lemma registrations_registService (T U : τ) (h : List (Action τ Unit α)) (pSer : Option α) :
    registrations T (h ++ [.registService () U pSer]) =
      if U = T then registrations T h ++ [pSer] else registrations T h := by
  rw [registrations, sinceClear_snoc]
  by_cases hU : U = T
  · simp [record, hU, registrations, List.filter_append]
  · simp [record, hU, registrations, List.filter_append]

lemma registrations_getService (T U : τ) (h : List (Action τ Unit α)) :
    registrations T (h ++ [.getService () U]) = registrations T h := by
  rw [registrations, sinceClear_snoc]
  rfl

lemma registrations_clear (T : τ) (h : List (Action τ Unit α)) :
    registrations T (h ++ [.clear ()]) = [] := by
  rw [registrations, sinceClear_snoc]
  rfl

/-- A type registered since the last `clear` has its last registration at its own place. -/
lemma last_of_placed {T : τ} {h : List (Action τ Unit α)} {k : ℕ} (hk : PlacedAt T h k)
    {pSer : Option α} (hlast : (registrations T h).getLast? = some pSer) :
    (sinceClear () h)[k]? = some (T, pSer) := by
  induction h using List.reverseRecOn with
  | nil => simp [registrations, sinceClear] at hlast
  | append_singleton h a ih =>
    cases a with
    | registService i U q =>
      rw [registrations_registService] at hlast
      rw [sinceClear_snoc, record, if_pos rfl]
      rcases placedAt_snoc.mp hk with ⟨j, p, he, rfl⟩ | ⟨hk, hne⟩
      · obtain ⟨-, rfl, rfl⟩ := Action.registService.inj he
        rw [if_pos rfl, List.getLast?_concat, Option.some.injEq] at hlast
        rw [List.getElem?_concat_length, hlast]
      · have hUT : U ≠ T := fun he => hne i q (by rw [he])
        rw [if_neg hUT] at hlast
        have hget := ih hk hlast
        rw [List.getElem?_append_left (List.getElem?_eq_some_iff.mp hget).1]
        exact hget
    | getService i U =>
      rw [registrations_getService] at hlast
      rw [sinceClear_snoc]
      rcases placedAt_snoc.mp hk with ⟨j, p, he, -⟩ | ⟨hk, -⟩
      · cases he
      · exact ih hk hlast
    | clear i =>
      rw [registrations_clear] at hlast
      simp at hlast

/-- A registration since the last `clear` placed its type. -/
lemma placed_of_registered {T : τ} {h : List (Action τ Unit α)} (hT : registrations T h ≠ []) :
    ∃ k, PlacedAt T h k := by
  induction h using List.reverseRecOn with
  | nil => exact absurd rfl hT
  | append_singleton h a ih =>
    cases a with
    | registService i U q =>
      by_cases hU : U = T
      · subst hU
        exact ⟨_, PlacedAt.here⟩
      · rw [registrations_registService, if_neg hU] at hT
        obtain ⟨k, hk⟩ := ih hT
        refine ⟨k, hk.later fun j p he => hU (Action.registService.inj he).2.1⟩
    | getService i U =>
      rw [registrations_getService] at hT
      obtain ⟨k, hk⟩ := ih hT
      exact ⟨k, hk.later fun j p he => by cases he⟩
    | clear i => exact absurd (registrations_clear T h) hT

/-! ### The three states -/

variable {guid}

/-- After the actions `h` the map by type has the first registration of each type, the map by
GUID the last one. -/
structure Inv (guid : τ → String) (h : List (Action τ Unit α)) (s : State τ α) : Prop where
  typeID : ∀ T, s.typeID T = (registrations T h).head?
  index : ServiceIndex.Inv h s.index
  guids : ∀ T, s.guids (guid T) = (registrations T h).getLast?

lemma inv_init : Inv guid ([] : List (Action τ Unit α)) init :=
  ⟨fun _ => rfl, ServiceIndex.inv_init, fun _ => rfl⟩

lemma inv_step (hguid : Function.Injective guid) {h : List (Action τ Unit α)} {s t : State τ α}
    {a : Action τ Unit α} (hi : Inv guid h s) (hs : step guid s a = some t) :
    Inv guid (h ++ [a]) t := by
  cases a with
  | registService i T pSer =>
    obtain rfl := Option.some.inj hs
    refine ⟨fun U => ?_, ServiceIndex.inv_step hi.index rfl, fun U => ?_⟩
    · have hT := hi.typeID T
      rw [registrations_registService]
      by_cases hU : T = U
      · subst hU
        rw [if_pos rfl]
        simp only [MapServKeyByTypeID.registService]
        cases hr : registrations T h with
        | nil => simp [hT, hr]
        | cons p l => simp [hT, hr]
      · rw [if_neg hU, ← hi.typeID U]
        simp only [MapServKeyByTypeID.registService]
        cases s.typeID T with
        | none => exact Function.update_of_ne (Ne.symm hU) _ _
        | some p => rfl
    · rw [registrations_registService]
      by_cases hU : T = U
      · subst hU
        rw [if_pos rfl, List.getLast?_concat]
        exact Function.update_self _ _ _
      · rw [if_neg hU, ← hi.guids U]
        exact Function.update_of_ne (fun he => hU (hguid he).symm) _ _
  | getService i T =>
    obtain rfl := Option.some.inj hs
    refine ⟨fun U => ?_, ServiceIndex.inv_step hi.index rfl, fun U => ?_⟩
    · rw [registrations_getService, hi.typeID]
    · rw [registrations_getService, hi.guids]
  | clear i =>
    obtain rfl := Option.some.inj hs
    refine ⟨fun U => ?_, ServiceIndex.inv_step hi.index rfl, fun U => ?_⟩
    · rw [registrations_clear]
      rfl
    · rw [registrations_clear]
      rfl

/-! ### What the policies return -/

variable {h : List (Action τ Unit α)} {s : State τ α} {T : τ}

lemma typeID_getService (hi : Inv guid h s) :
    s.typeID.getService T = (registrations T h).head?.join := by
  rw [MapServKeyByTypeID.getService, hi.typeID]
  cases (registrations T h).head? <;> rfl

lemma guids_getService (hi : Inv guid h s) :
    s.guids.getService guid T = (registrations T h).getLast?.join := by
  rw [UnMapServKeyByGUID.getService, hi.guids]
  cases (registrations T h).getLast? <;> rfl

lemma index_getService {k : ℕ} (hi : Inv guid h s) (hk : PlacedAt T h k) :
    ServiceIndex.getService s.index () T = standing h k := by
  rw [ServiceIndex.getService, hi.index.placed T k hk, hi.index.vec, standing]
  simp only [List.getElem?_map, List.length_map]
  split_ifs with h1 h2 h2
  · rfl
  · have hout : (sinceClear () h).length ≤ (Word.toInt 32 k).toNat := by omega
    rw [List.getElem?_eq_none hout]
    rfl
  · omega
  · rfl

lemma index_getService_unplaced (hi : Inv guid h s) (hT : ∀ k, ¬ PlacedAt T h k) :
    ServiceIndex.getService s.index () T = none := by
  rw [ServiceIndex.getService, hi.index.unplaced T hT]
  rfl

/-- At a request, the three policies return the same. -/
def Agree (guid : τ → String) (s : State τ α) (a : Action τ Unit α) : Prop :=
  ∀ i T, a = .getService i T →
    s.typeID.getService T = ServiceIndex.getService s.index i T ∧
    ServiceIndex.getService s.index i T = s.guids.getService guid T

/-- The first and the last registration of the type asked for, since the last `clear`, are of
one object; and if there are none, or if the place of the last one ever does not fit an
`int32_t`, the last one stands at that place as the index has it (nothing if there are none). -/
def Settled (h : List (Action τ Unit α)) (a : Action τ Unit α) : Prop :=
  ∀ i T, a = .getService i T →
    (registrations T h).head?.join = (registrations T h).getLast?.join ∧
    ∀ k, PlacedAt T h k → registrations T h = [] ∨ 2 ^ 31 ≤ k →
      standing h k = (registrations T h).getLast?.join

/-- A type registered since the last `clear`, at a place that fits, is found there. -/
lemma standing_of_fits {k : ℕ} (hk : PlacedAt T h k) (hT : registrations T h ≠ [])
    (hfit : k < 2 ^ 31) : standing h k = (registrations T h).getLast?.join := by
  obtain ⟨pSer, hlast⟩ : ∃ pSer, (registrations T h).getLast? = some pSer :=
    ⟨_, List.getLast?_eq_some_getLast hT⟩
  have hint : Word.toInt 32 k = k := Word.toInt_natCast (by omega)
  rw [standing, hint, if_neg (by omega), Int.toNat_natCast, last_of_placed hk hlast, hlast]
  rfl

lemma agree_iff (hi : Inv guid h s) {a : Action τ Unit α} : Agree guid s a ↔ Settled h a := by
  constructor
  · intro hag i T ha
    obtain ⟨h1, h2⟩ := hag i T ha
    rw [guids_getService hi] at h2
    refine ⟨?_, fun k hk _ => ?_⟩
    · rw [← typeID_getService hi, h1, h2]
    · rw [← index_getService hi hk, h2]
  · intro hset i T ha
    obtain ⟨hends, hplace⟩ := hset i T ha
    have hindex : ServiceIndex.getService s.index i T = (registrations T h).getLast?.join := by
      by_cases hk : ∃ k, PlacedAt T h k
      · obtain ⟨k, hk⟩ := hk
        rw [index_getService hi hk]
        by_cases hfree : registrations T h = [] ∨ 2 ^ 31 ≤ k
        · exact hplace k hk hfree
        · rw [not_or, not_le] at hfree
          exact standing_of_fits hk hfree.1 hfree.2
      · have hnone : registrations T h = [] := by
          by_contra hne
          exact hk (placed_of_registered hne)
        rw [index_getService_unplaced hi fun k hp => hk ⟨k, hp⟩, hnone]
        rfl
    exact ⟨by rw [typeID_getService hi, hindex, hends], by rw [hindex, guids_getService hi]⟩

/-- **Interchangeable policies**: along a run the three return the same at every request exactly
when every type asked for was registered with one object since the last `clear`, and nothing
else stands where a type that was not, or whose place does not fit, is looked for. -/
theorem agree_run_iff (guid : τ → String) (hguid : Function.Injective guid)
    (as : List (Action τ Unit α)) :
    Always (step guid) (fun _ => Agree guid) init as ↔
      Always (step guid) (fun h _ => Settled h) init as :=
  always_congr (P := fun _ => Agree guid) (Q := fun h _ => Settled h) (I := Inv guid) inv_init
    (fun _ _ _ _ hi _ hs => inv_step hguid hi hs) (fun _ _ _ hi => agree_iff hi) as

/-- GUIDs of two types. -/
def twoGuids (T : Bool) : String := if T then "B" else "A"

lemma twoGuids_injective : Function.Injective twoGuids := by
  intro S T
  cases S <;> cases T <;> simp [twoGuids]

/-- A service that is registered again with another object. -/
def replaced : List (Action Bool Unit ℕ) :=
  [.registService () false (some 1), .registService () false (some 2), .getService () false]

theorem replaced_agree_run_iff :
    Always (step twoGuids) (fun _ => Agree twoGuids) init replaced ↔
      Always (step twoGuids) (fun h _ => Settled h) init replaced :=
  agree_run_iff twoGuids twoGuids_injective replaced

/-- The map by type still has the first object, the vector and the map by GUID the second. -/
theorem replaced_not_agree :
    ¬ Always (step twoGuids) (fun _ => Agree twoGuids) init replaced := by
  intro h
  have hs := h (replaced.take 2) (.getService () false) [] _ rfl rfl () false rfl
  exact absurd hs.1 (by decide)

end MmrService.ServicePolicies
