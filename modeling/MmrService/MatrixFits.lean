import MmrService.MatrixBlocks

/-!
The storage of a matrix and its shape, over any run of constructions, copies, moves and
resizes.

The capacity is at least what was asked for, which is the size in bytes modulo `2 ^ 32`, so the
storage is large enough exactly if nothing was cut. Nothing else keeps an operation from
succeeding but an `allocate` that finds the queue of its size emptied.
-/

namespace MmrService.Matrices

open Transition

variable {sizeofTy ulExpiredTime ulMaxCache : ℕ} {memory memory' : Memory} {m m' : Matrix}
  {s t : State}

variable (sizeofTy) in
/-- The elements fit the storage, each at a place of its own. -/
structure Matrix.Fits (memory : Memory) (m : Matrix) : Prop where
  enough : m.m_ulRowCount.toNat * m.m_ulColCount.toNat * sizeofTy ≤ m.storage memory
  inside : ∀ r c, m.InRange r c → ((m.flatIndex r c).toNat + 1) * sizeofTy ≤ m.storage memory
  distinct : ∀ r c r' c', m.InRange r c → m.InRange r' c' →
    m.flatIndex r c = m.flatIndex r' c' → r = r' ∧ c = c'

variable (sizeofTy) in
/-- The size in bytes and one block less a byte are together below `2 ^ 32`. -/
def Matrix.Small (m : Matrix) : Prop :=
  m.m_ulRowCount.toNat * m.m_ulColCount.toNat * sizeofTy + 1023 < 2 ^ 32

/-! ### Several matrices -/

variable (sizeofTy ulExpiredTime ulMaxCache) in
/-- Every matrix is backed by a block of its own that was asked for with its shape. -/
structure Inv (s : State) : Prop where
  good : s.memory.Good ulExpiredTime ulMaxCache
  backed : ∀ x m, s.objects x = some m → Backed s.memory m
  asked : ∀ x m, s.objects x = some m → Asked sizeofTy m
  unique : ∀ x y m m' p, s.objects x = some m → s.objects y = some m' →
    m.m_ptrBegin = some p → m'.m_ptrBegin = some p → x = y

lemma inv_init : Inv sizeofTy ulExpiredTime ulMaxCache (init ulExpiredTime ulMaxCache) :=
  ⟨Memory.good_init .., by simp [init], by simp [init], by simp [init]⟩

/-- Nobody else has the block of a matrix. -/
lemma Inv.own (h : Inv sizeofTy ulExpiredTime ulMaxCache s) {x : ℕ} (hx : s.objects x = some m) :
    ∀ y m₁ b, y ≠ x → s.objects y = some m₁ → m₁.m_ptrData = some b →
      m.m_ptrBegin ≠ some b.2 := by
  intro y m₁ b hyx hy hb hp
  have hp' : m₁.m_ptrBegin = some b.2 := by
    rw [(h.backed y m₁ hy).same, hb]
    rfl
  exact hyx (h.unique y x m₁ m b.2 hy hx hp' hp)

/-- One matrix is replaced, the blocks of the others stay in use. -/
lemma Inv.put (h : Inv sizeofTy ulExpiredTime ulMaxCache s) {x : ℕ}
    (hg : memory'.Good ulExpiredTime ulMaxCache) (hb : Backed memory' m') (ha : Asked sizeofTy m')
    (hothers : ∀ y m b, y ≠ x → s.objects y = some m → m.m_ptrData = some b →
      m'.m_ptrBegin ≠ some b.2 ∧ b ∈ memory'.allocator.held) :
    Inv sizeofTy ulExpiredTime ulMaxCache (put s x m' memory') := by
  have hobj : ∀ y m, (Matrices.put s x m' memory').objects y = some m →
      (y = x ∧ m = m') ∨ (y ≠ x ∧ s.objects y = some m) := by
    intro y m hy
    change Function.update s.objects x (some m') y = some m at hy
    by_cases hyx : y = x
    · rw [hyx, Function.update_self] at hy
      exact .inl ⟨hyx, (Option.some.inj hy).symm⟩
    · rw [Function.update_of_ne hyx] at hy
      exact .inr ⟨hyx, hy⟩
  -- the block of a matrix that is not replaced
  have hold : ∀ y m p, y ≠ x → s.objects y = some m → m.m_ptrBegin = some p →
      m'.m_ptrBegin ≠ some p := by
    intro y m p hyx hy hp
    rw [(h.backed y m hy).same] at hp
    obtain ⟨b, hdata, rfl⟩ := Option.map_eq_some_iff.mp hp
    exact (hothers y m b hyx hy hdata).1
  refine ⟨hg, fun y m hy => ?_, fun y m hy => ?_, fun y z m₁ m₂ p hy hz hp hp' => ?_⟩
  · rcases hobj y m hy with ⟨-, rfl⟩ | ⟨hne, hy⟩
    · exact hb
    · exact (h.backed y m hy).congr fun b hdata => (hothers y m b hne hy hdata).2
  · rcases hobj y m hy with ⟨-, rfl⟩ | ⟨-, hy⟩
    · exact ha
    · exact h.asked y m hy
  · rcases hobj y m₁ hy with ⟨hyx, rfl⟩ | ⟨hyne, hyold⟩
    · rcases hobj z m₂ hz with ⟨hzx, -⟩ | ⟨hzne, hzold⟩
      · rw [hyx, hzx]
      · exact absurd hp (hold z m₂ p hzne hzold hp')
    · rcases hobj z m₂ hz with ⟨-, rfl⟩ | ⟨-, hzold⟩
      · exact absurd hp' (hold y m₁ p hyne hyold hp)
      · exact h.unique y z m₁ m₂ p hyold hzold hp hp'

/-- The memory changes, the blocks in use do not. -/
lemma Inv.sameHeld (h : Inv sizeofTy ulExpiredTime ulMaxCache s)
    (hg : memory'.Good ulExpiredTime ulMaxCache)
    (hheld : memory'.allocator.held = s.memory.allocator.held) :
    Inv sizeofTy ulExpiredTime ulMaxCache ⟨s.objects, memory'⟩ :=
  ⟨hg, fun x m hx => (h.backed x m hx).congr fun b hb =>
    hheld ▸ ((h.backed x m hx).held b hb).1, h.asked, h.unique⟩

lemma Inv.sameSizes (h : Inv sizeofTy ulExpiredTime ulMaxCache s)
    (hsame : s.memory.SameSizes memory') :
    Inv sizeofTy ulExpiredTime ulMaxCache ⟨s.objects, memory'⟩ :=
  h.sameHeld (h.good.sameSizes hsame) (congrArg ChunkAlloc.State.held hsame.allocator)

/-- A matrix goes, and its block with it. -/
lemma Inv.drop (h : Inv sizeofTy ulExpiredTime ulMaxCache s) {x : ℕ} (hx : s.objects x = some m)
    {o : Outside} (hr : s.memory.release m.m_ptrData o = some memory') :
    Inv sizeofTy ulExpiredTime ulMaxCache ⟨Function.update s.objects x none, memory'⟩ := by
  obtain ⟨last, hlast, hgood, hkept⟩ :=
    h.good.release (fun b hb => ((h.backed x m hx).held b hb).1) o
  obtain rfl := Option.some.inj (hr.symm.trans hlast)
  have hobj : ∀ y m', Function.update s.objects x none y = some m' →
      y ≠ x ∧ s.objects y = some m' := by
    intro y m' hy
    by_cases hyx : y = x
    · rw [hyx, Function.update_self] at hy
      cases hy
    · rw [Function.update_of_ne hyx] at hy
      exact ⟨hyx, hy⟩
  refine ⟨hgood, fun y m' hy => ?_, fun y m' hy => h.asked y m' (hobj y m' hy).2,
    fun y z m₁ m₂ p hy hz => h.unique y z m₁ m₂ p (hobj y m₁ hy).2 (hobj z m₂ hz).2⟩
  obtain ⟨hyx, hy⟩ := hobj y m' hy
  refine (h.backed y m' hy).congr fun b hb => hkept b ((h.backed y m' hy).held b hb).1 fun heq => ?_
  refine h.own hx y m' b hyx hy hb ?_
  rw [(h.backed x m hx).same, heq]
  rfl

/-- A matrix is replaced by what `allocateMemory` has given a block. -/
lemma Inv.given (h : Inv sizeofTy ulExpiredTime ulMaxCache s) {x : ℕ}
    (hm : Given sizeofTy ulExpiredTime ulMaxCache s.memory memory' m m')
    (hown : ∀ y m₁ b, y ≠ x → s.objects y = some m₁ → m₁.m_ptrData = some b →
      m.m_ptrBegin ≠ some b.2) :
    Inv sizeofTy ulExpiredTime ulMaxCache (Matrices.put s x m' memory') :=
  h.put hm.good hm.backed hm.asked fun y m₁ b hyx hy hb =>
    hm.others b ((h.backed y m₁ hy).held b hb).1 (hown y m₁ b hyx hy hb)

/-- A matrix becomes empty; the block it had is not given back. -/
lemma Inv.empty (h : Inv sizeofTy ulExpiredTime ulMaxCache s) (x : ℕ) :
    Inv sizeofTy ulExpiredTime ulMaxCache (Matrices.put s x .empty s.memory) :=
  h.put h.good (.empty _) .empty fun y m₁ b _ hy hb =>
    ⟨by simp [Matrix.empty], ((h.backed y m₁ hy).held b hb).1⟩

/-- A matrix takes the block of another one. -/
lemma Inv.move (h : Inv sizeofTy ulExpiredTime ulMaxCache s) (x : ℕ) {rhs : ℕ}
    (hrhs : s.objects rhs = some m) :
    Inv sizeofTy ulExpiredTime ulMaxCache
      (Matrices.put (Matrices.put s rhs .empty s.memory) x m s.memory) := by
  refine (h.empty rhs).put h.good (h.backed rhs m hrhs) (h.asked rhs m hrhs) ?_
  intro y m₁ b _ hy hb
  change Function.update s.objects rhs (some .empty) y = some m₁ at hy
  by_cases hyr : y = rhs
  · rw [hyr, Function.update_self] at hy
    obtain rfl := Option.some.inj hy
    cases hb
  · rw [Function.update_of_ne hyr] at hy
    exact ⟨h.own hrhs y m₁ b hyr hy hb, ((h.backed y m₁ hy).held b hb).1⟩

/-! ### The shape and the storage -/

/-- The indices of a shape whose elements are fewer than `2 ^ 32` are not cut. -/
lemma flatIndex_toNat (hlt : m.m_ulRowCount.toNat * m.m_ulColCount.toNat < 2 ^ 32) {r c : UInt32}
    (h : m.InRange r c) : (m.flatIndex r c).toNat = r.toNat * m.m_ulColCount.toNat + c.toNat ∧
      r.toNat * m.m_ulColCount.toNat + c.toNat < m.m_ulRowCount.toNat * m.m_ulColCount.toNat := by
  have hr := UInt32.lt_iff_toNat_lt.mp h.1
  have hc := UInt32.lt_iff_toNat_lt.mp h.2
  have hrow := Nat.mul_le_mul_right m.m_ulColCount.toNat (Nat.succ_le_of_lt hr)
  rw [Nat.succ_mul] at hrow
  refine ⟨?_, by omega⟩
  rw [Matrix.flatIndex, UInt32.toNat_add, UInt32.toNat_mul, Nat.mod_add_mod,
    Nat.mod_eq_of_lt (by omega)]

/-- The elements fit exactly if the size in bytes, filled up to the next block, is not cut. -/
lemma fits_iff_of_backed (hsize : 0 < sizeofTy) (hg : memory.Good ulExpiredTime ulMaxCache)
    (hb : Backed memory m) (ha : Asked sizeofTy m) :
    m.Fits sizeofTy memory ↔ m.Small sizeofTy := by
  unfold Matrix.Small
  obtain ⟨n, hn⟩ : ∃ n, m.m_ulRowCount.toNat * m.m_ulColCount.toNat = n := ⟨_, rfl⟩
  have hcap := hb.storage hg
  have hlt : m.m_ulCapacity.toNat < 2 ^ 32 := m.m_ulCapacity.toNat_lt
  constructor
  · intro hfits
    have henough := hfits.enough
    obtain ⟨k, hk⟩ := hb.rounded
    omega
  · intro hsmall
    rw [hn] at hsmall
    have hle : n ≤ n * sizeofTy := Nat.le_mul_of_pos_right n hsize
    have hbytes : (m.byteSize sizeofTy).toNat = n * sizeofTy := by
      rw [Matrix.byteSize, UInt32.toNat_ofNat', UInt32.toNat_mul, hn,
        Nat.mod_eq_of_lt (show n < 2 ^ 32 by omega), Nat.mod_eq_of_lt (by omega)]
    have henough : n * sizeofTy ≤ m.storage memory := by
      rcases ha with hle | hge
      · rw [UInt32.le_iff_toNat_le, hbytes] at hle
        omega
      · omega
    have hindex := fun {r c : UInt32} (h : m.InRange r c) => flatIndex_toNat (by omega) h
    refine ⟨by rw [hn]; exact henough, fun r c h => ?_, fun r c r' c' h h' heq => ?_⟩
    · obtain ⟨heq, hltn⟩ := hindex h
      rw [heq]
      exact (Nat.mul_le_mul_right sizeofTy (by omega)).trans henough
    · have hnat := congrArg UInt32.toNat heq
      rw [(hindex h).1, (hindex h').1] at hnat
      -- the column is the remainder and the row the quotient
      have hc := UInt32.lt_iff_toNat_lt.mp h.2
      have hc' := UInt32.lt_iff_toNat_lt.mp h'.2
      have hcol : c.toNat = c'.toNat := by
        have hmod := congrArg (· % m.m_ulColCount.toNat) hnat
        simp only [Nat.mul_add_mod_self_right] at hmod
        rwa [Nat.mod_eq_of_lt hc, Nat.mod_eq_of_lt hc'] at hmod
      have hrow : r.toNat = r'.toNat := by
        rw [hcol] at hnat
        exact Nat.eq_of_mul_eq_mul_right (by omega) (Nat.add_right_cancel hnat)
      exact ⟨UInt32.toNat_inj.mp hrow, UInt32.toNat_inj.mp hcol⟩

/-! ### What an operation asks for -/

/-- A matrix of a new shape is to be given a block and put under a name; the elements of another
one may be copied. -/
structure Request where
  x : ℕ
  matrix : Matrix
  source : Option Matrix
  outside : Outside

/-- The request of an operation that calls `allocateMemory`. -/
def request (s : State) : Op → Option Request
  | .constructSized x nRow nCol o =>
    match s.objects x with
    | some _ => none
    | none => some ⟨x, Matrix.empty.reshaped nRow nCol, none, o⟩
  | .copyConstruct x rhs o =>
    match s.objects x, s.objects rhs with
    | none, some r => some ⟨x, Matrix.empty.reshaped r.m_ulRowCount r.m_ulColCount, some r, o⟩
    | _, _ => none
  | .copyAssign x rhs o =>
    match s.objects x, s.objects rhs with
    | some m, some r =>
      if x = rhs then none else some ⟨x, m.reshaped r.m_ulRowCount r.m_ulColCount, some r, o⟩
    | _, _ => none
  | .resize x nRow nCol o => (s.objects x).map fun m => ⟨x, m.reshaped nRow nCol, none, o⟩
  | _ => none

variable (sizeofTy) in
def serve (s : State) (r : Request) : Option State :=
  (allocateMemory sizeofTy s.memory r.matrix r.outside).bind fun q =>
    (r.source.elim (some q.1) fun rhs =>
      memcpy q.1 q.2.m_ptrBegin rhs.m_ptrBegin (q.2.copySize sizeofTy)).map (put s r.x q.2)

lemma step_of_request {op : Op} {r : Request} (hr : request s op = some r) :
    step sizeofTy s op = serve sizeofTy s r := by
  have hcopy : ∀ x m rhs o, (copyElements sizeofTy s.memory m rhs o).map
      (fun r => put s x r.2 r.1) = serve sizeofTy s
        ⟨x, m.reshaped rhs.m_ulRowCount rhs.m_ulColCount, some rhs, o⟩ := by
    intro x m rhs o
    unfold copyElements serve
    simp only [Option.bind_eq_bind, Option.elim_some]
    cases allocateMemory sizeofTy s.memory (m.reshaped rhs.m_ulRowCount rhs.m_ulColCount) o with
    | none => rfl
    | some q =>
      simp only [Option.bind_some]
      cases memcpy q.1 q.2.m_ptrBegin rhs.m_ptrBegin (q.2.copySize sizeofTy) <;> rfl
  have hshape : ∀ x m nRow nCol o, (reshape sizeofTy s.memory m nRow nCol o).map
      (fun r => put s x r.2 r.1) = serve sizeofTy s ⟨x, m.reshaped nRow nCol, none, o⟩ := by
    intro x m nRow nCol o
    unfold reshape serve
    cases allocateMemory sizeofTy s.memory (m.reshaped nRow nCol) o <;> rfl
  cases op with
  | constructSized x nRow nCol o =>
    simp only [request] at hr
    split at hr
    · cases hr
    · next hx =>
      obtain rfl := Option.some.inj hr
      simp only [step, hx]
      exact hshape x .empty nRow nCol o
  | copyConstruct x rhs o =>
    simp only [request] at hr
    split at hr
    · next r hx hrhs =>
      obtain rfl := Option.some.inj hr
      simp only [step, hx, hrhs]
      exact hcopy x .empty r o
    · cases hr
  | copyAssign x rhs o =>
    simp only [request] at hr
    split at hr
    · next m r hx hrhs =>
      split_ifs at hr with heq
      obtain rfl := Option.some.inj hr
      simp only [step, hx, hrhs, if_neg heq]
      exact hcopy x m r o
    · cases hr
  | resize x nRow nCol o =>
    obtain ⟨m, hx, rfl⟩ := Option.map_eq_some_iff.mp hr
    simp only [step, hx]
    exact hshape x m nRow nCol o
  | _ => cases hr

/-- The matrix of a request: its block is its own, and what is copied has its shape. -/
structure Request.Proper (s : State) (r : Request) : Prop where
  backed : Backed s.memory r.matrix
  own : ∀ y m₁ b, y ≠ r.x → s.objects y = some m₁ → m₁.m_ptrData = some b →
    r.matrix.m_ptrBegin ≠ some b.2
  source : ∀ rhs, r.source = some rhs → (∃ y ≠ r.x, s.objects y = some rhs) ∧
    rhs.m_ulRowCount = r.matrix.m_ulRowCount ∧ rhs.m_ulColCount = r.matrix.m_ulColCount

lemma Inv.proper (h : Inv sizeofTy ulExpiredTime ulMaxCache s) {op : Op} {r : Request}
    (hr : request s op = some r) : r.Proper s := by
  have hempty : Backed s.memory .empty := .empty _
  cases op with
  | constructSized x nRow nCol o =>
    simp only [request] at hr
    split at hr
    · cases hr
    · obtain rfl := Option.some.inj hr
      exact ⟨hempty.reshaped _ _, by simp [Matrix.reshaped, Matrix.empty], by simp⟩
  | copyConstruct x rhs o =>
    simp only [request] at hr
    split at hr
    · next r hx hrhs =>
      obtain rfl := Option.some.inj hr
      refine ⟨hempty.reshaped _ _, by simp [Matrix.reshaped, Matrix.empty], ?_⟩
      rintro _ ⟨⟩
      refine ⟨⟨rhs, ?_, hrhs⟩, rfl, rfl⟩
      rintro rfl
      rw [hx] at hrhs
      cases hrhs
    · cases hr
  | copyAssign x rhs o =>
    simp only [request] at hr
    split at hr
    · next m r hx hrhs =>
      split_ifs at hr with heq
      obtain rfl := Option.some.inj hr
      refine ⟨(h.backed x m hx).reshaped _ _, fun y m₁ b => h.own hx y m₁ b, ?_⟩
      rintro _ ⟨⟩
      exact ⟨⟨rhs, Ne.symm heq, hrhs⟩, rfl, rfl⟩
    · cases hr
  | resize x nRow nCol o =>
    obtain ⟨m, hx, rfl⟩ := Option.map_eq_some_iff.mp hr
    exact ⟨(h.backed x m hx).reshaped _ _, fun y m₁ b => h.own hx y m₁ b, by simp⟩
  | _ => cases hr

lemma small_congr (hrows : m'.m_ulRowCount = m.m_ulRowCount)
    (hcols : m'.m_ulColCount = m.m_ulColCount) : m'.Small sizeofTy ↔ m.Small sizeofTy := by
  rw [Matrix.Small, Matrix.Small, hrows, hcols]

/-- What is served: the block was not of a drained size, and the matrix has its shape. -/
lemma Inv.served (h : Inv sizeofTy ulExpiredTime ulMaxCache s) {r : Request} (hp : r.Proper s)
    (hs : serve sizeofTy s r = some t) :
    Undrained sizeofTy ulExpiredTime ulMaxCache s.memory r.matrix ∧
      ∃ m', t.objects = Function.update s.objects r.x (some m') ∧
        (m'.Small sizeofTy ↔ r.matrix.Small sizeofTy) := by
  obtain ⟨⟨memory', m'⟩, halloc, hs⟩ := Option.bind_eq_some_iff.mp hs
  obtain ⟨last, -, rfl⟩ := Option.map_eq_some_iff.mp hs
  have hgiven := allocateMemory_given h.good hp.backed halloc
  exact ⟨undrained_of_allocateMemory h.good (Option.isSome_of_eq_some halloc), m', rfl,
    small_congr hgiven.rows hgiven.cols⟩

/-- What is small and not of a drained size is served. -/
lemma Inv.serve_isSome (hsize : 0 < sizeofTy) (h : Inv sizeofTy ulExpiredTime ulMaxCache s)
    {r : Request} (hp : r.Proper s) (hsmall : r.matrix.Small sizeofTy)
    (hd : Undrained sizeofTy ulExpiredTime ulMaxCache s.memory r.matrix)
    (hout : r.outside.p ∉ ChunkAlloc.owned s.memory.allocator) :
    (serve sizeofTy s r).isSome := by
  obtain ⟨⟨memory', m'⟩, halloc⟩ :=
    Option.isSome_iff_exists.mp (allocateMemory_isSome h.good hp.backed hout hd)
  have hgiven := allocateMemory_given h.good hp.backed halloc
  rw [serve, halloc, Option.bind_some, Option.isSome_map]
  cases hsource : r.source with
  | none => rfl
  | some rhs =>
    obtain ⟨⟨y, hyx, hy⟩, hrows, hcols⟩ := hp.source rhs hsource
    have hback : Backed memory' rhs := (h.backed y rhs hy).congr fun b hb =>
      (hgiven.others b ((h.backed y rhs hy).held b hb).1 (hp.own y rhs b hyx hy hb)).2
    -- both matrices fit their storage
    have hdst := ((fits_iff_of_backed hsize hgiven.good hgiven.backed hgiven.asked).mpr
      ((small_congr hgiven.rows hgiven.cols).mpr hsmall)).enough
    have hsrc := ((fits_iff_of_backed hsize hgiven.good hback (h.asked y rhs hy)).mpr
      ((small_congr hrows hcols).mpr hsmall)).enough
    rw [hgiven.rows, hgiven.cols] at hdst
    rw [hrows, hcols] at hsrc
    refine memcpy_isSome ?_ ?_ <;> rw [Matrix.copySize, hgiven.rows, hgiven.cols, Nat.mul_assoc,
      Nat.mul_comm]
    · exact (Nat.mod_le _ _).trans hdst
    · exact (Nat.mod_le _ _).trans hsrc

/-! ### Operations without a request -/

/-- The names are those of matrices that are there, and of none that is to be constructed. -/
def Named (s : State) : Op → Prop
  | .construct x | .constructSized x _ _ _ => s.objects x = none
  | .copyConstruct x rhs _ | .moveConstruct x rhs =>
    s.objects x = none ∧ (s.objects rhs).isSome
  | .copyAssign x rhs _ | .moveAssign x rhs _ => (s.objects x).isSome ∧ (s.objects rhs).isSome
  | .resize x _ _ _ | .destroy x _ => (s.objects x).isSome
  | .onTimer _ _ => True
  | .setValue .. | .assign .. | .zero _ => False

lemma Inv.named_isSome (h : Inv sizeofTy ulExpiredTime ulMaxCache s) {op : Op} (hn : Named s op)
    (hr : request s op = none) : (Matrices.step sizeofTy s op).isSome := by
  have hrelease : ∀ x m (o : Outside), s.objects x = some m →
      ∃ memory', s.memory.release m.m_ptrData o = some memory' := by
    intro x m o hx
    obtain ⟨memory', hmem, -⟩ := h.good.release (fun b hb => ((h.backed x m hx).held b hb).1) o
    exact ⟨memory', hmem⟩
  cases op with
  | construct x =>
    have hx : s.objects x = none := hn
    simp [Matrices.step, hx]
  | constructSized x nRow nCol o =>
    have hx : s.objects x = none := hn
    simp [request, hx] at hr
  | copyConstruct x rhs o =>
    obtain ⟨hx, hrhs⟩ := hn
    obtain ⟨r, hrhs⟩ := Option.isSome_iff_exists.mp hrhs
    simp [request, hx, hrhs] at hr
  | moveConstruct x rhs =>
    obtain ⟨hx, hrhs⟩ := hn
    obtain ⟨r, hrhs⟩ := Option.isSome_iff_exists.mp hrhs
    simp [Matrices.step, hx, hrhs]
  | copyAssign x rhs o =>
    obtain ⟨hx, hrhs⟩ := hn
    obtain ⟨m, hx⟩ := Option.isSome_iff_exists.mp hx
    obtain ⟨r, hrhs⟩ := Option.isSome_iff_exists.mp hrhs
    have heq : x = rhs := by simpa [request, hx, hrhs] using hr
    simp [Matrices.step, hrhs, heq]
  | moveAssign x rhs o =>
    obtain ⟨hx, hrhs⟩ := hn
    obtain ⟨m, hx⟩ := Option.isSome_iff_exists.mp hx
    obtain ⟨r, hrhs⟩ := Option.isSome_iff_exists.mp hrhs
    obtain ⟨memory', hmem⟩ := hrelease x m o hx
    by_cases heq : x = rhs
    · simp [Matrices.step, hrhs, heq]
    · simp [Matrices.step, hx, hrhs, heq, hmem]
  | resize x nRow nCol o =>
    obtain ⟨m, hx⟩ := Option.isSome_iff_exists.mp hn
    simp [request, hx] at hr
  | destroy x o =>
    obtain ⟨m, hx⟩ := Option.isSome_iff_exists.mp hn
    obtain ⟨memory', hmem⟩ := hrelease x m o hx
    simp [Matrices.step, hx, hmem]
  | onTimer framTime timeNow =>
    simp only [Matrices.step, Memory.act, ChunkAlloc.step]
    split_ifs <;> rfl
  | setValue _ _ _ _ | assign _ _ _ _ | zero _ => exact hn.elim

/-- What an operation without a request does. -/
inductive Quiet (s : State) : State → Prop
  | empty (x : ℕ) : Quiet s (put s x .empty s.memory)
  | move (x : ℕ) {rhs : ℕ} {r : Matrix} (hrhs : s.objects rhs = some r) :
      Quiet s (put (put s rhs .empty s.memory) x r s.memory)
  /-- The block of the target goes first. -/
  | replace {x rhs : ℕ} {m r : Matrix} {o : Outside} {memory' : Memory} (hne : x ≠ rhs)
      (hx : s.objects x = some m) (hrhs : s.objects rhs = some r)
      (hr : s.memory.release m.m_ptrData o = some memory') :
      Quiet s (put (put s rhs .empty memory') x r memory')
  | stay : Quiet s s
  | write {memory' : Memory} (hsame : s.memory.SameSizes memory') : Quiet s ⟨s.objects, memory'⟩
  | drop {x : ℕ} {m : Matrix} {o : Outside} {memory' : Memory} (hx : s.objects x = some m)
      (hr : s.memory.release m.m_ptrData o = some memory') :
      Quiet s ⟨Function.update s.objects x none, memory'⟩
  | fire {framTime : ℤ} {timeNow : ChunkAlloc.TimeType} {memory' : Memory}
      (hact : s.memory.act (.onTimer framTime timeNow) = some memory') :
      Quiet s ⟨s.objects, memory'⟩

lemma quiet_of_step {op : Op} (hr : request s op = none) (hs : step sizeofTy s op = some t) :
    Quiet s t := by
  cases op with
  | construct x =>
    simp only [step] at hs
    split at hs
    · cases hs
    · obtain rfl := Option.some.inj hs
      exact .empty x
  | constructSized x nRow nCol o =>
    simp only [request, step] at hr hs
    split at hr
    · next hx => simp [hx] at hs
    · cases hr
  | copyConstruct x rhs o =>
    simp only [request, step] at hr hs
    split at hs
    · next hx hrhs => simp [hx, hrhs] at hr
    · cases hs
  | moveConstruct x rhs =>
    simp only [step] at hs
    split at hs
    · next r _ hrhs =>
      obtain rfl := Option.some.inj hs
      exact .move x hrhs
    · cases hs
  | copyAssign x rhs o =>
    simp only [request, step] at hr hs
    split at hs
    · next hx hrhs =>
      split_ifs at hs with heq
      · obtain rfl := Option.some.inj hs
        exact .stay
      · simp [hx, hrhs, heq] at hr
    · cases hs
  | moveAssign x rhs o =>
    simp only [step] at hs
    split at hs
    · next m r hx hrhs =>
      split_ifs at hs with heq
      · obtain rfl := Option.some.inj hs
        exact .stay
      · obtain ⟨memory', hmem, rfl⟩ := Option.map_eq_some_iff.mp hs
        exact .replace heq hx hrhs hmem
    · cases hs
  | resize x nRow nCol o =>
    simp only [request, step] at hr hs
    rw [Option.map_eq_none_iff.mp hr] at hs
    cases hs
  | setValue x r c value =>
    simp only [step] at hs
    split at hs
    · cases hs
    · split_ifs at hs with hv
      obtain ⟨res, hres, rfl⟩ := Option.map_eq_some_iff.mp hs
      unfold Matrix.setValue at hres
      split_ifs at hres
      · obtain rfl := Option.some.inj hres
        exact .stay
      · obtain ⟨memory', hstore, rfl⟩ := Option.map_eq_some_iff.mp hres
        exact .write (store_sameSizes hv hstore)
  | assign x r c value =>
    simp only [step] at hs
    split at hs
    · cases hs
    · split_ifs at hs with hv
      obtain ⟨memory', hstore, rfl⟩ := Option.map_eq_some_iff.mp hs
      exact .write (store_sameSizes hv.1 hstore)
  | zero x =>
    simp only [step] at hs
    split at hs
    · cases hs
    · obtain ⟨memory', hover, rfl⟩ := Option.map_eq_some_iff.mp hs
      exact .write (overwrite_sameSizes hover)
  | destroy x o =>
    simp only [step] at hs
    split at hs
    · cases hs
    · next m hx =>
      obtain ⟨memory', hmem, rfl⟩ := Option.map_eq_some_iff.mp hs
      exact .drop hx hmem
  | onTimer framTime timeNow =>
    obtain ⟨memory', hact, rfl⟩ := Option.map_eq_some_iff.mp hs
    exact .fire hact

lemma Inv.quiet (h : Inv sizeofTy ulExpiredTime ulMaxCache s) (hq : Quiet s t) :
    Inv sizeofTy ulExpiredTime ulMaxCache t := by
  cases hq with
  | empty x => exact h.empty x
  | move x hrhs => exact h.move x hrhs
  | @replace x _ _ _ _ _ hne hx hrhs hr =>
    have hmove := (h.drop hx hr).move x ((Function.update_of_ne (Ne.symm hne) _ _).trans hrhs)
    simp only [Matrices.put] at hmove ⊢
    rw [Function.update_comm hne, Function.update_idem] at hmove
    exact hmove
  | stay => exact h
  | write hsame => exact h.sameSizes hsame
  | drop hx hr => exact h.drop hx hr
  | fire hact =>
    have hgood := h.good.act (by simp) hact
    obtain ⟨u, hu, rfl⟩ := Option.map_eq_some_iff.mp hact
    refine h.sameHeld hgood ?_
    cases ChunkAlloc.step_cases 10 hu with
    | fires | early => rfl

lemma objects_put {x y : ℕ} (hy : (put s x m' memory').objects y = some m) :
    m = m' ∨ s.objects y = some m := by
  change Function.update s.objects x (some m') y = some m at hy
  by_cases hyx : y = x
  · rw [hyx, Function.update_self] at hy
    exact .inl (Option.some.inj hy).symm
  · rw [Function.update_of_ne hyx] at hy
    exact .inr hy

/-- An operation without a request gives no matrix a new shape. -/
lemma Quiet.objects (hq : Quiet s t) {y : ℕ} (hy : t.objects y = some m) :
    m = .empty ∨ ∃ z, s.objects z = some m := by
  have hmove : ∀ x rhs r (memory' : Memory), s.objects rhs = some r →
      (put (put s rhs .empty memory') x r memory').objects y = some m →
      m = .empty ∨ ∃ z, s.objects z = some m := by
    intro x rhs r memory' hrhs hy
    rcases objects_put hy with rfl | hy
    · exact .inr ⟨rhs, hrhs⟩
    · exact (objects_put hy).imp_right fun hy => ⟨y, hy⟩
  cases hq with
  | empty x => exact (objects_put hy).imp_right fun hy => ⟨y, hy⟩
  | move x hrhs => exact hmove x _ _ _ hrhs hy
  | replace _ _ hrhs _ => exact hmove _ _ _ _ hrhs hy
  | @drop x _ _ _ _ _ =>
    change Function.update s.objects x none y = some m at hy
    by_cases hyx : y = x
    · rw [hyx, Function.update_self] at hy
      cases hy
    · rw [Function.update_of_ne hyx] at hy
      exact .inr ⟨y, hy⟩
  | stay | write _ | fire _ => exact .inr ⟨y, hy⟩

/-- What is served is backed. -/
lemma Inv.serve (h : Inv sizeofTy ulExpiredTime ulMaxCache s) {r : Request} (hp : r.Proper s)
    (hs : serve sizeofTy s r = some t) : Inv sizeofTy ulExpiredTime ulMaxCache t := by
  obtain ⟨⟨memory₁, m'⟩, halloc, hs⟩ := Option.bind_eq_some_iff.mp hs
  obtain ⟨memory', hcopy, rfl⟩ := Option.map_eq_some_iff.mp hs
  have hgiven := h.given (allocateMemory_given h.good hp.backed halloc) hp.own
  cases hsource : r.source with
  | none =>
    rw [hsource] at hcopy
    obtain rfl := Option.some.inj hcopy
    exact hgiven
  | some rhs =>
    rw [hsource] at hcopy
    exact hgiven.sameSizes (memcpy_sameSizes hcopy)

/-- **Every operation keeps every matrix backed.** -/
lemma Inv.step (h : Inv sizeofTy ulExpiredTime ulMaxCache s) {op : Op}
    (hs : step sizeofTy s op = some t) : Inv sizeofTy ulExpiredTime ulMaxCache t := by
  cases hreq : request s op with
  | none => exact h.quiet (quiet_of_step hreq hs)
  | some r =>
    rw [step_of_request hreq] at hs
    exact h.serve (h.proper hreq) hs

/-! ### Runs -/

variable (sizeofTy) in
/-- The operation can be called: it has a result, or it is one on matrices that are there, and
`new` finds a block at an address that nobody has. -/
def Callable (s : State) (op : Op) : Prop :=
  (step sizeofTy s op).isSome ∨
    Named s op ∧ ∀ r ∈ request s op, r.outside.p ∉ ChunkAlloc.owned s.memory.allocator

variable (sizeofTy) in
/-- An operation that is called has a result, and leaves every matrix in a storage that it
fits. -/
def Sound (s : State) (op : Op) : Prop :=
  Callable sizeofTy s op → ∃ t, step sizeofTy s op = some t ∧
    ∀ x m, t.objects x = some m → m.Fits sizeofTy t.memory

variable (sizeofTy ulExpiredTime ulMaxCache) in
/-- The shape that an operation asks for is small, and a block for it is not of a drained
size. -/
def Modest (s : State) (op : Op) : Prop :=
  Callable sizeofTy s op → ∀ r ∈ request s op, r.matrix.Small sizeofTy ∧
    Undrained sizeofTy ulExpiredTime ulMaxCache s.memory r.matrix

lemma Inv.fits_iff_small (hsize : 0 < sizeofTy) (h : Inv sizeofTy ulExpiredTime ulMaxCache s)
    {x : ℕ} (hx : s.objects x = some m) : m.Fits sizeofTy s.memory ↔ m.Small sizeofTy :=
  fits_iff_of_backed hsize h.good (h.backed x m hx) (h.asked x m hx)

/-- Where the matrices are small, so are those after an operation if its request is. -/
lemma small_step (h : Inv sizeofTy ulExpiredTime ulMaxCache s)
    (hsmall : ∀ x m, s.objects x = some m → m.Small sizeofTy) {op : Op}
    (hs : step sizeofTy s op = some t) (hr : ∀ r ∈ request s op, r.matrix.Small sizeofTy)
    {y : ℕ} (hy : t.objects y = some m) : m.Small sizeofTy := by
  cases hreq : request s op with
  | none =>
    rcases (quiet_of_step hreq hs).objects hy with rfl | ⟨z, hz⟩
    · simp [Matrix.Small, Matrix.empty]
    · exact hsmall z m hz
  | some r =>
    rw [step_of_request hreq] at hs
    obtain ⟨-, m', hobj, hiff⟩ := h.served (h.proper hreq) hs
    rw [hobj] at hy
    by_cases hyx : y = r.x
    · rw [hyx, Function.update_self] at hy
      obtain rfl := Option.some.inj hy
      exact hiff.mpr (hr r hreq)
    · rw [Function.update_of_ne hyx] at hy
      exact hsmall y m hy

/-- At one operation, on matrices that are small. -/
lemma sound_iff (hsize : 0 < sizeofTy) (h : Inv sizeofTy ulExpiredTime ulMaxCache s)
    (hsmall : ∀ x m, s.objects x = some m → m.Small sizeofTy) (op : Op) :
    Sound sizeofTy s op ↔ Modest sizeofTy ulExpiredTime ulMaxCache s op := by
  constructor
  · intro hsound hcall r hr
    obtain ⟨t, ht, hfits⟩ := hsound hcall
    have hserve := ht
    rw [step_of_request hr] at hserve
    obtain ⟨hd, m', hobj, hiff⟩ := h.served (h.proper hr) hserve
    have hm' : t.objects r.x = some m' := by rw [hobj, Function.update_self]
    exact ⟨hiff.mp (((h.step ht).fits_iff_small hsize hm').mp (hfits r.x m' hm')), hd⟩
  · intro hmodest hcall
    have hsome : (step sizeofTy s op).isSome := by
      rcases hcall with hsome | ⟨hnamed, hout⟩
      · exact hsome
      · cases hreq : request s op with
        | none => exact h.named_isSome hnamed hreq
        | some r =>
          obtain ⟨hrsmall, hd⟩ := hmodest (.inr ⟨hnamed, hout⟩) r hreq
          rw [step_of_request hreq]
          exact h.serve_isSome hsize (h.proper hreq) hrsmall hd (hout r hreq)
    obtain ⟨t, ht⟩ := Option.isSome_iff_exists.mp hsome
    refine ⟨t, ht, fun x m hx => ((h.step ht).fits_iff_small hsize hx).mpr ?_⟩
    exact small_step h hsmall ht (fun r hr => (hmodest hcall r hr).1) hx

lemma inv_run {ops : List Op}
    (hs : exec (step sizeofTy) (init ulExpiredTime ulMaxCache) ops = some s) :
    Inv sizeofTy ulExpiredTime ulMaxCache s :=
  inv_of_always (P := fun _ _ _ => True) (I := fun _ s => Inv sizeofTy ulExpiredTime ulMaxCache s)
    inv_init (fun _ _ _ _ h _ hs => h.step hs) (fun _ _ _ _ _ _ => trivial) hs

/-- **Every matrix fits its storage after every operation** exactly if along the run every shape
asked for has a size in bytes that with one block less a byte is below `2 ^ 32`, and no block
is asked for whose size is drained. -/
theorem fits_iff (hsize : 0 < sizeofTy) (ulExpiredTime ulMaxCache : ℕ) (ops : List Op) :
    Always (step sizeofTy) (fun _ => Sound sizeofTy) (init ulExpiredTime ulMaxCache) ops ↔
      Always (step sizeofTy) (fun _ => Modest sizeofTy ulExpiredTime ulMaxCache)
        (init ulExpiredTime ulMaxCache) ops := by
  refine always_congr (I := fun _ s => Inv sizeofTy ulExpiredTime ulMaxCache s ∧
    ∀ x m, s.objects x = some m → m.Small sizeofTy) ⟨inv_init, by simp [init]⟩ ?_
    (fun _ s op hi => sound_iff hsize hi.1 hi.2 op) ops
  intro _ s op t hi hsound ht
  refine ⟨hi.1.step ht, fun x m hx => ((hi.1.step ht).fits_iff_small hsize hx).mp ?_⟩
  obtain ⟨u, hu, hfits⟩ := hsound (.inl (Option.isSome_of_eq_some ht))
  obtain rfl := Option.some.inj (ht.symm.trans hu)
  exact hfits x m hx

variable (sizeofTy) in
/-- Evaluate the condition at an operation. -/
def isModest (s : State) (op : Op) : Bool :=
  (request s op).all fun r =>
    decide (r.matrix.m_ulRowCount.toNat * r.matrix.m_ulColCount.toNat * sizeofTy + 1023 < 2 ^ 32) &&
      (decide (¬ r.matrix.m_ulCapacity < r.matrix.byteSize sizeofTy) ||
        decide (s.memory.allocator.alloc.memBuffer.find
          (ChunkAlloc.allocSize 10 (r.matrix.byteSize sizeofTy).toNat 1) ≠ some []))

lemma Inv.modest_of_isModest (h : Inv sizeofTy ulExpiredTime ulMaxCache s) {op : Op}
    (hop : isModest sizeofTy s op = true) : Modest sizeofTy ulExpiredTime ulMaxCache s op := by
  intro _ r hr
  rw [isModest, Option.mem_def.mp hr] at hop
  simp only [Option.all_some, Bool.and_eq_true, Bool.or_eq_true, decide_eq_true_eq] at hop
  refine ⟨hop.1, fun hlt hd => ?_⟩
  rw [Memory.Drained, ← h.good.steps.drained] at hd
  exact hop.2.elim (fun hle => hle hlt) fun hne => hne hd

/-- A matrix of two rows and five columns of four bytes, its copy, the copy resized, and moved to
the first. -/
def smallRun : List Op :=
  [.constructSized 0 2 5 ⟨1, fun _ => 0, 0, 0⟩, .copyConstruct 1 0 ⟨2, fun _ => 0, 0, 0⟩,
    .resize 1 200 2 ⟨3, fun _ => 0, 0, 0⟩, .moveAssign 0 1 ⟨4, fun _ => 0, 0, 0⟩]

theorem fits_smallRun : (exec (step 4) (init 60 64) smallRun).isSome ∧
    Always (step 4) (fun _ => Sound 4) (init 60 64) smallRun := by
  refine ⟨by decide +kernel, (fits_iff (by decide) 60 64 smallRun).mpr ?_⟩
  refine always_of_inv (P := fun _ s op => isModest 4 s op = true) (I := fun _ => Inv 4 60 64)
    inv_init (fun _ _ _ _ hi _ hs => hi.step hs) (fun _ _ _ hi hop => hi.modest_of_isModest hop) ?_
  exact always_of_check (fun _ _ h => h) (by decide +kernel)

/-- `2 ^ 16` rows and columns of one byte: no block is asked for. -/
def wrapped : Op := .constructSized 0 65536 65536 ⟨1, fun _ => 0, 0, 0⟩

theorem wrapped_unfit : ¬ Always (step 1) (fun _ => Sound 1) (init 60 64) [wrapped] := by
  have hends : (step 1 (init 60 64) wrapped).bind (fun s => (s.objects 0).map fun m =>
      (m.m_ulRowCount, m.m_ulColCount, m.storage s.memory)) = some (65536, 65536, 0) := by
    decide +kernel
  obtain ⟨s, hs, he⟩ := Option.bind_eq_some_iff.mp hends
  obtain ⟨m, hm, hshape⟩ := Option.map_eq_some_iff.mp he
  obtain ⟨hrow, hshape⟩ := Prod.mk.inj hshape
  obtain ⟨hcol, hstorage⟩ := Prod.mk.inj hshape
  intro h
  obtain ⟨t, ht, hfits⟩ := h [] wrapped [] _ rfl rfl (.inl (Option.isSome_of_eq_some hs))
  obtain rfl := Option.some.inj (hs.symm.trans ht)
  have henough := (hfits 0 m hm).enough
  rw [hrow, hcol, hstorage] at henough
  exact absurd henough (by decide)

/-- The block of the first matrix comes back when that is resized, and goes to the second one. -/
def reuse : List Op :=
  [.constructSized 0 10 10 ⟨1, fun _ => 0, 0, 0⟩, .resize 0 200 2 ⟨2, fun _ => 0, 0, 0⟩,
    .constructSized 1 10 10 ⟨3, fun _ => 0, 0, 0⟩]

/-- The third matrix of that size: no block is left in the queue. -/
def takesThird : Op := .constructSized 2 10 10 ⟨4, fun _ => 0, 0, 0⟩

theorem reuse_takes_from_empty :
    ¬ Always (step 4) (fun _ => Sound 4) (init 60 64) (reuse ++ [takesThird]) := by
  have hends : (exec (step 4) (init 60 64) reuse).map (fun s =>
      ((s.objects 2).isNone, decide (4 ∈ ChunkAlloc.owned s.memory.allocator),
        (step 4 s takesThird).isNone)) = some (true, false, true) := by
    decide +kernel
  obtain ⟨s, hs, he⟩ := Option.map_eq_some_iff.mp hends
  obtain ⟨hnone, he⟩ := Prod.mk.inj he
  obtain ⟨hout, hstep⟩ := Prod.mk.inj he
  have hx : s.objects 2 = none := Option.isNone_iff_eq_none.mp hnone
  have hcall : Callable 4 s takesThird := by
    refine .inr ⟨hx, fun r hr => ?_⟩
    simp only [request, takesThird, hx, Option.mem_def, Option.some.injEq] at hr
    rw [← hr]
    exact of_decide_eq_false hout
  intro h
  obtain ⟨t, ht, -⟩ := h reuse takesThird [] s rfl hs hcall
  rw [ht] at hstep
  cases hstep

end MmrService.Matrices
