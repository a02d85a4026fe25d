import MmrService.Lib.Tickets
import MmrService.RpcCalls

/-!
The sequence numbers of the calls of a process.

All clients of a process draw them from one counter of 32 bits. The number of the messages the
server pushes is never drawn, and the calls that are underway have entries of their own in
`m_calls`, in just those runs in which no process makes `2 ^ 32` calls.
-/

namespace MmrService.ProtoRpc

open BufConvert ProtoCodec ProtoServer Transition Tickets

variable {π : Protobuf} {κ γ ρ : Type}

/-- The number of the messages that a server pushes. -/
def SEQUE_NUM_MSG_PUSH : ℕ := 0

/-- The context of a call has been put into `m_calls` and not been erased. -/
def Pc.entered {μ : Type} : Pc μ → Bool
  | .inserted | .waiting | .woken _ => true
  | _ => false

/-- The calls with the processes they were made in and their numbers. -/
def State.numbers (D : Deployment π κ γ ρ) (s : State π κ γ ρ) : List (ℕ × ρ × ℕ) :=
  s.calls.entries.map fun e => (e.1, D.process e.2.client, e.2.ulSequeNum)

/-- Each call that has put its context into `m_calls` finds it there. -/
def Entered (s : State π κ γ ρ) : Prop :=
  ∀ i a, s.calls.find i = some a → a.pc.entered = true →
    (s.clients a.client).m_calls.find a.ulSequeNum = some i

/-- No request has the number of a push, no two calls of a process that are underway share a
number, and each finds its own context in `m_calls`. -/
structure Numbered (D : Deployment π κ γ ρ) (s : State π κ γ ρ) : Prop where
  not_push : ∀ i a, s.calls.find i = some a → a.ulSequeNum ≠ SEQUE_NUM_MSG_PUSH
  unique : ∀ i j a b, s.calls.find i = some a → s.calls.find j = some b →
    D.process a.client = D.process b.client → a.ulSequeNum = b.ulSequeNum →
    a.pc.running = true → b.pc.running = true → i = j
  entered : Entered s

variable [DecidableEq ρ]

/-- A call that draws a number is not the `2 ^ 32`-th of its process. -/
def InRange (D : Deployment π κ γ ρ) (s : State π κ γ ρ) : Action π κ γ → Prop
  | .call c i req => (s.clients c).m_connState = .kConnected → s.calls.find i = none →
    (codingToBuf (D.machine c) (Request.protoMsg ⟨s.nextId (D.process c), req⟩)).isSome →
    drawn (s.numbers D) (D.process c) + 1 < 2 ^ 32
  | _ => True

/-- The numbers are drawn from the counters. -/
def Counted (D : Deployment π κ γ ρ) (s : State π κ γ ρ) : Prop :=
  Drawn 32 s.s_id (s.numbers D)

variable {D : Deployment π κ γ ρ} {s t : State π κ γ ρ} {i : ℕ} {a b : Call π γ}

/-! ### The numbers after a step -/

omit [DecidableEq ρ] in
lemma mem_numbers {e : ℕ × ρ × ℕ} : e ∈ s.numbers D ↔
    ∃ a, s.calls.find e.1 = some a ∧ D.process a.client = e.2.1 ∧ a.ulSequeNum = e.2.2 := by
  obtain ⟨i, p, n⟩ := e
  simp only [State.numbers, List.mem_map, Prod.mk.injEq]
  constructor
  · rintro ⟨⟨j, a⟩, hm, rfl, rfl, rfl⟩
    exact ⟨a, SortedMap.mem_entries.mp hm, rfl, rfl⟩
  · rintro ⟨a, ha, rfl, rfl⟩
    exact ⟨(i, a), SortedMap.mem_entries.mpr ha, rfl, rfl, rfl⟩

omit [DecidableEq ρ] in
/-- A call goes on under its number. -/
lemma numbers_setCall (ha : s.calls.find i = some a) (hc : b.client = a.client)
    (hn : b.ulSequeNum = a.ulSequeNum) : ((s.setCall i b).numbers D).Perm (s.numbers D) := by
  have hnew := (SortedMap.alter_perm s.calls i fun _ => b).map
    fun e => (e.1, D.process e.2.client, e.2.ulSequeNum)
  have hold := (SortedMap.perm_cons_erase ha).map
    fun e => (e.1, D.process e.2.client, e.2.ulSequeNum)
  rw [List.map_cons] at hnew hold
  rw [hc, hn] at hnew
  exact hnew.trans hold.symm

omit [DecidableEq ρ] in
/-- A new call. -/
lemma numbers_setCall_new (ha : s.calls.find i = none) : ((s.setCall i b).numbers D).Perm
    ((i, D.process b.client, b.ulSequeNum) :: s.numbers D) := by
  have hnew := (SortedMap.alter_perm s.calls i fun _ => b).map
    fun e => (e.1, D.process e.2.client, e.2.ulSequeNum)
  rw [List.map_cons, SortedMap.erase_of_find_none ha] at hnew
  exact hnew

lemma counted_init (D : Deployment π κ γ ρ) : Counted D (init π κ γ ρ) := Drawn.nil 32

lemma Counted.setCall (h : Counted D s) (ha : s.calls.find i = some a)
    (hc : b.client = a.client) (hn : b.ulSequeNum = a.ulSequeNum) :
    Counted D (s.setCall i b) :=
  Drawn.perm h (numbers_setCall ha hc hn)

/-- What a call draws. -/
lemma State.call_some {c : γ} {req : π.Message} (h : s.call D c i req = some t) :
    (t = s ∧ (s.clients c).m_connState ≠ .kConnected) ∨
      (s.clients c).m_connState = .kConnected ∧ s.calls.find i = none ∧
      (codingToBuf (D.machine c) (Request.protoMsg ⟨s.nextId (D.process c), req⟩)).isSome ∧
      ∃ bufSend, t =
        { s with s_id := Function.update s.s_id (D.process c) (s.nextId (D.process c)) }.setCall i
          ⟨c, s.nextId (D.process c), bufSend, req, none, none, .coded⟩ := by
  unfold State.call at h
  simp only at h
  split_ifs at h with hstate hfind
  · exact .inl ⟨(Option.some.inj h).symm, hstate⟩
  · obtain ⟨r, hr, rfl⟩ := Option.map_eq_some_iff.mp h
    rw [Option.not_isSome_iff_eq_none] at hfind
    exact .inr ⟨not_not.mp hstate, hfind, by rw [hr]; rfl, r.2.2, rfl⟩

/-! ### One step -/

/-- Without zero the numbers of a process differ. -/
lemma Counted.distinct (h : Counted D s)
    (hz : ∀ i a, s.calls.find i = some a → a.ulSequeNum ≠ SEQUE_NUM_MSG_PUSH) {j : ℕ}
    (ha : s.calls.find i = some a) (hb : s.calls.find j = some b)
    (hp : D.process a.client = D.process b.client) (hn : a.ulSequeNum = b.ulSequeNum) : i = j := by
  have hlt := Drawn.nonzero_iff h |>.mp fun e he => by
    obtain ⟨x, hx, -, hxn⟩ := mem_numbers.mp he
    rw [← hxn]
    exact hz e.1 x hx
  have hmem : ∀ {k x}, s.calls.find k = some x →
      (k, D.process x.client, x.ulSequeNum) ∈ s.numbers D := fun hx =>
    mem_numbers.mpr ⟨_, hx, rfl, rfl⟩
  exact congrArg Prod.fst (Drawn.distinct h _ (hlt _) _ (hmem ha) _ (hmem hb) rfl hp.symm hn)

omit [DecidableEq ρ] in
lemma Entered.setCall (h : Entered s) (ha : s.calls.find i = some a)
    (hc : b.client = a.client) (hn : b.ulSequeNum = a.ulSequeNum)
    (he : b.pc.entered = true → a.pc.entered = true) : Entered (s.setCall i b) := by
  intro j x hx hxe
  rw [State.find_setCall] at hx
  rw [State.setCall_clients]
  split_ifs at hx with hj
  · obtain rfl := Option.some.inj hx
    rw [hc, hn, hj]
    exact h i a ha (he hxe)
  · exact h j x hx hxe

variable [DecidableEq γ]

omit [DecidableEq ρ] in
lemma Entered.setClient (h : Entered s) {c : γ} {x : CProtoRpcClient}
    (hx : x.m_calls = (s.clients c).m_calls) : Entered (s.setClient c x) := by
  intro j y hy hye
  rw [State.setClient_clients]
  split_ifs with hc
  · rw [hx, ← hc]
    exact h j y hy hye
  · exact h j y hy hye

/-- A step that draws no number keeps the numbers, and the entries if they differ. -/
lemma step_kept {x : Action π κ γ} (h : Counted D s) (hs : step D s x = some t)
    (hx : ∀ c i req, x ≠ .call c i req) : t.s_id = s.s_id ∧ (t.numbers D).Perm (s.numbers D) ∧
      (Numbered D s → Entered t) := by
  cases x with
  | call c i req => exact absurd rfl (hx c i req)
  | connected c =>
    rw [step, State.connected] at hs
    split_ifs at hs
    obtain rfl := Option.some.inj hs
    exact ⟨rfl, .refl _, fun hn => hn.entered.setClient rfl⟩
  | disconnected c =>
    obtain rfl := Option.some.inj hs
    exact ⟨rfl, .refl _, fun hn => hn.entered.setClient rfl⟩
  | insert i =>
    obtain ⟨a, ha, hpc, rfl⟩ := State.insert_some hs
    refine ⟨rfl, numbers_setCall ha rfl rfl, fun hn j y hy hye => ?_⟩
    rw [State.setClient_calls, State.find_setCall] at hy
    rw [State.setClient_clients, State.setCall_clients]
    split_ifs at hy with hj
    · obtain rfl := Option.some.inj hy
      rw [if_pos rfl, SortedMap.find_insert, if_pos rfl, hj]
    · split_ifs with hc
      · have hne : y.ulSequeNum ≠ a.ulSequeNum := fun he =>
          hj (h.distinct hn.not_push hy ha (by rw [hc]) he)
        rw [SortedMap.find_insert, if_neg hne, ← hc]
        exact hn.entered j y hy hye
      · exact hn.entered j y hy hye
  | write i =>
    obtain ⟨a, ha, hpc, rfl | rfl⟩ := State.write_some hs
    · exact ⟨rfl, numbers_setCall ha rfl rfl,
        fun hn => hn.entered.setCall ha rfl rfl fun _ => by rw [hpc]; rfl⟩
    · exact ⟨rfl, numbers_setCall ha rfl rfl,
        fun hn => hn.entered.setCall ha rfl rfl fun _ => by rw [hpc]; rfl⟩
  | wake i =>
    obtain ⟨a, ha, hpc, rfl⟩ := State.wake_some hs
    exact ⟨rfl, numbers_setCall ha rfl rfl,
      fun hn => hn.entered.setCall ha rfl rfl fun _ => by rw [hpc]; rfl⟩
  | finish i =>
    obtain ⟨a, res, ha, hpc, rfl⟩ := State.finish_some hs
    refine ⟨rfl, numbers_setCall ha rfl rfl, fun hn j y hy hye => ?_⟩
    rw [State.find_setCall, State.setClient_calls] at hy
    rw [State.setCall_clients, State.setClient_clients]
    split_ifs at hy with hj
    · obtain rfl := Option.some.inj hy
      cases hye
    · split_ifs with hc
      · have hne : y.ulSequeNum ≠ a.ulSequeNum := fun he =>
          hj (h.distinct hn.not_push hy ha (by rw [hc]) he)
        rw [SortedMap.find_erase, if_neg hne, ← hc]
        exact hn.entered j y hy hye
      · exact hn.entered j y hy hye
  | serverRead c k onMessage =>
    obtain ⟨buf, up, v, session, -, -, -, rfl⟩ := State.serverRead_some hs
    exact ⟨rfl, .refl _, fun hn => hn.entered⟩
  | clientRead c =>
    rw [step, State.clientRead] at hs
    simp only at hs
    split at hs
    · cases hs
    · split_ifs at hs
      rcases State.onDealResponse_some hs with rfl | ⟨y, -, i, a, -, ha, rfl⟩
      · exact ⟨rfl, .refl _, fun hn => hn.entered⟩
      · exact ⟨rfl, numbers_setCall ha rfl rfl, fun hn =>
          Entered.setCall (s := State.setConn s _ _) hn.entered ha rfl rfl id⟩

omit [DecidableEq γ] in
/-- A call that draws a number. -/
lemma call_drawn {c : γ} {req : π.Message} (h : Counted D s) (hn : s.calls.find i = none)
    (bufSend : List UInt8) :
    Counted D ({ s with s_id := Function.update s.s_id (D.process c) (s.nextId (D.process c))
        }.setCall i ⟨c, s.nextId (D.process c), bufSend, req, none, none, .coded⟩) :=
  (h.draw i (D.process c)).perm (numbers_setCall_new (D := D) (s := { s with
    s_id := Function.update s.s_id (D.process c) (s.nextId (D.process c)) }) hn)

lemma Counted.step {x : Action π κ γ} (h : Counted D s) (hs : step D s x = some t) :
    Counted D t := by
  by_cases hx : ∃ c i req, x = .call c i req
  · obtain ⟨c, i, req, rfl⟩ := hx
    obtain ⟨rfl, -⟩ | ⟨-, hnone, -, bufSend, rfl⟩ := State.call_some hs
    · exact h
    · exact call_drawn h hnone bufSend
  · obtain ⟨hid, hperm, -⟩ := step_kept h hs fun c i req he => hx ⟨c, i, req, he⟩
    unfold Counted
    rw [hid]
    exact Drawn.perm h hperm

omit [DecidableEq γ] in
/-- No number is that of a push exactly as long as no process has drawn `2 ^ 32`. -/
lemma Counted.not_push_iff (h : Counted D s) :
    (∀ i a, s.calls.find i = some a → a.ulSequeNum ≠ SEQUE_NUM_MSG_PUSH) ↔
      ∀ p, drawn (s.numbers D) p < 2 ^ 32 := by
  rw [← Drawn.nonzero_iff h]
  constructor
  · intro hz e he
    obtain ⟨x, hx, -, hxn⟩ := mem_numbers.mp he
    rw [← hxn]
    exact hz e.1 x hx
  · intro hz i a ha
    exact hz (i, D.process a.client, a.ulSequeNum) (mem_numbers.mpr ⟨a, ha, rfl, rfl⟩)

/-- **One step** from a state with good numbers leads to one exactly if no process draws its
`2 ^ 32`-th number in it. -/
lemma numbered_step {x : Action π κ γ} (h : Counted D s) (hn : Numbered D s)
    (hs : step D s x = some t) : Numbered D t ↔ InRange D s x := by
  have ht := h.step hs
  have hlt := h.not_push_iff.mp hn.not_push
  have hnumbered : (∀ p, drawn (t.numbers D) p < 2 ^ 32) → Entered t → Numbered D t :=
    fun hz he => ⟨ht.not_push_iff.mpr hz, fun i j a b ha hb hp hnum _ _ =>
      ht.distinct (ht.not_push_iff.mpr hz) ha hb hp hnum, he⟩
  by_cases hx : ∃ c i req, x = .call c i req
  · obtain ⟨c, i, req, rfl⟩ := hx
    obtain ⟨rfl, hstate⟩ | ⟨hstate, hnone, hcode, bufSend, rfl⟩ := State.call_some hs
    · exact iff_of_true hn fun hc => absurd hc hstate
    · have hdrawn : ∀ p, drawn (State.numbers D
          ({ s with s_id := Function.update s.s_id (D.process c) (s.nextId (D.process c))
            }.setCall i ⟨c, s.nextId (D.process c), bufSend, req, none, none, .coded⟩)) p =
          drawn (s.numbers D) p + if D.process c = p then 1 else 0 := fun p =>
        (drawn_perm (numbers_setCall_new (D := D) (s := { s with
          s_id := Function.update s.s_id (D.process c) (s.nextId (D.process c)) }) hnone) p).trans
          (drawn_cons ..)
      constructor
      · intro hnum _ _ _
        have hp := ht.not_push_iff.mp hnum.not_push (D.process c)
        rw [hdrawn, if_pos rfl] at hp
        exact hp
      · intro hr
        refine hnumbered (fun p => ?_) ?_
        · rw [hdrawn]
          split_ifs with hp
          · exact hp ▸ hr hstate hnone hcode
          · exact hlt p
        · intro j y hy hye
          rw [State.find_setCall] at hy
          split_ifs at hy with hj
          · obtain rfl := Option.some.inj hy
            cases hye
          · exact hn.entered j y hy hye
  · obtain ⟨-, hperm, he⟩ := step_kept h hs fun c i req he => hx ⟨c, i, req, he⟩
    refine iff_of_true (hnumbered (fun p => ?_) (he hn)) ?_
    · rw [drawn_perm hperm]
      exact hlt p
    · cases x with
      | call c i req => exact absurd ⟨c, i, req, rfl⟩ hx
      | _ => trivial

omit [DecidableEq ρ] [DecidableEq γ] in
lemma numbered_init (D : Deployment π κ γ ρ) : Numbered D (init π κ γ ρ) where
  not_push i a h := by cases h
  unique i j a b h := by cases h
  entered i a h := by cases h

/-- **Every run** of the clients keeps the numbers of requests off that of a push, and those of
the calls underway apart, exactly if no process makes `2 ^ 32` calls. -/
theorem numbered_iff (D : Deployment π κ γ ρ) (as : List (Action π κ γ)) :
    Throughout (step D) (Numbered D) (init π κ γ ρ) as ↔
      Always (step D) (fun _ => InRange D) (init π κ γ ρ) as := by
  refine throughout_iff (J := Counted D) (counted_init D) (numbered_init D)
    (fun _ _ _ h hs => h.step hs) (fun _ _ _ h hn hs => numbered_step h hn hs) ?_ as
  intro s x hs
  cases x with
  | call c i req =>
    intro hstate hnone hcode
    rw [step, State.call, if_neg (not_not.mpr hstate), if_neg (by rw [hnone]; exact nofun)] at hs
    rw [Option.map_eq_none_iff.mp hs] at hcode
    cases hcode
  | _ => trivial

/-! ### A process that makes `2 ^ 32` calls -/

/-- A client that is connected, before or in its call `k`; the last number drawn is `n`. -/
structure Ready (k n : ℕ) (pc : Option (ℕ × Bool × Pc sampleProtobuf.Message))
    (s : State sampleProtobuf (List UInt8) Unit Unit) : Prop where
  last : s.s_id () = n
  connected : (s.clients ()).m_connState = .kConnected
  opened : (s.clients ()).opened = true
  here : (s.calls.find k).map (fun a => (a.ulSequeNum, a.connection.isSome, a.pc)) = pc
  later : ∀ i, k < i → s.calls.find i = none

lemma sampleRequest_coded (m : Machine) (n : ℕ) :
    (codingToBuf m (Request.protoMsg (π := sampleProtobuf) ⟨n, sampleRequest⟩)).isSome := by
  have henc : Encodable (π := sampleProtobuf) sampleRequest [8, 1] :=
    ⟨by decide, by decide, by decide⟩
  rw [codingToBuf_eq rfl henc m]
  rfl

section Ready

variable {k n : ℕ} {s : State sampleProtobuf (List UInt8) Unit Unit}

lemma Ready.call (h : Ready k n none s) : ∃ t,
    step (sampleDeployment linux64) s (.call () k sampleRequest) = some t ∧
      Ready k (Word.add 32 n 1) (some (Word.add 32 n 1, false, .coded)) t := by
  have hnone : s.calls.find k = none := Option.map_eq_none_iff.mp h.here
  obtain ⟨r, hr⟩ := Option.isSome_iff_exists.mp (sampleRequest_coded linux64 (s.nextId ()))
  have hnext : s.nextId () = Word.add 32 n 1 := by rw [State.nextId, h.last]
  rw [step, State.call, if_neg (not_not.mpr h.connected), if_neg (by rw [hnone]; exact nofun)]
  refine ⟨_, Option.map_eq_some_iff.mpr ⟨r, hr, rfl⟩, hnext, h.connected, h.opened, ?_,
    fun i hi => ?_⟩
  · rw [State.find_setCall, if_pos rfl, ← hnext]
    rfl
  · rw [State.find_setCall, if_neg hi.ne']
    exact h.later i hi

variable {m : ℕ} {x : Bool} {pc : Pc sampleProtobuf.Message}

lemma Ready.find (h : Ready k n (some (m, x, pc)) s) : ∃ a, s.calls.find k = some a ∧
    a.ulSequeNum = m ∧ a.connection.isSome = x ∧ a.pc = pc := by
  obtain ⟨a, ha, he⟩ := Option.map_eq_some_iff.mp h.here
  simp only [Prod.mk.injEq] at he
  exact ⟨a, ha, he⟩

/-- The call goes on. -/
lemma Ready.setCall {o : Option (ℕ × Bool × Pc sampleProtobuf.Message)} (h : Ready k n o s)
    (a : Call sampleProtobuf Unit) :
    Ready k n (some (a.ulSequeNum, a.connection.isSome, a.pc)) (s.setCall k a) := by
  refine ⟨h.last, h.connected, h.opened, ?_, fun i hi => ?_⟩
  · rw [State.find_setCall, if_pos rfl]
    rfl
  · rw [State.find_setCall, if_neg hi.ne']
    exact h.later i hi

lemma Ready.setClient {o : Option (ℕ × Bool × Pc sampleProtobuf.Message)} (h : Ready k n o s)
    (y : SortedMap ℕ ℕ) : Ready k n o (s.setClient () { s.clients () with m_calls := y }) :=
  ⟨h.last, h.connected, h.opened, h.here, h.later⟩

lemma Ready.setConn {o : Option (ℕ × Bool × Pc sampleProtobuf.Message)} (h : Ready k n o s)
    (key : Unit × ℕ) (y : Connection sampleProtobuf (List UInt8)) :
    Ready k n o (s.setConn key y) :=
  ⟨h.last, h.connected, h.opened, h.here, h.later⟩

lemma Ready.insert (h : Ready k n (some (m, x, .coded)) s) : ∃ t,
    step (sampleDeployment linux64) s (.insert k) = some t ∧
      Ready k n (some (m, x, .inserted)) t := by
  obtain ⟨a, ha, rfl, rfl, hpc⟩ := h.find
  refine ⟨_, ?_, (h.setCall { a with pc := .inserted }).setClient
    ((s.clients ()).m_calls.insert a.ulSequeNum k)⟩
  rw [step, State.insert, ha]
  simp only [Option.bind_eq_bind, Option.bind_some, hpc]
  rfl

lemma Ready.write (h : Ready k n (some (m, x, .inserted)) s) : ∃ t,
    step (sampleDeployment linux64) s (.write k) = some t ∧
      Ready k n (some (m, true, .waiting)) t := by
  obtain ⟨a, ha, rfl, rfl, hpc⟩ := h.find
  refine ⟨_, ?_, (h.setCall
    { a with connection := some (s.clients ()).connection, pc := .waiting }).setConn (s.current ())
      { s.conns (s.current ()) with up := (s.conns (s.current ())).up ++ [a.bufSend] }⟩
  rw [step, State.write, ha]
  simp only [Option.bind_eq_bind, Option.bind_some, hpc]
  rw [if_pos h.opened]
  rfl

lemma Ready.wake (h : Ready k n (some (m, x, .waiting)) s) : ∃ t res,
    step (sampleDeployment linux64) s (.wake k) = some t ∧
      Ready k n (some (m, x, .woken res)) t := by
  obtain ⟨a, ha, rfl, rfl, hpc⟩ := h.find
  refine ⟨_, a.responsePtr, ?_, h.setCall { a with pc := .woken a.responsePtr }⟩
  rw [step, State.wake, ha]
  simp only [Option.bind_eq_bind, Option.bind_some, hpc]
  rfl

lemma Ready.finish {res : Option sampleProtobuf.Message}
    (h : Ready k n (some (m, x, .woken res)) s) : ∃ t,
    step (sampleDeployment linux64) s (.finish k) = some t ∧ Ready (k + 1) n none t := by
  obtain ⟨a, ha, rfl, rfl, hpc⟩ := h.find
  obtain ⟨last, connected, opened, here, later⟩ := (h.setClient
    ((s.clients ()).m_calls.erase a.ulSequeNum)).setCall { a with pc := .returned res }
  refine ⟨_, ?_, (⟨last, connected, opened, ?_, fun i hi => later i (by omega)⟩ :
    Ready (k + 1) n none (State.setCall _ k { a with pc := .returned res }))⟩
  · rw [step, State.finish, ha]
    simp only [Option.bind_eq_bind, Option.bind_some, hpc]
    rfl
  · rw [later (k + 1) (Nat.lt_succ_self k)]
    rfl

/-- A call that is never answered. -/
lemma Ready.round (h : Ready k n none s) : ∃ as t,
    exec (step (sampleDeployment linux64)) s as = some t ∧
      Ready (k + 1) (Word.add 32 n 1) none t := by
  obtain ⟨s₁, h₁, hr₁⟩ := h.call
  obtain ⟨s₂, h₂, hr₂⟩ := hr₁.insert
  obtain ⟨s₃, h₃, hr₃⟩ := hr₂.write
  obtain ⟨s₄, res, h₄, hr₄⟩ := hr₃.wake
  obtain ⟨s₅, h₅, hr₅⟩ := hr₄.finish
  refine ⟨[.call () k sampleRequest, .insert k, .write k, .wake k, .finish k], s₅, ?_, hr₅⟩
  simp only [exec_cons, h₁, h₂, h₃, h₄, h₅, Option.bind_some, exec_nil]

lemma ready_after (k : ℕ) (hk : k < 2 ^ 32) : ∃ as t, sampleRun linux64 as = some t ∧
    Ready k k none t := by
  induction k with
  | zero => exact ⟨[.connected ()], _, rfl, rfl, rfl, rfl, rfl, fun _ _ => rfl⟩
  | succ k ih =>
    obtain ⟨as, t, ht, hr⟩ := ih (by omega)
    obtain ⟨bs, u, hu, hr'⟩ := hr.round
    rw [Word.add_of_lt hk] at hr'
    refine ⟨as ++ bs, u, ?_, hr'⟩
    rw [sampleRun, exec_append, show exec _ _ as = some t from ht]
    exact hu

end Ready

/-- The `2 ^ 32`-th call of a process is sent under the number of a push. -/
theorem push_number_sent : ∃ as t i call, sampleRun linux64 as = some t ∧
    t.calls.find i = some call ∧ call.connection.isSome ∧ call.pc.running = true ∧
    call.ulSequeNum = SEQUE_NUM_MSG_PUSH := by
  obtain ⟨as, t, ht, hr⟩ := ready_after (2 ^ 32 - 1) (by norm_num)
  obtain ⟨s₁, h₁, hr₁⟩ := hr.call
  obtain ⟨s₂, h₂, hr₂⟩ := hr₁.insert
  obtain ⟨s₃, h₃, hr₃⟩ := hr₂.write
  obtain ⟨a, ha, hn, hc, hpc⟩ := hr₃.find
  refine ⟨as ++ [.call () (2 ^ 32 - 1) sampleRequest, .insert (2 ^ 32 - 1),
    .write (2 ^ 32 - 1)], s₃, 2 ^ 32 - 1, a, ?_, ha, hc, by rw [hpc]; rfl, ?_⟩
  · rw [sampleRun, exec_append, show exec _ _ as = some t from ht]
    simp only [exec_cons, h₁, h₂, h₃, Option.bind_some, exec_nil]
  · rw [hn]
    rfl

end MmrService.ProtoRpc
