import MmrService.ProtoRpc

/-!
What a call returns.

A call and the frames about it are tied by the sequence number alone. While a frame with the
number of a call that has not returned is on the client's connection, it is that call's request
or the answer to it.
-/

namespace MmrService.ProtoRpc

open BufConvert ProtoCodec ProtoServer Transition

variable {π : Protobuf} {κ γ ρ : Type}

/-! ### Updates of the state -/

namespace State

variable (s : State π κ γ ρ)

lemma find_setCall (i j : ℕ) (a : Call π γ) :
    (s.setCall i a).calls.find j = if j = i then some a else s.calls.find j :=
  SortedMap.find_insert ..

@[simp] lemma setCall_clients (i : ℕ) (a : Call π γ) : (s.setCall i a).clients = s.clients := rfl

variable [DecidableEq γ]

@[simp] lemma setClient_calls (c : γ) (x : CProtoRpcClient) : (s.setClient c x).calls = s.calls :=
  rfl

@[simp] lemma setClient_conns (c : γ) (x : CProtoRpcClient) : (s.setClient c x).conns = s.conns :=
  rfl

lemma setClient_clients (c c' : γ) (x : CProtoRpcClient) :
    (s.setClient c x).clients c' = if c' = c then x else s.clients c' :=
  Function.update_apply ..

@[simp] lemma setConn_current (k : γ × ℕ) (x : Connection π κ) (c : γ) :
    (s.setConn k x).current c = s.current c := rfl

lemma setConn_conns (k k' : γ × ℕ) (x : Connection π κ) :
    (s.setConn k x).conns k' = if k' = k then x else s.conns k' :=
  Function.update_apply ..

end State

/-! ### The invariant -/

/-- The message a call has or returns. -/
def Call.Result (call : Call π γ) (message : π.Message) : Prop :=
  call.responsePtr = some message ∨ call.pc = .woken (some message) ∨
    call.pc = .returned (some message)

/-- A build takes the buffer for nothing, or for a number and a message that `P` relates to any
call of the client under that number that has not returned. -/
def Meant (m : Machine) (s : State π κ γ ρ) (c : γ) (P : Call π γ → π.Message → Prop)
    (buf : List UInt8) : Prop :=
  ∀ x ∈ accepted m π buf, ∀ i call, s.calls.find i = some call → call.client = c →
    call.ulSequeNum = x.1 → call.pc.running = true → P call x.2

/-- The request of the call, written to the connection in use. -/
def Asked (s : State π κ γ ρ) (call : Call π γ) (message : π.Message) : Prop :=
  call.requestPtr = message ∧ call.connection = some (s.clients call.client).connection

structure Inv (D : Deployment π κ γ ρ) (s : State π κ γ ρ) : Prop where
  quiet : ∀ c k, (s.clients c).connection < k →
    (s.conns (c, k)).up = [] ∧ (s.conns (c, k)).session.sent = []
  readsBack : ∀ i call, s.calls.find i = some call →
    ∀ x ∈ accepted D.server.machine π call.bufSend, x = (call.ulSequeNum, call.requestPtr)
  unwritten : ∀ i call, s.calls.find i = some call → call.pc.unwritten = true →
    call.connection = none
  unique : ∀ i j a b, s.calls.find i = some a → s.calls.find j = some b → a.client = b.client →
    a.ulSequeNum = b.ulSequeNum → a.pc.running = true → b.pc.running = true → i = j
  pending : ∀ c n i, (s.clients c).m_calls.find n = some i → ∃ call, s.calls.find i = some call ∧
    call.client = c ∧ call.ulSequeNum = n ∧ call.pc.running = true
  up : ∀ c, ∀ buf ∈ (s.conns (s.current c)).up, Meant D.server.machine s c (Asked s) buf
  down : ∀ c, ∀ buf ∈ (s.conns (s.current c)).session.sent,
    Meant (D.machine c) s c (Answered D s) buf
  answered : ∀ i call message, s.calls.find i = some call → call.Result message →
    Answered D s call message

/-- A call at a later point. -/
structure Call.Later (a b : Call π γ) : Prop where
  client : b.client = a.client
  seq : b.ulSequeNum = a.ulSequeNum
  buf : b.bufSend = a.bufSend
  request : b.requestPtr = a.requestPtr
  connection : a.connection = none ∨ b.connection = a.connection
  running : b.pc.running = true → a.pc.running = true

lemma Call.Later.refl (a : Call π γ) : a.Later a := ⟨rfl, rfl, rfl, rfl, .inr rfl, id⟩

lemma Call.Later.connection_eq {a b : Call π γ} (h : a.Later b) {k : ℕ}
    (hk : a.connection = some k) : b.connection = some k := by
  rcases h.connection with hn | he
  · rw [hn] at hk; cases hk
  · rw [he, hk]

section

variable {D : Deployment π κ γ ρ} {s t : State π κ γ ρ}

/-- What was answered stays answered while logs grow. -/
lemma Answered.mono {a b : Call π γ} {message : π.Message} (h : Answered D s a message)
    (hl : a.Later b) (hlog : ∀ k, ∀ d ∈ (s.conns k).session.dispatched,
      d ∈ (t.conns k).session.dispatched) : Answered D t b message := by
  obtain ⟨k, hk, d, hd, callback, hreg, hcall, hseq, hreq, hres⟩ := h
  refine ⟨k, hl.connection_eq hk, d, hlog _ d (hl.client ▸ hd), callback, ?_, hcall, ?_, ?_, hres⟩
  · rw [hl.request]; exact hreg
  · rw [hl.seq]; exact hseq
  · rw [hl.request]; exact hreq

lemma Meant.mono {m : Machine} {c : γ} {P Q : Call π γ → π.Message → Prop} {buf : List UInt8}
    (h : Meant m s c P buf)
    (hcalls : ∀ i b, t.calls.find i = some b → ∃ a, s.calls.find i = some a ∧ a.Later b)
    (hPQ : ∀ a b message, a.Later b → b.client = c → P a message → Q b message) :
    Meant m t c Q buf := by
  intro x hx i b hb hc hn hr
  obtain ⟨a, ha, hl⟩ := hcalls i b hb
  exact hPQ a b x.2 hl hc
    (h x hx i a ha (hl.client ▸ hc) (hl.seq ▸ hn) (hl.running hr))

/-! ### Steps -/

lemma inv_init (D : Deployment π κ γ ρ) : Inv D (init π κ γ ρ) where
  quiet c k _ := ⟨rfl, rfl⟩
  readsBack i call h := by cases h
  unwritten i call h := by cases h
  unique i j a b h := by cases h
  pending c n i h := by cases h
  up c buf h := by cases h
  down c buf h := by cases h
  answered i call message h := by cases h

/-- A call goes on. -/
lemma Inv.setCall (h : Inv D s) {i : ℕ} {a b : Call π γ} (hi : s.calls.find i = some a)
    (hl : a.Later b) (hunw : b.pc.unwritten = true → b.connection = none)
    (hpend : b.pc.running = true ∨ ∀ c n, (s.clients c).m_calls.find n ≠ some i)
    (hres : ∀ message, b.Result message → a.Result message ∨ Answered D s a message) :
    Inv D (s.setCall i b) := by
  have hcalls : ∀ j b', (s.setCall i b).calls.find j = some b' →
      ∃ a', s.calls.find j = some a' ∧ a'.Later b' := by
    intro j b' hb'
    rw [State.find_setCall] at hb'
    split_ifs at hb' with hj
    · rw [← Option.some.inj hb', hj]
      exact ⟨a, hi, hl⟩
    · exact ⟨b', hb', .refl b'⟩
  refine ⟨h.quiet, ?_, ?_, ?_, ?_, ?_, ?_, ?_⟩
  · intro j b' hb' x hx
    obtain ⟨a', ha', hl'⟩ := hcalls j b' hb'
    rw [hl'.buf] at hx
    rw [hl'.seq, hl'.request]
    exact h.readsBack j a' ha' x hx
  · intro j b' hb' hu
    rw [State.find_setCall] at hb'
    split_ifs at hb' with hj
    · rw [← Option.some.inj hb'] at hu ⊢
      exact hunw hu
    · exact h.unwritten j b' hb' hu
  · intro j k b₁ b₂ h₁ h₂ hc hn hr₁ hr₂
    obtain ⟨a₁, ha₁, hl₁⟩ := hcalls j b₁ h₁
    obtain ⟨a₂, ha₂, hl₂⟩ := hcalls k b₂ h₂
    refine h.unique j k a₁ a₂ ha₁ ha₂ ?_ ?_ (hl₁.running hr₁) (hl₂.running hr₂)
    · rw [← hl₁.client, ← hl₂.client, hc]
    · rw [← hl₁.seq, ← hl₂.seq, hn]
  · intro c n j hf
    obtain ⟨call, hcall, hc, hn, hr⟩ := h.pending c n j hf
    by_cases hj : j = i
    · subst hj
      rw [hi, Option.some.injEq] at hcall
      subst hcall
      refine ⟨b, ?_, hl.client.trans hc, hl.seq.trans hn, hpend.resolve_right fun hno => hno c n hf⟩
      rw [State.find_setCall, if_pos rfl]
    · refine ⟨call, ?_, hc, hn, hr⟩
      rw [State.find_setCall, if_neg hj]
      exact hcall
  · intro c buf hbuf
    refine (h.up c buf hbuf).mono hcalls fun a' b' message hl' _ hP => ?_
    refine ⟨hl'.request.trans hP.1, ?_⟩
    rw [State.setCall_clients, hl'.client]
    exact hl'.connection_eq hP.2
  · intro c buf hbuf
    exact (h.down c buf hbuf).mono hcalls fun a' b' message hl' _ hP => hP.mono hl' fun _ _ hd => hd
  · intro j b' message hb' hr
    rw [State.find_setCall] at hb'
    split_ifs at hb' with hj
    · obtain rfl := Option.some.inj hb'
      have ha : Answered D s a message := (hres message hr).elim (h.answered i a message hi) id
      exact ha.mono hl fun _ _ hd => hd
    · exact (h.answered j b' message hb' hr).mono (.refl b') fun _ _ hd => hd

/-- No frame on the way has the number of a new call. -/
lemma Inv.call [DecidableEq ρ] (h : Inv D s) {c : γ} {i : ℕ} {req : π.Message}
    (hs : Sound D s (.call c i req : Action π κ γ)) (ht : s.call D c i req = some t) : Inv D t := by
  unfold State.call at ht
  simp only at ht
  split_ifs at ht with hstate hfind
  · exact Option.some.inj ht ▸ h
  obtain ⟨r, hr, rfl⟩ := Option.map_eq_some_iff.mp ht
  obtain ⟨⟨hrunning, hupward, hdownward⟩, hread⟩ := hs (not_not.mp hstate)
  rw [Option.not_isSome_iff_eq_none] at hfind
  generalize s.nextId (D.process c) = n at *
  have hfree : ∀ j a, s.calls.find j = some a → a.client = c → a.ulSequeNum = n →
      a.pc.running = false := fun j a ha hc hn =>
    hrunning (j, a) (SortedMap.mem_entries.mpr ha) hc hn
  have hold : ∀ {m : Machine} {c' : γ} {P : Call π γ → π.Message → Prop} {buf : List UInt8},
      (c' = c → ∀ x ∈ accepted m π buf, x.1 ≠ n) → Meant m s c' P buf →
      Meant m ({ s with s_id := Function.update s.s_id (D.process c) n }.setCall i
        ⟨c, n, r.2.2, req, none, none, .coded⟩) c' P buf := by
    intro m c' P buf hne hm x hx j a ha hc hn hrun
    rw [State.find_setCall] at ha
    split_ifs at ha with hj
    · obtain rfl := Option.some.inj ha
      exact absurd hn.symm (hne hc.symm x hx)
    · exact hm x hx j a ha hc hn hrun
  refine ⟨h.quiet, ?_, ?_, ?_, ?_, ?_, ?_, ?_⟩
  · intro j a ha
    rw [State.find_setCall] at ha
    split_ifs at ha with hj
    · obtain rfl := Option.some.inj ha
      exact hread r hr
    · exact h.readsBack j a ha
  · intro j a ha hu
    rw [State.find_setCall] at ha
    split_ifs at ha with hj
    · obtain rfl := Option.some.inj ha
      rfl
    · exact h.unwritten j a ha hu
  · intro j k a b ha hb hc hn hra hrb
    rw [State.find_setCall] at ha hb
    split_ifs at ha hb with hj hk hk
    · rw [hj, hk]
    · obtain rfl := Option.some.inj ha
      rw [hfree k b hb hc.symm hn.symm] at hrb
      cases hrb
    · obtain rfl := Option.some.inj hb
      rw [hfree j a ha hc hn] at hra
      cases hra
    · exact h.unique j k a b ha hb hc hn hra hrb
  · intro c' n' j hf
    obtain ⟨a, ha, hrest⟩ := h.pending c' n' j hf
    refine ⟨a, ?_, hrest⟩
    rw [State.find_setCall, if_neg (by rintro rfl; rw [hfind] at ha; cases ha)]
    exact ha
  · intro c' buf hbuf
    exact hold (fun hc => hupward buf (hc ▸ hbuf)) (h.up c' buf hbuf)
  · intro c' buf hbuf
    exact hold (fun hc => hc ▸ hdownward buf (hc ▸ hbuf)) (h.down c' buf hbuf)
  · intro j a message ha hres
    rw [State.find_setCall] at ha
    split_ifs at ha with hj
    · obtain rfl := Option.some.inj ha
      rcases hres with h | h | h <;> cases h
    · exact h.answered j a message ha hres

lemma State.wake_some {i : ℕ} (h : s.wake i = some t) : ∃ a, s.calls.find i = some a ∧
    a.pc = .waiting ∧ t = s.setCall i { a with pc := .woken a.responsePtr } := by
  obtain ⟨a, ha, h⟩ := Option.bind_eq_some_iff.mp h
  split at h
  · next hpc => exact ⟨a, ha, hpc, (Option.some.inj h).symm⟩
  · cases h

lemma Inv.wake (h : Inv D s) {i : ℕ} (ht : s.wake i = some t) : Inv D t := by
  obtain ⟨a, ha, hpc, rfl⟩ := State.wake_some ht
  refine h.setCall ha ⟨rfl, rfl, rfl, rfl, .inr rfl, fun _ => by rw [hpc]; rfl⟩
    (fun hu => by cases hu) (.inl rfl) fun message hr => .inl ?_
  rcases hr with hr | hr | hr
  · exact .inl hr
  · exact .inl (Pc.woken.inj hr)
  · cases hr

lemma State.onDealResponse_some {c : γ} {buf : List UInt8}
    (h : s.onDealResponse D c buf = some t) : t = s ∨ ∃ x ∈ accepted (D.machine c) π buf, ∃ i a,
      (s.clients c).m_calls.find x.1 = some i ∧ s.calls.find i = some a ∧
      t = s.setCall i { a with responsePtr := some x.2 } := by
  unfold State.onDealResponse decodingFromBuf at h
  rw [Option.bind_eq_bind, Option.bind_map] at h
  obtain ⟨⟨errCode, msg, walk⟩, hd, h⟩ := Option.bind_eq_some_iff.mp h
  simp only [Function.comp_apply, Option.bind_eq_bind, Option.bind_some] at h
  split_ifs at h with herr
  · obtain ⟨message, hmsg, h⟩ := Option.bind_eq_some_iff.mp h
    have hacc := accepted_some (herr ▸ hd) hmsg
    split at h
    · next i hi =>
      split at h
      · next a ha => exact .inr ⟨_, hacc, i, a, hi, ha, (Option.some.inj h).symm⟩
      · cases h
    · exact .inl (Option.some.inj h).symm
  · exact .inl (Option.some.inj h).symm

lemma verdict_dispatch {m : Machine} {bLegState : Bool} {buf : List UInt8}
    {msg : ProtoRpcMessage π} {request : π.Message}
    (h : verdict m π bLegState buf = some (.dispatch msg request)) :
    accepted m π buf = some (msg.ulSequeNum, request) ∧ msg.protoMsgPtr = some request := by
  obtain ⟨walk, hd, hmsg, -⟩ := verdict_eq_dispatch.mp h
  exact ⟨accepted_some hd hmsg, hmsg⟩

variable [DecidableEq γ]

/-- A client changes, on the same connection. -/
lemma Inv.setClient (h : Inv D s) (c : γ) {x : CProtoRpcClient}
    (hconn : x.connection = (s.clients c).connection)
    (hpend : ∀ n i, x.m_calls.find n = some i → ∃ call, s.calls.find i = some call ∧
      call.client = c ∧ call.ulSequeNum = n ∧ call.pc.running = true) :
    Inv D (s.setClient c x) := by
  have hcur : ∀ c', ((s.setClient c x).clients c').connection = (s.clients c').connection := by
    intro c'
    rw [State.setClient_clients]
    split_ifs with hc
    · rw [hconn, hc]
    · rfl
  have hcurrent : ∀ c', (s.setClient c x).current c' = s.current c' := by
    intro c'
    unfold State.current
    rw [hcur]
  refine ⟨?_, h.readsBack, h.unwritten, h.unique, ?_, ?_, ?_, h.answered⟩
  · intro c' k hk
    rw [hcur] at hk
    exact h.quiet c' k hk
  · intro c' n i hf
    rw [State.setClient_clients] at hf
    split_ifs at hf with hc
    · rw [hc]; exact hpend n i hf
    · exact h.pending c' n i hf
  · intro c' buf hbuf
    rw [hcurrent] at hbuf
    refine (h.up c' buf hbuf).mono (fun i b hb => ⟨b, hb, .refl b⟩) fun a b message hl _ hP => ?_
    refine ⟨hl.request.trans hP.1, ?_⟩
    rw [hcur, hl.client]
    exact hl.connection_eq hP.2
  · intro c' buf hbuf
    rw [hcurrent] at hbuf
    exact (h.down c' buf hbuf).mono (fun i b hb => ⟨b, hb, .refl b⟩)
      fun a b message hl _ hP => hP.mono hl fun _ _ hd => hd

/-- A connection changes: its log grows, and what is new on it is meant for its calls. -/
lemma Inv.setConn (h : Inv D s) (k : γ × ℕ) {x : Connection π κ}
    (hlog : ∀ d ∈ (s.conns k).session.dispatched, d ∈ x.session.dispatched)
    (hquiet : (s.clients k.1).connection < k.2 → x.up = [] ∧ x.session.sent = [])
    (hup : ∀ buf ∈ x.up, buf ∈ (s.conns k).up ∨
      (s.current k.1 = k → Meant D.server.machine s k.1 (Asked s) buf))
    (hdown : ∀ buf ∈ x.session.sent, buf ∈ (s.conns k).session.sent ∨
      (s.current k.1 = k → Meant (D.machine k.1) s k.1 (Answered D (s.setConn k x)) buf)) :
    Inv D (s.setConn k x) := by
  have hlogs : ∀ k', ∀ d ∈ (s.conns k').session.dispatched,
      d ∈ ((s.setConn k x).conns k').session.dispatched := by
    intro k' d hd
    rw [State.setConn_conns]
    split_ifs with hk
    · exact hlog d (hk ▸ hd)
    · exact hd
  refine ⟨?_, h.readsBack, h.unwritten, h.unique, h.pending, ?_, ?_, ?_⟩
  · intro c n hn
    rw [State.setConn_conns]
    split_ifs with hk
    · exact hquiet (by rw [← hk]; exact hn)
    · exact h.quiet c n hn
  · intro c buf hbuf
    rw [State.setConn_current, State.setConn_conns] at hbuf
    split_ifs at hbuf with hk
    · have hc : k.1 = c := by rw [← hk]; rfl
      subst hc
      rcases hup buf hbuf with hold | hnew
      · exact h.up _ buf (by rw [hk]; exact hold)
      · exact hnew hk
    · exact h.up c buf hbuf
  · intro c buf hbuf
    rw [State.setConn_current, State.setConn_conns] at hbuf
    have hold : buf ∈ (s.conns (s.current c)).session.sent →
        Meant (D.machine c) (s.setConn k x) c (Answered D (s.setConn k x)) buf := fun hb =>
      (h.down c buf hb).mono (fun i b hf => ⟨b, hf, .refl b⟩)
        fun a b message hl _ hP => hP.mono hl hlogs
    split_ifs at hbuf with hk
    · have hc : k.1 = c := by rw [← hk]; rfl
      subst hc
      rcases hdown buf hbuf with hb | hnew
      · exact hold (by rw [hk]; exact hb)
      · exact hnew hk
    · exact hold hbuf
  · intro i call message hi hr
    exact (h.answered i call message hi hr).mono (.refl call) hlogs

/-- A new connection carries nothing. -/
lemma Inv.connected (h : Inv D s) {c : γ} (ht : s.connected c = some t) : Inv D t := by
  unfold State.connected at ht
  simp only at ht
  split_ifs at ht
  obtain rfl := Option.some.inj ht
  have hother : ∀ c', c' ≠ c → ∀ x, (s.setClient c x).clients c' = s.clients c' := by
    intro c' hc x
    rw [State.setClient_clients, if_neg hc]
  refine ⟨?_, h.readsBack, h.unwritten, h.unique, ?_, ?_, ?_, h.answered⟩
  · intro c' k hk
    refine h.quiet c' k ?_
    rw [State.setClient_clients] at hk
    split_ifs at hk with hc
    · rw [hc]; simp only at hk; omega
    · exact hk
  · intro c' n i hf
    rw [State.setClient_clients] at hf
    split_ifs at hf with hc
    · rw [hc]; exact h.pending c n i hf
    · exact h.pending c' n i hf
  · intro c' buf hbuf
    unfold State.current at hbuf
    by_cases hc : c' = c
    · rw [State.setClient_clients, if_pos hc, State.setClient_conns,
        (h.quiet c' _ (by rw [hc]; exact Nat.lt_succ_self _)).1] at hbuf
      cases hbuf
    · rw [hother c' hc] at hbuf
      refine (h.up c' buf hbuf).mono (fun i b hb => ⟨b, hb, .refl b⟩) fun a b message hl hb hP => ?_
      refine ⟨hl.request.trans hP.1, ?_⟩
      rw [hother b.client (hb ▸ hc), hl.client]
      exact hl.connection_eq hP.2
  · intro c' buf hbuf
    unfold State.current at hbuf
    by_cases hc : c' = c
    · rw [State.setClient_clients, if_pos hc, State.setClient_conns,
        (h.quiet c' _ (by rw [hc]; exact Nat.lt_succ_self _)).2] at hbuf
      cases hbuf
    · rw [hother c' hc] at hbuf
      exact (h.down c' buf hbuf).mono (fun i b hb => ⟨b, hb, .refl b⟩)
        fun a b message hl _ hP => hP.mono hl fun _ _ hd => hd

lemma Inv.disconnected (h : Inv D s) (c : γ) : Inv D (s.disconnected c) :=
  h.setClient c rfl fun n i hf => h.pending c n i hf

lemma State.insert_some {i : ℕ} (h : s.insert i = some t) : ∃ a, s.calls.find i = some a ∧
    a.pc = .coded ∧ t = (s.setCall i { a with pc := .inserted }).setClient a.client
      { s.clients a.client with
        m_calls := (s.clients a.client).m_calls.insert a.ulSequeNum i } := by
  obtain ⟨a, ha, h⟩ := Option.bind_eq_some_iff.mp h
  split at h
  · next hpc => exact ⟨a, ha, hpc, (Option.some.inj h).symm⟩
  · cases h

lemma State.write_some {i : ℕ} (h : s.write i = some t) : ∃ a, s.calls.find i = some a ∧
    a.pc = .inserted ∧ (t = s.setCall i { a with pc := .waiting } ∨
      t = (s.setCall i
          { a with
            connection := some (s.clients a.client).connection
            pc := .waiting }).setConn (s.current a.client)
        { s.conns (s.current a.client) with
          up := (s.conns (s.current a.client)).up ++ [a.bufSend] }) := by
  obtain ⟨a, ha, h⟩ := Option.bind_eq_some_iff.mp h
  split at h
  · next hpc =>
    refine ⟨a, ha, hpc, ?_⟩
    simp only at h
    split_ifs at h
    · exact .inr (Option.some.inj h).symm
    · exact .inl (Option.some.inj h).symm
  · cases h

lemma State.finish_some {i : ℕ} (h : s.finish i = some t) : ∃ a res, s.calls.find i = some a ∧
    a.pc = .woken res ∧ t = (s.setClient a.client
        { s.clients a.client with
          m_calls := (s.clients a.client).m_calls.erase a.ulSequeNum }).setCall i
      { a with pc := .returned res } := by
  obtain ⟨a, ha, h⟩ := Option.bind_eq_some_iff.mp h
  split at h
  · next res hpc => exact ⟨a, res, ha, hpc, (Option.some.inj h).symm⟩
  · cases h

/-- The context of a call stands under its number. -/
lemma Inv.insert (h : Inv D s) {i : ℕ} (ht : s.insert i = some t) : Inv D t := by
  obtain ⟨a, ha, hpc, rfl⟩ := State.insert_some ht
  have hcall : Inv D (s.setCall i { a with pc := .inserted }) :=
    h.setCall ha ⟨rfl, rfl, rfl, rfl, .inr rfl, fun _ => by rw [hpc]; rfl⟩
      (fun _ => h.unwritten i a ha (by rw [hpc]; rfl)) (.inl rfl) fun message hr => .inl (by
        rcases hr with hr | hr | hr
        · exact .inl hr
        · cases hr
        · cases hr)
  refine hcall.setClient a.client rfl fun n j hf => ?_
  rw [SortedMap.find_insert] at hf
  split_ifs at hf with hn
  · obtain rfl := Option.some.inj hf
    exact ⟨{ a with pc := .inserted }, by rw [State.find_setCall, if_pos rfl], rfl, hn.symm, rfl⟩
  · exact hcall.pending a.client n j hf

/-- The frame of a call asks for it. -/
lemma Inv.write (h : Inv D s) {i : ℕ} (ht : s.write i = some t) : Inv D t := by
  obtain ⟨a, ha, hpc, ht⟩ := State.write_some ht
  have hnone : a.connection = none := h.unwritten i a ha (by rw [hpc]; rfl)
  have hres : ∀ b : Call π γ, b.responsePtr = a.responsePtr → b.pc = .waiting →
      ∀ message, b.Result message → a.Result message ∨ Answered D s a message := by
    intro b hb hp message hr
    rcases hr with hr | hr | hr
    · exact .inl (.inl (hb ▸ hr))
    · rw [hp] at hr; cases hr
    · rw [hp] at hr; cases hr
  have hrun : a.pc.running = true := by rw [hpc]; rfl
  rcases ht with rfl | rfl
  · exact h.setCall ha ⟨rfl, rfl, rfl, rfl, .inr rfl, fun _ => hrun⟩ (fun hu => by cases hu)
      (.inl rfl) (hres _ rfl rfl)
  · have hcall := h.setCall ha (b := { a with
        connection := some (s.clients a.client).connection
        pc := .waiting }) ⟨rfl, rfl, rfl, rfl, .inl hnone, fun _ => hrun⟩ (fun hu => by cases hu)
      (.inl rfl) (hres _ rfl rfl)
    refine hcall.setConn _ (fun d hd => hd) (fun hlt => absurd hlt (lt_irrefl _)) ?_
      fun buf hbuf => .inl hbuf
    intro buf hbuf
    rcases List.mem_append.mp hbuf with hbuf | hbuf
    · exact .inl hbuf
    · refine .inr fun _ x hx j b hb hc hn hr => ?_
      rw [List.mem_singleton.mp hbuf] at hx
      obtain rfl := h.readsBack i a ha x hx
      have hself : (s.setCall i { a with
          connection := some (s.clients a.client).connection
          pc := .waiting }).calls.find i = some { a with
            connection := some (s.clients a.client).connection
            pc := .waiting } := by rw [State.find_setCall, if_pos rfl]
      obtain rfl := hcall.unique j i _ _ hb hself hc hn hr rfl
      rw [hself] at hb
      obtain rfl := Option.some.inj hb
      exact ⟨rfl, rfl⟩

/-- A call takes its context with it. -/
lemma Inv.finish (h : Inv D s) {i : ℕ} (ht : s.finish i = some t) : Inv D t := by
  obtain ⟨a, res, ha, hpc, rfl⟩ := State.finish_some ht
  have hclient : Inv D (s.setClient a.client
      { s.clients a.client with
        m_calls := (s.clients a.client).m_calls.erase a.ulSequeNum }) := by
    refine h.setClient a.client rfl fun n j hf => ?_
    rw [SortedMap.find_erase] at hf
    split_ifs at hf
    exact h.pending a.client n j hf
  refine hclient.setCall ha ⟨rfl, rfl, rfl, rfl, .inr rfl, fun _ => by rw [hpc]; rfl⟩
    (fun hu => by cases hu) (.inr ?_) fun message hr => .inl ?_
  · intro c n hf
    obtain ⟨b, hb, hc, hn, -⟩ := hclient.pending c n i hf
    rw [State.setClient_calls, ha, Option.some.injEq] at hb
    rw [State.setClient_clients, if_pos (by rw [← hc, hb]), ← hn, ← hb] at hf
    simp at hf
  · rcases hr with hr | hr | hr
    · exact .inl hr
    · cases hr
    · exact .inr (.inl (by rw [hpc, Pc.returned.inj hr]))

/-! ### Reads -/

lemma State.serverRead_some {k : γ × ℕ} {onMessage : OnMessage π κ}
    (h : s.serverRead D k onMessage = some t) : ∃ buf up v session,
      (s.conns k).up = buf :: up ∧
      verdict D.server.machine π (s.conns k).session.channel.m_bLegClient buf = some v ∧
      deal D.server onMessage (s.conns k).session v = some session ∧
      t = s.setConn k ⟨up, session⟩ := by
  unfold State.serverRead at h
  split at h
  · cases h
  · next buf up hup =>
    obtain ⟨session, hs, rfl⟩ := Option.map_eq_some_iff.mp h
    rw [onDealMessage_eq] at hs
    obtain ⟨v, hv, hd⟩ := Option.bind_eq_some_iff.mp hs
    exact ⟨buf, up, v, session, hup, hv, hd, rfl⟩

/-- The server answers the request of the frame it reads. -/
lemma Inv.serverRead (h : Inv D s) {c : γ} {k : ℕ} {onMessage : OnMessage π κ}
    (hs : Sound D s (.serverRead c k onMessage)) (ht : s.serverRead D (c, k) onMessage = some t) :
    Inv D t := by
  obtain ⟨buf, up, v, session, hup, hv, hd, rfl⟩ := State.serverRead_some ht
  have hlog := deal_dispatched D.server onMessage hd
  refine h.setConn (c, k) ?_ ?_ ?_ ?_
  · intro d hmem
    rw [hlog]
    exact List.mem_append_left _ hmem
  · intro hlt
    rw [(h.quiet c k hlt).1] at hup
    cases hup
  · intro buf' hbuf'
    exact .inl (by rw [hup]; exact List.mem_cons_of_mem _ hbuf')
  · intro buf' hbuf'
    rcases deal_sent D.server onMessage hd buf' hbuf' with hold | ⟨hopen, hnew⟩
    · exact .inl hold
    have hsound := hs hopen buf (by rw [hup]; rfl) v hv
    refine .inr fun hcur x hx i a ha hc hn hr => ?_
    cases v with
    | echo buf =>
      obtain rfl : buf' = buf := hnew
      rw [Option.mem_def, show accepted (D.machine c) π buf' = none from hsound] at hx
      cases hx
    | dispatch msg request =>
      obtain ⟨hacc, hmsg⟩ := verdict_dispatch hv
      obtain ⟨response, hresponse, r, hr', rfl⟩ := hnew
      obtain rfl := hsound response hresponse r hr' x hx
      have hmem : buf ∈ (s.conns (s.current c)).up := by
        rw [show s.current c = (c, k) from hcur, hup]
        exact List.mem_cons_self
      obtain ⟨hreq, hconn⟩ := h.up c buf hmem _ hacc i a ha hc hn hr
      have hk : (s.clients a.client).connection = k := by
        rw [hc]; exact congrArg Prod.snd hcur
      refine ⟨k, hk ▸ hconn, dispatchOf D.server onMessage msg request, ?_, ?_⟩
      · rw [State.setConn_conns, if_pos (by rw [hc]), hlog]
        exact List.mem_append_right _ (List.mem_singleton.mpr rfl)
      · unfold dealProtobufMessage at hresponse
        rw [Option.mem_def] at hresponse
        split at hresponse
        · cases hresponse
        · next callback hcallback =>
          refine ⟨callback, hreq ▸ hcallback, hcallback, hn.symm, hreq ▸ hmsg, ?_⟩
          simp only [dispatchOf, dealProtobufMessage, hcallback, hresponse]

/-- A response goes to the call it answers. -/
lemma Inv.clientRead (h : Inv D s) {c : γ} (ht : s.clientRead D c = some t) : Inv D t := by
  unfold State.clientRead at ht
  simp only at ht
  split at ht
  · cases ht
  next buf sent hsent =>
  split_ifs at ht
  have hpop : Inv D (s.setConn (s.current c) { s.conns (s.current c) with
      session := { (s.conns (s.current c)).session with sent := sent } }) := by
    refine h.setConn _ (fun d hd => hd) (fun hlt => absurd hlt (lt_irrefl _))
      (fun buf' hb => .inl hb) fun buf' hb => .inl ?_
    rw [hsent]
    exact List.mem_cons_of_mem _ hb
  rcases State.onDealResponse_some ht with rfl | ⟨x, hx, i, a, hi, ha, rfl⟩
  · exact hpop
  obtain ⟨b, hb, hc, hn, hr⟩ := hpop.pending c x.1 i hi
  rw [ha, Option.some.injEq] at hb
  subst hb
  have hans : Answered D s a x.2 :=
    h.down c buf (by rw [hsent]; exact List.mem_cons_self) x hx i a ha hc hn hr
  refine hpop.setCall ha ⟨rfl, rfl, rfl, rfl, .inr rfl, id⟩ (fun hu => hpop.unwritten i a ha hu)
    (.inl hr) fun message hres => ?_
  rcases hres with hres | hres | hres
  · obtain rfl := Option.some.inj hres
    refine .inr (hans.mono (.refl a) fun k d hd => ?_)
    rw [State.setConn_conns]
    split_ifs with hk
    · exact hk ▸ hd
    · exact hd
  · exact .inl (.inr (.inl hres))
  · exact .inl (.inr (.inr hres))

/-! ### Runs -/

variable [DecidableEq ρ]

/-- **One step**: the frames in flight stay meant for the calls they are about. -/
lemma Inv.step (h : Inv D s) {a : Action π κ γ} (hs : Sound D s a) (ht : step D s a = some t) :
    Inv D t := by
  cases a with
  | connected c => exact h.connected ht
  | disconnected c => exact Option.some.inj ht ▸ h.disconnected c
  | call c i req => exact h.call hs ht
  | insert i => exact h.insert ht
  | write i => exact h.write ht
  | wake i => exact h.wake ht
  | finish i => exact h.finish ht
  | serverRead c k onMessage => exact h.serverRead hs ht
  | clientRead c => exact h.clientRead ht

/-- **Calls**: in a run whose steps all meet the condition, a message that a call returns is the
one that the callback of its request's type returned for that request. -/
theorem answered_of_returned (D : Deployment π κ γ ρ) {as : List (Action π κ γ)}
    {t : State π κ γ ρ}
    (hs : Always (ProtoRpc.step D) (fun _ => Sound D) (init π κ γ ρ) as)
    (ht : exec (ProtoRpc.step D) (init π κ γ ρ) as = some t) {i : ℕ} {call : Call π γ}
    {message : π.Message} (hcall : t.calls.find i = some call)
    (hret : call.pc = .returned (some message)) : Answered D t call message := by
  have hinv : Inv D t := by
    refine inv_of_always (I := fun _ s => Inv D s) (inv_init D) ?_ hs ht
    intro _ s a u hi hP hstep
    exact hi.step hP hstep
  exact hinv.answered i call message hcall (.inr (.inr hret))

end

/-! ### Two runs of one client -/

/-- What a call has returned. -/
def Call.returned (call : Call π γ) : Option (Option π.Message) :=
  match call.pc with
  | .returned res => some res
  | _ => none

lemma Call.pc_of_returned {call : Call π γ} {res : Option π.Message}
    (h : call.returned = some res) : call.pc = .returned res := by
  unfold returned at h
  split at h
  · next hpc => rw [hpc, Option.some.inj h]
  · cases h

instance : DecidableEq sampleProtobuf.Message :=
  inferInstanceAs (DecidableEq (List UInt8 × List UInt8))

/-- A request that is no login. -/
def sampleRequest : sampleProtobuf.Message := sampleMessage

/-- One client, and the server that answers a request with itself. -/
def sampleDeployment (m : Machine) : Deployment sampleProtobuf (List UInt8) Unit Unit :=
  ⟨⟨m, some⟩, fun _ => m, id⟩

/-- Its runs, on builds of one kind. -/
def sampleRun (m : Machine) (as : List (Action sampleProtobuf (List UInt8) Unit)) :
    Option (State sampleProtobuf (List UInt8) Unit Unit) :=
  exec (step (sampleDeployment m)) (init sampleProtobuf (List UInt8) Unit Unit) as

/-- The server reads, and answers with the request. -/
def answerNext : Action sampleProtobuf (List UInt8) Unit := .serverRead () 1 fun _ req => some req

/-- A login; a call that ends before it is answered; and a call that meets that late answer. -/
def lateResponse : List (Action sampleProtobuf (List UInt8) Unit) :=
  [.connected (), .call () 0 (loginRequest, []), .insert 0, .write 0, answerNext, .clientRead (),
    .wake 0, .finish 0,
    .call () 1 sampleRequest, .insert 1, .write 1, .wake 1, .finish 1,
    .call () 2 sampleRequest, .insert 2, .write 2, answerNext, answerNext, .clientRead (),
    .clientRead (), .wake 2, .finish 2]

lemma returned_of_run (m : Machine) (as : List (Action sampleProtobuf (List UInt8) Unit)) (i : ℕ)
    (res : Option sampleProtobuf.Message)
    (h : ((sampleRun m as).bind fun t => (t.calls.find i).bind Call.returned) = some res) :
    ∃ t call, sampleRun m as = some t ∧ t.calls.find i = some call ∧ call.pc = .returned res := by
  obtain ⟨t, ht, h⟩ := Option.bind_eq_some_iff.mp h
  obtain ⟨call, hcall, h⟩ := Option.bind_eq_some_iff.mp h
  exact ⟨t, call, ht, hcall, Call.pc_of_returned h⟩

/-- The last call returns its own answer. -/
theorem lateResponse_answered : ∃ t call, sampleRun linux64 lateResponse = some t ∧
    t.calls.find 2 = some call ∧ call.pc = .returned (some sampleRequest) ∧
    Answered (sampleDeployment linux64) t call sampleRequest := by
  obtain ⟨t, call, ht, hcall, hpc⟩ := returned_of_run linux64 lateResponse 2
    (some sampleRequest) (by decide +kernel)
  refine ⟨t, call, ht, hcall, hpc, answered_of_returned (sampleDeployment linux64) ?_ ht hcall hpc⟩
  exact always_of_check (q := fun s a => decide (Sound (sampleDeployment linux64) s a))
    (fun s a h => of_decide_eq_true h) (by decide +kernel)

/-- A big-endian build. -/
def bigEndian64 : Machine := withOrder linux64 true

/-- A call of a client that has not logged in. -/
def refusedCall : List (Action sampleProtobuf (List UInt8) Unit) :=
  [.connected (), .call () 0 sampleRequest, .insert 0, .write 0, answerNext, .clientRead (),
    .wake 0, .finish 0]

/-- The server sends the request back as it came, and the call returns it. -/
theorem refusedCall_returns_request : ∃ t call, sampleRun bigEndian64 refusedCall = some t ∧
    t.calls.find 0 = some call ∧ call.requestPtr = sampleRequest ∧
    call.pc = .returned (some sampleRequest) ∧
    ¬ Answered (sampleDeployment bigEndian64) t call sampleRequest := by
  obtain ⟨t, call, ht, hcall, hpc⟩ := returned_of_run bigEndian64 refusedCall 0
    (some sampleRequest) (by decide +kernel)
  have hrest : (sampleRun bigEndian64 refusedCall).map (fun t =>
      ((t.calls.find 0).map fun call => (call.requestPtr, call.connection),
        (t.conns ((), 1)).session.dispatched.length)) =
      some (some (sampleRequest, some 1), 0) := by decide +kernel
  rw [ht, Option.map_some, hcall] at hrest
  simp only [Option.map_some, Option.some.injEq, Prod.mk.injEq, List.length_eq_zero_iff] at hrest
  obtain ⟨⟨hreq, hconn⟩, hlog⟩ := hrest
  refine ⟨t, call, ht, hcall, hreq, hpc, ?_⟩
  rintro ⟨k, hk, d, hd, -⟩
  rw [hconn, Option.some.injEq] at hk
  rw [← hk, hlog] at hd
  cases hd

end MmrService.ProtoRpc
