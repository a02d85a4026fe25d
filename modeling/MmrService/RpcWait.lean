import MmrService.ProtoRpc

/-!
`ProtoRpcContext::wait` and `notify`, and the steps of `CProtoRpcClient::call` and
`onDealMessage` about them.

Calls and the receiving thread take their steps one at a time and in any order. What is done
under `m_callsMutex` is one step of a call and several of the receiving thread, which holds the
mutex from its look into `m_calls` to the end. The wait has no predicate and `notify_one` is not
issued under the mutex of the context: it wakes a call that is asleep and is lost otherwise.
-/

namespace MmrService.RpcWait

open BufConvert ProtoCodec ProtoServer Transition
open ProtoRpc (emConnState)

variable {π : Protobuf}

/-- Where a call stands. -/
inductive Pc (μ : Type)
  /-- The request is encoded. -/
  | coded
  /-- The context is in `m_calls`. -/
  | inserted
  /-- The request is written. -/
  | written
  /-- In `wait_for`, blocked. -/
  | asleep
  /-- The wait is over. -/
  | awake
  /-- `responsePtr` has been read. -/
  | read (res : Option μ)
  | returned (res : Option μ)

/-- What `notify_one` does to the only thread that ever waits on the condition. -/
def Pc.roused {μ : Type} : Pc μ → Pc μ
  | .asleep => .awake
  | pc => pc

/-- The wait is over. -/
def Pc.left {μ : Type} : Pc μ → Bool
  | .awake | .read _ | .returned _ => true
  | _ => false

lemma Pc.roused_ne_asleep {μ : Type} (pc : Pc μ) : pc.roused ≠ .asleep := by
  cases pc <;> nofun

lemma Pc.left_roused {μ : Type} {pc : Pc μ} (h : pc.left = true) : pc.roused.left = true := by
  cases pc <;> first | exact h | rfl

/-- What a call returns, once that is settled. -/
def Pc.result {μ : Type} : Pc μ → Option (Option μ)
  | .read res | .returned res => some res
  | _ => none

lemma Pc.result_roused {μ : Type} (pc : Pc μ) : pc.roused.result = pc.result := by
  cases pc <;> rfl

/-- A `call` with its context; `notified` and `elapsed` tell whether the context has been
notified and whether the timeout of the wait has run out. -/
structure Call (π : Protobuf) where
  ulSequeNum : ℕ
  bufSend : List UInt8
  requestPtr : π.Message
  responsePtr : Option π.Message
  pc : Pc π.Message
  notified : Bool
  elapsed : Bool

/-- Where `onDealMessage` stands; it holds `m_callsMutex` unless it is idle. -/
inductive Receiver (μ : Type)
  | idle
  /-- The context of a call is found. -/
  | found (i : ℕ) (message : μ)
  /-- The response is stored. -/
  | stored (i : ℕ)
  /-- `notify` is done. -/
  | notified

/-- A client; the contexts in `m_calls` are given by their calls. -/
structure State (π : Protobuf) where
  m_connState : emConnState
  s_id : ℕ
  calls : ℕ → Option (Call π)
  m_calls : SortedMap ℕ ℕ
  receiver : Receiver π.Message
  /-- What is written to the channel. -/
  sent : List (List UInt8)

inductive Action (π : Protobuf)
  | connected
  | disconnected
  /-- A thread calls, up to the encoding of the request; `i` is new. -/
  | call (i : ℕ) (req : π.Message)
  | insert (i : ℕ)
  | write (i : ℕ)
  /-- `wait_for` blocks the call. -/
  | wait (i : ℕ)
  /-- The timeout wakes the call. -/
  | timeout (i : ℕ)
  /-- The call wakes for no reason. -/
  | spurious (i : ℕ)
  | read (i : ℕ)
  | finish (i : ℕ)
  /-- The receiving thread gets a buffer, and looks into `m_calls`. -/
  | receive (buf : List UInt8)
  | store
  | notify
  | unlock

/-! ### The steps -/

namespace Call

variable (call : Call π)

def insert : Option (Call π) :=
  match call.pc with
  | .coded => some { call with pc := .inserted }
  | _ => none

def write : Option (Call π) :=
  match call.pc with
  | .inserted => some { call with pc := .written }
  | _ => none

/-- The mutex of the context is taken and given back. -/
def wait : Option (Call π) :=
  match call.pc with
  | .written => some { call with pc := .asleep }
  | _ => none

def timeout : Option (Call π) :=
  match call.pc with
  | .asleep => some { call with pc := .awake, elapsed := true }
  | _ => none

def spurious : Option (Call π) :=
  match call.pc with
  | .asleep => some { call with pc := .awake }
  | _ => none

/-- `res = ctx->responsePtr`. -/
def read : Option (Call π) :=
  match call.pc with
  | .awake => some { call with pc := .read call.responsePtr }
  | _ => none

def finish : Option (Call π) :=
  match call.pc with
  | .read res => some { call with pc := .returned res }
  | _ => none

def store (message : π.Message) : Option (Call π) :=
  some { call with responsePtr := some message }

def notify : Option (Call π) :=
  some { call with pc := call.pc.roused, notified := true }

end Call

namespace State

variable (s : State π)

/-- A step of one call. -/
def withCall (i : ℕ) (f : Call π → Option (Call π)) : Option (State π) := do
  let call ← s.calls i
  let call ← f call
  pure { s with calls := Function.update s.calls i (some call) }

/-- Whether the calls can take `m_callsMutex`. -/
def unlocked : Bool :=
  match s.receiver with
  | .idle => true
  | _ => false

variable (m : Machine)

/-- `call` up to `codingToBuf`, whose result is not looked at; null at once if there is no
connection. -/
def call (i : ℕ) (req : π.Message) : Option (State π) :=
  if s.m_connState ≠ .kConnected then some s
  else if (s.calls i).isSome then none
  else
    let n := Word.add 32 s.s_id 1
    (codingToBuf m (Request.protoMsg ⟨n, req⟩)).map fun r =>
      { s with
        s_id := n
        calls := Function.update s.calls i (some
          { ulSequeNum := n
            bufSend := r.2.2
            requestPtr := req
            responsePtr := none
            pc := .coded
            notified := false
            elapsed := false }) }

/-- `m_calls[protoMsg.ulSequeNum] = ctx`. -/
def insert (i : ℕ) : Option (State π) :=
  if s.unlocked then do
    let call ← s.calls i
    let t ← s.withCall i Call.insert
    pure { t with m_calls := t.m_calls.insert call.ulSequeNum i }
  else none

/-- `channel->write`: nothing is written to a channel that is not open. -/
def write (i : ℕ) : Option (State π) := do
  let call ← s.calls i
  let t ← s.withCall i Call.write
  if s.m_connState = .kConnected then pure { t with sent := t.sent ++ [call.bufSend] } else pure t

/-- `m_calls.erase(protoMsg.ulSequeNum)`, and the return. -/
def finish (i : ℕ) : Option (State π) :=
  if s.unlocked then do
    let call ← s.calls i
    let t ← s.withCall i Call.finish
    pure { t with m_calls := t.m_calls.erase call.ulSequeNum }
  else none

/-- `onDealMessage` up to the look into `m_calls`; a message of no call is let go. -/
def receive (buf : List UInt8) : Option (State π) :=
  if s.unlocked then do
    let (errCode, protoRcv, _) ←
      decodingFromBuf m (some (ProtoRpcMessage.fresh π)) (some buf)
    let protoRcv ← protoRcv
    if errCode = .ERR_NONE then
      let message ← protoRcv.protoMsgPtr
      match s.m_calls.find protoRcv.ulSequeNum with
      | some i => pure { s with receiver := .found i message }
      | none => pure s
    else pure s
  else none

/-- `iterContex->second->responsePtr = std::move(protoRcv.protoMsgPtr)`. -/
def store : Option (State π) :=
  match s.receiver with
  | .found i message => do
    let t ← s.withCall i (Call.store · message)
    pure { t with receiver := .stored i }
  | _ => none

/-- `iterContex->second->notify()`. -/
def notify : Option (State π) :=
  match s.receiver with
  | .stored i => do
    let t ← s.withCall i Call.notify
    pure { t with receiver := .notified }
  | _ => none

def unlock : Option (State π) :=
  match s.receiver with
  | .notified => some { s with receiver := .idle }
  | _ => none

end State

/-- A client that is connecting, and no call. -/
def init (π : Protobuf) : State π where
  m_connState := .kConnecting
  s_id := 0
  calls _ := none
  m_calls := .empty
  receiver := .idle
  sent := []

def step (m : Machine) (s : State π) : Action π → Option (State π)
  | .connected => some { s with m_connState := .kConnected }
  | .disconnected => some { s with m_connState := .kDisconnectd }
  | .call i req => s.call m i req
  | .insert i => s.insert i
  | .write i => s.write i
  | .wait i => s.withCall i Call.wait
  | .timeout i => s.withCall i Call.timeout
  | .spurious i => s.withCall i Call.spurious
  | .read i => s.withCall i Call.read
  | .finish i => s.finish i
  | .receive buf => s.receive m buf
  | .store => s.store
  | .notify => s.notify
  | .unlock => s.unlock

/-! ### What a caller may count on -/

/-- A call has left its wait only with its response stored or the timeout run out, sleeps
neither when its response is stored and notified nor when the timeout has run out, and settles
on null only after the timeout. -/
structure Call.Served (call : Call π) : Prop where
  left : call.pc.left = true → call.responsePtr.isSome = true ∨ call.elapsed = true
  asleep : call.pc = .asleep →
    ¬ (call.responsePtr.isSome = true ∧ call.notified = true) ∧ call.elapsed = false
  result : call.pc.result = some none → call.elapsed = true

def Served (s : State π) : Prop := ∀ i call, s.calls i = some call → call.Served

/-- A call goes to sleep before its context is notified, and wakes for no reason only with its
response stored. -/
def Timely (s : State π) : Action π → Prop
  | .wait i => ∀ call, s.calls i = some call → call.pc = .written → call.notified = false
  | .spurious i => ∀ call, s.calls i = some call → call.pc = .asleep →
    call.responsePtr.isSome = true
  | _ => True

/-! ### One call -/

/-- What always holds of a call: a notification comes with a response, and the timeout is that
of a wait that is over. -/
structure Call.Inv (call : Call π) : Prop where
  notified : call.notified = true → call.responsePtr.isSome = true
  elapsed : call.elapsed = true → call.pc.left = true

/-- What a step does to a call that is served: the call is served after it exactly if `C`. -/
structure Call.Moves (call call' : Call π) (C : Prop) : Prop where
  inv : call.Inv → call'.Inv
  served : call.Inv → call.Served → (call'.Served ↔ C)
  stored : call.responsePtr.isSome = true → call'.responsePtr.isSome = true

namespace Call

variable {call call' : Call π}

/-- A step that only takes the call to another point. -/
lemma Moves.of_pc {pc : Pc π.Message} {C : Prop} (hkeep : call.pc.left = true → pc.left = true)
    (hserved : call.Inv → call.Served → (Served { call with pc := pc } ↔ C)) :
    call.Moves { call with pc := pc } C :=
  ⟨fun hi => ⟨hi.notified, fun he => hkeep (hi.elapsed he)⟩, hserved, id⟩

/-- A call before its wait is served. -/
lemma served_of_early (hleft : call.pc.left = false) (hne : call.pc ≠ .asleep) : call.Served := by
  refine ⟨fun h => ?_, fun h => absurd h hne, fun h => ?_⟩
  · rw [hleft] at h
    cases h
  · cases hpc : call.pc <;> rw [hpc] at hleft h <;> cases hleft <;> cases h

lemma insert_moves (h : call.insert = some call') : call.Moves call' True := by
  unfold insert at h
  split at h
  · next hpc =>
    obtain rfl := Option.some.inj h
    refine Moves.of_pc (fun hl => ?_) fun _ _ => iff_true_intro (served_of_early rfl nofun)
    rw [hpc] at hl
    cases hl
  · cases h

lemma write_moves (h : call.write = some call') : call.Moves call' True := by
  unfold write at h
  split at h
  · next hpc =>
    obtain rfl := Option.some.inj h
    refine Moves.of_pc (fun hl => ?_) fun _ _ => iff_true_intro (served_of_early rfl nofun)
    rw [hpc] at hl
    cases hl
  · cases h

/-- A call that falls asleep is served if it has not been notified yet. -/
lemma wait_moves (h : call.wait = some call') :
    call.pc = .written ∧ call.Moves call' (call.notified = false) := by
  unfold wait at h
  split at h
  · next hpc =>
    obtain rfl := Option.some.inj h
    refine ⟨hpc, Moves.of_pc (fun hl => ?_) fun hi _ =>
      ⟨fun hs => ?_, fun hn => ⟨nofun, ?_, nofun⟩⟩⟩
    · rw [hpc] at hl
      cases hl
    · cases hn : call.notified with
      | false => rfl
      | true => exact absurd ⟨hi.notified hn, hn⟩ (hs.asleep rfl).1
    · refine fun _ => ⟨fun hb => ?_, ?_⟩
      · have hnot : call.notified = true := hb.2
        rw [hn] at hnot
        cases hnot
      · cases he : call.elapsed with
        | false => rfl
        | true =>
          have hl := hi.elapsed he
          rw [hpc] at hl
          cases hl
  · cases h

lemma timeout_moves (h : call.timeout = some call') :
    call.pc = .asleep ∧ call.Moves call' True := by
  unfold timeout at h
  split at h
  · next hpc =>
    obtain rfl := Option.some.inj h
    exact ⟨hpc, fun hi => ⟨hi.notified, fun _ => rfl⟩,
      fun _ _ => iff_true_intro ⟨fun _ => .inr rfl, nofun, fun _ => rfl⟩, id⟩
  · cases h

/-- A call that wakes for no reason is served if its response is there. -/
lemma spurious_moves (h : call.spurious = some call') :
    call.pc = .asleep ∧ call.Moves call' (call.responsePtr.isSome = true) := by
  unfold spurious at h
  split at h
  · next hpc =>
    obtain rfl := Option.some.inj h
    refine ⟨hpc, Moves.of_pc (fun _ => rfl) fun _ hs => ⟨fun ht => ?_, fun hr => ?_⟩⟩
    · rcases ht.left rfl with hr | he
      · exact hr
      · have hne := (hs.asleep hpc).2
        rw [show call.elapsed = true from he] at hne
        cases hne
    · exact ⟨fun _ => .inl hr, nofun, nofun⟩
  · cases h

/-- Null is read only from a call that the timeout has woken. -/
lemma read_moves (h : call.read = some call') : call.Moves call' True := by
  unfold read at h
  split at h
  · next hpc =>
    obtain rfl := Option.some.inj h
    refine Moves.of_pc (fun _ => rfl) fun _ hs => iff_true_intro ?_
    have hleft := hs.left (by rw [hpc]; rfl)
    refine ⟨fun _ => hleft, nofun, fun hres => ?_⟩
    have hnone : call.responsePtr = none := Option.some.inj hres
    rw [hnone] at hleft
    rcases hleft with hr | he
    · cases hr
    · exact he
  · cases h

lemma finish_moves (h : call.finish = some call') : call.Moves call' True := by
  unfold finish at h
  split at h
  · next res hpc =>
    obtain rfl := Option.some.inj h
    refine Moves.of_pc (fun _ => rfl) fun _ hs => iff_true_intro ?_
    refine ⟨fun _ => hs.left (by rw [hpc]; rfl), nofun, fun hres => hs.result ?_⟩
    rw [hpc]
    exact hres
  · cases h

lemma store_moves {message : π.Message} (h : call.store message = some call') :
    call.Moves call' True := by
  obtain rfl := Option.some.inj h
  refine ⟨fun hi => ⟨fun _ => rfl, hi.elapsed⟩, fun hi hs => iff_true_intro ?_, fun _ => rfl⟩
  refine ⟨fun _ => .inl rfl, fun ha => ⟨fun hb => ?_, (hs.asleep ha).2⟩, hs.result⟩
  exact (hs.asleep ha).1 ⟨hi.notified hb.2, hb.2⟩

/-- Whoever is notified is not asleep. -/
lemma notify_moves (h : call.notify = some call') (hr : call.responsePtr.isSome = true) :
    call.Moves call' True := by
  obtain rfl := Option.some.inj h
  refine ⟨fun hi => ⟨fun _ => hr, fun he => ?_⟩,
    fun _ hs => iff_true_intro ⟨fun _ => .inl hr, fun ha => ?_, fun hres => ?_⟩, id⟩
  · exact Pc.left_roused (hi.elapsed he)
  · exact absurd ha call.pc.roused_ne_asleep
  · exact hs.result (by rw [← hres, Pc.result_roused])

end Call

/-! ### All calls -/

structure Inv (s : State π) : Prop where
  call : ∀ i call, s.calls i = some call → call.Inv
  stored : ∀ i, s.receiver = .stored i →
    ∃ call, s.calls i = some call ∧ call.responsePtr.isSome = true
  found : ∀ i message, s.receiver = .found i message → (s.calls i).isSome = true
  known : ∀ n i, s.m_calls.find n = some i → (s.calls i).isSome = true

lemma inv_init : Inv (init π) :=
  ⟨nofun, nofun, nofun, fun n i h => by simp [init, SortedMap.find, SortedMap.empty] at h⟩

lemma served_init : Served (init π) := nofun

variable {s t : State π} {i : ℕ} {f : Call π → Option (Call π)}

lemma withCall_some (h : s.withCall i f = some t) : ∃ call call', s.calls i = some call ∧
    f call = some call' ∧ t = { s with calls := Function.update s.calls i (some call') } := by
  obtain ⟨call, hcall, h⟩ := Option.bind_eq_some_iff.mp h
  obtain ⟨call', hcall', h⟩ := Option.bind_eq_some_iff.mp h
  exact ⟨call, call', hcall, hcall', (Option.some.inj h).symm⟩

/-- A state whose calls are those of another but for one, which has moved. -/
structure Moved (s t : State π) (i : ℕ) (call call' : Call π) (C : Prop) : Prop where
  was : s.calls i = some call
  calls : t.calls = Function.update s.calls i (some call')
  moves : call.Moves call' C

lemma Moved.isSome {call call' : Call π} {C : Prop} (h : Moved s t i call call' C) (j : ℕ)
    (hj : (s.calls j).isSome = true) : (t.calls j).isSome = true := by
  rw [h.calls]
  by_cases hji : j = i
  · rw [hji, Function.update_self]
    rfl
  · rwa [Function.update_of_ne hji]

lemma Moved.served {call call' : Call π} {C : Prop} (h : Moved s t i call call' C) (hi : Inv s)
    (hs : Served s) : Served t ↔ C := by
  have hcall := h.moves.served (hi.call i call h.was) (hs i call h.was)
  constructor
  · intro ht
    exact hcall.mp (ht i call' (by rw [h.calls, Function.update_self]))
  · intro hC j c hj
    rw [h.calls] at hj
    by_cases hji : j = i
    · rw [hji, Function.update_self] at hj
      obtain rfl := Option.some.inj hj
      exact hcall.mpr hC
    · rw [Function.update_of_ne hji] at hj
      exact hs j c hj

/-- The invariant after a move, if the receiving thread is where it was or is done. -/
lemma Moved.inv {call call' : Call π} {C : Prop} (h : Moved s t i call call' C) (hi : Inv s)
    (hstored : ∀ j, t.receiver = .stored j →
      s.receiver = .stored j ∨ j = i ∧ call'.responsePtr.isSome = true)
    (hfound : ∀ j message, t.receiver = .found j message → s.receiver = .found j message)
    (hknown : ∀ n j, t.m_calls.find n = some j → j = i ∨ s.m_calls.find n = some j) : Inv t := by
  have hself : t.calls i = some call' := by rw [h.calls, Function.update_self]
  refine ⟨fun j c hj => ?_, fun j hj => ?_, fun j message hj => ?_, fun n j hj => ?_⟩
  · rw [h.calls] at hj
    by_cases hji : j = i
    · rw [hji, Function.update_self] at hj
      obtain rfl := Option.some.inj hj
      exact h.moves.inv (hi.call i call h.was)
    · rw [Function.update_of_ne hji] at hj
      exact hi.call j c hj
  · rcases hstored j hj with hold | ⟨rfl, hr⟩
    · obtain ⟨c, hc, hr⟩ := hi.stored j hold
      by_cases hji : j = i
      · subst hji
        rw [h.was] at hc
        obtain rfl := Option.some.inj hc
        exact ⟨call', hself, h.moves.stored hr⟩
      · exact ⟨c, by rw [h.calls, Function.update_of_ne hji, hc], hr⟩
    · exact ⟨call', hself, hr⟩
  · exact h.isSome j (hi.found j message (hfound j message hj))
  · rcases hknown n j hj with rfl | hold
    · rw [hself]
      rfl
    · exact h.isSome j (hi.known n j hold)

/-! ### All steps -/

/-- A step keeps the invariant, and keeps all calls served exactly if `C`. -/
def Goes (s t : State π) (C : Prop) : Prop := Inv t ∧ (Served s → (Served t ↔ C))

/-- A step that leaves the calls as they are. -/
lemma goes_of_calls (hcalls : t.calls = s.calls) (hi : Inv t) : Goes s t True :=
  ⟨hi, fun hs => iff_true_intro fun i call hc => hs i call (by rw [← hcalls, hc])⟩

lemma Moved.goes {call call' : Call π} {C : Prop} (h : Moved s t i call call' C) (hi : Inv s)
    (hstored : ∀ j, t.receiver = .stored j →
      s.receiver = .stored j ∨ j = i ∧ call'.responsePtr.isSome = true)
    (hfound : ∀ j message, t.receiver = .found j message → s.receiver = .found j message)
    (hknown : ∀ n j, t.m_calls.find n = some j → j = i ∨ s.m_calls.find n = some j) :
    Goes s t C :=
  ⟨h.inv hi hstored hfound hknown, h.served hi⟩

lemma goes_of_withCall {C : Prop} (hi : Inv s) (h : s.withCall i f = some t)
    (hf : ∀ call call', s.calls i = some call → f call = some call' → call.Moves call' C) :
    Goes s t C := by
  obtain ⟨call, call', hcall, hcall', rfl⟩ := withCall_some h
  exact Moved.goes ⟨hcall, rfl, hf call call' hcall hcall'⟩ hi (fun _ => .inl) (fun _ _ => id)
    fun _ _ => .inr

variable {m : Machine}

lemma insert_goes (hi : Inv s) (h : s.insert i = some t) : Goes s t True := by
  unfold State.insert at h
  split at h
  · obtain ⟨call, -, h⟩ := Option.bind_eq_some_iff.mp h
    obtain ⟨u, hu, h⟩ := Option.bind_eq_some_iff.mp h
    obtain rfl := Option.some.inj h
    obtain ⟨c, c', hc, hc', rfl⟩ := withCall_some hu
    refine Moved.goes ⟨hc, rfl, Call.insert_moves hc'⟩ hi (fun _ => .inl) (fun _ _ => id) ?_
    intro n j hn
    rw [SortedMap.find_insert] at hn
    split at hn
    · exact .inl (Option.some.inj hn).symm
    · exact .inr hn
  · cases h

lemma write_goes (hi : Inv s) (h : s.write i = some t) : Goes s t True := by
  obtain ⟨call, -, h⟩ := Option.bind_eq_some_iff.mp h
  obtain ⟨u, hu, h⟩ := Option.bind_eq_some_iff.mp h
  obtain ⟨c, c', hc, hc', rfl⟩ := withCall_some hu
  have hmoves := Call.write_moves hc'
  split at h
  · obtain rfl := Option.some.inj h
    exact Moved.goes ⟨hc, rfl, hmoves⟩ hi (fun _ => .inl) (fun _ _ => id) fun _ _ => .inr
  · obtain rfl := Option.some.inj h
    exact Moved.goes ⟨hc, rfl, hmoves⟩ hi (fun _ => .inl) (fun _ _ => id) fun _ _ => .inr

lemma finish_goes (hi : Inv s) (h : s.finish i = some t) : Goes s t True := by
  unfold State.finish at h
  split at h
  · obtain ⟨call, -, h⟩ := Option.bind_eq_some_iff.mp h
    obtain ⟨u, hu, h⟩ := Option.bind_eq_some_iff.mp h
    obtain rfl := Option.some.inj h
    obtain ⟨c, c', hc, hc', rfl⟩ := withCall_some hu
    refine Moved.goes ⟨hc, rfl, Call.finish_moves hc'⟩ hi (fun _ => .inl) (fun _ _ => id) ?_
    intro n j hn
    rw [SortedMap.find_erase] at hn
    split at hn
    · cases hn
    · exact .inr hn
  · cases h

/-- A new call is served, and is in no map yet. -/
lemma call_goes {req : π.Message} (hi : Inv s) (h : s.call m i req = some t) : Goes s t True := by
  unfold State.call at h
  split at h
  · obtain rfl := Option.some.inj h
    exact goes_of_calls rfl hi
  · split at h
    · cases h
    · next hnew =>
      obtain ⟨r, -, rfl⟩ := Option.map_eq_some_iff.mp h
      have hother : ∀ j, (s.calls j).isSome = true → j ≠ i := by
        rintro j hj rfl
        exact hnew hj
      have hkept : ∀ j c, (s.calls j).isSome = true →
          (Function.update s.calls i (some c) j).isSome = true := by
        intro j c hj
        rwa [Function.update_of_ne (hother j hj)]
      refine ⟨⟨fun j c hj => ?_, fun j hj => ?_, fun j message hj => hkept j _ ?_,
        fun n j hn => hkept j _ ?_⟩, fun hs => iff_true_intro fun j c hj => ?_⟩
      · by_cases hji : j = i
        · simp only [hji, Function.update_self, Option.some.injEq] at hj
          rw [← hj]
          exact ⟨nofun, nofun⟩
        · simp only [Function.update_of_ne hji] at hj
          exact hi.call j c hj
      · obtain ⟨c, hc, hr⟩ := hi.stored j hj
        have hji := hother j (by rw [hc]; rfl)
        exact ⟨c, by simp only [Function.update_of_ne hji, hc], hr⟩
      · exact hi.found j message hj
      · exact hi.known n j hn
      · by_cases hji : j = i
        · simp only [hji, Function.update_self, Option.some.injEq] at hj
          rw [← hj]
          exact Call.served_of_early rfl nofun
        · simp only [Function.update_of_ne hji] at hj
          exact hs j c hj

/-- The receiving thread finds a call that is known. -/
lemma receive_goes {buf : List UInt8} (hi : Inv s) (h : s.receive m buf = some t) :
    Goes s t True := by
  unfold State.receive at h
  split at h
  · obtain ⟨⟨errCode, protoRcv, c⟩, -, h⟩ := Option.bind_eq_some_iff.mp h
    obtain ⟨protoRcv, -, h⟩ := Option.bind_eq_some_iff.mp h
    split at h
    · obtain ⟨message, -, h⟩ := Option.bind_eq_some_iff.mp h
      split at h
      · next i hfind =>
        obtain rfl := Option.some.inj h
        refine goes_of_calls rfl ⟨hi.call, nofun, fun j _ hj => ?_, hi.known⟩
        obtain ⟨rfl, -⟩ := Receiver.found.inj hj
        exact hi.known _ _ hfind
      · obtain rfl := Option.some.inj h
        exact goes_of_calls rfl hi
    · obtain rfl := Option.some.inj h
      exact goes_of_calls rfl hi
  · cases h

lemma store_goes (hi : Inv s) (h : s.store = some t) : Goes s t True := by
  unfold State.store at h
  split at h
  · next i message hrec =>
    obtain ⟨u, hu, h⟩ := Option.bind_eq_some_iff.mp h
    obtain rfl := Option.some.inj h
    obtain ⟨c, c', hc, hc', rfl⟩ := withCall_some hu
    refine Moved.goes ⟨hc, rfl, Call.store_moves hc'⟩ hi (fun j hj => .inr ?_) nofun fun _ _ => .inr
    rw [← Option.some.inj hc']
    exact ⟨(Receiver.stored.inj hj).symm, rfl⟩
  · cases h

lemma notify_goes (hi : Inv s) (h : s.notify = some t) : Goes s t True := by
  unfold State.notify at h
  split at h
  · next i hrec =>
    obtain ⟨u, hu, h⟩ := Option.bind_eq_some_iff.mp h
    obtain rfl := Option.some.inj h
    obtain ⟨c, c', hc, hc', rfl⟩ := withCall_some hu
    have hr : c.responsePtr.isSome = true := by
      obtain ⟨d, hd, hr⟩ := hi.stored i hrec
      rw [hc] at hd
      rwa [Option.some.inj hd]
    exact Moved.goes ⟨hc, rfl, Call.notify_moves hc' hr⟩ hi nofun nofun fun _ _ => .inr
  · cases h

lemma unlock_goes (hi : Inv s) (h : s.unlock = some t) : Goes s t True := by
  unfold State.unlock at h
  split at h
  · obtain rfl := Option.some.inj h
    exact goes_of_calls rfl ⟨hi.call, nofun, nofun, hi.known⟩
  · cases h

/-- A step of a call under a condition on the point it is at. -/
lemma withCall_goes {C : Call π → Prop} (hi : Inv s) (h : s.withCall i f = some t)
    (hf : ∀ call call', f call = some call' → call.Moves call' (C call)) :
    Goes s t (∀ call, s.calls i = some call → C call) := by
  obtain ⟨c, c', hc, hc', ht⟩ := withCall_some h
  have hall : (∀ call, s.calls i = some call → C call) ↔ C c := by
    rw [hc]
    exact ⟨fun hC => hC c rfl, fun hC call he => Option.some.inj he ▸ hC⟩
  rw [hall]
  refine goes_of_withCall hi h fun call call' hcall hcall' => ?_
  rw [hc] at hcall
  obtain rfl := Option.some.inj hcall
  exact hf c call' hcall'

lemma step_goes {a : Action π} (hi : Inv s) (h : step m s a = some t) : Goes s t (Timely s a) := by
  cases a with
  | connected | disconnected =>
    obtain rfl := Option.some.inj h
    exact goes_of_calls rfl ⟨hi.call, hi.stored, hi.found, hi.known⟩
  | call i req => exact call_goes hi h
  | insert i => exact insert_goes hi h
  | write i => exact write_goes hi h
  | wait i =>
    refine withCall_goes hi h fun call call' hc => ?_
    obtain ⟨hpc, hmoves⟩ := Call.wait_moves hc
    simpa only [hpc, true_imp_iff] using hmoves
  | timeout i => exact goes_of_withCall hi h fun _ _ _ hc => (Call.timeout_moves hc).2
  | spurious i =>
    refine withCall_goes hi h fun call call' hc => ?_
    obtain ⟨hpc, hmoves⟩ := Call.spurious_moves hc
    simpa only [hpc, true_imp_iff] using hmoves
  | read i => exact goes_of_withCall hi h fun _ _ _ => Call.read_moves
  | finish i => exact finish_goes hi h
  | receive buf => exact receive_goes hi h
  | store => exact store_goes hi h
  | notify => exact notify_goes hi h
  | unlock => exact unlock_goes hi h

/-- A step that cannot be taken asks for nothing. -/
lemma timely_of_none {a : Action π} (h : step m s a = none) : Timely s a := by
  cases a with
  | wait i =>
    intro call hcall hpc
    simp [step, State.withCall, hcall, Call.wait, hpc] at h
  | spurious i =>
    intro call hcall hpc
    simp [step, State.withCall, hcall, Call.spurious, hpc] at h
  | _ => trivial

/-- The receiving thread is never stuck: the context it has found is there. -/
lemma store_isSome {message : π.Message} (hi : Inv s) (h : s.receiver = .found i message) :
    s.store.isSome = true := by
  obtain ⟨call, hcall⟩ := Option.isSome_iff_exists.mp (hi.found i message h)
  simp [State.store, h, State.withCall, hcall, Call.store]

/-- **Waiting calls**: in every state of a run all calls are served exactly when each goes to
sleep before it is notified and none wakes for no reason before its response is stored. -/
theorem timely_iff_served (m : Machine) (as : List (Action π)) :
    Throughout (step m) Served (init π) as ↔
      Always (step m) (fun _ => Timely) (init π) as :=
  throughout_iff inv_init served_init (fun _ _ _ hi hs => (step_goes hi hs).1)
    (fun _ _ _ hi hr hs => (step_goes hi hs).2 hr) (fun _ _ => timely_of_none) as

/-! ### A response that comes too early, and a wait that ends for no reason -/

/-- A call up to the writing of its request. -/
def asked : List (Action (rawProtobuf [[112, 46, 65]])) :=
  [.connected, .call 0 sampleMessage, .insert 0, .write 0]

/-- The response is there before the call sleeps. -/
def lostNotify : List (Action (rawProtobuf [[112, 46, 65]])) :=
  asked ++ [.receive (frame linux64 1 [112, 46, 65] [8, 1]), .store, .notify, .unlock, .wait 0]

/-- The call wakes, and returns null. -/
def wokenForNothing : List (Action (rawProtobuf [[112, 46, 65]])) :=
  asked ++ [.wait 0, .spurious 0, .read 0, .finish 0]

/-- A state with a call as described shows that not all are served. -/
lemma not_served_of_run {as : List (Action π)} {q : Call π → Bool}
    (hrun : ((exec (step m) (init π) as).bind (·.calls 0)).any q = true)
    (hq : ∀ call, q call = true → ¬ call.Served) : ¬ Throughout (step m) Served (init π) as := by
  intro h
  obtain ⟨call, hcall, hqc⟩ := (Option.any_eq_true _ _).mp hrun
  obtain ⟨t, ht, hcall⟩ := Option.bind_eq_some_iff.mp hcall
  exact hq call hqc (h as [] t (List.append_nil as).symm ht 0 call hcall)

/-- **Lost and idle wakes**: after the one run the call sleeps although its response is stored and
notified; in the other it has returned null and the timeout has not run out. -/
theorem lostNotify_not_served :
    ¬ Throughout (step linux64) Served (init _) lostNotify ∧
      ¬ Throughout (step linux64) Served (init _) wokenForNothing := by
  constructor
  · refine not_served_of_run (q := fun call =>
      call.timeout.isSome && call.responsePtr.isSome && call.notified) (by decide +kernel) ?_
    intro call hq hs
    simp only [Bool.and_eq_true] at hq
    obtain ⟨call', hc⟩ := Option.isSome_iff_exists.mp hq.1.1
    exact (hs.asleep (Call.timeout_moves hc).1).1 ⟨hq.1.2, hq.2⟩
  · refine not_served_of_run (q := fun call =>
      call.pc.result.any Option.isNone && !call.elapsed) (by decide +kernel) ?_
    intro call hq hs
    simp only [Bool.and_eq_true, Bool.not_eq_true', Option.any_eq_true,
      Option.isNone_iff_eq_none] at hq
    obtain ⟨⟨res, hres, rfl⟩, hel⟩ := hq
    rw [hs.result hres] at hel
    cases hel

end MmrService.RpcWait
