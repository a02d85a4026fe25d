import MmrService.ProtoServer
import Mathlib.Logic.Function.Basic

/-!
The login gate of the server, over all its connections.

Connections come and go, and any bytes may be read from any of them, also bytes for which the
decoder reads outside the buffer and finds there what it finds. The mark of a client that has
logged in belongs to one channel and is made by `setClientState` only.
-/

namespace MmrService.ProtoServer

open BufConvert ProtoCodec Transition

variable {π : Protobuf} {κ : Type}

/-! ### Reads that the bytes do not decide -/

/-- What the source leaves open in a read: what a decoding makes of what it finds outside its
buffer, and what is written for a response whose frame does not fit an `int`. The process may
also end there. -/
structure Undefined (π : Protobuf) where
  decoded : Option (EM_ErrCode × ProtoRpcMessage π × Cursor)
  encoded : Option (List UInt8)

/-- What follows from what a decoding returns. -/
def verdictOf (bLegState : Bool) (d : EM_ErrCode × ProtoRpcMessage π × Cursor) :
    Option (Verdict π) :=
  if d.1 = .ERR_NONE then do
    let request ← d.2.1.protoMsgPtr
    if bLegState ∨ π.GetTypeName request = loginRequest then pure (.dispatch d.2.1 request)
    else pure (.echo d.2.2.buf)
  else pure (.echo d.2.2.buf)

/-- What a buffer decodes to, whatever is found outside it. -/
def decoded (m : Machine) (buf : List UInt8) (u : Undefined π) :
    Option (EM_ErrCode × ProtoRpcMessage π × Cursor) :=
  (decodeBuf m (ProtoRpcMessage.fresh π) buf).or u.decoded

variable (sv : CProtoServer π κ)

/-- A verdict carried out; of a response that cannot be encoded anything may be written. -/
def dealt (s : Session π κ) (u : Undefined π) (onMessage : OnMessage π κ) (v : Verdict π) :
    Option (Session π κ) :=
  (deal sv onMessage s v).or <| match v with
    | .dispatch msg request => u.encoded.map fun outBuf =>
      ((s.log (dispatchOf sv onMessage msg request)).setClientState true).write outBuf
    | .echo _ => none

/-- `onDealMessage`, for every buffer. -/
def receive (s : Session π κ) (buf : List UInt8) (u : Undefined π) (onMessage : OnMessage π κ) :
    Option (Session π κ) := do
  let d ← decoded sv.machine buf u
  let v ← verdictOf s.channel.m_bLegClient d
  dealt sv s u onMessage v

/-! ### The connections -/

/-- `channels`: the connections by the id of their socket. -/
abbrev Channels (π : Protobuf) (κ : Type) := ℕ → Option (Session π κ)

inductive Event (π : Protobuf) (κ : Type)
  /-- `newConnEvent`: a channel is made for a socket just accepted. -/
  | newConn (id : ℕ)
  /-- A read of a connection, and what the callbacks answer at the time. -/
  | read (id : ℕ) (buf : List UInt8) (u : Undefined π) (onMessage : OnMessage π κ)
  /-- `onclose`: the channel is removed. -/
  | closed (id : ℕ)

/-- One event of the server. Nothing is read from a channel that has been closed. -/
def serve (s : Channels π κ) : Event π κ → Option (Channels π κ)
  | .newConn id => some (Function.update s id (some (Session.fresh π κ)))
  | .read id buf u onMessage => do
    let channel ← s id
    if channel.channel.opened then do
      let channel ← receive sv channel buf u onMessage
      pure (Function.update s id (some channel))
    else pure s
  | .closed id => some (Function.update s id none)

/-- The requests a read dispatches, also one during which the process ends. -/
def dispatchedBy (s : Channels π κ) (id : ℕ) (buf : List UInt8) (u : Undefined π)
    (onMessage : OnMessage π κ) : List (Dispatch π κ) :=
  match s id with
  | none => []
  | some channel =>
    if channel.channel.opened then
      (((decoded sv.machine buf u).bind (verdictOf channel.channel.m_bLegClient)).map
        (Verdict.dispatches sv onMessage)).getD []
    else []

/-- A buffer decodes to a `LoginRequest` whose callback answers. -/
def LogsIn (buf : List UInt8) (u : Undefined π) (onMessage : OnMessage π κ) : Prop :=
  ∃ msg walk request callback response,
    decoded sv.machine buf u = some (.ERR_NONE, msg, walk) ∧
    msg.protoMsgPtr = some request ∧ π.GetTypeName request = loginRequest ∧
    sv.m_mapCallbacks_ (π.GetDescriptor request) = some callback ∧
    onMessage callback request = some response

/-- A buffer that logs in was read from the connection that now has the id. -/
def LoggedIn (h : List (Event π κ)) (id : ℕ) : Prop :=
  ∃ before buf u onMessage after, h = before ++ .read id buf u onMessage :: after ∧
    LogsIn sv buf u onMessage ∧ .newConn id ∉ after

/-- A read that passes a message of another type to a callback comes after one that logs in. -/
def Gated (h : List (Event π κ)) (s : Channels π κ) : Event π κ → Prop
  | .read id buf u onMessage =>
    ∀ d ∈ dispatchedBy sv s id buf u onMessage, ∀ request ∈ d.request.protoMsgPtr,
      d.callback.isSome → π.GetTypeName request ≠ loginRequest → LoggedIn sv h id
  | _ => True

/-! ### What opens the gate -/

variable {sv} {h : List (Event π κ)} {id : ℕ}

lemma LoggedIn.snoc (hl : LoggedIn sv h id) {e : Event π κ} (he : e ≠ .newConn id) :
    LoggedIn sv (h ++ [e]) id := by
  obtain ⟨before, buf, u, onMessage, after, rfl, hin, hnew⟩ := hl
  refine ⟨before, buf, u, onMessage, after ++ [e], by simp, hin, fun hm => ?_⟩
  rcases List.mem_append.mp hm with hm | hm
  · exact hnew hm
  · exact he (List.mem_singleton.mp hm).symm

/-- A callback answers a request that the map has a callback for. -/
lemma dealProtobufMessage_some {onMessage : OnMessage π κ} {request response : π.Message}
    (h : dealProtobufMessage sv onMessage request = some response) :
    ∃ callback, sv.m_mapCallbacks_ (π.GetDescriptor request) = some callback ∧
      onMessage callback request = some response := by
  unfold dealProtobufMessage at h
  split at h
  · cases h
  · next callback hc => exact ⟨callback, hc, h⟩

lemma leg_write (s : Session π κ) (buf : List UInt8) :
    (s.write buf).channel.m_bLegClient = s.channel.m_bLegClient := by
  unfold Session.write
  split_ifs <;> rfl

/-- The mark is made by a request that is answered, and kept by everything else. -/
lemma dealt_leg {onMessage : OnMessage π κ} {s t : Session π κ} {u : Undefined π}
    {v : Verdict π} (h : dealt sv s u onMessage v = some t)
    (ht : t.channel.m_bLegClient = true) :
    s.channel.m_bLegClient = true ∨ ∃ msg request response,
      v = .dispatch msg request ∧ dealProtobufMessage sv onMessage request = some response := by
  cases v with
  | echo buf =>
    have h' : (s.write buf).close = t := Option.some.inj h
    rw [← h'] at ht
    exact .inl ((leg_write s buf).symm.trans ht)
  | dispatch msg request =>
    rcases hr : dealProtobufMessage sv onMessage request with _ | response
    · unfold dealt at h
      rw [deal_unanswered sv onMessage s msg hr, Option.some_or, Option.some.injEq] at h
      rw [← h] at ht
      exact .inl ht
    · exact .inr ⟨msg, request, response, rfl, hr⟩

/-- A verdict is to dispatch if the client has logged in, or if the request is a login. -/
lemma verdictOf_dispatch {bLegState : Bool} {d : EM_ErrCode × ProtoRpcMessage π × Cursor}
    {msg : ProtoRpcMessage π} {request : π.Message}
    (h : verdictOf bLegState d = some (.dispatch msg request)) :
    d.1 = .ERR_NONE ∧ d.2.1 = msg ∧ msg.protoMsgPtr = some request ∧
      (bLegState = true ∨ π.GetTypeName request = loginRequest) := by
  unfold verdictOf at h
  split_ifs at h with herr
  · obtain ⟨request', hmsg, h⟩ := Option.bind_eq_some_iff.mp h
    split_ifs at h with hleg
    · obtain ⟨rfl, rfl⟩ := Verdict.dispatch.inj (Option.some.inj h)
      exact ⟨herr, rfl, hmsg, hleg⟩
    · cases Option.some.inj h
  · cases Option.some.inj h

/-- A read that makes the mark is one that logs in. -/
lemma read_opens {onMessage : OnMessage π κ} {buf : List UInt8} {u : Undefined π}
    {s t : Session π κ} (hs : s.channel.m_bLegClient = false)
    (h : receive sv s buf u onMessage = some t) (ht : t.channel.m_bLegClient = true) :
    LogsIn sv buf u onMessage := by
  obtain ⟨⟨errCode, msg', walk⟩, hdec, h⟩ := Option.bind_eq_some_iff.mp h
  obtain ⟨v, hv, hd⟩ := Option.bind_eq_some_iff.mp h
  rcases dealt_leg hd ht with hleg | ⟨msg, request, response, rfl, hr⟩
  · rw [hs] at hleg; cases hleg
  · rw [hs] at hv
    obtain ⟨rfl, rfl, hmsg, hname⟩ := verdictOf_dispatch hv
    obtain ⟨callback, hc, ha⟩ := dealProtobufMessage_some hr
    have hname : π.GetTypeName request = loginRequest := by simpa using hname
    exact ⟨_, walk, request, callback, response, hdec, hmsg, hname, hc, ha⟩

/-! ### The invariant -/

/-- A channel that carries the mark has had its login. -/
def MarksEarned (sv : CProtoServer π κ) (h : List (Event π κ)) (s : Channels π κ) : Prop :=
  ∀ id, ∀ channel ∈ s id, channel.channel.m_bLegClient = true → LoggedIn sv h id

/-- A step that changes one connection keeps the marks of the others. -/
lemma MarksEarned.update {s : Channels π κ} (hi : MarksEarned sv h s) {e : Event π κ}
    (hother : ∀ id', id' ≠ id → e ≠ .newConn id') {x : Option (Session π κ)}
    (hx : ∀ channel ∈ x, channel.channel.m_bLegClient = true → LoggedIn sv (h ++ [e]) id) :
    MarksEarned sv (h ++ [e]) (Function.update s id x) := by
  intro id' channel hc hleg
  rw [Function.update_apply] at hc
  split_ifs at hc with hid
  · exact hid ▸ hx channel hc hleg
  · exact (hi id' channel hc hleg).snoc (hother id' hid)

lemma MarksEarned.serve {s t : Channels π κ} {e : Event π κ} (hi : MarksEarned sv h s)
    (hs : serve sv s e = some t) : MarksEarned sv (h ++ [e]) t := by
  cases e with
  | newConn id =>
    rw [← Option.some.inj hs]
    refine hi.update (fun id' hne he => hne (Event.newConn.inj he).symm) ?_
    rintro channel hc hleg
    rw [← Option.some.inj hc] at hleg
    cases hleg
  | closed id =>
    rw [← Option.some.inj hs]
    exact hi.update (fun id' _ => by simp) (by simp)
  | read id buf u onMessage =>
    obtain ⟨channel, hc, hs⟩ := Option.bind_eq_some_iff.mp hs
    split_ifs at hs with hopen
    · obtain ⟨channel', hd, hs⟩ := Option.bind_eq_some_iff.mp hs
      rw [← Option.some.inj hs]
      refine hi.update (fun id' _ => by simp) ?_
      rintro x hx hleg
      rw [← Option.some.inj hx] at hleg
      by_cases hm : channel.channel.m_bLegClient = true
      · exact (hi id channel hc hm).snoc (by simp)
      · have hin := read_opens (Bool.not_eq_true _ ▸ hm) hd hleg
        exact ⟨h, buf, u, onMessage, [], rfl, hin, by simp⟩
    · rw [← Option.some.inj hs]
      exact fun id' channel hc hleg => (hi id' channel hc hleg).snoc (by simp)

/-- A read dispatches another type than `LoginRequest` only for a marked channel. -/
lemma MarksEarned.gated {s : Channels π κ} (hi : MarksEarned sv h s) (e : Event π κ) :
    Gated sv h s e := by
  cases e with
  | newConn | closed => trivial
  | read id buf u onMessage =>
    intro d hd request hreq _ hname
    unfold dispatchedBy at hd
    rcases hc : s id with _ | channel
    · simp [hc] at hd
    rw [hc] at hd
    rcases hv : (decoded sv.machine buf u).bind (verdictOf channel.channel.m_bLegClient) with _ | v
    · simp [hv] at hd
    simp only [hv, Option.map_some, Option.getD_some] at hd
    split_ifs at hd
    · cases v with
      | echo => simp [Verdict.dispatches] at hd
      | dispatch msg request' =>
        obtain ⟨dec, -, hv⟩ := Option.bind_eq_some_iff.mp hv
        obtain ⟨-, -, hmsg, hlegal⟩ := verdictOf_dispatch hv
        obtain rfl := List.mem_singleton.mp hd
        have heq : request' = request := Option.some.inj (hmsg.symm.trans hreq)
        rcases hlegal with hleg | hlogin
        · exact hi id channel hc hleg
        · exact absurd (heq ▸ hlogin) hname
    · cases hd

end MmrService.ProtoServer
