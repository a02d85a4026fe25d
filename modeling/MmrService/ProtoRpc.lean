import MmrService.ProtoFraming
import MmrService.Lib.SortedMap
import Mathlib.Logic.Function.Basic

/-!
`CProtoRpcClient` and the calls of any number of clients on one server.

Calls take the steps of `CProtoRpcClient::call` one at a time and in any order; the wait of a
call may end at any moment. Each connection carries the frames written to it, whole and in
order. A client that loses its connection makes a new one, and the server may still read what
is left of an old one.
-/

namespace MmrService.ProtoRpc

open BufConvert ProtoCodec ProtoServer

variable {π : Protobuf} {κ γ ρ : Type}

inductive emConnState
  | kInitialized | kConnecting | kConnected | kDisconnectd
  deriving DecidableEq

/-- Where a call stands. -/
inductive Pc (μ : Type)
  /-- The request is encoded. -/
  | coded
  /-- The context is in `m_calls`. -/
  | inserted
  /-- The request is written. -/
  | waiting
  /-- The wait is over, and `responsePtr` has been read. -/
  | woken (res : Option μ)
  | returned (res : Option μ)

/-- A call has not returned. -/
def Pc.running {μ : Type} : Pc μ → Bool
  | .returned _ => false
  | _ => true

/-- The request of a call is still to be written. -/
def Pc.unwritten {μ : Type} : Pc μ → Bool
  | .coded | .inserted => true
  | _ => false

/-- A `call` with its context, and the connection its request was written to. -/
structure Call (π : Protobuf) (γ : Type) where
  client : γ
  ulSequeNum : ℕ
  bufSend : List UInt8
  requestPtr : π.Message
  responsePtr : Option π.Message
  connection : Option ℕ
  pc : Pc π.Message

/-- A client; the contexts in `m_calls` are given by their calls, and the connections a client
makes are numbered. -/
structure CProtoRpcClient where
  m_connState : emConnState
  m_calls : SortedMap ℕ ℕ
  opened : Bool
  connection : ℕ

/-- A connection: what the server has not yet read, and its side. -/
structure Connection (π : Protobuf) (κ : Type) where
  up : List (List UInt8)
  session : Session π κ

/-- A server, the builds of the clients, and the processes they run in. -/
structure Deployment (π : Protobuf) (κ γ ρ : Type) where
  server : CProtoServer π κ
  machine : γ → Machine
  process : γ → ρ

structure State (π : Protobuf) (κ γ ρ : Type) where
  s_id : ρ → ℕ
  calls : SortedMap ℕ (Call π γ)
  clients : γ → CProtoRpcClient
  conns : γ × ℕ → Connection π κ

inductive Action (π : Protobuf) (κ γ : Type)
  | connected (c : γ)
  | disconnected (c : γ)
  /-- A client calls, up to the encoding of the request; `i` is new. -/
  | call (c : γ) (i : ℕ) (req : π.Message)
  | insert (i : ℕ)
  | write (i : ℕ)
  | wake (i : ℕ)
  | finish (i : ℕ)
  /-- The server reads from a connection. -/
  | serverRead (c : γ) (k : ℕ) (onMessage : OnMessage π κ)
  /-- A client reads from its connection. -/
  | clientRead (c : γ)

namespace State

variable [DecidableEq γ]

def setCall (s : State π κ γ ρ) (i : ℕ) (call : Call π γ) : State π κ γ ρ :=
  { s with calls := s.calls.insert i call }

def setClient (s : State π κ γ ρ) (c : γ) (client : CProtoRpcClient) : State π κ γ ρ :=
  { s with clients := Function.update s.clients c client }

def setConn (s : State π κ γ ρ) (k : γ × ℕ) (conn : Connection π κ) : State π κ γ ρ :=
  { s with conns := Function.update s.conns k conn }

/-- The number of the next call of a process. -/
def nextId (s : State π κ γ ρ) (p : ρ) : ℕ := Word.add 32 (s.s_id p) 1

/-- The connection a client uses. -/
def current (s : State π κ γ ρ) (c : γ) : γ × ℕ := (c, (s.clients c).connection)

/-- `onDealConnection`, connected. -/
def connected (s : State π κ γ ρ) (c : γ) : Option (State π κ γ ρ) :=
  let client := s.clients c
  if client.opened then none
  else some (s.setClient c
    { client with
      m_connState := .kConnected
      opened := true
      connection := client.connection + 1 })

/-- `onDealConnection`, disconnected. -/
def disconnected (s : State π κ γ ρ) (c : γ) : State π κ γ ρ :=
  s.setClient c
    { s.clients c with
      m_connState := .kDisconnectd
      opened := false }

/-- `call` up to `codingToBuf`, whose result is not looked at. -/
def call [DecidableEq ρ] (D : Deployment π κ γ ρ) (s : State π κ γ ρ) (c : γ) (i : ℕ)
    (req : π.Message) : Option (State π κ γ ρ) :=
  if (s.clients c).m_connState ≠ .kConnected then some s
  else if (s.calls.find i).isSome then none
  else
    let n := s.nextId (D.process c)
    (codingToBuf (D.machine c) (Request.protoMsg ⟨n, req⟩)).map fun r =>
      { s with s_id := Function.update s.s_id (D.process c) n }.setCall i
        { client := c
          ulSequeNum := n
          bufSend := r.2.2
          requestPtr := req
          responsePtr := none
          connection := none
          pc := .coded }

/-- `m_calls[protoMsg.ulSequeNum] = ctx`. -/
def insert (s : State π κ γ ρ) (i : ℕ) : Option (State π κ γ ρ) := do
  let call ← s.calls.find i
  match call.pc with
  | .coded =>
    let client := s.clients call.client
    pure ((s.setCall i { call with pc := .inserted }).setClient call.client
      { client with m_calls := client.m_calls.insert call.ulSequeNum i })
  | _ => none

/-- `channel->write`: nothing is written to a channel that is not open. -/
def write (s : State π κ γ ρ) (i : ℕ) : Option (State π κ γ ρ) := do
  let call ← s.calls.find i
  match call.pc with
  | .inserted =>
    let client := s.clients call.client
    let k := s.current call.client
    let conn := s.conns k
    if client.opened then
      pure ((s.setCall i
          { call with
            connection := some client.connection
            pc := .waiting }).setConn k
        { conn with up := conn.up ++ [call.bufSend] })
    else pure (s.setCall i { call with pc := .waiting })
  | _ => none

/-- The end of `ctx->wait`, and `res = ctx->responsePtr`. The copy takes no lock: it is one step
here, before or after the one that stores a response. -/
def wake (s : State π κ γ ρ) (i : ℕ) : Option (State π κ γ ρ) := do
  let call ← s.calls.find i
  match call.pc with
  | .waiting => pure (s.setCall i { call with pc := .woken call.responsePtr })
  | _ => none

/-- `m_calls.erase(protoMsg.ulSequeNum)`, and the return. -/
def finish (s : State π κ γ ρ) (i : ℕ) : Option (State π κ γ ρ) := do
  let call ← s.calls.find i
  match call.pc with
  | .woken res =>
    let client := s.clients call.client
    pure ((s.setClient call.client
        { client with m_calls := client.m_calls.erase call.ulSequeNum }).setCall i
      { call with pc := .returned res })
  | _ => none

def serverRead (D : Deployment π κ γ ρ) (s : State π κ γ ρ) (k : γ × ℕ)
    (onMessage : OnMessage π κ) : Option (State π κ γ ρ) :=
  match (s.conns k).up with
  | [] => none
  | buf :: up => (onDealMessage D.server onMessage (s.conns k).session buf).map fun session =>
    s.setConn k ⟨up, session⟩

/-- `onDealMessage` of a client: the response goes to the call waiting under its number. -/
def onDealResponse (D : Deployment π κ γ ρ) (s : State π κ γ ρ) (c : γ) (buf : List UInt8) :
    Option (State π κ γ ρ) := do
  let (errCode, protoRcv, _) ←
    decodingFromBuf (D.machine c) (some (ProtoRpcMessage.fresh π)) (some buf)
  let protoRcv ← protoRcv
  if errCode = .ERR_NONE then
    let message ← protoRcv.protoMsgPtr
    match (s.clients c).m_calls.find protoRcv.ulSequeNum with
    | some i =>
      match s.calls.find i with
      | some call => pure (s.setCall i { call with responsePtr := some message })
      | none => none
    | none => pure s
  else pure s

def clientRead (D : Deployment π κ γ ρ) (s : State π κ γ ρ) (c : γ) : Option (State π κ γ ρ) :=
  let conn := s.conns (s.current c)
  match conn.session.sent with
  | [] => none
  | buf :: sent =>
    if (s.clients c).opened then
      onDealResponse D (s.setConn (s.current c)
        { conn with session := { conn.session with sent := sent } }) c buf
    else none

end State

/-- Clients that are connecting, and no call. -/
def init (π : Protobuf) (κ γ ρ : Type) : State π κ γ ρ where
  s_id := fun _ => 0
  calls := .empty
  clients := fun _ => ⟨.kConnecting, .empty, false, 0⟩
  conns := fun _ => ⟨[], Session.fresh π κ⟩

def step [DecidableEq γ] [DecidableEq ρ] (D : Deployment π κ γ ρ) (s : State π κ γ ρ) :
    Action π κ γ → Option (State π κ γ ρ)
  | .connected c => s.connected c
  | .disconnected c => some (s.disconnected c)
  | .call c i req => s.call D c i req
  | .insert i => s.insert i
  | .write i => s.write i
  | .wake i => s.wake i
  | .finish i => s.finish i
  | .serverRead c k onMessage => s.serverRead D (c, k) onMessage
  | .clientRead c => s.clientRead D c

/-! ### What calls rely on -/

/-- The sequence number and the message that a build takes a buffer for. -/
def accepted (m : Machine) (π : Protobuf) (buf : List UInt8) : Option (ℕ × π.Message) := do
  let (errCode, protoMsg, _) ← decodeBuf m (ProtoRpcMessage.fresh π) buf
  if errCode = .ERR_NONE then
    let message ← protoMsg.protoMsgPtr
    pure (protoMsg.ulSequeNum, message)
  else none

lemma accepted_some {m : Machine} {buf : List UInt8} {msg : ProtoRpcMessage π}
    {message : π.Message} {c : Cursor}
    (hd : decodeBuf m (ProtoRpcMessage.fresh π) buf = some (.ERR_NONE, msg, c))
    (hmsg : msg.protoMsgPtr = some message) :
    accepted m π buf = some (msg.ulSequeNum, message) := by
  unfold accepted
  rw [hd, Option.bind_eq_bind, Option.bind_some]
  simp only [if_true, hmsg]
  rfl

/-- What one build writes for a number and a message the other takes for these or for nothing. -/
def ReadsBack (m m' : Machine) (n : ℕ) (message : π.Message) : Prop :=
  ∀ r ∈ codingToBuf m (Request.protoMsg ⟨n, message⟩), ∀ x ∈ accepted m' π r.2.2,
    x = (n, message)

/-- A build **reads back** what one that writes the same frame has written for a known type. -/
theorem readsBack_of_sendable (hπ : π.Lawful) {m m' : Machine} {n : ℕ} {message : π.Message}
    (hq : Request.Sendable ⟨n, message⟩)
    (halike : Request.bytes m ⟨n, message⟩ = Request.bytes m' ⟨n, message⟩) :
    ReadsBack m m' n message := by
  intro r hr x hx
  have hbytes : Request.bytes m ⟨n, message⟩ = r.2.2 := by
    unfold Request.bytes
    rw [Option.mem_def.mp hr]
    rfl
  obtain ⟨msg, c, hd, hn, hmsg⟩ := Request.decodeBuf_bytes hπ hq m'
  rw [← halike, hbytes] at hd
  rw [accepted_some hd hmsg, hn] at hx
  exact (Option.some.inj hx).symm

/-- No call of the client that has not returned has the number, and no frame on its connection
is taken for one with the number. -/
def Unused (D : Deployment π κ γ ρ) (s : State π κ γ ρ) (c : γ) (n : ℕ) : Prop :=
  (∀ e ∈ s.calls.entries, e.2.client = c → e.2.ulSequeNum = n → e.2.pc.running = false) ∧
  (∀ buf ∈ (s.conns (s.current c)).up, ∀ x ∈ accepted D.server.machine π buf, x.1 ≠ n) ∧
  ∀ buf ∈ (s.conns (s.current c)).session.sent, ∀ x ∈ accepted (D.machine c) π buf, x.1 ≠ n

/-- The responses to a request read back, and a buffer sent back is not taken for a message. -/
def SoundVerdict (D : Deployment π κ γ ρ) (c : γ) (onMessage : OnMessage π κ) :
    Verdict π → Prop
  | .dispatch protoRequest request =>
    ∀ response ∈ dealProtobufMessage D.server onMessage request,
      ReadsBack D.server.machine (D.machine c) protoRequest.ulSequeNum response
  | .echo buf => accepted (D.machine c) π buf = none

/-- What the condition asks of a step. -/
def Sound (D : Deployment π κ γ ρ) (s : State π κ γ ρ) : Action π κ γ → Prop
  | .call c _ req => (s.clients c).m_connState = .kConnected →
    Unused D s c (s.nextId (D.process c)) ∧
      ReadsBack (D.machine c) D.server.machine (s.nextId (D.process c)) req
  | .serverRead c k onMessage => (s.conns (c, k)).session.channel.opened = true →
    ∀ buf ∈ (s.conns (c, k)).up.head?,
      ∀ v ∈ verdict D.server.machine π (s.conns (c, k)).session.channel.m_bLegClient buf,
        SoundVerdict D c onMessage v
  | _ => True

section

variable [DecidableEq π.Message]

instance (m m' : Machine) (n : ℕ) (message : π.Message) :
    Decidable (ReadsBack m m' n message) :=
  inferInstanceAs (Decidable (∀ r ∈ codingToBuf m (Request.protoMsg ⟨n, message⟩),
    ∀ x ∈ accepted m' π r.2.2, x = (n, message)))

instance (D : Deployment π κ γ ρ) (c : γ) (onMessage : OnMessage π κ) :
    (v : Verdict π) → Decidable (SoundVerdict D c onMessage v)
  | .dispatch protoRequest request =>
    inferInstanceAs (Decidable (∀ response ∈ dealProtobufMessage D.server onMessage request,
      ReadsBack D.server.machine (D.machine c) protoRequest.ulSequeNum response))
  | .echo buf => inferInstanceAs (Decidable (accepted (D.machine c) π buf = none))

instance [DecidableEq γ] (D : Deployment π κ γ ρ) (s : State π κ γ ρ) (c : γ) (n : ℕ) :
    Decidable (Unused D s c n) :=
  inferInstanceAs (Decidable (_ ∧ _ ∧ _))

instance [DecidableEq γ] (D : Deployment π κ γ ρ) (s : State π κ γ ρ) :
    (a : Action π κ γ) → Decidable (Sound D s a)
  | .call c _ req => inferInstanceAs (Decidable ((s.clients c).m_connState = .kConnected →
      Unused D s c (s.nextId (D.process c)) ∧
        ReadsBack (D.machine c) D.server.machine (s.nextId (D.process c)) req))
  | .serverRead c k onMessage =>
    inferInstanceAs (Decidable ((s.conns (c, k)).session.channel.opened = true →
      ∀ buf ∈ (s.conns (c, k)).up.head?,
        ∀ v ∈ verdict D.server.machine π (s.conns (c, k)).session.channel.m_bLegClient buf,
          SoundVerdict D c onMessage v))
  | .connected _ | .disconnected _ | .insert _ | .write _ | .wake _ | .finish _ | .clientRead _ =>
    .isTrue trivial

end

/-- The server passed the request of a call to the callback of its type, under the number of the
call and on its connection, and the callback returned the message. -/
def Answered (D : Deployment π κ γ ρ) (s : State π κ γ ρ) (call : Call π γ)
    (message : π.Message) : Prop :=
  ∃ k, call.connection = some k ∧ ∃ d ∈ (s.conns (call.client, k)).session.dispatched,
    ∃ callback, D.server.m_mapCallbacks_ (π.GetDescriptor call.requestPtr) = some callback ∧
      d.callback = some callback ∧ d.request.ulSequeNum = call.ulSequeNum ∧
      d.request.protoMsgPtr = some call.requestPtr ∧ d.response = some message

end MmrService.ProtoRpc
