import MmrService.ProtoEndian
import MmrService.Lib.Transition

/-!
`CProtoServer`: what the server does with the bytes of one read of a connection.

No unpack setting is installed, so a read is handed to `onDealMessage` as it came from the
socket, and is taken for one frame.
-/

namespace MmrService.ProtoServer

open BufConvert ProtoCodec Transition

variable {π : Protobuf} {κ : Type}

/-- `isOpened()` and the mark of a client that has logged in. -/
structure SocketChannel where
  opened : Bool
  m_bLegClient : Bool

/-- A request passed to `dealProtobufMessage`, the callback registered for its type, and what
that callback returned. -/
structure Dispatch (π : Protobuf) (κ : Type) where
  request : ProtoRpcMessage π
  callback : Option κ
  response : Option π.Message

/-- A connection: its channel, the requests dispatched, and the buffers written but not yet
received by the peer. -/
structure Session (π : Protobuf) (κ : Type) where
  channel : SocketChannel
  dispatched : List (Dispatch π κ)
  sent : List (List UInt8)

namespace Session

/-- A connection just accepted. -/
def fresh (π : Protobuf) (κ : Type) : Session π κ := ⟨⟨true, false⟩, [], []⟩

/-- `channel->write`: nothing is written to a channel that is not open. -/
def write (s : Session π κ) (buf : List UInt8) : Session π κ :=
  if s.channel.opened then { s with sent := s.sent ++ [buf] } else s

/-- `channel->close(true)`: the status changes at once, the socket is closed later. -/
def close (s : Session π κ) : Session π κ :=
  { s with channel := { s.channel with opened := false } }

def setClientState (s : Session π κ) (bLegState : Bool) : Session π κ :=
  { s with channel := { s.channel with m_bLegClient := bLegState } }

def log (s : Session π κ) (d : Dispatch π κ) : Session π κ :=
  { s with dispatched := s.dispatched ++ [d] }

@[simp] lemma dispatched_write (s : Session π κ) (buf : List UInt8) :
    (s.write buf).dispatched = s.dispatched := by
  unfold write; split_ifs <;> rfl

@[simp] lemma dispatched_close (s : Session π κ) : s.close.dispatched = s.dispatched := rfl

@[simp] lemma dispatched_setClientState (s : Session π κ) (b : Bool) :
    (s.setClientState b).dispatched = s.dispatched := rfl

@[simp] lemma dispatched_log (s : Session π κ) (d : Dispatch π κ) :
    (s.log d).dispatched = s.dispatched ++ [d] := rfl

end Session

/-- The server: the build it runs in, and `m_mapCallbacks_`. -/
structure CProtoServer (π : Protobuf) (κ : Type) where
  machine : Machine
  m_mapCallbacks_ : π.Descriptor → Option κ

/-- What the callbacks answer at the time of a read. -/
abbrev OnMessage (π : Protobuf) (κ : Type) := κ → π.Message → Option π.Message

/-- `"mmrService.LoginRequest"`. -/
def loginRequest : List UInt8 :=
  [109, 109, 114, 83, 101, 114, 118, 105, 99, 101, 46, 76, 111, 103, 105, 110, 82, 101, 113, 117,
    101, 115, 116]

variable (sv : CProtoServer π κ) (onMessage : OnMessage π κ)

def dealProtobufMessage (request : π.Message) : Option π.Message :=
  match sv.m_mapCallbacks_ (π.GetDescriptor request) with
  | none => none
  | some callback => onMessage callback request

/-- The entry of the log for a request. -/
def dispatchOf (protoRequest : ProtoRpcMessage π) (request : π.Message) : Dispatch π κ where
  request := protoRequest
  callback := sv.m_mapCallbacks_ (π.GetDescriptor request)
  response := dealProtobufMessage sv onMessage request

/-- The response is encoded, whatever the encoder returns, and written. -/
def sendResponse (s : Session π κ) (ulSequeNum : ℕ) (response : π.Message) :
    Option (Session π κ) := do
  let (_, _, outBuf) ← codingToBuf sv.machine
    { ProtoRpcMessage.fresh π with
      ulSequeNum := ulSequeNum
      protoMsgPtr := some response }
  pure (s.write outBuf)

def onDealLoginMessage (s : Session π κ) (buf : List UInt8) : Option (Session π κ) := do
  let (errCode, protoRequest, walk) ←
    decodingFromBuf sv.machine (some (ProtoRpcMessage.fresh π)) (some buf)
  let protoRequest ← protoRequest
  let walk ← walk
  if errCode = .ERR_NONE then
    let request ← protoRequest.protoMsgPtr
    if π.GetTypeName request = loginRequest then
      let s := s.log (dispatchOf sv onMessage protoRequest request)
      match dealProtobufMessage sv onMessage request with
      | some response => sendResponse sv (s.setClientState true) protoRequest.ulSequeNum response
      | none => pure s.close
    else pure (s.write walk.buf).close
  else pure (s.write walk.buf).close

/-- A buffer that does not decode is written back as the decoder left it. -/
def onDealMessage (s : Session π κ) (buf : List UInt8) : Option (Session π κ) :=
  if s.channel.m_bLegClient = false then onDealLoginMessage sv onMessage s buf
  else do
    let (errCode, protoRequest, walk) ←
      decodingFromBuf sv.machine (some (ProtoRpcMessage.fresh π)) (some buf)
    let protoRequest ← protoRequest
    let walk ← walk
    if errCode = .ERR_NONE then
      let request ← protoRequest.protoMsgPtr
      let s := s.log (dispatchOf sv onMessage protoRequest request)
      match dealProtobufMessage sv onMessage request with
      | some response => sendResponse sv s protoRequest.ulSequeNum response
      | none => pure s.close
    else pure (s.write walk.buf).close

/-! ### What a read does -/

/-- What the server takes a buffer for: a request it dispatches, or one to send back. -/
inductive Verdict (π : Protobuf)
  | dispatch (protoRequest : ProtoRpcMessage π) (request : π.Message)
  | echo (buf : List UInt8)

/-- The verdict on a buffer, from a client that has logged in or not. -/
def verdict (m : Machine) (π : Protobuf) (bLegState : Bool) (buf : List UInt8) :
    Option (Verdict π) := do
  let (errCode, protoRequest, walk) ← decodeBuf m (ProtoRpcMessage.fresh π) buf
  if errCode = .ERR_NONE then
    let request ← protoRequest.protoMsgPtr
    if bLegState ∨ π.GetTypeName request = loginRequest then pure (.dispatch protoRequest request)
    else pure (.echo walk.buf)
  else pure (.echo walk.buf)

/-- The requests a verdict dispatches. -/
def Verdict.dispatches : Verdict π → List (Dispatch π κ)
  | .dispatch protoRequest request => [dispatchOf sv onMessage protoRequest request]
  | .echo _ => []

/-- What follows from a verdict. A client whose request is answered has logged in. -/
def deal (s : Session π κ) : Verdict π → Option (Session π κ)
  | .dispatch protoRequest request =>
    match dealProtobufMessage sv onMessage request with
    | some response =>
      sendResponse sv ((s.log (dispatchOf sv onMessage protoRequest request)).setClientState true)
        protoRequest.ulSequeNum response
    | none => some (s.log (dispatchOf sv onMessage protoRequest request)).close
  | .echo buf => some (s.write buf).close

lemma sendResponse_eq (s : Session π κ) (ulSequeNum : ℕ) (response : π.Message) :
    sendResponse sv s ulSequeNum response = (codingToBuf sv.machine
      { ProtoRpcMessage.fresh π with
        ulSequeNum := ulSequeNum
        protoMsgPtr := some response }).map fun r => s.write r.2.2 := by
  unfold sendResponse
  generalize codingToBuf sv.machine _ = r
  cases r <;> rfl

lemma deal_answered (s : Session π κ) (msg : ProtoRpcMessage π) {request response : π.Message}
    (h : dealProtobufMessage sv onMessage request = some response) :
    deal sv onMessage s (.dispatch msg request) = (codingToBuf sv.machine
      { ProtoRpcMessage.fresh π with
        ulSequeNum := msg.ulSequeNum
        protoMsgPtr := some response }).map fun r =>
      ((s.log (dispatchOf sv onMessage msg request)).setClientState true).write r.2.2 := by
  dsimp only [deal]
  rw [h]
  exact sendResponse_eq sv _ _ _

lemma deal_unanswered (s : Session π κ) (msg : ProtoRpcMessage π) {request : π.Message}
    (h : dealProtobufMessage sv onMessage request = none) :
    deal sv onMessage s (.dispatch msg request) =
      some (s.log (dispatchOf sv onMessage msg request)).close := by
  dsimp only [deal]
  rw [h]

lemma setClientState_log {s : Session π κ} (h : s.channel.m_bLegClient = true)
    (d : Dispatch π κ) : (s.log d).setClientState true = s.log d := by
  obtain ⟨⟨opened, leg⟩, dispatched, sent⟩ := s
  simp only at h
  subst h
  rfl

lemma onDealMessage_eq (s : Session π κ) (buf : List UInt8) :
    onDealMessage sv onMessage s buf =
      (verdict sv.machine π s.channel.m_bLegClient buf).bind (deal sv onMessage s) := by
  unfold onDealMessage onDealLoginMessage verdict decodingFromBuf
  simp only [Option.bind_eq_bind]
  rcases hd : decodeBuf sv.machine (ProtoRpcMessage.fresh π) buf with _ | ⟨errCode, msg, walk⟩
  · split_ifs <;> rfl
  by_cases herr : errCode = .ERR_NONE
  swap
  · simp only [Option.map_some, Option.bind_some, if_neg herr, ite_self]
    rfl
  rcases hmsg : msg.protoMsgPtr with _ | request
  · simp only [Option.map_some, Option.bind_some, if_pos herr, hmsg, Option.bind_none, ite_self]
  rcases hleg : s.channel.m_bLegClient with _ | _
  · by_cases hname : π.GetTypeName request = loginRequest
    · simp only [Option.map_some, Option.bind_some, if_pos herr, hmsg, if_true, if_pos hname,
        Bool.false_eq_true, false_or]
      rfl
    · simp only [Option.map_some, Option.bind_some, if_pos herr, hmsg, if_true, if_neg hname,
        Bool.false_eq_true, false_or]
      rfl
  · have hset := setClientState_log hleg (dispatchOf sv onMessage msg request)
    simp only [Option.map_some, Option.bind_some, if_pos herr, hmsg, Bool.true_eq_false, if_false,
      true_or, if_true, Option.pure_def]
    dsimp only [deal]
    rw [hset]

/-- A read dispatches the request of its verdict and no other. -/
lemma deal_dispatched {s t : Session π κ} {v : Verdict π} (h : deal sv onMessage s v = some t) :
    t.dispatched = s.dispatched ++ v.dispatches sv onMessage := by
  cases v with
  | echo buf =>
    rw [← Option.some.inj h]
    simp [Verdict.dispatches]
  | dispatch protoRequest request =>
    rcases hr : dealProtobufMessage sv onMessage request with _ | response
    · rw [deal_unanswered sv onMessage s protoRequest hr] at h
      rw [← Option.some.inj h]
      simp [Verdict.dispatches]
    · rw [deal_answered sv onMessage s protoRequest hr] at h
      obtain ⟨r, -, rfl⟩ := Option.map_eq_some_iff.mp h
      simp [Verdict.dispatches]

/-- A request is dispatched that decodes, if its client has logged in or it is a login. -/
lemma verdict_eq_dispatch {m : Machine} {bLegState : Bool} {buf : List UInt8}
    {msg : ProtoRpcMessage π} {request : π.Message} :
    verdict m π bLegState buf = some (.dispatch msg request) ↔
      ∃ walk, decodeBuf m (ProtoRpcMessage.fresh π) buf = some (.ERR_NONE, msg, walk) ∧
        msg.protoMsgPtr = some request ∧
        (bLegState = true ∨ π.GetTypeName request = loginRequest) := by
  unfold verdict
  constructor
  · intro h
    obtain ⟨⟨errCode, msg', walk⟩, hd, h⟩ := Option.bind_eq_some_iff.mp h
    simp only at h
    split_ifs at h with herr
    · obtain ⟨request', hmsg, h⟩ := Option.bind_eq_some_iff.mp h
      split_ifs at h with hleg
      · obtain ⟨rfl, rfl⟩ := Verdict.dispatch.inj (Option.some.inj h)
        exact ⟨walk, herr ▸ hd, hmsg, hleg⟩
      · cases Option.some.inj h
    · cases Option.some.inj h
  · rintro ⟨walk, hd, hmsg, hleg⟩
    rw [hd]
    simp only [Option.bind_eq_bind, Option.bind_some, if_true, hmsg, if_pos hleg, Option.pure_def]

/-- What a verdict has written. -/
def Verdict.Writes : Verdict π → List UInt8 → Prop
  | .dispatch protoRequest request, buf =>
    ∃ response ∈ dealProtobufMessage sv onMessage request, ∃ r ∈ codingToBuf sv.machine
      { ProtoRpcMessage.fresh π with
        ulSequeNum := protoRequest.ulSequeNum
        protoMsgPtr := some response }, buf = r.2.2
  | .echo sent, buf => buf = sent

lemma Session.mem_sent_write {s : Session π κ} {buf buf' : List UInt8}
    (h : buf' ∈ (s.write buf).sent) : buf' ∈ s.sent ∨ s.channel.opened = true ∧ buf' = buf := by
  unfold write at h
  split_ifs at h with hopen
  · rcases List.mem_append.mp h with h | h
    · exact .inl h
    · exact .inr ⟨hopen, List.mem_singleton.mp h⟩
  · exact .inl h

/-- What a read writes, and only to an open channel. -/
lemma deal_sent {s t : Session π κ} {v : Verdict π} (h : deal sv onMessage s v = some t) :
    ∀ buf ∈ t.sent, buf ∈ s.sent ∨ s.channel.opened = true ∧ v.Writes sv onMessage buf := by
  intro buf hbuf
  cases v with
  | echo sent =>
    rw [← Option.some.inj h] at hbuf
    exact Session.mem_sent_write hbuf
  | dispatch protoRequest request =>
    rcases hr : dealProtobufMessage sv onMessage request with _ | response
    · rw [deal_unanswered sv onMessage s protoRequest hr] at h
      rw [← Option.some.inj h] at hbuf
      exact .inl hbuf
    · rw [deal_answered sv onMessage s protoRequest hr] at h
      obtain ⟨r, hc, rfl⟩ := Option.map_eq_some_iff.mp h
      rcases Session.mem_sent_write hbuf with hold | ⟨hopen, rfl⟩
      · exact .inl hold
      · exact .inr ⟨hopen, response, hr, r, hc, rfl⟩

end MmrService.ProtoServer
