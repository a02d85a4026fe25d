import MmrService.ProtoServer

/-!
The frames a client writes and the reads the server makes of them.

A frame says how long it is, so the bytes of several frames determine the frames. The server
does not look: it takes every read for one frame. From a channel that it has closed it reads
nothing more.
-/

namespace MmrService.ProtoServer

open BufConvert ProtoCodec Transition

variable {π : Protobuf} {κ : Type}

/-! ### Frames in a stream -/

lemma frame_append_inj {m : Machine} {n n' : ℕ} {name name' payload payload' xs ys : List UInt8}
    (hp : payload.length < 2 ^ 31) (hp' : payload'.length < 2 ^ 31)
    (h : frame m n name payload ++ xs = frame m n' name' payload' ++ ys) :
    frame m n name payload = frame m n' name' payload' ∧ xs = ys := by
  have hlen := length_frame m n name payload
  have hlen' := length_frame m n' name' payload'
  have hslice : ∀ i k, i + k ≤ (frame m n name payload).length →
      i + k ≤ (frame m n' name' payload').length →
      Bytes.slice (frame m n name payload) i k = Bytes.slice (frame m n' name' payload') i k := by
    intro i k hi hi'
    rw [← Bytes.slice_append_left xs hi, h, Bytes.slice_append_left ys hi']
  have hname : nameLen name = nameLen name' := by
    rw [← nameLenField_frame m n name payload, ← nameLenField_frame m n' name' payload']
    unfold nameLenField
    rw [hslice 4 2 (by omega) (by omega)]
  have hpayload : (payload.length : ℤ) = payload'.length := by
    rw [← msgLenField_frame name hp m n, ← msgLenField_frame name' hp' m n']
    unfold msgLenField
    rw [nameLenField_frame, nameLenField_frame, hname, hslice _ 4 (by omega) (by omega)]
  exact List.append_inj h (by omega)

/-- A request and the sequence number it is sent with. -/
structure Request (π : Protobuf) where
  ulSequeNum : ℕ
  message : π.Message

namespace Request

def protoMsg (q : Request π) : ProtoRpcMessage π :=
  { ProtoRpcMessage.fresh π with
    ulSequeNum := q.ulSequeNum
    protoMsgPtr := some q.message }

/-- The buffer that `codingToBuf` fills for a request. -/
def bytes (m : Machine) (q : Request π) : List UInt8 :=
  ((codingToBuf m q.protoMsg).map fun r => r.2.2).getD []

/-- The type is known and its name fits the name length; the frame fits an `int`. -/
structure Sendable (q : Request π) : Prop where
  seq : q.ulSequeNum < 2 ^ 32
  name : π.GetTypeName q.message ≠ []
  short : (π.GetTypeName q.message).length < 65535
  known : (π.FindMessageTypeByName (π.GetTypeName q.message)).isSome
  size : 14 + ((π.GetTypeName q.message).length + 1) + π.ByteSizeLong q.message < 2 ^ 31

/-- A frame of a request. -/
lemma bytes_eq (hπ : π.Lawful) {q : Request π} (hq : q.Sendable) (m : Machine) :
    ∃ payload, Encodable q.message payload ∧
      q.bytes m = frame m q.ulSequeNum (π.GetTypeName q.message) payload := by
  have hu := nameLen_of_lt hq.short
  have hsize := hq.size
  obtain ⟨payload, henc⟩ := hπ.encodable q.message (by omega)
  refine ⟨payload, henc, ?_⟩
  unfold bytes
  rw [codingToBuf_eq (show q.protoMsg.protoMsgPtr = some q.message from rfl) henc m]
  rfl

/-- The frame of a request decodes to the request. -/
lemma decodeBuf_bytes (hπ : π.Lawful) {q : Request π} (hq : q.Sendable) (m : Machine) :
    ∃ msg c, decodeBuf m (ProtoRpcMessage.fresh π) (q.bytes m) = some (.ERR_NONE, msg, c) ∧
      msg.ulSequeNum = q.ulSequeNum ∧ msg.protoMsgPtr = some q.message := by
  obtain ⟨payload, henc, hbytes⟩ := bytes_eq hπ hq m
  obtain ⟨prototype, hcreate, htype⟩ := hπ.createMessage hq.known
  obtain ⟨c, hc⟩ := decodeBuf_frame hq.seq hq.name hq.short henc.total hcreate m
  rw [hπ.parse q.message payload prototype henc.serialize htype, if_pos rfl] at hc
  exact ⟨_, c, hbytes ▸ hc, rfl, rfl⟩

/-- The bytes of the frames of requests, one after the other. -/
def stream (m : Machine) (qs : List (Request π)) : List UInt8 := (qs.map (bytes m)).flatten

/-- The first frame of a stream is determined by its bytes. -/
lemma stream_cons_inj (hπ : π.Lawful) {m : Machine} {q q' : Request π} (hq : q.Sendable)
    (hq' : q'.Sendable) {xs ys : List UInt8} (h : q.bytes m ++ xs = q'.bytes m ++ ys) :
    q.bytes m = q'.bytes m ∧ xs = ys := by
  obtain ⟨payload, henc, hb⟩ := bytes_eq hπ hq m
  obtain ⟨payload', henc', hb'⟩ := bytes_eq hπ hq' m
  have htotal := henc.total
  have htotal' := henc'.total
  rw [hb, hb'] at h ⊢
  exact frame_append_inj (by omega) (by omega) h

/-- The frame of a request determines the request. -/
lemma bytes_inj (hπ : π.Lawful) {m : Machine} {q q' : Request π} (hq : q.Sendable)
    (hq' : q'.Sendable) (h : q.bytes m = q'.bytes m) : q = q' := by
  obtain ⟨msg, c, hd, hseq, hmsg⟩ := decodeBuf_bytes hπ hq m
  obtain ⟨msg', c', hd', hseq', hmsg'⟩ := decodeBuf_bytes hπ hq' m
  rw [h, hd'] at hd
  simp only [Option.some.injEq, Prod.mk.injEq, true_and] at hd
  obtain ⟨n, message⟩ := q
  obtain ⟨n', message'⟩ := q'
  rw [hd.1] at hseq' hmsg'
  simp only at hseq hmsg hseq' hmsg'
  rw [hmsg, Option.some.injEq] at hmsg'
  rw [← hseq, hseq', hmsg']

end Request

/-! ### Reads -/

/-- A read of the socket, and what the callbacks answer during it. -/
structure Read (π : Protobuf) (κ : Type) where
  chunk : List UInt8
  onMessage : OnMessage π κ

/-- Without an unpack setting a read is a call of `onMessage`. What arrives once
`close(true)` has been called is not read. -/
def step (sv : CProtoServer π κ) (s : Session π κ) (r : Read π κ) : Option (Session π κ) :=
  if s.channel.opened then onDealMessage sv r.onMessage s r.chunk else some s

lemma step_opened {sv : CProtoServer π κ} {s : Session π κ} (h : s.channel.opened = true)
    (r : Read π κ) : step sv s r = onDealMessage sv r.onMessage s r.chunk := by
  unfold step
  rw [if_pos h]

/-- The requests dispatched so far. -/
def Session.requests (s : Session π κ) : List (ℕ × Option π.Message) :=
  s.dispatched.map fun d => (d.request.ulSequeNum, d.request.protoMsgPtr)

/-- The reads are dealt with, and dispatch the requests, once each and in order. -/
def Dispatches (sv : CProtoServer π κ) (qs : List (Request π)) (reads : List (Read π κ)) : Prop :=
  ∃ t, exec (step sv) (Session.fresh π κ) reads = some t ∧
    t.requests = qs.map fun q => (q.ulSequeNum, some q.message)

/-- The channel is open, and the read is the frame of one request, which the builds of the
client and of the server write alike; it is a login if the client has not logged in, and its
response can be encoded. -/
def OneFrame (sv : CProtoServer π κ) (m : Machine) (s : Session π κ) (r : Read π κ) : Prop :=
  s.channel.opened = true ∧ ∃ q : Request π, q.Sendable ∧ r.chunk = q.bytes m ∧
    q.bytes m = q.bytes sv.machine ∧
    (s.channel.m_bLegClient = true ∨ π.GetTypeName q.message = loginRequest) ∧
    ∀ response, dealProtobufMessage sv r.onMessage q.message = some response →
      (codingToBuf sv.machine (Request.protoMsg ⟨q.ulSequeNum, response⟩)).isSome

lemma deal_dispatch_some (sv : CProtoServer π κ) (onMessage : OnMessage π κ) (s : Session π κ)
    (msg : ProtoRpcMessage π) {request : π.Message}
    (h : ∀ response, dealProtobufMessage sv onMessage request = some response →
      (codingToBuf sv.machine (Request.protoMsg ⟨msg.ulSequeNum, response⟩)).isSome) :
    ∃ t, deal sv onMessage s (.dispatch msg request) = some t := by
  rcases hr : dealProtobufMessage sv onMessage request with _ | response
  · exact ⟨_, deal_unanswered sv onMessage s msg hr⟩
  · obtain ⟨r, hc⟩ := Option.isSome_iff_exists.mp (h response hr)
    exact ⟨_, (deal_answered sv onMessage s msg hr).trans (Option.map_eq_some_iff.mpr ⟨r, hc, rfl⟩)⟩

/-- A read of one frame dispatches its request. -/
lemma step_oneFrame (hπ : π.Lawful) {sv : CProtoServer π κ} {m : Machine} {s : Session π κ}
    {r : Read π κ} (h : OneFrame sv m s r) : ∃ (q : Request π) (t : Session π κ), q.Sendable ∧
      r.chunk = q.bytes m ∧ step sv s r = some t ∧
      t.requests = s.requests ++ [(q.ulSequeNum, some q.message)] := by
  obtain ⟨hopen, q, hq, hchunk, halike, hgate, hresp⟩ := h
  obtain ⟨msg, c, hd, hseq, hmsg⟩ := Request.decodeBuf_bytes hπ hq sv.machine
  have hverdict : verdict sv.machine π s.channel.m_bLegClient r.chunk =
      some (.dispatch msg q.message) := by
    unfold verdict
    rw [hchunk, halike, hd]
    simp only [Option.bind_eq_bind, Option.bind_some, if_true, hmsg, if_pos hgate]
    rfl
  obtain ⟨t, ht⟩ := deal_dispatch_some sv r.onMessage s msg (hseq ▸ hresp)
  refine ⟨q, t, hq, hchunk, ?_, ?_⟩
  · rw [step_opened hopen, onDealMessage_eq, hverdict, Option.bind_some, ht]
  · unfold Session.requests
    rw [deal_dispatched sv r.onMessage ht, List.map_append]
    simp only [Verdict.dispatches, dispatchOf, List.map_cons, List.map_nil, hseq, hmsg]

/-- A run of such reads dispatches the requests whose frames were written. -/
lemma exec_oneFrame (hπ : π.Lawful) {sv : CProtoServer π κ} {m : Machine}
    {reads : List (Read π κ)} :
    ∀ {s : Session π κ} {qs : List (Request π)}, (∀ q ∈ qs, q.Sendable) →
      (reads.map Read.chunk).flatten = Request.stream m qs →
      Always (step sv) (fun _ => OneFrame sv m) s reads →
      ∃ t, exec (step sv) s reads = some t ∧
        t.requests = s.requests ++ qs.map fun q => (q.ulSequeNum, some q.message) := by
  induction reads with
  | nil =>
    intro s qs hqs hcut _
    cases qs with
    | nil => exact ⟨s, rfl, by simp⟩
    | cons q qs =>
      obtain ⟨payload, -, hb⟩ := Request.bytes_eq hπ (hqs q (by simp)) m
      have hlen := length_frame m q.ulSequeNum (π.GetTypeName q.message) payload
      rw [← hb] at hlen
      have h0 := congrArg List.length hcut
      simp only [Request.stream, List.map_cons, List.flatten_cons, List.length_append, List.map_nil,
        List.flatten_nil, List.length_nil] at h0
      omega
  | cons r rs ih =>
    intro s qs hqs hcut hone
    obtain ⟨hr, hrest⟩ := hone.uncons
    obtain ⟨q, t, hq, hchunk, ht, hreq⟩ := step_oneFrame hπ hr
    cases qs with
    | nil =>
      obtain ⟨payload, -, hb⟩ := Request.bytes_eq hπ hq m
      have hlen := length_frame m q.ulSequeNum (π.GetTypeName q.message) payload
      rw [← hb, ← hchunk] at hlen
      have h0 := congrArg List.length hcut
      simp only [Request.stream, List.map_cons, List.flatten_cons, List.length_append, List.map_nil,
        List.flatten_nil, List.length_nil] at h0
      omega
    | cons q' qs =>
      simp only [Request.stream, List.map_cons, List.flatten_cons, hchunk] at hcut
      have hq' : q'.Sendable := hqs q' (by simp)
      obtain ⟨hbytes, hcut'⟩ := Request.stream_cons_inj hπ hq hq' hcut
      obtain ⟨u, hu, hall⟩ := ih (fun q'' h => hqs q'' (by simp [h])) hcut' (hrest t ht)
      refine ⟨u, ?_, ?_⟩
      · rw [exec_cons, ht, Option.bind_some, hu]
      · rw [hall, hreq, Request.bytes_inj hπ hq hq' hbytes]
        simp

/-- **Framing**: however the frames a client writes are cut into reads, the server dispatches
their requests once each and in order as long as every read is one frame, the first a login,
and finds the channel open: no earlier request has been left unanswered. -/
theorem dispatches_of_oneFrame (hπ : π.Lawful) (sv : CProtoServer π κ) (m : Machine)
    {qs : List (Request π)} {reads : List (Read π κ)} (hqs : ∀ q ∈ qs, q.Sendable)
    (hcut : (reads.map Read.chunk).flatten = Request.stream m qs)
    (hone : Always (step sv) (fun _ => OneFrame sv m) (Session.fresh π κ) reads) :
    Dispatches sv qs reads :=
  exec_oneFrame hπ hqs hcut hone

/-- Evaluate the condition for a read that is the frame of one of some requests. -/
def isOneFrame (sv : CProtoServer π κ) (m : Machine) (qs : List (Request π))
    (s : Session π κ) (r : Read π κ) : Bool :=
  s.channel.opened && qs.any fun q => decide (r.chunk = q.bytes m) &&
    decide (q.bytes m = q.bytes sv.machine) &&
    (s.channel.m_bLegClient || decide (π.GetTypeName q.message = loginRequest)) &&
    (dealProtobufMessage sv r.onMessage q.message).all fun response =>
      (codingToBuf sv.machine (Request.protoMsg ⟨q.ulSequeNum, response⟩)).isSome

lemma oneFrame_of_isOneFrame {sv : CProtoServer π κ} {m : Machine} {qs : List (Request π)}
    (hqs : ∀ q ∈ qs, q.Sendable) (s : Session π κ) (r : Read π κ)
    (h : isOneFrame sv m qs s r = true) : OneFrame sv m s r := by
  obtain ⟨hopen, h⟩ := Bool.and_eq_true_iff.mp h
  obtain ⟨q, hq, h⟩ := List.any_eq_true.mp h
  simp only [Bool.and_eq_true, Bool.or_eq_true, decide_eq_true_eq, Option.all_eq_true] at h
  obtain ⟨⟨⟨hchunk, halike⟩, hgate⟩, hresp⟩ := h
  exact ⟨hopen, q, hqs q hq, hchunk, halike, hgate, hresp⟩

/-- Messages of the types `"mmrService.LoginRequest"` and `"p.A"`. -/
def sampleProtobuf : Protobuf := rawProtobuf [loginRequest, [112, 46, 65]]

/-- A server whose callbacks answer a request with itself. -/
def sampleServer : CProtoServer sampleProtobuf (List UInt8) := ⟨linux64, some⟩

def sampleRead (chunk : List UInt8) : Read sampleProtobuf (List UInt8) :=
  ⟨chunk, fun _ request => some request⟩

/-- A login and two requests. -/
def sampleRequests : List (Request sampleProtobuf) :=
  [⟨1, (loginRequest, [])⟩, ⟨2, sampleMessage⟩, ⟨3, sampleMessage⟩]

lemma sampleRequests_sendable : ∀ q ∈ sampleRequests, q.Sendable := by
  intro q hq
  simp only [sampleRequests, List.mem_cons, List.not_mem_nil, or_false] at hq
  rcases hq with rfl | rfl | rfl <;>
    exact ⟨by decide, by decide, by decide, by decide, by decide⟩

/-- The three frames, one a read. -/
theorem sampleRequests_dispatched : Dispatches sampleServer sampleRequests
    (sampleRequests.map fun q => sampleRead (q.bytes linux64)) :=
  dispatches_of_oneFrame (rawProtobuf_lawful _) sampleServer linux64 sampleRequests_sendable rfl
    (always_of_check (oneFrame_of_isOneFrame sampleRequests_sendable) (by decide +kernel))

/-! ### Several frames in a read -/

/-- A read dispatches one request at most. -/
lemma length_dispatched_le {sv : CProtoServer π κ} {s t : Session π κ} {r : Read π κ}
    (h : step sv s r = some t) : t.dispatched.length ≤ s.dispatched.length + 1 := by
  by_cases hopen : s.channel.opened = true
  · rw [step_opened hopen, onDealMessage_eq] at h
    obtain ⟨v, -, hd⟩ := Option.bind_eq_some_iff.mp h
    rw [deal_dispatched sv r.onMessage hd]
    cases v <;> simp [Verdict.dispatches]
  · unfold step at h
    rw [if_neg hopen] at h
    rw [← Option.some.inj h]
    exact Nat.le_succ _

/-- Fewer reads than frames always lose a request. -/
theorem not_dispatches_of_fewer {sv : CProtoServer π κ} {qs : List (Request π)}
    {reads : List (Read π κ)} (h : reads.length < qs.length) : ¬ Dispatches sv qs reads := by
  rintro ⟨t, ht, hreq⟩
  have hle : t.dispatched.length ≤ reads.length :=
    inv_of_always (P := fun _ _ _ => True) (I := fun h s => s.dispatched.length ≤ h.length)
      (Nat.zero_le _)
      (fun h s a u hi _ hs => by
        have := length_dispatched_le hs
        rw [List.length_append, List.length_singleton]
        omega)
      (fun _ _ _ _ _ _ => trivial) ht
  have hlen := congrArg List.length hreq
  simp only [Session.requests, List.length_map] at hlen
  omega

/-- The login in one read, and the frames of the two requests behind it in another. -/
def coalescedReads : List (Read sampleProtobuf (List UInt8)) :=
  [sampleRead (Request.bytes (π := sampleProtobuf) linux64 ⟨1, (loginRequest, [])⟩),
    sampleRead (Request.bytes (π := sampleProtobuf) linux64 ⟨2, sampleMessage⟩ ++
      Request.bytes (π := sampleProtobuf) linux64 ⟨3, sampleMessage⟩)]

/-- All bytes arrive in order, and a request is lost. -/
theorem coalescedReads_lose_request : (∀ q ∈ sampleRequests, q.Sendable) ∧
    (coalescedReads.map Read.chunk).flatten = Request.stream linux64 sampleRequests ∧
    ¬ Dispatches sampleServer sampleRequests coalescedReads :=
  ⟨sampleRequests_sendable, by decide +kernel, not_dispatches_of_fewer (by decide)⟩

end MmrService.ProtoServer
