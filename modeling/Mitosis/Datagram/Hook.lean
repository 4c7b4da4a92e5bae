import Mitosis.Datagram.Receiver
import Mitosis.Datagram.Session
import Mitosis.Support.Machine

/-!
# The RPC hook

`RPCHook` receives datagrams, connects sessions and calls the registered
procedures.  One poll decodes the message it received, creates a session or
executes a request, sends the reply on the session's own buffer, and posts the
receive buffer again as the last step of the successful path.

What a message asks for, `Incoming`, depends on its bytes only; what the hook does
about it is a function of that and of the hook (`handle_eq_react`).
-/

namespace Mitosis.Datagram

open Mitosis.OsNetwork
open Mitosis.Rpc (CallStub ConnectStub MsgHeader ReplyStatus ReqType)
open Mitosis.Support

variable {σ Endpoint : Type}

/-! ## The service -/

/-- A procedure with its captured state: it reads the input, may read and write the
output window, and returns a size. -/
abbrev Callback (σ : Type) := σ → List UInt8 → List UInt8 → σ × List UInt8 × PayloadSize

structure Invocation where
  rpcId : ℕ
  input : List UInt8
  returned : PayloadSize
deriving DecidableEq

/-- The registered procedures with the state they share, and the record of their
invocations. -/
structure Service (σ : Type) where
  callbacks : AList fun _ : ℕ => Callback σ
  state : σ
  log : List Invocation

namespace Service

def new (state : σ) : Service σ := ⟨∅, state, []⟩

def register (service : Service σ) (id : ℕ) (callback : Callback σ) : Service σ × Bool :=
  if id ∈ service.callbacks then (service, false)
  else ({ service with callbacks := service.callbacks.insert id callback }, true)

/-- Call the procedure, if there is one, with the input and the output window. -/
def execute (service : Service σ) (id : ℕ) (input : List UInt8) (output : BytesMut)
    (m : Memory) : Service σ × Memory × Option PayloadSize :=
  match service.callbacks.lookup id with
  | none => (service, m, none)
  | some func =>
    let (state, written, size) :=
      func service.state input (readBytes m output.ptr output.len)
    ({ service with state, log := service.log ++ [⟨id, input, size⟩] },
      writeBytes m output.ptr (written.take output.len), some size)

theorem execute_cases (service : Service σ) (id : ℕ) (input : List UInt8) (output : BytesMut)
    (m : Memory) :
    (id ∉ service.callbacks ∧ service.execute id input output m = (service, m, none)) ∨
      id ∈ service.callbacks ∧ ∃ state m' size, service.execute id input output m =
        ({ service with state, log := service.log ++ [⟨id, input, size⟩] }, m', some size) := by
  unfold execute
  cases hlookup : service.callbacks.lookup id with
  | none => exact Or.inl ⟨AList.lookup_eq_none.mp hlookup, rfl⟩
  | some func => exact Or.inr ⟨mem_of_lookup hlookup, _, _, _, rfl⟩

end Service

/-- A procedure that sends its input back. -/
def echo : Callback Unit := fun _ input _ => ((), input, Fin.ofNat _ input.length)

/-- How many requests were handled, overall and for each session. -/
structure RPCAnalysis where
  ncalls : ℕ
  sessionCounts : AList fun _ : ℕ => ℕ

namespace RPCAnalysis

def new : RPCAnalysis := ⟨0, ∅⟩

def handleOne (a : RPCAnalysis) : RPCAnalysis := { a with ncalls := a.ncalls + 1 }

def handleSessionCall (a : RPCAnalysis) (id : ℕ) : RPCAnalysis :=
  match a.sessionCounts.lookup id with
  | some n => { a with sessionCounts := a.sessionCounts.insert id (n + 1) }
  | none => { a with sessionCounts := a.sessionCounts.insert id 1 }

end RPCAnalysis

/-! ## The hook -/

structure RPCHook (σ Endpoint : Type) where
  service : Service σ
  transport : UDReceiver
  sessions : Sessions Endpoint
  analysis : RPCAnalysis

/-- What a poll of the hook meets: the received messages, the metadata factory, whether
the session factory succeeds, the memory of a new session buffer, what happens to the
reply, and whether the receive buffer can be posted. -/
structure PollEnv (Endpoint : Type) where
  recv : RecvEvent
  createMeta : UDHyperMeta → Option Endpoint
  sessionCreated : Bool
  fresh : Memory
  send : SendEnv
  postRecvError : Option DatapathError

/-- Nothing arrives and nothing fails. -/
def calmEnv : PollEnv ℕ where
  recv := ⟨[], none⟩
  createMeta _ := some 0
  sessionCreated := true
  fresh _ := 0
  send := ⟨none, []⟩
  postRecvError := none

/-- The header of a received message and the window over its payload. -/
def parseMsg (W : Wire) (msg : UDMsg) : Option (MsgHeader × BytesMut) :=
  match msg.bytes.truncateHeader grhSize with
  | none => none
  | some msgHeaderBytes =>
    let msgHeader := readHeader W msg.region msgHeaderBytes
    match msgHeaderBytes.truncateHeader W.header.size with
    | none => none
    | some payload =>
      match payload.cloneAndResize msgHeader.payload with
      | none => none
      | some rpcArgs => some (msgHeader, rpcArgs)

variable {W : Wire} {msg : UDMsg} {header : MsgHeader} {rpcArgs : BytesMut}

theorem parseMsg_of_short (h : msg.size < grhSize + W.header.size) :
    parseMsg W msg = none := by
  unfold parseMsg
  by_cases hgrh : grhSize ≤ msg.bytes.len
  · have hshort : (msg.bytes.after grhSize).len < W.header.size := Nat.sub_lt_left_of_lt_add hgrh h
    rw [BytesMut.truncateHeader_of_le hgrh]
    dsimp only
    rw [BytesMut.truncateHeader_of_lt hshort]
  · rw [BytesMut.truncateHeader_of_lt (Nat.lt_of_not_le hgrh)]

/-- The payload a message claims must fit in the buffer it lies in. -/
theorem parseMsg_eq_some (h : grhSize + W.header.size ≤ msg.size) :
    parseMsg W msg = some (header, rpcArgs) ↔
      header = msg.header W ∧ grhSize + W.header.size + header.payload ≤ msg.size ∧
        rpcArgs.ptr = grhSize + W.header.size ∧ rpcArgs.len = header.payload := by
  rw [parseMsg, UDMsg.truncateHeader_grh h]
  dsimp only
  rw [UDMsg.readHeader_after_grh h, UDMsg.truncateHeader_behind h]
  dsimp only
  constructor
  · intro hparse
    split at hparse
    · cases hparse
    · next args hargs =>
        cases hparse
        exact ⟨rfl, (UDMsg.cloneAndResize_behindHeader h).mp hargs⟩
  · rintro ⟨rfl, hargs⟩
    rw [(UDMsg.cloneAndResize_behindHeader h).mpr hargs]

theorem parseMsg_eq_none (h : grhSize + W.header.size ≤ msg.size) :
    parseMsg W msg = none ↔ msg.size < grhSize + W.header.size + (msg.header W).payload := by
  rw [parseMsg, UDMsg.truncateHeader_grh h]
  dsimp only
  rw [UDMsg.readHeader_after_grh h, UDMsg.truncateHeader_behind h,
    ← UDMsg.cloneAndResize_behindHeader_eq_none h]
  dsimp only
  cases (msg.behindHeader W).cloneAndResize (msg.header W).payload <;> simp

namespace RPCHook

def new (service : Service σ) (transport : UDReceiver) : RPCHook σ Endpoint :=
  ⟨service, transport, .new, .new⟩

/-- The branch of `poll` for a connect message. -/
def handleConnect (W : Wire) (hook : RPCHook σ Endpoint) (env : PollEnv Endpoint)
    (msg : UDMsg) (header : MsgHeader) (rpcArgs : BytesMut) :
    RPCHook σ Endpoint × Except (Halted HookError) Unit :=
  match header.getConnectStub with
  | none => (hook, .error (.err .corruptedHeader))
  | some stub =>
    if stub.sessionId ∈ hook.sessions.connected then
      (hook, .error (.err .sessionCreationError))
    else
      match rpcArgs.memcpyDeserialize W.hyper msg.region with
      | none => (hook, .error (.err .corruptedHeader))
      | some (sessionMeta, _) =>
        match env.createMeta sessionMeta with
        | none => (hook, .error (.err .sessionCreationError))
        | some connectMeta =>
          if env.sessionCreated then
            let sessions := hook.sessions.put stub.sessionId
              (hook.sessions.queue, .create connectMeta) env.fresh
            let (sessions, ret) := sessions.sendReply W stub.sessionId ⟨.ok, 0⟩ env.send
            ({ hook with sessions }, ret)
          else (hook, .error (.err .sessionCreationError))

/-- The branch of `poll` for a request. -/
def handleRequest (W : Wire) (hook : RPCHook σ Endpoint) (env : PollEnv Endpoint)
    (msg : UDMsg) (header : MsgHeader) (rpcArgs : BytesMut) :
    RPCHook σ Endpoint × Except (Halted HookError) Unit :=
  match header.getCallStub with
  | none => (hook, .error (.err .corruptedHeader))
  | some stub =>
    match hook.sessions.connected.lookup stub.sessionId with
    | none => (hook, .error (.err .notConnected))
    | some (session, region) =>
      match (UDMsg.create region).bytes.truncateHeader W.header.size with
      | none => (hook, .error .panicked)
      | some outBuf =>
        let (service, region, replyPayload) := hook.service.execute stub.rpcId
          (readBytes msg.region rpcArgs.ptr rpcArgs.len) outBuf region
        let analysis := hook.analysis.handleOne.handleSessionCall stub.sessionId
        let sessions := hook.sessions.put stub.sessionId (hook.sessions.queue, session) region
        let reply : ReplyStubFactory :=
          match replyPayload with
          | some size => ⟨.ok, size⟩
          | none => ⟨.notExist, 0⟩
        let (sessions, ret) := sessions.sendReply W stub.sessionId reply env.send
        ({ hook with service, analysis, sessions }, ret)

def handle (W : Wire) (hook : RPCHook σ Endpoint) (env : PollEnv Endpoint) (msg : UDMsg) :
    RPCHook σ Endpoint × Except (Halted HookError) Unit :=
  match parseMsg W msg with
  | none => (hook, .error (.err .corruptedHeader))
  | some (header, rpcArgs) =>
    match header.marker with
    | .connect => hook.handleConnect W env msg header rpcArgs
    | .request => hook.handleRequest W env msg header rpcArgs
    -- todo!()
    | .disConnect => (hook, .error .panicked)
    | .illegal | .reply => (hook, .ok ())

/-- `RPCHook::poll`. -/
def poll (W : Wire) (hook : RPCHook σ Endpoint) (env : PollEnv Endpoint) :
    RPCHook σ Endpoint × Poll Unit (Halted HookError) :=
  match hook.transport.poll env.recv with
  | (transport, .error err) => ({ hook with transport }, .error (.err (.inner err)))
  | (transport, .ok .notReady) => ({ hook with transport }, .ok .notReady)
  | (transport, .ok (.ready msg)) =>
    match { hook with transport }.handle W env msg with
    | (hook, .error h) => (hook, .error h)
    | (hook, .ok ()) =>
      match hook.transport.postRecvBuf msg env.postRecvError with
      | (transport, .error err) => ({ hook with transport }, .error (.err (.inner err)))
      | (transport, .ok ()) => ({ hook with transport }, .ok (.ready ()))

end RPCHook

/-! ## What a message asks for -/

/-- What the bytes of a received message ask for. -/
inductive Incoming where
  | corrupted
  | connect (sessionId : ℕ) (metadata : Option UDHyperMeta)
  | request (stub : CallStub) (input : List UInt8)
  | disConnect
  /-- logged and dropped -/
  | unknown (header : MsgHeader)
deriving DecidableEq

def MsgHeader.incoming (W : Wire) (header : MsgHeader) (msg : UDMsg) (rpcArgs : BytesMut) :
    Incoming :=
  match header.marker with
  | .connect =>
    match header.getConnectStub with
    | none => .corrupted
    | some stub =>
      .connect stub.sessionId ((rpcArgs.memcpyDeserialize W.hyper msg.region).map Prod.fst)
  | .request =>
    match header.getCallStub with
    | none => .corrupted
    | some stub => .request stub (readBytes msg.region rpcArgs.ptr rpcArgs.len)
  | .disConnect => .disConnect
  | .illegal | .reply => .unknown header

variable {stub : CallStub} {input : List UInt8}

theorem MsgHeader.incoming_eq_disConnect :
    MsgHeader.incoming W header msg rpcArgs = .disConnect ↔ header.marker = .disConnect := by
  unfold MsgHeader.incoming
  cases header.marker with
  | connect => cases header.getConnectStub <;> simp
  | request => cases header.getCallStub <;> simp
  | disConnect => simp
  | illegal => simp
  | reply => simp

theorem MsgHeader.incoming_eq_request :
    MsgHeader.incoming W header msg rpcArgs = .request stub input ↔
      header.marker = .request ∧ header.info = .request stub ∧
        input = readBytes msg.region rpcArgs.ptr rpcArgs.len := by
  unfold MsgHeader.incoming MsgHeader.getConnectStub MsgHeader.getCallStub
  rcases header with ⟨marker, payload, info⟩
  cases marker <;> cases info <;> simp [eq_comm]

def decode (W : Wire) (msg : UDMsg) : Incoming :=
  match parseMsg W msg with
  | none => .corrupted
  | some (header, rpcArgs) => MsgHeader.incoming W header msg rpcArgs

/-- The requests among the messages whose header is complete: marker and metadata of a
request, and a payload that fits behind the header. -/
theorem decode_eq_request (h : grhSize + W.header.size ≤ msg.size) :
    decode W msg = .request stub input ↔
      (msg.header W).marker = .request ∧ (msg.header W).info = .request stub ∧
        grhSize + W.header.size + (msg.header W).payload ≤ msg.size ∧
        input = readBytes msg.region (grhSize + W.header.size) (msg.header W).payload := by
  unfold decode
  cases hparse : parseMsg W msg with
  | none =>
    have hlong := (parseMsg_eq_none h).mp hparse
    exact iff_of_false (by simp) fun hfits => absurd hfits.2.2.1 (Nat.not_le.mpr hlong)
  | some parsed =>
    obtain ⟨header, rpcArgs⟩ := parsed
    obtain ⟨rfl, hfits, hptr, hlen⟩ := (parseMsg_eq_some h).mp hparse
    dsimp only
    rw [MsgHeader.incoming_eq_request, hptr, hlen, and_iff_right hfits]

namespace RPCHook

/-- Create a session, with the answer to its connect message. -/
def accept (W : Wire) (hook : RPCHook σ Endpoint) (env : PollEnv Endpoint) (sessionId : ℕ)
    (endpoint : Endpoint) : RPCHook σ Endpoint × Except (Halted HookError) Unit :=
  let sessions := hook.sessions.put sessionId (hook.sessions.queue, .create endpoint) env.fresh
  let replied := sessions.sendReply W sessionId ⟨.ok, 0⟩ env.send
  ({ hook with sessions := replied.1 }, replied.2)

/-- The output window of a procedure in the buffer of a session. -/
def outBuf (W : Wire) : BytesMut :=
  ⟨W.header.size, mtu - W.header.size, by
    have := header_size_le W
    have : mtu ≤ 2 ^ 64 := by decide
    omega⟩

/-- The answer to what a procedure returned. -/
def answer : Option PayloadSize → ReplyStubFactory
  | some size => ⟨.ok, size⟩
  | none => ⟨.notExist, 0⟩

/-- Execute a request on a connected session and reply. -/
def serve (W : Wire) (hook : RPCHook σ Endpoint) (env : PollEnv Endpoint) (stub : CallStub)
    (input : List UInt8) (session : UDSession Endpoint) (region : Memory) :
    RPCHook σ Endpoint × Except (Halted HookError) Unit :=
  let executed := hook.service.execute stub.rpcId input (outBuf W) region
  let sessions :=
    hook.sessions.put stub.sessionId (hook.sessions.queue, session) executed.2.1
  let replied := sessions.sendReply W stub.sessionId (answer executed.2.2) env.send
  ({ hook with
      service := executed.1
      analysis := hook.analysis.handleOne.handleSessionCall stub.sessionId
      sessions := replied.1 }, replied.2)

/-- The reaction of the hook to what a message asks for. -/
def react (W : Wire) (hook : RPCHook σ Endpoint) (env : PollEnv Endpoint) :
    Incoming → RPCHook σ Endpoint × Except (Halted HookError) Unit
  | .corrupted => (hook, .error (.err .corruptedHeader))
  | .connect sessionId metadata =>
    if sessionId ∈ hook.sessions.connected then (hook, .error (.err .sessionCreationError))
    else
      match metadata with
      | none => (hook, .error (.err .corruptedHeader))
      | some metadata =>
        match env.createMeta metadata with
        | none => (hook, .error (.err .sessionCreationError))
        | some endpoint =>
          if env.sessionCreated then hook.accept W env sessionId endpoint
          else (hook, .error (.err .sessionCreationError))
  | .request stub input =>
    match hook.sessions.connected.lookup stub.sessionId with
    | none => (hook, .error (.err .notConnected))
    | some (session, region) => hook.serve W env stub input session region
  | .disConnect => (hook, .error .panicked)
  | .unknown _ => (hook, .ok ())

theorem truncateHeader_session (W : Wire) (region : Memory) :
    (UDMsg.create region).bytes.truncateHeader W.header.size = some (outBuf W) := by
  have hfits : W.header.size ≤ (UDMsg.create region).bytes.len := header_size_le W
  rw [BytesMut.truncateHeader, dif_pos hfits]
  simp [outBuf, UDMsg.create]

theorem handleConnect_eq_react (hook : RPCHook σ Endpoint) (env : PollEnv Endpoint)
    (msg : UDMsg) (rpcArgs : BytesMut) (hmarker : header.marker = .connect) :
    hook.handleConnect W env msg header rpcArgs =
      hook.react W env (MsgHeader.incoming W header msg rpcArgs) := by
  unfold handleConnect MsgHeader.incoming
  rw [hmarker]
  dsimp only
  cases header.getConnectStub with
  | none => rfl
  | some stub =>
    cases rpcArgs.memcpyDeserialize W.hyper msg.region with
    | none => rfl
    | some metadata => rfl

theorem handleRequest_eq_react (hook : RPCHook σ Endpoint) (env : PollEnv Endpoint)
    (msg : UDMsg) (rpcArgs : BytesMut) (hmarker : header.marker = .request) :
    hook.handleRequest W env msg header rpcArgs =
      hook.react W env (MsgHeader.incoming W header msg rpcArgs) := by
  unfold handleRequest MsgHeader.incoming
  rw [hmarker]
  dsimp only
  cases header.getCallStub with
  | none => rfl
  | some stub =>
    dsimp only [react]
    cases hook.sessions.connected.lookup stub.sessionId with
    | none => rfl
    | some entry =>
      dsimp only
      rw [truncateHeader_session]
      rfl

theorem handle_eq_react (W : Wire) (hook : RPCHook σ Endpoint) (env : PollEnv Endpoint)
    (msg : UDMsg) : hook.handle W env msg = hook.react W env (decode W msg) := by
  unfold handle decode
  cases parseMsg W msg with
  | none => rfl
  | some parsed =>
    obtain ⟨header, rpcArgs⟩ := parsed
    dsimp only
    cases hmarker : header.marker with
    | connect => exact handleConnect_eq_react hook env msg rpcArgs hmarker
    | request => exact handleRequest_eq_react hook env msg rpcArgs hmarker
    | disConnect =>
      unfold MsgHeader.incoming
      rw [hmarker]
      rfl
    | illegal =>
      unfold MsgHeader.incoming
      rw [hmarker]
      rfl
    | reply =>
      unfold MsgHeader.incoming
      rw [hmarker]
      rfl

/-! ## What a reaction is -/

/-- The messages that the hook turns down, with the error it returns. -/
inductive Rejects (hook : RPCHook σ Endpoint) (env : PollEnv Endpoint) :
    Incoming → HookError → Prop
  | corrupted : Rejects hook env .corrupted .corruptedHeader
  | duplicate {sessionId : ℕ} (h : sessionId ∈ hook.sessions.connected)
      (metadata : Option UDHyperMeta) :
      Rejects hook env (.connect sessionId metadata) .sessionCreationError
  | noMetadata {sessionId : ℕ} (h : sessionId ∉ hook.sessions.connected) :
      Rejects hook env (.connect sessionId none) .corruptedHeader
  | noEndpoint {sessionId : ℕ} {metadata : UDHyperMeta}
      (h : sessionId ∉ hook.sessions.connected) (hmeta : env.createMeta metadata = none) :
      Rejects hook env (.connect sessionId (some metadata)) .sessionCreationError
  | noSession {sessionId : ℕ} {metadata : UDHyperMeta} {endpoint : Endpoint}
      (h : sessionId ∉ hook.sessions.connected) (hmeta : env.createMeta metadata = some endpoint)
      (hcreated : env.sessionCreated = false) :
      Rejects hook env (.connect sessionId (some metadata)) .sessionCreationError
  | notConnected {stub : CallStub} (h : stub.sessionId ∉ hook.sessions.connected)
      (input : List UInt8) : Rejects hook env (.request stub input) .notConnected

/-- The messages that connect a session. -/
structure Connects (hook : RPCHook σ Endpoint) (env : PollEnv Endpoint) (sessionId : ℕ)
    (metadata : UDHyperMeta) (endpoint : Endpoint) : Prop where
  absent : sessionId ∉ hook.sessions.connected
  created : env.createMeta metadata = some endpoint
  session : env.sessionCreated = true

/-- Everything a reaction can be. -/
inductive Reacts (W : Wire) (hook : RPCHook σ Endpoint) (env : PollEnv Endpoint) :
    Incoming → RPCHook σ Endpoint × Except (Halted HookError) Unit → Prop
  | rejected {m : Incoming} {e : HookError} (h : Rejects hook env m e) :
      Reacts W hook env m (hook, .error (.err e))
  | accepted {sessionId : ℕ} {metadata : UDHyperMeta} {endpoint : Endpoint}
      (h : Connects hook env sessionId metadata endpoint) :
      Reacts W hook env (.connect sessionId (some metadata))
        (hook.accept W env sessionId endpoint)
  | served {stub : CallStub} {session : UDSession Endpoint} {region : Memory}
      (h : hook.sessions.connected.lookup stub.sessionId = some (session, region))
      (input : List UInt8) :
      Reacts W hook env (.request stub input) (hook.serve W env stub input session region)
  | aborted : Reacts W hook env .disConnect (hook, .error .panicked)
  | dropped (header : MsgHeader) : Reacts W hook env (.unknown header) (hook, .ok ())

variable {hook : RPCHook σ Endpoint} {env : PollEnv Endpoint} {sessionId : ℕ}
  {endpoint : Endpoint}

variable {session : UDSession Endpoint} {region : Memory} {e : HookError}

theorem reacts (W : Wire) (hook : RPCHook σ Endpoint) (env : PollEnv Endpoint) (m : Incoming) :
    Reacts W hook env m (hook.react W env m) := by
  cases m with
  | corrupted => exact .rejected .corrupted
  | connect sessionId metadata =>
    rw [react.eq_def]
    dsimp only
    by_cases habsent : sessionId ∈ hook.sessions.connected
    · rw [if_pos habsent]
      exact .rejected (.duplicate habsent metadata)
    rw [if_neg habsent]
    cases metadata with
    | none => exact .rejected (.noMetadata habsent)
    | some metadata =>
      dsimp only
      cases hmeta : env.createMeta metadata with
      | none => exact .rejected (.noEndpoint habsent hmeta)
      | some endpoint =>
        dsimp only
        by_cases hcreated : env.sessionCreated = true
        · rw [if_pos hcreated]
          exact .accepted ⟨habsent, hmeta, hcreated⟩
        · rw [if_neg hcreated]
          exact .rejected (.noSession habsent hmeta (Bool.eq_false_of_not_eq_true hcreated))
  | request stub input =>
    rw [react]
    cases hlookup : hook.sessions.connected.lookup stub.sessionId with
    | none => exact .rejected (.notConnected (AList.lookup_eq_none.mp hlookup) input)
    | some entry => exact .served hlookup input
  | disConnect => exact .aborted
  | unknown header => exact .dropped header

theorem react_of_connects {metadata : UDHyperMeta}
    (h : hook.Connects env sessionId metadata endpoint) :
    hook.react W env (.connect sessionId (some metadata)) =
      hook.accept W env sessionId endpoint := by
  rw [react.eq_def]
  dsimp only
  rw [if_neg h.absent, h.created]
  dsimp only
  rw [if_pos h.session]

theorem react_of_lookup
    (h : hook.sessions.connected.lookup stub.sessionId = some (session, region)) :
    hook.react W env (.request stub input) = hook.serve W env stub input session region := by
  dsimp only [react]
  rw [h]

theorem react_transport (W : Wire) (hook : RPCHook σ Endpoint) (env : PollEnv Endpoint)
    (m : Incoming) : (hook.react W env m).1.transport = hook.transport := by
  have h := reacts W hook env m
  generalize hook.react W env m = r at h
  cases h <;> rfl

/-- Only a disconnect message makes the hook abort. -/
theorem react_panicked_iff (W : Wire) (hook : RPCHook σ Endpoint) (env : PollEnv Endpoint)
    (m : Incoming) : (hook.react W env m).2 = .error .panicked ↔ m = .disConnect := by
  have h := reacts W hook env m
  generalize hook.react W env m = r at h
  cases h with
  | rejected h =>
    constructor
    · rintro ⟨⟩
    · rintro rfl
      cases h
  | accepted h => exact iff_of_false (Sessions.sendReply_not_panicked W _ _ _ _) (by simp)
  | served h input => exact iff_of_false (Sessions.sendReply_not_panicked W _ _ _ _) (by simp)
  | aborted => simp
  | dropped header => simp

theorem accept_posted (hpost : env.send.postError = none) (W : Wire)
    (hook : RPCHook σ Endpoint) (sessionId : ℕ) (endpoint : Endpoint) :
    ∃ q pending,
      (hook.accept W env sessionId endpoint).1.sessions =
        hook.sessions.put sessionId (q, ⟨endpoint, pending⟩)
          (replyRegion W ⟨.ok, 0⟩ env.fresh) ∧
      q.works = hook.sessions.queue.works ++ [(⟨sessionId, endpoint,
        readBytes (replyRegion W ⟨.ok, 0⟩ env.fresh) 0 (replySize W ⟨.ok, 0⟩)⟩, true)] := by
  obtain ⟨q, pending, hsessions, hworks⟩ :=
    Sessions.sendReply_posted (W := W) (Sessions.lookup_put hook.sessions sessionId
      (hook.sessions.queue, .create endpoint) env.fresh) ⟨.ok, 0⟩ hpost
  refine ⟨q, pending, ?_, hworks⟩
  rw [Sessions.put_put] at hsessions
  exact hsessions

theorem accept_eq_err
    (h : (hook.accept W env sessionId endpoint).2 = .error (.err e)) : e = .fatal :=
  Sessions.sendReply_eq_err (Sessions.lookup_put _ _ _ _) h

theorem serve_posted (hpost : env.send.postError = none) (W : Wire)
    (hook : RPCHook σ Endpoint) (stub : CallStub) (input : List UInt8)
    (session : UDSession Endpoint) (region : Memory) :
    let executed := hook.service.execute stub.rpcId input (outBuf W) region
    let reply := answer executed.2.2
    ∃ q pending,
      (hook.serve W env stub input session region).1.sessions =
        hook.sessions.put stub.sessionId (q, ⟨session.endpoint, pending⟩)
          (replyRegion W reply executed.2.1) ∧
      q.works = hook.sessions.queue.works ++ [(⟨stub.sessionId, session.endpoint,
        readBytes (replyRegion W reply executed.2.1) 0 (replySize W reply)⟩,
        session.pending == 0)] := by
  intro executed reply
  obtain ⟨q, pending, hsessions, hworks⟩ :=
    Sessions.sendReply_posted (W := W) (Sessions.lookup_put hook.sessions stub.sessionId
      (hook.sessions.queue, session) executed.2.1) reply hpost
  refine ⟨q, pending, ?_, hworks⟩
  rw [Sessions.put_put] at hsessions
  exact hsessions

theorem postError_of_accept
    (hfatal : (hook.accept W env sessionId endpoint).2 ≠ .error (.err .fatal))
    (hwaiting : (hook.accept W env sessionId endpoint).2 ≠ .error .waiting) :
    env.send.postError = none :=
  Sessions.postError_of_sendReply (Sessions.lookup_put _ _ _ _) hfatal hwaiting

theorem postError_of_serve
    (hfatal : (hook.serve W env stub input session region).2 ≠ .error (.err .fatal))
    (hwaiting : (hook.serve W env stub input session region).2 ≠ .error .waiting) :
    env.send.postError = none :=
  Sessions.postError_of_sendReply (Sessions.lookup_put _ _ _ _) hfatal hwaiting

/-! ## A poll that consumes a message -/

def finish (env : PollEnv Endpoint) (msg : UDMsg) :
    RPCHook σ Endpoint × Except (Halted HookError) Unit →
      RPCHook σ Endpoint × Poll Unit (Halted HookError)
  | (hook, .error h) => (hook, .error h)
  | (hook, .ok ()) =>
    match hook.transport.postRecvBuf msg env.postRecvError with
    | (transport, .error err) => ({ hook with transport }, .error (.err (.inner err)))
    | (transport, .ok ()) => ({ hook with transport }, .ok (.ready ()))

variable {r : RPCHook σ Endpoint × Except (Halted HookError) Unit}

theorem finish_eq (env : PollEnv Endpoint) (msg : UDMsg)
    (r : RPCHook σ Endpoint × Except (Halted HookError) Unit) :
    ∃ transport, (finish env msg r).1 = { r.1 with transport } ∧
      transport.arrived = r.1.transport.arrived := by
  rcases r with ⟨hook, _ | _⟩
  · exact ⟨hook.transport, rfl, rfl⟩
  · unfold finish
    cases env.postRecvError with
    | none => exact ⟨_, rfl, rfl⟩
    | some err => exact ⟨_, rfl, rfl⟩

@[simp] theorem finish_sessions (env : PollEnv Endpoint) (msg : UDMsg)
    (r : RPCHook σ Endpoint × Except (Halted HookError) Unit) :
    (finish env msg r).1.sessions = r.1.sessions := by
  obtain ⟨transport, heq, -⟩ := finish_eq env msg r
  rw [heq]

theorem poll_of_ready {transport : UDReceiver}
    (h : hook.transport.poll env.recv = (transport, .ok (.ready msg))) :
    hook.poll W env = finish env msg ({ hook with transport }.react W env (decode W msg)) := by
  rw [poll, h]
  dsimp only
  rw [handle_eq_react]
  rcases react W { hook with transport } env (decode W msg) with ⟨hook', _ | _⟩ <;> rfl

theorem finish_eq_err (h : (finish env msg r).2 = .error (.err e)) :
    r.2 = .error (.err e) ∨ r.2 = .ok () ∧ ∃ err, env.postRecvError = some err ∧ e = .inner err := by
  rcases r with ⟨hook, h' | _⟩
  · exact Or.inl (by simpa [finish] using h)
  · unfold finish at h
    cases hpost : env.postRecvError with
    | none =>
      rw [hpost] at h
      cases h
    | some err =>
      rw [hpost] at h
      cases h
      exact Or.inr ⟨rfl, err, rfl, rfl⟩

theorem finish_ne {h : Halted HookError}
    (hne : (finish env msg r).2 ≠ .error h) : r.2 ≠ .error h := by
  rcases r with ⟨hook, h' | _⟩
  · simpa [finish] using hne
  · simp

theorem poll_of_not_ready (h : UDReceiver.handedOut (hook.transport.poll env.recv).2 = none) :
    (hook.poll W env).1 = { hook with transport := (hook.transport.poll env.recv).1 } ∧
      ((hook.poll W env).2 = .ok .notReady ∨
        ∃ err, (hook.poll W env).2 = .error (.err (.inner err))) := by
  unfold poll
  generalize hook.transport.poll env.recv = polled at h ⊢
  rcases polled with ⟨transport, err | (msg | _)⟩
  · exact ⟨rfl, Or.inr ⟨err, rfl⟩⟩
  · cases h
  · exact ⟨rfl, Or.inl rfl⟩

end RPCHook

/-! ## Runs of a hook -/

inductive HookAction (Endpoint : Type) where
  | poll (env : PollEnv Endpoint)
  | postMsgBuf (buf : UDMsg) (error : Option DatapathError)

/-- What a step of a hook shows: for a poll the messages that arrived, the message it took
and its result. -/
inductive HookOutput where
  | polled (delivered : List UDMsg) (consumed : Option UDMsg) (ret : Poll Unit (Halted HookError))
  | posted (ret : Except DatapathError Unit)

/-- A hook that is polled and given receive buffers in any order. -/
def hookMachine (W : Wire) : Machine (RPCHook σ Endpoint) (HookAction Endpoint) HookOutput where
  step hook
    | .poll env =>
      ((hook.poll W env).1,
        .polled (hook.transport.delivered env.recv)
          (UDReceiver.handedOut (hook.transport.poll env.recv).2) (hook.poll W env).2)
    | .postMsgBuf buf error =>
      ({ hook with transport := (hook.transport.postRecvBuf buf error).1 },
        .posted (hook.transport.postRecvBuf buf error).2)

end Mitosis.Datagram
