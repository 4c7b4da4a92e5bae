import Mitosis.Datagram.Caller
import Mitosis.Datagram.Hook

/-!
# Messages arrive as they were generated

A message is generated at the head of a session's buffer, sent from there and
received behind a routing header in another buffer.  The decoders of the hook and
of the caller find the header and the payload again, whatever was in the two
buffers before.
-/

namespace Mitosis.Datagram

open Mitosis.OsNetwork
open Mitosis.Rpc (CallStub MsgHeader)
open Mitosis.Support

variable {σ Endpoint : Type} {W : Wire}

variable {body : List UInt8}

theorem exists_generateStub (h : W.header.size + body.length ≤ mtu - grhSize)
    (header : WireHeader) (region : Memory) :
    ∃ m, generateStub W header body (UDMsg.create region).bytes region =
        (m, some (W.header.size + body.length)) ∧
      readBytes m 0 (W.header.size + body.length) = W.header.encode header ++ body := by
  have hfits : W.header.size + body.length ≤ (UDMsg.create region).bytes.len :=
    h.trans (Nat.sub_le _ _)
  refine ⟨_, generateStub_of_le hfits header region, ?_⟩
  have hlength : W.header.size + body.length = (W.header.encode header ++ body).length := by
    rw [List.length_append, W.header.length_encode]
  rw [hlength]
  exact readBytes_writeBytes _ _ _

/-- A received message with this header and this body. -/
structure Carries (W : Wire) (msg : UDMsg) (header : WireHeader) (body : List UInt8) : Prop where
  fits : grhSize + W.header.size + body.length ≤ msg.size
  payload : header.1.payload = body.length
  holds : Holds msg.region grhSize (W.header.encode header ++ body)

namespace Carries

variable {msg : UDMsg} {header : WireHeader} {body : List UInt8}

theorem header_eq (h : Carries W msg header body) : msg.header W = header.1 :=
  UDMsg.header_of_holds (holds_append.mp h.holds).1

theorem header_fits (h : Carries W msg header body) : grhSize + W.header.size ≤ msg.size :=
  (Nat.le_add_right _ _).trans h.fits

theorem exists_payload (h : Carries W msg header body) :
    ∃ b, (msg.behindHeader W).cloneAndResize header.1.payload = some b ∧
      readBytes msg.region b.ptr b.len = body := by
  have hfits : grhSize + W.header.size + header.1.payload ≤ msg.size := by
    rw [h.payload]
    exact h.fits
  have hspace : grhSize + W.header.size + header.1.payload ≤ 2 ^ 64 :=
    hfits.trans msg.inAddressSpace
  refine ⟨⟨grhSize + W.header.size, header.1.payload, hspace⟩, ?_, ?_⟩
  · exact (UDMsg.cloneAndResize_behindHeader h.header_fits).mpr ⟨hfits, rfl, rfl⟩
  · have hbody := (holds_append.mp h.holds).2
    rw [W.header.length_encode] at hbody
    dsimp only
    rw [h.payload]
    exact hbody

theorem exists_parseMsg (h : Carries W msg header body) :
    ∃ rpcArgs, parseMsg W msg = some (header.1, rpcArgs) ∧
      readBytes msg.region rpcArgs.ptr rpcArgs.len = body := by
  obtain ⟨b, hb, hread⟩ := h.exists_payload
  refine ⟨b, (parseMsg_eq_some h.header_fits).mpr ⟨h.header_eq.symm, ?_⟩, hread⟩
  exact (UDMsg.cloneAndResize_behindHeader h.header_fits).mp hb

theorem exists_checkReply (h : Carries W msg header body) {size : ℕ}
    (hreply : header.1 = .genReplyStub .ok size) :
    ∃ reply, checkReply W msg = .ok reply ∧
      readBytes msg.region reply.ptr reply.len = body := by
  obtain ⟨b, hb, hread⟩ := h.exists_payload
  refine ⟨b, ?_, hread⟩
  rw [checkReply, UDMsg.truncateHeader_grh h.header_fits]
  dsimp only
  rw [UDMsg.readHeader_after_grh h.header_fits, UDMsg.truncateHeader_behind h.header_fits,
    h.header_eq]
  dsimp only
  rw [hb, hreply]
  rfl

end Carries

variable {header : WireHeader}

theorem carries_receive {buf : UDMsg} (hbuf : buf.size = mtu)
    (h : W.header.size + body.length ≤ mtu - grhSize)
    (hpayload : header.1.payload = body.length) {p : Packet}
    (hp : p.body = W.header.encode header ++ body) : Carries W (buf.receive p) header body where
  fits := by
    have hmtu : grhSize ≤ mtu := by decide
    rw [UDMsg.receive_size, hbuf, Nat.add_assoc]
    exact (Nat.le_sub_iff_add_le' hmtu).mp h
  payload := hpayload
  holds := by
    rw [← hp]
    exact buf.holds_receive p

theorem word_length (h : W.header.size + body.length ≤ mtu - grhSize) :
    word body.length = body.length := by
  apply word_of_lt
  have hmtu : mtu < 2 ^ 64 := by decide
  omega

/-! ## Requests and connect messages -/

variable {msg : UDMsg}

theorem decode_call {f : CallStubFactory} {arg : List UInt8}
    (h : Carries W msg (f.header arg.length) arg) :
    decode W msg = .request ⟨f.sessionId.toNat, f.rpcId.toNat⟩ arg := by
  obtain ⟨rpcArgs, hparse, hread⟩ := h.exists_parseMsg
  rw [decode, hparse]
  exact congrArg (Incoming.request _) hread

theorem decode_connect {f : ConnectStubFactory} {metadata : UDHyperMeta}
    (h : Carries W msg (f.header W.hyper.size) (W.hyper.encode metadata)) :
    decode W msg = .connect f.sessionId.toNat (some metadata) := by
  obtain ⟨rpcArgs, hparse, hread⟩ := h.exists_parseMsg
  have hlen : rpcArgs.len = W.hyper.size := by
    rw [← length_readBytes msg.region rpcArgs.ptr rpcArgs.len, hread, W.hyper.length_encode]
  have hholds : Holds msg.region rpcArgs.ptr (W.hyper.encode metadata) := by
    rw [Holds, W.hyper.length_encode, ← hlen]
    exact hread
  rw [decode, hparse]
  refine congrArg (Incoming.connect _) ?_
  rw [BytesMut.memcpyDeserialize_of_holds hlen.ge hholds]
  rfl

/-! ## Replies -/

variable {written : List UInt8} {size : PayloadSize}

/-- A procedure that writes as many bytes as it returns leaves its reply in the buffer of
the session: the header, then what it wrote. -/
theorem reply_bytes (hsize : (size : ℕ) = written.length)
    (h : W.header.size + written.length ≤ mtu - grhSize) (region : Memory) :
    readBytes
        (replyRegion W ⟨.ok, size⟩ (writeBytes region (RPCHook.outBuf W).ptr
          (written.take (RPCHook.outBuf W).len))) 0
        (replySize W ⟨.ok, size⟩) =
      W.header.encode (ReplyStubFactory.header ⟨.ok, size⟩) ++ written := by
  have hle : written.length ≤ (RPCHook.outBuf W).len := by
    have hout : (RPCHook.outBuf W).len = mtu - W.header.size := rfl
    omega
  have hsum : replySize W ⟨.ok, size⟩ =
      (W.header.encode (ReplyStubFactory.header ⟨.ok, size⟩)).length + written.length := by
    rw [replySize, hsize, W.header.length_encode, Nat.add_comm]
  rw [List.take_of_length_le hle, hsum, replyRegion, readBytes_writeBytes_add, Nat.zero_add,
    W.header.length_encode]
  exact congrArg (_ ++ ·) (readBytes_writeBytes region _ written)

/-- A request that a hook executes is answered by one send, and the caller that receives
it finds what the procedure wrote. -/
theorem reply_round_trip {hook : RPCHook σ Endpoint} {env : PollEnv Endpoint}
    {transport : UDReceiver} {stub : CallStub} {input : List UInt8}
    {session : UDSession Endpoint} {region : Memory} {func : Callback σ} {state : σ}
    (hready : hook.transport.poll env.recv = (transport, .ok (.ready msg)))
    (hdecode : decode W msg = .request stub input)
    (hlookup : hook.sessions.connected.lookup stub.sessionId = some (session, region))
    (hfunc : hook.service.callbacks.lookup stub.rpcId = some func)
    (hcall : func hook.service.state input
      (readBytes region (RPCHook.outBuf W).ptr (RPCHook.outBuf W).len) = (state, written, size))
    (hsize : (size : ℕ) = written.length) (hfits : W.header.size + written.length ≤ mtu - grhSize)
    (hpost : env.send.postError = none) :
    ∃ signaled,
      (hook.poll W env).1.sessions.queue.works = hook.sessions.queue.works ++
        [(⟨stub.sessionId, session.endpoint,
          W.header.encode (ReplyStubFactory.header ⟨.ok, size⟩) ++ written⟩, signaled)] := by
  have hexecute : hook.service.execute stub.rpcId input (RPCHook.outBuf W) region =
      ({ hook.service with
          state, log := hook.service.log ++ [⟨stub.rpcId, input, size⟩] },
        writeBytes region (RPCHook.outBuf W).ptr (written.take (RPCHook.outBuf W).len),
        some size) := by
    rw [Service.execute, hfunc]
    dsimp only
    rw [hcall]
  have hreact : RPCHook.react W { hook with transport } env (.request stub input) =
      RPCHook.serve W { hook with transport } env stub input session region :=
    RPCHook.react_of_lookup hlookup
  obtain ⟨q, pending, hsessions, hworks⟩ :=
    RPCHook.serve_posted hpost W { hook with transport } stub input session region
  refine ⟨session.pending == 0, ?_⟩
  rw [RPCHook.poll_of_ready hready, hdecode, hreact, RPCHook.finish_sessions, hsessions]
  dsimp only [Sessions.put]
  rw [hworks, hexecute]
  dsimp only [RPCHook.answer]
  rw [reply_bytes hsize hfits]

/-! ## The whole exchange -/

/-- A poll of a hook that receives the message parses it to this header and these
arguments, and goes on with this demand. -/
structure PolledAs (W : Wire) (σ Endpoint : Type) (msg : UDMsg) (header : MsgHeader)
    (args : List UInt8) (m : Incoming) : Prop where
  parsed : ∃ rpcArgs, parseMsg W msg = some (header, rpcArgs) ∧
    readBytes msg.region rpcArgs.ptr rpcArgs.len = args
  polled : ∀ (hook : RPCHook σ Endpoint) (env : PollEnv Endpoint) (transport : UDReceiver),
    hook.transport.poll env.recv = (transport, .ok (.ready msg)) →
      hook.poll W env = RPCHook.finish env msg ({ hook with transport }.react W env m)

theorem Carries.polledAs {m : Incoming}
    (h : Carries W msg header body) {header' : MsgHeader} (hheader : header.1 = header')
    (hm : decode W msg = m) : PolledAs W σ Endpoint msg header' body m where
  parsed := by
    rw [← hheader]
    exact h.exists_parseMsg
  polled hook env transport hready := by
    rw [RPCHook.poll_of_ready hready, hm]

/-- Requests and connect messages are decoded to what they were generated from, and the
reply of a procedure reaches the caller as the procedure wrote it. -/
theorem messages_round_trip (W : Wire) (σ Endpoint : Type) :
    (∀ (f : CallStubFactory) (arg : List UInt8) (region : Memory) (buf : UDMsg),
      W.header.size + arg.length ≤ mtu - grhSize → buf.size = mtu →
      ∃ m, f.generate W arg (UDMsg.create region).bytes region =
          (m, some (W.header.size + arg.length)) ∧
        ∀ p : Packet, p.body = readBytes m 0 (W.header.size + arg.length) →
          PolledAs W σ Endpoint (buf.receive p)
            (.genCallStub f.sessionId.toNat f.rpcId.toNat arg.length) arg
            (.request ⟨f.sessionId.toNat, f.rpcId.toNat⟩ arg)) ∧
    (∀ (f : ConnectStubFactory) (metadata : UDHyperMeta) (region : Memory) (buf : UDMsg),
      W.header.size + W.hyper.size ≤ mtu - grhSize → buf.size = mtu →
      ∃ m, f.generate W (W.hyper.encode metadata) (UDMsg.create region).bytes region =
          (m, some (W.header.size + W.hyper.size)) ∧
        ∀ p : Packet, p.body = readBytes m 0 (W.header.size + W.hyper.size) →
          PolledAs W σ Endpoint (buf.receive p)
            (.genConnectStub f.sessionId.toNat W.hyper.size) (W.hyper.encode metadata)
            (.connect f.sessionId.toNat (some metadata))) ∧
    ∀ (hook : RPCHook σ Endpoint) (env : PollEnv Endpoint) (transport : UDReceiver)
      (msg : UDMsg) (stub : CallStub) (input : List UInt8) (session : UDSession Endpoint)
      (region : Memory) (func : Callback σ) (state : σ) (written : List UInt8) (size : PayloadSize),
      hook.transport.poll env.recv = (transport, .ok (.ready msg)) →
      decode W msg = .request stub input →
      hook.sessions.connected.lookup stub.sessionId = some (session, region) →
      hook.service.callbacks.lookup stub.rpcId = some func →
      func hook.service.state input
        (readBytes region (RPCHook.outBuf W).ptr (RPCHook.outBuf W).len) = (state, written, size) →
      (size : ℕ) = written.length → W.header.size + written.length ≤ mtu - grhSize →
      env.send.postError = none →
      ∃ send signaled,
        (hook.poll W env).1.sessions.queue.works =
          hook.sessions.queue.works ++ [(send, signaled)] ∧
        send.endpoint = session.endpoint ∧
        ∀ (caller : Caller Endpoint) (e : RecvEvent) (receiver : UDReceiver) (buf : UDMsg)
          (p : Packet), buf.size = mtu → p.body = send.message →
          caller.innerReceiver.poll e = (receiver, .ok (.ready (buf.receive p))) →
          ∃ reply, caller.poll W e =
              ({ caller with innerReceiver := receiver }, .ok (.ready (buf.receive p, reply))) ∧
            readBytes (buf.receive p).region reply.ptr reply.len = written := by
  refine ⟨?_, ?_, ?_⟩
  · intro f arg region buf hfits hbuf
    obtain ⟨m, hgenerate, hread⟩ := exists_generateStub hfits (f.header arg.length) region
    refine ⟨m, hgenerate, ?_⟩
    intro p hp
    have hcarries := carries_receive hbuf hfits (word_length hfits) (hp.trans hread)
    have hheader : (f.header arg.length).1 =
        .genCallStub f.sessionId.toNat f.rpcId.toNat arg.length :=
      congrArg (MsgHeader.genCallStub _ _) (word_length hfits)
    exact hcarries.polledAs hheader (decode_call hcarries)
  · intro f metadata region buf hfits hbuf
    have hlength : (W.hyper.encode metadata).length = W.hyper.size := W.hyper.length_encode _
    rw [← hlength] at hfits ⊢
    obtain ⟨m, hgenerate, hread⟩ := exists_generateStub hfits
      (f.header (W.hyper.encode metadata).length) region
    refine ⟨m, hgenerate, ?_⟩
    intro p hp
    have hcarries := carries_receive hbuf hfits (word_length hfits) (hp.trans hread)
    have hdecode : decode W (buf.receive p) = .connect f.sessionId.toNat (some metadata) := by
      apply decode_connect
      rwa [hlength] at hcarries
    exact hcarries.polledAs (congrArg (MsgHeader.genConnectStub _) (word_length hfits)) hdecode
  · intro hook env transport msg stub input session region func state written size hready hdecode
      hlookup hfunc hcall hsize hfits hpost
    obtain ⟨signaled, hworks⟩ := reply_round_trip hready hdecode hlookup hfunc hcall hsize hfits
      hpost
    refine ⟨_, signaled, hworks, rfl, ?_⟩
    intro caller e receiver buf p hbuf hp hpoll
    have hcarries := carries_receive hbuf hfits hsize hp
    obtain ⟨reply, hcheck, hread⟩ := hcarries.exists_checkReply rfl
    refine ⟨reply, ?_, hread⟩
    rw [Caller.poll_of_ready hpoll, hcheck]
    rfl

/-- A request of three bytes on session `7` in a buffer that was used before. -/
def echoMsg : UDMsg :=
  (UDMsg.create fun _ => 9).receive
    (.plain (Wire.packed.header.encode (CallStubFactory.header ⟨7, 3⟩ 3) ++ [1, 2, 3]))

/-- A hook with this procedure and this session that is about to receive the request. -/
def echoHook : RPCHook Unit ℕ where
  service := ((Service.new ()).register 3 echo).1
  transport := ⟨[echoMsg], []⟩
  sessions := Sessions.new.put 7 (.empty, .create 5) fun _ => 1
  analysis := .new

theorem echo_round_trip :
    (∃ m, CallStubFactory.generate .packed ⟨7, 3⟩ [1, 2, 3] (UDMsg.create fun _ => 255).bytes
        (fun _ => 255) = (m, some 43) ∧
      ∀ p : Packet, p.body = readBytes m 0 43 →
        PolledAs .packed Unit ℕ ((UDMsg.create fun _ => 9).receive p) (.genCallStub 7 3 3)
          [1, 2, 3] (.request ⟨7, 3⟩ [1, 2, 3])) ∧
    (∃ m, ConnectStubFactory.generate .packed ⟨7⟩ (Wire.packed.hyper.encode default)
        (UDMsg.create fun _ => 255).bytes (fun _ => 255) = (m, some 80) ∧
      ∀ p : Packet, p.body = readBytes m 0 80 →
        PolledAs .packed Unit ℕ ((UDMsg.create fun _ => 9).receive p) (.genConnectStub 7 40)
          (Wire.packed.hyper.encode default) (.connect 7 (some default))) ∧
    ∃ send signaled, (echoHook.poll .packed calmEnv).1.sessions.queue.works = [(send, signaled)] ∧
      send.endpoint = 5 ∧
      ∀ (caller : Caller ℕ) (e : RecvEvent) (receiver : UDReceiver) (buf : UDMsg) (p : Packet),
        buf.size = mtu → p.body = send.message →
        caller.innerReceiver.poll e = (receiver, .ok (.ready (buf.receive p))) →
        ∃ reply, caller.poll .packed e =
            ({ caller with innerReceiver := receiver }, .ok (.ready (buf.receive p, reply))) ∧
          readBytes (buf.receive p).region reply.ptr reply.len = [1, 2, 3] :=
  ⟨(messages_round_trip .packed Unit ℕ).1 ⟨7, 3⟩ [1, 2, 3] (fun _ => 255)
      (UDMsg.create fun _ => 9) (by decide) rfl,
    (messages_round_trip .packed Unit ℕ).2.1 ⟨7⟩ default (fun _ => 255)
      (UDMsg.create fun _ => 9) (by decide) rfl,
    (messages_round_trip .packed Unit ℕ).2.2 echoHook calmEnv ⟨[], []⟩ echoMsg ⟨7, 3⟩ [1, 2, 3]
      ⟨5, 0⟩ (fun _ => 1) echo () [1, 2, 3] 3 rfl (by decide +kernel) rfl rfl rfl rfl (by decide)
      rfl⟩

end Mitosis.Datagram
