import Mitosis.Datagram.Hook

/-!
# What an earlier message leaves in a receive buffer

A receive buffer is posted again as it is, and the hook reads as many bytes of it as
the header claims, not as many as were received.  Two runs that differ only in the
previous content of the buffer decide alike if the message brings everything that is
read, and how much that is depends on the hook: the arguments of a request are read if
its session is connected and its procedure registered, the metadata of a connect message
if its session is new.  A request that claims more than it brings is then executed on
what an earlier message left behind.
-/

namespace Mitosis.Datagram

open Mitosis.OsNetwork
open Mitosis.Rpc (CallStub MsgHeader)
open Mitosis.Support

variable {σ Endpoint : Type} {W : Wire}

/-! ## What a decision depends on -/

variable {msg msg' : UDMsg}

theorem parseMsg_congr (hsize : msg.size = msg'.size)
    (hheader : grhSize + W.header.size ≤ msg.size → msg.header W = msg'.header W) :
    parseMsg W msg = parseMsg W msg' := by
  by_cases hfits : grhSize + W.header.size ≤ msg.size
  · have hfits' := hsize ▸ hfits
    cases hparse : parseMsg W msg' with
    | none =>
      rw [parseMsg_eq_none hfits, hheader hfits, hsize]
      exact (parseMsg_eq_none hfits').mp hparse
    | some parsed =>
      rw [parseMsg_eq_some hfits, hheader hfits, hsize]
      exact (parseMsg_eq_some hfits').mp hparse
  · have hshort := Nat.lt_of_not_le hfits
    rw [parseMsg_of_short hshort, parseMsg_of_short (hsize ▸ hshort)]

namespace RPCHook

/-- How many bytes behind the header the hook reads: the metadata of a session that is not
connected, where the payload holds them, and the arguments of a registered procedure on a
connected session. -/
def bytesRead (W : Wire) (hook : RPCHook σ Endpoint) (header : MsgHeader) : ℕ :=
  match header.marker with
  | .connect =>
    match header.getConnectStub with
    | none => 0
    | some stub =>
      if stub.sessionId ∉ hook.sessions.connected ∧ W.hyper.size ≤ header.payload then
        W.hyper.size
      else 0
  | .request =>
    match header.getCallStub with
    | none => 0
    | some stub =>
      if stub.sessionId ∈ hook.sessions.connected ∧ stub.rpcId ∈ hook.service.callbacks then
        header.payload
      else 0
  | .disConnect | .illegal | .reply => 0

variable {hook : RPCHook σ Endpoint} {header : MsgHeader}

theorem bytesRead_connect {stub : Rpc.ConnectStub} (hmarker : header.marker = .connect)
    (hstub : header.getConnectStub = some stub)
    (hnew : stub.sessionId ∉ hook.sessions.connected) (hholds : W.hyper.size ≤ header.payload) :
    hook.bytesRead W header = W.hyper.size := by
  rw [bytesRead, hmarker]
  dsimp only
  rw [hstub]
  exact if_pos ⟨hnew, hholds⟩

theorem bytesRead_request {stub : CallStub}
    (hmarker : header.marker = .request) (hstub : header.getCallStub = some stub)
    (hconnected : stub.sessionId ∈ hook.sessions.connected)
    (hregistered : stub.rpcId ∈ hook.service.callbacks) :
    hook.bytesRead W header = header.payload := by
  rw [bytesRead, hmarker]
  dsimp only
  rw [hstub]
  exact if_pos ⟨hconnected, hregistered⟩

theorem serve_of_unregistered {stub : CallStub}
    (h : stub.rpcId ∉ hook.service.callbacks) (env : PollEnv Endpoint) (input input' : List UInt8)
    (session : UDSession Endpoint) (region : Memory) :
    hook.serve W env stub input session region = hook.serve W env stub input' session region := by
  have hnone : ∀ bytes, hook.service.execute stub.rpcId bytes (outBuf W) region =
      (hook.service, region, none) := by
    intro bytes
    rw [Service.execute, AList.lookup_eq_none.mpr h]
  unfold serve
  rw [hnone, hnone]

theorem react_incoming_congr (hook : RPCHook σ Endpoint) (env : PollEnv Endpoint)
    {rpcArgs : BytesMut}
    (hlen : rpcArgs.len = header.payload)
    (h : readBytes msg.region rpcArgs.ptr (hook.bytesRead W header) =
      readBytes msg'.region rpcArgs.ptr (hook.bytesRead W header)) :
    hook.react W env (MsgHeader.incoming W header msg rpcArgs) =
      hook.react W env (MsgHeader.incoming W header msg' rpcArgs) := by
  unfold MsgHeader.incoming
  cases hmarker : header.marker with
  | connect =>
    dsimp only
    cases hstub : header.getConnectStub with
    | none => rfl
    | some stub =>
      by_cases hconnected : stub.sessionId ∈ hook.sessions.connected
      · rw [react.eq_def, react.eq_def]
        dsimp only
        rw [if_pos hconnected, if_pos hconnected]
      by_cases hholds : W.hyper.size ≤ header.payload
      · rw [bytesRead_connect hmarker hstub hconnected hholds] at h
        rw [BytesMut.memcpyDeserialize, BytesMut.memcpyDeserialize, h]
      · rw [BytesMut.memcpyDeserialize, BytesMut.memcpyDeserialize, hlen, if_neg hholds,
          if_neg hholds]
  | request =>
    dsimp only
    cases hstub : header.getCallStub with
    | none => rfl
    | some stub =>
      dsimp only [react]
      cases hlookup : hook.sessions.connected.lookup stub.sessionId with
      | none => rfl
      | some entry =>
        by_cases hregistered : stub.rpcId ∈ hook.service.callbacks
        · rw [bytesRead_request hmarker hstub (mem_of_lookup hlookup) hregistered] at h
          rw [hlen, h]
        · exact serve_of_unregistered hregistered env _ _ _ _
  | disConnect => rfl
  | illegal => rfl
  | reply => rfl

end RPCHook

/-! ## Messages that bring what is read -/

/-- The header that the bytes of a message begin with. -/
def Packet.header (W : Wire) (p : Packet) : MsgHeader :=
  (W.header.decode (p.body.take W.header.size)).1

/-- The message brings its header and, unless it claims more payload than the buffer has room
for, the bytes behind the header that the hook reads. -/
structure SelfContained (W : Wire) (hook : RPCHook σ Endpoint) (size : ℕ) (p : Packet) :
    Prop where
  header : W.header.size ≤ p.body.length
  payload : grhSize + W.header.size + (p.header W).payload ≤ size →
    W.header.size + hook.bytesRead W (p.header W) ≤ p.body.length

variable {hook : RPCHook σ Endpoint} {p : Packet}

theorem header_receive (h : W.header.size ≤ p.body.length) (buf : UDMsg) :
    (buf.receive p).header W = p.header W := by
  have hread : readBytes (buf.receive p).region (grhSize + 0) W.header.size =
      (p.body.drop 0).take W.header.size :=
    (buf.holds_receive p).readBytes_part ((Nat.zero_add _).trans_le h)
  rw [Nat.add_zero, List.drop_zero] at hread
  rw [UDMsg.header, hread]
  rfl

theorem react_receive_congr {buf buf' : UDMsg}
    (hsize : buf.size = buf'.size) (h : SelfContained W hook buf.size p)
    (env : PollEnv Endpoint) :
    hook.react W env (decode W (buf.receive p)) =
      hook.react W env (decode W (buf'.receive p)) := by
  have hheader := header_receive h.header buf
  have hheader' := header_receive h.header buf'
  have hparse : parseMsg W (buf.receive p) = parseMsg W (buf'.receive p) :=
    parseMsg_congr hsize fun _ => hheader.trans hheader'.symm
  rw [decode, decode, ← hparse]
  cases hparsed : parseMsg W (buf.receive p) with
  | none => rfl
  | some parsed =>
    obtain ⟨header, rpcArgs⟩ := parsed
    have hfits : grhSize + W.header.size ≤ (buf.receive p).size := by
      by_contra hshort
      rw [parseMsg_of_short (Nat.lt_of_not_le hshort)] at hparsed
      cases hparsed
    obtain ⟨rfl, hpayload, hptr, hlen⟩ := (parseMsg_eq_some hfits).mp hparsed
    apply hook.react_incoming_congr env hlen
    rw [hheader] at hpayload ⊢
    have hbrought := h.payload hpayload
    rw [hptr, (buf.holds_receive p).readBytes_part hbrought,
      (buf'.holds_receive p).readBytes_part hbrought]

namespace RPCHook

variable {env : PollEnv Endpoint}

theorem react_with_transport (W : Wire) (hook : RPCHook σ Endpoint) (env : PollEnv Endpoint)
    (m : Incoming) (transport : UDReceiver) :
    react W { hook with transport } env m =
      ({ (hook.react W env m).1 with transport }, (hook.react W env m).2) := by
  cases m with
  | corrupted => rfl
  | connect sessionId metadata =>
    rw [react.eq_def, react.eq_def]
    dsimp only
    split
    · rfl
    · cases metadata with
      | none => rfl
      | some metadata =>
        dsimp only
        cases env.createMeta metadata with
        | none => rfl
        | some endpoint =>
          dsimp only
          split
          · rfl
          · rfl
  | request stub input =>
    dsimp only [react]
    cases hook.sessions.connected.lookup stub.sessionId with
    | none => rfl
    | some entry => rfl
  | disConnect => rfl
  | unknown header => rfl

theorem finish_result_congr
    {r r' : RPCHook σ Endpoint × Except (Halted HookError) Unit} (h : r.2 = r'.2) :
    (finish env msg r).2 = (finish env msg' r').2 := by
  rcases r with ⟨hook, e | _⟩
  · obtain ⟨hook', r'⟩ := r'
    cases h
    rfl
  · obtain ⟨hook', r'⟩ := r'
    cases h
    unfold finish
    cases env.postRecvError <;> rfl

/-- Two hooks that differ in their receive buffers only, and take messages about which the
same is done, answer alike and stay alike. -/
theorem poll_congr {transport other other' : UDReceiver}
    (hready : hook.transport.poll env.recv = (transport, .ok (.ready msg)))
    (hready' : other.poll env.recv = (other', .ok (.ready msg')))
    (hreact : hook.react W env (decode W msg) = hook.react W env (decode W msg')) :
    let r := hook.poll W env
    let r' := poll W { hook with transport := other } env
    r.2 = r'.2 ∧ ∃ transport', r'.1 = { r.1 with transport := transport' } := by
  intro r r'
  have hr : r = finish env msg (react W { hook with transport } env (decode W msg)) :=
    poll_of_ready hready
  have hr' : r' =
      finish env msg' (react W { hook with transport := other' } env (decode W msg')) :=
    poll_of_ready hready'
  rw [react_with_transport] at hr hr'
  rw [← hreact] at hr'
  obtain ⟨t, hfinish, -⟩ := finish_eq env msg
    ({ (hook.react W env (decode W msg)).1 with transport }, (hook.react W env (decode W msg)).2)
  obtain ⟨t', hfinish', -⟩ := finish_eq env msg'
    ({ (hook.react W env (decode W msg)).1 with transport := other' },
      (hook.react W env (decode W msg)).2)
  refine ⟨?_, t', ?_⟩
  · rw [hr, hr']
    exact finish_result_congr rfl
  · rw [hr, hr', hfinish, hfinish']

theorem log_poll_of_request (hook : RPCHook σ Endpoint)
    {transport : UDReceiver} {msg : UDMsg} {stub : CallStub} {input : List UInt8}
    (hready : hook.transport.poll env.recv = (transport, .ok (.ready msg)))
    (hdecode : decode W msg = .request stub input)
    (hconnected : stub.sessionId ∈ hook.sessions.connected)
    (hregistered : stub.rpcId ∈ hook.service.callbacks) :
    ∃ n, (hook.poll W env).1.service.log = hook.service.log ++ [⟨stub.rpcId, input, n⟩] := by
  obtain ⟨⟨session, region⟩, hlookup⟩ := Option.isSome_iff_exists.mp
    (AList.lookup_isSome.mpr hconnected)
  rw [poll_of_ready hready, hdecode, react_with_transport, react_of_lookup hlookup]
  obtain ⟨t, hfinish, -⟩ := finish_eq env msg
    ({ (hook.serve W env stub input session region).1 with transport },
      (hook.serve W env stub input session region).2)
  rw [hfinish]
  rcases hook.service.execute_cases stub.rpcId input (outBuf W) region with
    ⟨hnone, -⟩ | ⟨-, state, m, n, hexecute⟩
  · exact absurd hregistered hnone
  · refine ⟨n, ?_⟩
    unfold serve
    rw [hexecute]

end RPCHook

/-! ## Requests that claim more than they bring -/

/-- A buffer in which every byte was the same before. -/
def filled (byte : UInt8) (size : ℕ) (hsize : size ≤ 2 ^ 64) : UDMsg := ⟨fun _ => byte, size, hsize⟩

theorem decode_request_of_header {stub : CallStub} (buf : UDMsg)
    (hheader : W.header.size ≤ p.body.length) (hmarker : (p.header W).marker = .request)
    (hinfo : (p.header W).info = .request stub)
    (hfits : grhSize + W.header.size + (p.header W).payload ≤ buf.size) :
    decode W (buf.receive p) = .request stub
      (readBytes (buf.receive p).region (grhSize + W.header.size) (p.header W).payload) := by
  have hsize : grhSize + W.header.size ≤ (buf.receive p).size := (Nat.le_add_right _ _).trans hfits
  rw [decode_eq_request hsize, header_receive hheader]
  exact ⟨hmarker, hinfo, hfits, rfl⟩

theorem region_behind (buf : UDMsg) (p : Packet) :
    (buf.receive p).region (grhSize + p.body.length) = buf.region (grhSize + p.body.length) := by
  have hbehind : 0 + (p.grh ++ p.body).length ≤ grhSize + p.body.length := by
    rw [List.length_append, p.grh_length, Nat.zero_add]
  exact writeBytes_outside buf.region (Or.inr hbehind)

theorem readBytes_filled_ne {payload size : ℕ} (hsize : size ≤ 2 ^ 64)
    (hheader : W.header.size ≤ p.body.length) (hshort : p.body.length < W.header.size + payload) :
    readBytes ((filled 0 size hsize).receive p).region (grhSize + W.header.size) payload ≠
      readBytes ((filled 1 size hsize).receive p).region (grhSize + W.header.size) payload := by
  intro heq
  -- the first byte behind what was received
  obtain ⟨k, hk⟩ := Nat.exists_eq_add_of_le hheader
  have hbyte := congrArg (fun bs => bs[k]?) heq
  have hlt : k < payload := by omega
  have haddr : grhSize + W.header.size + k = grhSize + p.body.length := by omega
  simp only [readBytes, List.getElem?_map, List.getElem?_range hlt, Option.map_some, haddr,
    region_behind, Option.some.injEq] at hbyte
  have hbytes : (0 : UInt8) = 1 := hbyte
  exact absurd hbytes (by decide)

/-- A request of which the hook reads more than it brings. -/
theorem request_of_not_selfContained {size : ℕ}
    (hheader : W.header.size ≤ p.body.length) (hmarker : (p.header W).marker = .request)
    (h : ¬ SelfContained W hook size p) :
    grhSize + W.header.size + (p.header W).payload ≤ size ∧
      p.body.length < W.header.size + (p.header W).payload ∧
      ∃ stub, (p.header W).info = .request stub ∧
        stub.sessionId ∈ hook.sessions.connected ∧ stub.rpcId ∈ hook.service.callbacks := by
  have hpayload : ¬ (grhSize + W.header.size + (p.header W).payload ≤ size →
      W.header.size + hook.bytesRead W (p.header W) ≤ p.body.length) :=
    fun hpayload => h ⟨hheader, hpayload⟩
  push Not at hpayload
  obtain ⟨hfits, hcut⟩ := hpayload
  rw [RPCHook.bytesRead, hmarker] at hcut
  dsimp only at hcut
  unfold MsgHeader.getCallStub at hcut
  cases hinfo : (p.header W).info with
  | request stub =>
    rw [hinfo] at hcut
    dsimp only at hcut
    split at hcut
    · next hreads => exact ⟨hfits, hcut, stub, rfl, hreads⟩
    · omega
  | _ =>
    rw [hinfo] at hcut
    dsimp only at hcut
    omega

/-- What was in a receive buffer before does not matter for a message that brings its header
and the bytes that the hook reads: the poll has the same result and leaves the same hook,
apart from the receive buffers.  For a request with a complete header this is also necessary:
otherwise its session is connected and its procedure registered, and there are two previous
contents with which the procedure is called on different inputs. -/
theorem stale_bytes_ignored (W : Wire) (hook : RPCHook σ Endpoint) (env : PollEnv Endpoint) :
    (∀ (p : Packet) (buf buf' : UDMsg), buf.size = buf'.size →
      SelfContained W hook buf.size p →
      (buf.receive p).header W = (buf'.receive p).header W ∧
      ∀ (transport other other' : UDReceiver),
        hook.transport.poll env.recv = (transport, .ok (.ready (buf.receive p))) →
        other.poll env.recv = (other', .ok (.ready (buf'.receive p))) →
        let r := hook.poll W env
        let r' := RPCHook.poll W { hook with transport := other } env
        r.2 = r'.2 ∧ ∃ transport', r'.1 = { r.1 with transport := transport' }) ∧
    ∀ (p : Packet) (size : ℕ) (hsize : size ≤ 2 ^ 64),
      W.header.size ≤ p.body.length → (p.header W).marker = .request →
      ¬ SelfContained W hook size p →
      ∀ (transport other other' : UDReceiver),
        hook.transport.poll env.recv =
          (transport, .ok (.ready ((filled 0 size hsize).receive p))) →
        other.poll env.recv = (other', .ok (.ready ((filled 1 size hsize).receive p))) →
        ∃ (stub : CallStub) (input input' : List UInt8) (n n' : PayloadSize), input ≠ input' ∧
          stub.sessionId ∈ hook.sessions.connected ∧ stub.rpcId ∈ hook.service.callbacks ∧
          (hook.poll W env).1.service.log = hook.service.log ++ [⟨stub.rpcId, input, n⟩] ∧
          (RPCHook.poll W { hook with transport := other } env).1.service.log =
            hook.service.log ++ [⟨stub.rpcId, input', n'⟩] := by
  constructor
  · intro p buf buf' hsize h
    refine ⟨(header_receive h.header buf).trans (header_receive h.header buf').symm, ?_⟩
    intro transport other other' hready hready'
    exact RPCHook.poll_congr hready hready' (react_receive_congr hsize h env)
  · intro p size hsize hheader hmarker h transport other other' hready hready'
    obtain ⟨hfits, hcut, stub, hinfo, hconnected, hregistered⟩ :=
      request_of_not_selfContained hheader hmarker h
    have hdecode := fun byte => decode_request_of_header (filled byte size hsize) hheader
      hmarker hinfo hfits
    obtain ⟨n, hlog⟩ := hook.log_poll_of_request hready (hdecode 0) hconnected hregistered
    obtain ⟨n', hlog'⟩ := RPCHook.log_poll_of_request
      { hook with transport := other } hready' (hdecode 1) hconnected hregistered
    exact ⟨stub, _, _, n, n', readBytes_filled_ne hsize hheader hcut, hconnected, hregistered,
      hlog, hlog'⟩

/-- A request on session `7`, and one that claims two bytes and brings none. -/
def wholeRequest : Packet :=
  .plain (Wire.packed.header.encode (CallStubFactory.header ⟨7, 3⟩ 2) ++ [1, 2])

def cutRequest : Packet := .plain (Wire.packed.header.encode (CallStubFactory.header ⟨7, 3⟩ 2))

/-- A hook with one procedure and one session that has received the message in this buffer. -/
def staleHook (buf : UDMsg) (p : Packet) : RPCHook Unit ℕ where
  service := ((Service.new ()).register 3 echo).1
  transport := ⟨[buf.receive p], []⟩
  sessions := Sessions.new.put 7 (.empty, .create 5) fun _ => 0
  analysis := .new

theorem request_bytes_decide :
    ((staleHook (filled 0 mtu (by decide)) wholeRequest).poll .packed calmEnv).2 =
        ((staleHook (filled 1 mtu (by decide)) wholeRequest).poll .packed calmEnv).2 ∧
      ∃ (stub : CallStub) (input input' : List UInt8) (n n' : PayloadSize), input ≠ input' ∧
        stub.sessionId ∈ (staleHook (filled 0 mtu (by decide)) cutRequest).sessions.connected ∧
        stub.rpcId ∈ (staleHook (filled 0 mtu (by decide)) cutRequest).service.callbacks ∧
        ((staleHook (filled 0 mtu (by decide)) cutRequest).poll .packed calmEnv).1.service.log =
          [] ++ [⟨stub.rpcId, input, n⟩] ∧
        ((staleHook (filled 1 mtu (by decide)) cutRequest).poll .packed calmEnv).1.service.log =
          [] ++ [⟨stub.rpcId, input', n'⟩] := by
  constructor
  · exact (((stale_bytes_ignored .packed (staleHook (filled 0 mtu (by decide)) wholeRequest)
      calmEnv).1 wholeRequest (filled 0 mtu (by decide)) (filled 1 mtu (by decide)) rfl
      ⟨by decide +kernel, fun _ => by decide +kernel⟩).2 ⟨[], []⟩
      ⟨[(filled 1 mtu (by decide)).receive wholeRequest], []⟩ ⟨[], []⟩ rfl rfl).1
  · refine (stale_bytes_ignored .packed (staleHook (filled 0 mtu (by decide)) cutRequest)
      calmEnv).2 cutRequest mtu (by decide) (by decide +kernel) (by decide +kernel) ?_ ⟨[], []⟩
      ⟨[(filled 1 mtu (by decide)).receive cutRequest], []⟩ ⟨[], []⟩ rfl rfl
    intro h
    exact absurd (h.payload (by decide +kernel)) (by decide +kernel)

/-- An empty datagram is executed as the request that was in its buffer before. -/
theorem empty_datagram_repeats_request :
    ((staleHook ((filled 0 mtu (by decide)).receive wholeRequest) (.plain [])).poll .packed
        calmEnv).1.service.log = [⟨3, [1, 2], 2⟩] ∧
      ((staleHook (filled 0 mtu (by decide)) (.plain [])).poll .packed calmEnv).2 =
        .error (.err .corruptedHeader) :=
  ⟨by decide +kernel, by decide +kernel⟩

end Mitosis.Datagram
