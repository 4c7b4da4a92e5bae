import Mitosis.OsNetwork.Bytes
import Mitosis.OsNetwork.Rdma
import Mitosis.Rpc.Header

/-!
# Messages of the datagram transport

A message travels from the head of one message buffer to the place behind the
routing header of another one.  A message buffer is a memory region of its own;
`UDMsg::len` is the capacity of the region and not the length of what was
received into it, so a receiver also sees the bytes that an earlier message left
there.

A header is copied in and out as it lies in memory.  The layout is a parameter: a
fixed-width encoding with an exact inverse.
-/

namespace Mitosis.Datagram

open Mitosis.OsNetwork
open Mitosis.Rpc (MsgHeader ReplyStatus ReqType RPCMeta)
open Mitosis.Support

/-- `Receiver::HEADER`: the routing header in front of a received message. -/
def grhSize : ℕ := 40

/-- `Receiver::MTU`. -/
def mtu : ℕ := 4096

/-! ## Layouts -/

/-- A header whose numbers are machine words. -/
abbrev WireHeader := {h : MsgHeader // h.Words}

/-- What a connect message carries about its sender. -/
structure UDHyperMeta where
  gid : UInt64 × UInt64
  serviceId : UInt64
  qdHint : UInt64
  localPort : UInt8
deriving DecidableEq, Inhabited

/-- The memory images of the header and of the metadata of a connect message. -/
structure Wire where
  header : Codec WireHeader
  hyper : Codec UDHyperMeta
  header_fits : grhSize + header.size ≤ mtu

namespace Wire

open Support.Codec (u64 u8)

def markerCode : ReqType → UInt8
  | .illegal => 4
  | .connect => 0
  | .request => 1
  | .reply => 2
  | .disConnect => 3

def markerOf (code : UInt8) : ReqType :=
  if code = 0 then .connect
  else if code = 1 then .request
  else if code = 2 then .reply
  else if code = 3 then .disConnect
  else .illegal

theorem markerOf_markerCode (m : ReqType) : markerOf (markerCode m) = m := by
  cases m <;> rfl

/-- The discriminant and the two words behind it. -/
def metaCode : RPCMeta → UInt64 × UInt64 × UInt64
  | .request stub => (0, .ofNat stub.sessionId, .ofNat stub.rpcId)
  | .reply .ok => (1, 1, 0)
  | .reply .notExist => (1, 3, 0)
  | .connect stub => (2, .ofNat stub.sessionId, 0)
  | .none => (3, 0, 0)

def metaOf (code : UInt64 × UInt64 × UInt64) : RPCMeta :=
  if code.1 = 0 then .request ⟨code.2.1.toNat, code.2.2.toNat⟩
  else if code.1 = 1 then .reply (if code.2.1 = 3 then .notExist else .ok)
  else if code.1 = 2 then .connect ⟨code.2.1.toNat⟩
  else .none

theorem words_of_metaOf (marker : ReqType) (payload : UInt64) (code : UInt64 × UInt64 × UInt64) :
    MsgHeader.Words ⟨marker, payload.toNat, metaOf code⟩ := by
  refine ⟨payload.toNat_lt, ?_⟩
  dsimp only
  by_cases hrequest : code.1 = 0
  · rw [metaOf, if_pos hrequest]
    exact ⟨code.2.1.toNat_lt, code.2.2.toNat_lt⟩
  rw [metaOf, if_neg hrequest]
  by_cases hreply : code.1 = 1
  · rw [if_pos hreply]
    trivial
  rw [if_neg hreply]
  by_cases hconnect : code.1 = 2
  · rw [if_pos hconnect]
    exact code.2.1.toNat_lt
  · rw [if_neg hconnect]
    trivial

theorem metaOf_metaCode {h : MsgHeader} (hw : h.Words) : metaOf (metaCode h.info) = h.info := by
  obtain ⟨marker, payload, info⟩ := h
  obtain ⟨-, hinfo⟩ := hw
  cases info with
  | request stub =>
    obtain ⟨hsid, hrpc⟩ := hinfo
    simp only [metaCode, metaOf, if_true, UInt64.toNat_ofNat_of_lt' hsid,
      UInt64.toNat_ofNat_of_lt' hrpc]
  | reply status => cases status <;> rfl
  | connect stub =>
    have hsid : (UInt64.ofNat stub.sessionId).toNat = stub.sessionId :=
      UInt64.toNat_ofNat_of_lt' hinfo
    exact congrArg (fun n => RPCMeta.connect ⟨n⟩) hsid
  | none => rfl

/-- The payload, the metadata and, last, the marker with its padding. -/
def packedHeader : Codec WireHeader :=
  (u64.prod ((u64.prod (u64.prod u64)).prod (u8.pad 7))).retract
    (fun h => (.ofNat h.1.payload, metaCode h.1.info, markerCode h.1.marker))
    (fun code => ⟨⟨markerOf code.2.2, code.1.toNat, metaOf code.2.1⟩, words_of_metaOf _ _ _⟩)
    (by
      rintro ⟨h, hw⟩
      rw [Subtype.mk.injEq]
      dsimp only
      rw [markerOf_markerCode, metaOf_metaCode hw, UInt64.toNat_ofNat_of_lt' hw.1])

/-- A layout without gaps between the fields. -/
def packed : Wire where
  header := packedHeader
  hyper := ((u64.prod u64).prod (u64.prod (u64.prod (u8.pad 7)))).map
    { toFun := fun (gid, serviceId, qdHint, localPort) => ⟨gid, serviceId, qdHint, localPort⟩
      invFun := fun d => (d.gid, d.serviceId, d.qdHint, d.localPort)
      left_inv := fun _ => rfl
      right_inv := fun _ => rfl }
  header_fits := by decide

end Wire

/-! ## Message buffers -/

/-- A memory region with the window over all of it. -/
structure UDMsg where
  region : Memory
  size : ℕ
  inAddressSpace : size ≤ 2 ^ 64

namespace UDMsg

def bytes (msg : UDMsg) : BytesMut := ⟨0, msg.size, by simpa using msg.inAddressSpace⟩

@[simp] theorem bytes_ptr (msg : UDMsg) : msg.bytes.ptr = 0 := rfl

@[simp] theorem bytes_len (msg : UDMsg) : msg.bytes.len = msg.size := rfl

/-- The buffer of a session, `MsgBuf::create(R::MTU, ..)`. -/
def create (region : Memory) : UDMsg := ⟨region, mtu, by decide⟩

end UDMsg

/-- A message on the network with the routing header it is delivered with. -/
structure Packet where
  grh : List UInt8
  body : List UInt8
  grh_length : grh.length = grhSize

/-- What is in a receive buffer after a message arrived in it. -/
def UDMsg.receive (msg : UDMsg) (p : Packet) : UDMsg :=
  { msg with region := writeBytes msg.region 0 (p.grh ++ p.body) }

@[simp] theorem UDMsg.receive_size (msg : UDMsg) (p : Packet) :
    (msg.receive p).size = msg.size := rfl

theorem UDMsg.holds_receive (msg : UDMsg) (p : Packet) :
    Holds (msg.receive p).region grhSize p.body := by
  have h := (holds_append.mp (holds_writeBytes msg.region 0 (p.grh ++ p.body))).2
  rwa [p.grh_length, Nat.zero_add] at h

/-- A message with an empty routing header. -/
def Packet.plain (body : List UInt8) : Packet :=
  ⟨List.replicate grhSize 0, body, List.length_replicate⟩

/-- A buffer that was empty before, with a message in the layout without gaps. -/
def UDMsg.plain (header : WireHeader) (body : List UInt8) : UDMsg :=
  (UDMsg.create fun _ => 0).receive (.plain (Wire.packed.header.encode header ++ body))

/-- The header at the head of a window; where it does not fit, it is not copied and the
default one stays. -/
def readHeader (W : Wire) (m : Memory) (b : BytesMut) : MsgHeader :=
  match b.memcpyDeserialize W.header m with
  | some (header, _) => header.1
  | none => .default

/-! ## Reading a received message -/

namespace UDMsg

variable {W : Wire} {msg : UDMsg}

def header (W : Wire) (msg : UDMsg) : MsgHeader :=
  (W.header.decode (readBytes msg.region grhSize W.header.size)).1

/-- The window behind the header. -/
def behindHeader (W : Wire) (msg : UDMsg) : BytesMut := msg.bytes.after (grhSize + W.header.size)

theorem header_of_holds {header : WireHeader}
    (h : Holds msg.region grhSize (W.header.encode header)) : msg.header W = header.1 :=
  congrArg Subtype.val (Codec.decode_of_holds h)

theorem truncateHeader_grh (h : grhSize + W.header.size ≤ msg.size) :
    msg.bytes.truncateHeader grhSize = some (msg.bytes.after grhSize) :=
  BytesMut.truncateHeader_of_le ((Nat.le_add_right _ _).trans h)

theorem readHeader_after_grh (h : grhSize + W.header.size ≤ msg.size) :
    readHeader W msg.region (msg.bytes.after grhSize) = msg.header W := by
  have hgrh : grhSize ≤ msg.bytes.len := (Nat.le_add_right _ _).trans h
  have hfits : W.header.size ≤ (msg.bytes.after grhSize).len := Nat.le_sub_of_add_le' h
  rw [readHeader, BytesMut.memcpyDeserialize, if_pos hfits, BytesMut.after_ptr hgrh, bytes_ptr,
    Nat.zero_add]
  rfl

theorem truncateHeader_behind (h : grhSize + W.header.size ≤ msg.size) :
    (msg.bytes.after grhSize).truncateHeader W.header.size = some (msg.behindHeader W) := by
  have hfits : W.header.size ≤ (msg.bytes.after grhSize).len := Nat.le_sub_of_add_le' h
  rw [BytesMut.truncateHeader_of_le hfits, BytesMut.after_after]
  rfl

theorem behindHeader_ptr (h : grhSize + W.header.size ≤ msg.size) :
    (msg.behindHeader W).ptr = grhSize + W.header.size := by
  rw [behindHeader, BytesMut.after_ptr h, bytes_ptr, Nat.zero_add]

theorem cloneAndResize_behindHeader (h : grhSize + W.header.size ≤ msg.size) {b : BytesMut}
    {sz : ℕ} :
    (msg.behindHeader W).cloneAndResize sz = some b ↔
      grhSize + W.header.size + sz ≤ msg.size ∧ b.ptr = grhSize + W.header.size ∧ b.len = sz := by
  rw [BytesMut.cloneAndResize_eq_some, behindHeader_ptr h]
  refine and_congr_left' ?_
  rw [behindHeader, BytesMut.after_len, bytes_len]
  exact Nat.le_sub_iff_add_le' h

theorem cloneAndResize_behindHeader_eq_none (h : grhSize + W.header.size ≤ msg.size) {sz : ℕ} :
    (msg.behindHeader W).cloneAndResize sz = none ↔ msg.size < grhSize + W.header.size + sz := by
  rw [BytesMut.cloneAndResize_eq_none, behindHeader, BytesMut.after_len, bytes_len]
  exact Nat.sub_lt_iff_lt_add' h

end UDMsg

/-! ## Generating messages -/

/-- Copy a header and a body behind it to the head of a buffer, and return the size
of the message. -/
def generateStub (W : Wire) (header : WireHeader) (body : List UInt8) (msg : BytesMut)
    (m : Memory) : Memory × Option ℕ :=
  match msg.memcpySerializeAt W.header m 0 header with
  | (m, none) => (m, none)
  | (m, some headerSz) =>
    match msg.memcpySerializeAt (Codec.raw body.length) m W.header.size ⟨body, rfl⟩ with
    | (m, none) => (m, none)
    | (m, some bodySz) => (m, some (headerSz + bodySz))

theorem generateStub_of_le {W : Wire} {body : List UInt8} {msg : BytesMut}
    (h : W.header.size + body.length ≤ msg.len) (header : WireHeader) (m : Memory) :
    generateStub W header body msg m =
      (writeBytes m msg.ptr (W.header.encode header ++ body),
        some (W.header.size + body.length)) := by
  have hheader : 0 + W.header.size ≤ msg.len := by omega
  have hbody : W.header.size + (Codec.raw body.length).size ≤ msg.len := h
  rw [generateStub, BytesMut.memcpySerializeAt_of_le hheader]
  dsimp only
  rw [BytesMut.memcpySerializeAt_of_le hbody, Nat.add_zero, ← W.header.length_encode header]
  exact congrArg₂ Prod.mk (writeBytes_append _ _ _ _) rfl

/-- A body that does not fit is found out behind the header. -/
theorem generateStub_of_lt {W : Wire} {body : List UInt8} {msg : BytesMut}
    (hheader : W.header.size ≤ msg.len) (h : msg.len < W.header.size + body.length)
    (header : WireHeader) (m : Memory) :
    generateStub W header body msg m = (writeBytes m msg.ptr (W.header.encode header), none) := by
  have hbody : msg.len < W.header.size + (Codec.raw body.length).size := h
  rw [generateStub, BytesMut.memcpySerializeAt_zero hheader]
  dsimp only
  rw [BytesMut.memcpySerializeAt_of_lt hbody]

/-- A number as a `usize`. -/
def word (n : ℕ) : ℕ := n % 2 ^ 64

theorem word_lt (n : ℕ) : word n < 2 ^ 64 := Nat.mod_lt _ (by norm_num)

theorem word_of_lt {n : ℕ} (h : n < 2 ^ 64) : word n = n := Nat.mod_eq_of_lt h

/-- Generates the connect message of a session. -/
structure ConnectStubFactory where
  sessionId : UInt64
deriving DecidableEq

/-- Generates a request on a session. -/
structure CallStubFactory where
  sessionId : UInt64
  rpcId : UInt64
deriving DecidableEq

/-- The size of the payload of a reply.  The hook adds the size of the header to it, and the
build checks the sum for overflow; sizes so close to `2 ^ 64` that it aborts are left out. -/
abbrev PayloadSize := Fin (2 ^ 64 - mtu)

instance : NeZero (2 ^ 64 - mtu) := ⟨by decide⟩

/-- Generates the header of a reply. -/
structure ReplyStubFactory where
  status : ReplyStatus
  payload : PayloadSize
deriving DecidableEq

namespace ConnectStubFactory

def header (f : ConnectStubFactory) (payload : ℕ) : WireHeader :=
  ⟨.genConnectStub f.sessionId.toNat (word payload), word_lt _, f.sessionId.toNat_lt⟩

/-- Generate the connect stub using the memory image of the metadata. -/
def generate (W : Wire) (f : ConnectStubFactory) (metadata : List UInt8) (msg : BytesMut)
    (m : Memory) : Memory × Option ℕ :=
  generateStub W (f.header metadata.length) metadata msg m

end ConnectStubFactory

namespace CallStubFactory

def header (f : CallStubFactory) (payload : ℕ) : WireHeader :=
  ⟨.genCallStub f.sessionId.toNat f.rpcId.toNat (word payload), word_lt _,
    f.sessionId.toNat_lt, f.rpcId.toNat_lt⟩

/-- Generate the call stub using the memory image of the argument. -/
def generate (W : Wire) (f : CallStubFactory) (arg : List UInt8) (msg : BytesMut)
    (m : Memory) : Memory × Option ℕ :=
  generateStub W (f.header arg.length) arg msg m

end CallStubFactory

namespace ReplyStubFactory

def header (f : ReplyStubFactory) : WireHeader :=
  ⟨.genReplyStub f.status f.payload, f.payload.isLt.trans_le (Nat.sub_le _ _), trivial⟩

/-- Only the header is written; the payload is in the buffer already. -/
def generate (W : Wire) (f : ReplyStubFactory) (msg : BytesMut) (m : Memory) :
    Memory × Option ℕ :=
  msg.memcpySerializeAt W.header m 0 f.header

end ReplyStubFactory

end Mitosis.Datagram
