import Mitosis.Datagram.Receiver
import Mitosis.Datagram.Session

/-!
# The caller of a client

A caller receives the replies of all its sessions through one receiver.  A reply
is checked by its header; the client posts the receive buffer again after a reply
that passed, and returns with an error otherwise.
-/

namespace Mitosis.Datagram

open Mitosis.OsNetwork
open Mitosis.Rpc (MsgHeader ReplyStatus)
open Mitosis.Support

variable {Endpoint : Type}

inductive CallError where
  | inner (error : DatapathError)
  | noId
  | connectError
  | fatal
deriving DecidableEq, Repr

structure Caller (Endpoint : Type) where
  innerReceiver : UDReceiver
  sessions : Sessions Endpoint

/-- What a received message is as a reply: the window over its payload. -/
def checkReply (W : Wire) (msg : UDMsg) : Except (Halted CallError) BytesMut :=
  match msg.bytes.truncateHeader grhSize with
  | none => .error .panicked
  | some msgHeaderBytes =>
    let msgHeader := readHeader W msg.region msgHeaderBytes
    if msgHeader.isReply then
      match msgHeader.getReplyStub with
      | some .ok =>
        match msgHeaderBytes.truncateHeader W.header.size with
        | none => .error .panicked
        | some payload =>
          match payload.cloneAndResize msgHeader.payload with
          | none => .error .panicked
          | some reply => .ok reply
      | some .notExist => .error (.err .noId)
      | none => .error (.err .fatal)
    else .error (.err .fatal)

namespace Caller

def new (receiver : UDReceiver) : Caller Endpoint := ⟨receiver, .new⟩

def registerRecvBuf (caller : Caller Endpoint) (msg : UDMsg) (error : Option DatapathError) :
    Caller Endpoint × Except DatapathError Unit :=
  let (innerReceiver, ret) := caller.innerReceiver.postRecvBuf msg error
  ({ caller with innerReceiver }, ret)

/-- `Caller::poll`. -/
def poll (W : Wire) (caller : Caller Endpoint) (e : RecvEvent) :
    Caller Endpoint × Poll (UDMsg × BytesMut) (Halted CallError) :=
  match caller.innerReceiver.poll e with
  | (innerReceiver, .error err) =>
    ({ caller with innerReceiver }, .error (.err (.inner err)))
  | (innerReceiver, .ok .notReady) => ({ caller with innerReceiver }, .ok .notReady)
  | (innerReceiver, .ok (.ready msg)) =>
    ({ caller with innerReceiver }, (checkReply W msg).map fun reply => .ready (msg, reply))

def haltOf : TimeoutError (Halted CallError) → Halted (TimeoutError CallError)
  | .inner (.err e) => .err (.inner e)
  | .inner .panicked => .panicked
  | .inner .waiting => .waiting
  | .elapsed => .err .elapsed

/-- How the resume system call waits for the reply to its request: the buffer of a good
reply is registered again, any error ends the call. -/
def awaitReply (W : Wire) (timeoutUsec : ℤ) (caller : Caller Endpoint)
    (events : List (RecvEvent × ℤ)) (registerError : Option DatapathError) :
    Caller Endpoint × Except (Halted (TimeoutError CallError)) (List UInt8) :=
  match blockOn (Timeout.poll (poll W) timeoutUsec) caller events with
  | (caller, none) => (caller, .error .waiting)
  | (caller, some (.error err)) => (caller, .error (haltOf err))
  | (caller, some (.ok (msg, reply))) =>
    match caller.registerRecvBuf msg registerError with
    | (caller, .error _) => (caller, .error .panicked)
    | (caller, .ok ()) => (caller, .ok (readBytes msg.region reply.ptr reply.len))

theorem poll_of_ready {W : Wire} {caller : Caller Endpoint} {e : RecvEvent}
    {innerReceiver : UDReceiver} {msg : UDMsg}
    (h : caller.innerReceiver.poll e = (innerReceiver, .ok (.ready msg))) :
    caller.poll W e =
      ({ caller with innerReceiver }, (checkReply W msg).map fun reply => .ready (msg, reply)) := by
  rw [poll, h]

end Caller

end Mitosis.Datagram
