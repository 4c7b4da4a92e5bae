import Mathlib.Algebra.Group.Nat.Defs

/-!
# Headers of RPC messages

A header names the kind of the message, the size of its payload and, by kind,
the session and procedure of a request, the status of a reply or the session
of a connect message.  A reply does not name the request it answers.
-/

namespace Mitosis.Rpc

/-- The session and the procedure a request names. -/
structure CallStub where
  sessionId : ℕ
  rpcId : ℕ
deriving DecidableEq, Repr

/-- The session a connect message names. -/
structure ConnectStub where
  sessionId : ℕ
deriving DecidableEq, Repr

inductive ReplyStatus where
  /-- a success call -/
  | ok
  /-- function is not registered in the service -/
  | notExist
deriving DecidableEq, Repr

inductive RPCMeta where
  | request (stub : CallStub)
  | reply (status : ReplyStatus)
  | connect (stub : ConnectStub)
  | none
deriving DecidableEq, Repr

inductive ReqType where
  | illegal
  | connect
  | request
  | reply
  | disConnect
deriving DecidableEq, Repr

structure MsgHeader where
  marker : ReqType
  payload : ℕ
  info : RPCMeta
deriving DecidableEq, Repr

namespace MsgHeader

def genConnectStub (sessionId payload : ℕ) : MsgHeader :=
  ⟨.connect, payload, .connect ⟨sessionId⟩⟩

def genCallStub (sessionId rpcId payload : ℕ) : MsgHeader :=
  ⟨.request, payload, .request ⟨sessionId, rpcId⟩⟩

def genReplyStub (status : ReplyStatus) (sz : ℕ) : MsgHeader :=
  ⟨.reply, sz, .reply status⟩

def getCallStub (h : MsgHeader) : Option CallStub :=
  match h.info with
  | .request stub => some stub
  | _ => none

def getConnectStub (h : MsgHeader) : Option ConnectStub :=
  match h.info with
  | .connect stub => some stub
  | _ => none

def getReplyStub (h : MsgHeader) : Option ReplyStatus :=
  match h.info with
  | .reply status => some status
  | _ => none

def isReply (h : MsgHeader) : Bool := h.marker == .reply

/-- The header before anything is copied into it. -/
def default : MsgHeader := ⟨.illegal, 0, .none⟩

/-- Every number of the header is a machine word. -/
def Words (h : MsgHeader) : Prop :=
  h.payload < 2 ^ 64 ∧
    match h.info with
    | .request stub => stub.sessionId < 2 ^ 64 ∧ stub.rpcId < 2 ^ 64
    | .connect stub => stub.sessionId < 2 ^ 64
    | _ => True

end MsgHeader

end Mitosis.Rpc
