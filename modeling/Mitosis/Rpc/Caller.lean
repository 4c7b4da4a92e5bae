import Mathlib.Data.Finset.Card
import Mitosis.OsNetwork.Rdma
import Mitosis.Rpc.Header
import Mitosis.Support.Machine

/-!
# Calls through the caller of one core

The resume and nil system calls send one request to the RPC hook of a remote
machine and wait for a reply on the caller of the core.  The caller has a
session for each connected machine, one receive queue for the replies of all of
them and one send completion queue.

Requests and replies travel as datagrams: a request is handled, and a reply
delivered, at any time and in any order.  In the model every request carries
the number of requests sent before it, and every reply the request it answers;
no source function looks at either.
-/

namespace Mitosis.Rpc

open Mitosis.OsNetwork
open Mitosis.Support

/-- The procedures that the RPC threads register. -/
inductive RPCId where
  | nil
  | echo
  | query
deriving DecidableEq, Repr

def RPCId.toNat : RPCId → ℕ
  | nil => 1
  | echo => 2
  | query => 3

/-- A request on its way to a machine, with its argument. -/
structure Request where
  serial : ℕ
  machine : ℕ
  header : MsgHeader
  arg : ℕ
deriving DecidableEq, Repr

/-- A reply: header, payload and the request it answers. -/
structure Reply where
  header : MsgHeader
  body : List UInt8
  answers : Request
deriving DecidableEq, Repr

/-! ## The remote side -/

/-- The RPC hook of a machine: the connected sessions, what the output buffer
of a session holds behind the header, and the descriptors it can look up
(the bytes of the serialized reply). -/
structure RPCHook where
  connected : ℕ → Bool
  outBuf : List UInt8
  descriptorReply : ℕ → Option (List UInt8)

namespace RPCHook

/-- The registered callbacks: the payload of the reply, if there is a callback
with this id. -/
def execute (hook : RPCHook) (rpcId arg : ℕ) : Option (List UInt8) :=
  match rpcId with
  -- `handle_nil` writes nothing and returns 64
  | 1 => some (hook.outBuf.take 64)
  | 2 => some ("Hello from MITOSIS".toUTF8.toList ++ (hook.outBuf.take 64).drop 18)
  -- a null reply says that the key is not there
  | 3 => some ((hook.descriptorReply arg).getD [])
  | _ => none

/-- Handle a request; a message that is not a request of a connected session
gets no reply. -/
def handle (hook : RPCHook) (r : Request) : Option Reply :=
  match r.header.marker, r.header.getCallStub with
  | .request, some stub =>
    if hook.connected stub.sessionId then
      match hook.execute stub.rpcId r.arg with
      | some body => some ⟨.genReplyStub .ok body.length, body, r⟩
      | none => some ⟨.genReplyStub .notExist 0, [], r⟩
    else none
  | _, _ => none

end RPCHook

/-! ## The caller and the network -/

/-- A receiver: the receive buffers that are posted and not consumed, and the
messages that arrived in some of them. -/
structure UDReceiver where
  msgQueues : ℕ
  received : List Reply
  room : received.length ≤ msgQueues

namespace UDReceiver

/-- A message arrives; without a free buffer it is dropped. -/
def arrive (recv : UDReceiver) (m : Reply) : UDReceiver :=
  if h : recv.received.length < recv.msgQueues then
    ⟨recv.msgQueues, recv.received ++ [m], by
      rw [List.length_append, List.length_singleton]
      exact h⟩
  else recv

def postRecvBuf (recv : UDReceiver) : UDReceiver :=
  ⟨recv.msgQueues + 1, recv.received, recv.room.trans (Nat.le_succ _)⟩

/-- Take the oldest message together with its buffer. -/
def pop (recv : UDReceiver) : UDReceiver × Option Reply :=
  match h : recv.received with
  | [] => (recv, none)
  | m :: rest =>
    (⟨recv.msgQueues - 1, rest, by
      have hroom := recv.room
      rw [h, List.length_cons] at hroom
      exact Nat.le_sub_one_of_lt hroom⟩, some m)

end UDReceiver

def calculateSessionId (macId threadId maxCallers : ℕ) : ℕ :=
  macId * maxCallers + threadId

/-- Where this caller lives, its connected sessions with the machine each one
leads to, and the hooks of the machines. -/
structure Cluster where
  macId : ℕ
  cpuId : ℕ
  maxCallerNum : ℕ
  cpuId_lt : cpuId < maxCallerNum
  sessions : Finset ℕ
  endpoint : ℕ → ℕ
  hook : ℕ → RPCHook
  /-- sessions were connected under the id of their machine -/
  keyed : ∀ sid ∈ sessions,
    sid = calculateSessionId (endpoint sid) cpuId maxCallerNum
  /-- the hook of a connected machine knows the session of this caller -/
  connects : ∀ sid ∈ sessions,
    (hook (endpoint sid)).connected
      (calculateSessionId macId cpuId maxCallerNum) = true

namespace Cluster

def remoteSessionId (cl : Cluster) (machineId : ℕ) : ℕ :=
  calculateSessionId machineId cl.cpuId cl.maxCallerNum

def mySessionId (cl : Cluster) : ℕ :=
  calculateSessionId cl.macId cl.cpuId cl.maxCallerNum

end Cluster

/-- The caller with the requests and replies under way.  `pending` counts the
requests of a session since its last send completion. -/
structure Net where
  sent : ℕ
  pending : ℕ → ℕ
  sendCq : CompletionQueue Unit WCStatus
  receiver : UDReceiver
  requests : List Request
  replies : List Reply

namespace Net

/-- Just connected, with 64 registered receive buffers. -/
def new : Net where
  sent := 0
  pending _ := 0
  sendCq := .empty
  receiver := ⟨64, [], Nat.zero_le _⟩
  requests := []
  replies := []

end Net

/-- What can happen outside the caller: a hook handles a request, and its reply
may fail to be sent; a reply is delivered; a signaled send completes. -/
inductive NetEvent where
  | handle (i : ℕ) (sends : Bool)
  | deliver (i : ℕ)
  | sendDone (status : WCStatus)
deriving DecidableEq, Repr

def applyEvent (cl : Cluster) (s : Net) : NetEvent → Net
  | .handle i sends =>
    match s.requests[i]? with
    | none => s
    | some r =>
      { s with
        requests := s.requests.eraseIdx i
        replies := if sends then
            s.replies ++ ((cl.hook r.machine).handle r).toList
          else s.replies }
  | .deliver i =>
    match s.replies[i]? with
    | none => s
    | some m =>
      { s with
        replies := s.replies.eraseIdx i
        receiver := s.receiver.arrive m }
  | .sendDone status => { s with sendCq := s.sendCq.complete status }

def applyEvents (cl : Cluster) (s : Net) (es : List NetEvent) : Net :=
  es.foldl (applyEvent cl) s

/-- What a poll meets: the events since the last one, and a driver error. -/
structure WaitEvent where
  events : List NetEvent
  pollError : Option DatapathError
deriving DecidableEq, Repr

/-- Poll the shared send completion queue on behalf of a session. -/
def UDSession.poll (cl : Cluster) (sid : ℕ) (s : Net) (e : WaitEvent) :
    Net × Poll WCStatus DatapathError :=
  let s := applyEvents cl s e.events
  match e.pollError with
  | some err => (s, .error err)
  | none =>
    match s.sendCq.poll with
    | (cq, some wc) =>
      ({ s with sendCq := cq, pending := Function.update s.pending sid 0 },
        .ok (.ready wc.2))
    | (_, none) => (s, .ok .notReady)

def UDReceiver.poll (cl : Cluster) (s : Net) (e : WaitEvent) :
    Net × Poll Reply DatapathError :=
  let s := applyEvents cl s e.events
  match e.pollError with
  | some err => (s, .error err)
  | none =>
    match s.receiver.pop with
    | (recv, some m) => ({ s with receiver := recv }, .ok (.ready m))
    | (_, none) => (s, .ok .notReady)

inductive CallError where
  | inner (error : DatapathError)
  | noId
  | fatal
deriving DecidableEq, Repr

namespace Caller

inductive SyncResult where
  | sent
  | failed (error : DatapathError)
  | waiting
  | panicked
deriving DecidableEq, Repr

/-- The request that a call on a session sends. -/
def request (cl : Cluster) (s : Net) (sessionId mySessionId : ℕ) (rpcId : RPCId)
    (arg : ℕ) : Request where
  serial := s.sent
  machine := cl.endpoint sessionId
  header := .genCallStub mySessionId rpcId.toNat 8
  arg := arg

/-- Post the request on the session; it is signaled if nothing is pending. -/
def post (cl : Cluster) (s : Net) (sessionId mySessionId : ℕ) (rpcId : RPCId)
    (arg : ℕ) : Net :=
  { s with
    sent := s.sent + 1
    pending := Function.update s.pending sessionId (s.pending sessionId + 1)
    sendCq := if s.pending sessionId = 0 then s.sendCq.post () else s.sendCq
    requests := s.requests ++ [request cl s sessionId mySessionId rpcId arg] }

/-- Send a request on a connected session.  After more than eight requests the
call waits for a send completion. -/
def syncCall (cl : Cluster) (s : Net) (sessionId mySessionId : ℕ) (rpcId : RPCId)
    (arg : ℕ) (postError : Option DatapathError) (sendPolls : List WaitEvent) :
    Net × SyncResult :=
  if sessionId ∈ cl.sessions then
    match postError with
    | some err => (s, .failed err)
    | none =>
      let s := post cl s sessionId mySessionId rpcId arg
      if s.pending sessionId > 8 then
        match blockOn (UDSession.poll cl sessionId) s sendPolls with
        | (s, none) => (s, .waiting)
        | (s, some (.error _)) => (s, .panicked)
        | (s, some (.ok _)) =>
          if s.pending sessionId = 0 then (s, .sent) else (s, .panicked)
      else (s, .sent)
  else (s, .panicked)

/-- A message is accepted if it is a reply with a success status. -/
def checkReply (m : Reply) : Except CallError Reply :=
  if m.header.isReply then
    match m.header.getReplyStub with
    | some .ok => .ok m
    | some .notExist => .error .noId
    | none => .error .fatal
  else .error .fatal

def poll (cl : Cluster) (s : Net) (e : WaitEvent) : Net × Poll Reply CallError :=
  match UDReceiver.poll cl s e with
  | (s, .ok .notReady) => (s, .ok .notReady)
  | (s, .ok (.ready m)) => (s, (checkReply m).map .ready)
  | (s, .error err) => (s, .error (.inner err))

end Caller

/-! ## The system calls -/

/-- How long a system call waits for the reply, in microseconds. -/
def replyTimeoutUsec : ℤ := 10 * 1000000

/-- A resume or nil system call with what happens during it. -/
structure RpcCall where
  rpcId : RPCId
  machineId : ℕ
  handlerId : ℕ
  postError : Option DatapathError
  sendPolls : List WaitEvent
  polls : List (WaitEvent × ℤ)
deriving DecidableEq, Repr

/-- How a system call ends: it accepts a reply, returns -1, still waits or
aborts. -/
inductive CallResult where
  | accepted (reply : Reply)
  | failed
  | waiting
  | panicked
deriving DecidableEq, Repr

/-- The part of `syscall_resume_w_rpc` and `syscall_nil_rpc` that talks to the
remote machine: send the request, wait for the reply and register its buffer
again. -/
def rpcCall (cl : Cluster) (s : Net) (call : RpcCall) : Net × CallResult :=
  match Caller.syncCall cl s (cl.remoteSessionId call.machineId) cl.mySessionId
      call.rpcId call.handlerId call.postError call.sendPolls with
  | (s, .failed _) => (s, .failed)
  | (s, .waiting) => (s, .waiting)
  | (s, .panicked) => (s, .panicked)
  | (s, .sent) =>
    match blockOn (Timeout.poll (Caller.poll cl) replyTimeoutUsec) s call.polls with
    | (s, none) => (s, .waiting)
    | (s, some (.error _)) => (s, .failed)
    | (s, some (.ok m)) =>
      ({ s with receiver := s.receiver.postRecvBuf }, .accepted m)

end Mitosis.Rpc
