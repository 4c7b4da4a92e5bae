import Mitosis.Datagram.Message
import Mitosis.Support.KeyedMap
import Mitosis.Support.SendQueue

/-!
# Sessions on one queue pair

Every session is made from one datagram: it has an endpoint and a count of its
own pending sends, and shares the queue pair with its send completion queue.  A
session signals a send only if none of its sends is pending, and takes any
completion of the shared queue as the end of all of them.

The client sends with `sync_call` and `connect`, the RPC hook with `send_reply`.
Each session has one message buffer, in which the next message is generated and
from which it is sent.
-/

namespace Mitosis.Datagram

open Mitosis.OsNetwork
open Mitosis.Support

variable {Endpoint : Type}

/-- A posted send: the session in whose buffer it lies, where it goes, and the
bytes it was posted with. -/
structure UDSend (Endpoint : Type) where
  session : ℕ
  endpoint : Endpoint
  message : List UInt8
deriving DecidableEq

abbrev UDQueue (Endpoint : Type) := SendQueue (UDSend Endpoint) WCStatus

/-- A send that is not signaled has no completion. -/
def unreported (_ : WCStatus) : Bool := true

/-- The endpoint and the pending sends of a session. -/
structure UDSession (Endpoint : Type) where
  endpoint : Endpoint
  pending : ℕ
deriving DecidableEq

/-- A session together with the queue pair it shares. -/
abbrev Port (Endpoint : Type) := UDQueue Endpoint × UDSession Endpoint

/-- What happens during a call that sends: the driver may refuse the post, and the
polls of a wait meet completions and errors. -/
structure SendEnv where
  postError : Option DatapathError
  polls : List CqEvent
deriving DecidableEq

/-- Why a call does not return a value: it returns an error, aborts, or still
waits. -/
inductive Halted (ε : Type) where
  | err (error : ε)
  | panicked
  | waiting
deriving DecidableEq, Repr

def Halted.map {ε δ : Type} (f : ε → δ) : Halted ε → Halted δ
  | .err e => .err (f e)
  | .panicked => .panicked
  | .waiting => .waiting

namespace UDSession

/-- `UDDatagram::create`: a clone of a datagram on which nothing is pending. -/
def create (endpoint : Endpoint) : UDSession Endpoint := ⟨endpoint, 0⟩

/-- Post the first `sz` bytes of the session's buffer. -/
def post (id : ℕ) (region : Memory) (sz : ℕ) (signaled : Bool)
    (postError : Option DatapathError) (p : Port Endpoint) :
    Port Endpoint × Except DatapathError Unit :=
  match postError with
  | some err => (p, .error err)
  | none =>
    ((p.1.post ⟨id, p.2.endpoint, readBytes region 0 sz⟩ signaled,
      { p.2 with pending := p.2.pending + 1 }), .ok ())

/-- Poll the send completion queue; a completion ends everything that is pending. -/
def poll (p : Port Endpoint) (e : CqEvent) : Port Endpoint × Poll WCStatus DatapathError :=
  let queue := p.1.completeAll unreported e.arrivals
  match e.pollError with
  | some err => ((queue, p.2), .error err)
  | none =>
    match queue.poll with
    | (queue, some wc) => ((queue, { p.2 with pending := 0 }), .ok (.ready wc.2))
    | (_, none) => ((queue, p.2), .ok .notReady)

end UDSession

/-- Wait for a completion if more than `limit` sends are pending, and check that none
is pending then. -/
def drain (limit : ℕ) (p : Port Endpoint) (polls : List CqEvent) :
    Port Endpoint × Except (Halted DatapathError) Unit :=
  if p.2.pending > limit then
    match blockOn UDSession.poll p polls with
    | (p, none) => (p, .error .waiting)
    | (p, some (.error err)) => (p, .error (.err err))
    | (p, some (.ok _)) => if p.2.pending = 0 then (p, .ok ()) else (p, .error .panicked)
  else (p, .ok ())

/-! ## The connected sessions -/

/-- The queue pair and the connected sessions with their message buffers. -/
structure Sessions (Endpoint : Type) where
  queue : UDQueue Endpoint
  connected : AList fun _ : ℕ => UDSession Endpoint × Memory

inductive HookError where
  | inner (error : DatapathError)
  | noId
  | notConnected
  | corruptedHeader
  | sessionCreationError
  | inValidSz
  | fatal
deriving DecidableEq, Repr

namespace Sessions

/-- Nothing is connected and nothing was sent. -/
def new : Sessions Endpoint := ⟨.empty, ∅⟩

def put (s : Sessions Endpoint) (id : ℕ) (p : Port Endpoint) (region : Memory) :
    Sessions Endpoint :=
  ⟨p.1, s.connected.insert id (p.2, region)⟩

@[simp] theorem lookup_put (s : Sessions Endpoint) (id : ℕ) (p : Port Endpoint)
    (region : Memory) : (s.put id p region).connected.lookup id = some (p.2, region) :=
  AList.lookup_insert _

theorem lookup_put_ne (s : Sessions Endpoint) {id other : ℕ} (h : other ≠ id)
    (p : Port Endpoint) (region : Memory) :
    (s.put id p region).connected.lookup other = s.connected.lookup other :=
  AList.lookup_insert_ne h

@[simp] theorem put_put (s : Sessions Endpoint) (id : ℕ) (p p' : Port Endpoint)
    (region region' : Memory) : (s.put id p region).put id p' region' = s.put id p' region' :=
  congrArg (Sessions.mk p'.1) (AList.insert_insert _)

/-- `RPCHook::send_reply`. -/
def sendReply (W : Wire) (s : Sessions Endpoint) (sessionId : ℕ) (reply : ReplyStubFactory)
    (env : SendEnv) : Sessions Endpoint × Except (Halted HookError) Unit :=
  match s.connected.lookup sessionId with
  | none => (s, .error (.err .sessionCreationError))
  | some (session, region) =>
    let signal := session.pending == 0
    match reply.generate W (UDMsg.create region).bytes region with
    | (_, none) => (s, .error .panicked)
    | (region, some sz) =>
      match Outcome.checked (reply.payload + sz) with
      | .error _ => (s, .error .panicked)
      | .ok msgSz =>
        let (p, ret) :=
          UDSession.post sessionId region msgSz signal env.postError (s.queue, session)
        -- the outcome of the post is returned behind the wait
        match drain 4 p env.polls with
        | (p, .ok ()) => (s.put sessionId p region, ret.mapError fun _ => .err .fatal)
        | (p, .error h) => (s.put sessionId p region, .error (h.map fun _ => .fatal))

/-- `Caller::sync_call` with the memory image of the argument. -/
def syncCall (W : Wire) (s : Sessions Endpoint) (sessionId : ℕ) (call : CallStubFactory)
    (arg : List UInt8) (env : SendEnv) :
    Sessions Endpoint × Except (Halted DatapathError) Unit :=
  match s.connected.lookup sessionId with
  | none => (s, .error .panicked)
  | some (session, region) =>
    let signalFlag := session.pending == 0
    match call.generate W arg (UDMsg.create region).bytes region with
    | (_, none) => (s, .error .panicked)
    | (region, some reqSz) =>
      match UDSession.post sessionId region reqSz signalFlag env.postError
          (s.queue, session) with
      | (p, .error err) => (s.put sessionId p region, .error (.err err))
      | (p, .ok ()) =>
        match drain 8 p env.polls with
        | (p, .ok ()) => (s.put sessionId p region, .ok ())
        | (p, .error .waiting) => (s.put sessionId p region, .error .waiting)
        | (p, .error _) => (s.put sessionId p region, .error .panicked)

end Sessions

/-- The sending part of `Caller::connect`: generate the connect message in a new
buffer, post it signaled and wait for a completion. -/
def connectSend (W : Wire) (sessionId : ℕ) (stub : ConnectStubFactory) (metadata : UDHyperMeta)
    (fresh : Memory) (p : Port Endpoint) (env : SendEnv) :
    Port Endpoint × Memory × Except (Halted DatapathError) Unit :=
  match stub.generate W (W.hyper.encode metadata) (UDMsg.create fresh).bytes fresh with
  | (region, none) => (p, region, .error .panicked)
  | (region, some reqSz) =>
    match UDSession.post sessionId region reqSz true env.postError p with
    | (p, .error err) => (p, region, .error (.err err))
    | (p, .ok ()) =>
      match blockOn UDSession.poll p env.polls with
      | (p, none) => (p, region, .error .waiting)
      | (p, some (.error _)) => (p, region, .error .panicked)
      | (p, some (.ok _)) => (p, region, .ok ())

/-- `Caller::connect`. -/
def Sessions.connect (W : Wire) (s : Sessions Endpoint) (sessionId : ℕ)
    (stub : ConnectStubFactory) (session : UDSession Endpoint) (metadata : UDHyperMeta)
    (fresh : Memory) (env : SendEnv) :
    Sessions Endpoint × Except (Halted DatapathError) Unit :=
  match connectSend W sessionId stub metadata fresh (s.queue, session) env with
  | (p, region, .ok ()) => (s.put sessionId p region, .ok ())
  | (p, _, .error h) => ({ s with queue := p.1 }, .error h)

/-! ## What a wait does -/

/-- Sends have ended between two states of the queue, and nothing else has happened. -/
def Ends (q q' : UDQueue Endpoint) : Prop := ∃ statuses, q' = q.completeAll unreported statuses

variable {q q' : UDQueue Endpoint}

theorem Ends.refl (q : UDQueue Endpoint) : Ends q q := ⟨[], rfl⟩

theorem Ends.completeAll (h : Ends q q') (statuses : List WCStatus) :
    Ends q (q'.completeAll unreported statuses) := by
  obtain ⟨before, rfl⟩ := h
  refine ⟨before ++ statuses, ?_⟩
  rw [SendQueue.completeAll, SendQueue.completeAll, SendQueue.completeAll, List.foldl_append]

theorem Ends.completes (h : Ends q q') :
    SendQueue.Completes unreported q q' := by
  obtain ⟨statuses, rfl⟩ := h
  exact SendQueue.completes_completeAll q statuses

theorem Ends.reported (h : Ends q q') (hq : q.Reported) :
    q'.Reported := by
  obtain ⟨statuses, rfl⟩ := h
  exact hq.completeAll (fun _ => rfl) statuses

/-- A wait for a send completion: sends end, and one completion may be taken. -/
inductive Awaited (p : Port Endpoint) :
    Port Endpoint → Option (Except DatapathError WCStatus) → Prop
  | waiting {q : UDQueue Endpoint} (h : Ends p.1 q) : Awaited p (q, p.2) none
  | failed {q : UDQueue Endpoint} (h : Ends p.1 q) (err : DatapathError) :
      Awaited p (q, p.2) (some (.error err))
  | taken {q q' : UDQueue Endpoint} {wc : ℕ × WCStatus} (h : Ends p.1 q)
      (hpoll : q.poll = (q', some wc)) :
      Awaited p (q', { p.2 with pending := 0 }) (some (.ok wc.2))

theorem awaited_blockOn (p : Port Endpoint) (polls : List CqEvent) :
    Awaited p (blockOn UDSession.poll p polls).1 (blockOn UDSession.poll p polls).2 := by
  have h : Waited (fun p' => Awaited p p' none) (fun p' r => Awaited p p' (some r))
      (blockOn UDSession.poll p polls) := by
    refine waited_blockOn ?_ polls (.waiting (.refl p.1))
    intro p' e hp'
    cases hp' with
    | @waiting q hq =>
      have hends := hq.completeAll e.arrivals
      unfold UDSession.poll
      dsimp only
      cases e.pollError with
      | some err => exact .failed hends err
      | none =>
        rcases hpoll : (q.completeAll unreported e.arrivals).poll with ⟨q', _ | wc⟩
        · exact .waiting hends
        · exact .taken hends hpoll
  generalize blockOn UDSession.poll p polls = w at h
  obtain ⟨p', _ | r⟩ := w
  · exact h
  · exact h

/-- The three ways a wait of `drain` ends; the assertion behind it never fails. -/
theorem drain_cases (limit : ℕ) (p : Port Endpoint) (polls : List CqEvent) :
    (p.2.pending ≤ limit ∧ drain limit p polls = (p, .ok ())) ∨
      limit < p.2.pending ∧ ∃ q, Ends p.1 q ∧
        (drain limit p polls = ((q, p.2), .error .waiting) ∨
          (∃ err, drain limit p polls = ((q, p.2), .error (.err err))) ∨
          ∃ q' wc, q.poll = (q', some wc) ∧
            drain limit p polls = ((q', { p.2 with pending := 0 }), .ok ())) := by
  by_cases hlimit : p.2.pending > limit
  · right
    refine ⟨hlimit, ?_⟩
    rw [drain, if_pos hlimit]
    have h := awaited_blockOn p polls
    generalize blockOn UDSession.poll p polls = r at h
    obtain ⟨p', r⟩ := r
    cases h with
    | @waiting q hq => exact ⟨q, hq, Or.inl rfl⟩
    | @failed q hq err => exact ⟨q, hq, Or.inr (Or.inl ⟨err, rfl⟩)⟩
    | @taken q q' wc hq hpoll => exact ⟨q, hq, Or.inr (Or.inr ⟨q', wc, hpoll, rfl⟩)⟩
  · left
    exact ⟨Nat.le_of_not_lt hlimit, by rw [drain, if_neg hlimit]⟩

theorem drain_awaited (limit : ℕ) (p : Port Endpoint) (polls : List CqEvent) :
    (drain limit p polls).1 = p ∨
      limit < p.2.pending ∧ ∃ r, Awaited p (drain limit p polls).1 r := by
  rcases drain_cases limit p polls with
    ⟨-, hd⟩ | ⟨hlimit, q, hq, hd | ⟨err, hd⟩ | ⟨q', wc, hpoll, hd⟩⟩
  · exact Or.inl (congrArg Prod.fst hd)
  · exact Or.inr ⟨hlimit, none, by rw [hd]; exact .waiting hq⟩
  · exact Or.inr ⟨hlimit, some (.error err), by rw [hd]; exact .failed hq err⟩
  · exact Or.inr ⟨hlimit, some (.ok wc.2), by rw [hd]; exact .taken hq hpoll⟩

theorem Awaited.works {p p' : Port Endpoint} {r : Option (Except DatapathError WCStatus)}
    (h : Awaited p p' r) : p'.1.works = p.1.works := by
  cases h with
  | waiting h => exact h.completes.works
  | failed h err => exact h.completes.works
  | taken h hpoll =>
    obtain ⟨rest, -, rfl⟩ := SendQueue.poll_eq_some hpoll
    exact h.completes.works

theorem Awaited.endpoint {p p' : Port Endpoint} {r : Option (Except DatapathError WCStatus)}
    (h : Awaited p p' r) : p'.2.endpoint = p.2.endpoint := by
  cases h <;> rfl

theorem drain_keeps (limit : ℕ) (p : Port Endpoint) (polls : List CqEvent) :
    (drain limit p polls).1.1.works = p.1.works ∧
      (drain limit p polls).1.2.endpoint = p.2.endpoint := by
  rcases drain_awaited limit p polls with hsame | ⟨-, r, hawaited⟩
  · rw [hsame]
    exact ⟨rfl, rfl⟩
  · exact ⟨hawaited.works, hawaited.endpoint⟩

theorem drain_not_panicked (limit : ℕ) (p : Port Endpoint) (polls : List CqEvent) :
    (drain limit p polls).2 ≠ .error .panicked := by
  rcases drain_cases limit p polls with
    ⟨-, hd⟩ | ⟨-, q, -, hd | ⟨err, hd⟩ | ⟨q', wc, -, hd⟩⟩ <;> simp [hd]

theorem drain_waiting {limit : ℕ} {p : Port Endpoint} {polls : List CqEvent}
    (h : (drain limit p polls).2 = .error .waiting) :
    limit < (drain limit p polls).1.2.pending := by
  rcases drain_cases limit p polls with
    ⟨-, hd⟩ | ⟨hlimit, q, -, hd | ⟨err, hd⟩ | ⟨q', wc, -, hd⟩⟩
  · simp [hd] at h
  · rw [hd]
    exact hlimit
  · simp [hd] at h
  · simp [hd] at h

theorem mapError_waiting {ε δ : Type} {f : ε → δ} {r : Except (Halted ε) Unit}
    (h : r.mapError (Halted.map f) = .error .waiting) : r = .error .waiting := by
  rcases r with (_ | _ | _) | _ <;> simp_all [Except.mapError, Halted.map]

/-! ## What a send does -/

/-- A session behind a post that the driver took. -/
def posted (id : ℕ) (message : List UInt8) (signaled : Bool) (p : Port Endpoint) :
    Port Endpoint :=
  (p.1.post ⟨id, p.2.endpoint, message⟩ signaled, { p.2 with pending := p.2.pending + 1 })

theorem post_of_none (id : ℕ) (region : Memory) (sz : ℕ) (signaled : Bool) (p : Port Endpoint) :
    UDSession.post id region sz signaled none p =
      (posted id (readBytes region 0 sz) signaled p, .ok ()) := rfl

theorem post_of_some (id : ℕ) (region : Memory) (sz : ℕ) (signaled : Bool) (err : DatapathError)
    (p : Port Endpoint) : UDSession.post id region sz signaled (some err) p = (p, .error err) := rfl

/-- What a call can do to its session: the driver refuses the post and the call returns, or
the call waits behind a post that was taken or refused. -/
inductive Sends (limit id : ℕ) (message : List UInt8) (p : Port Endpoint) : Port Endpoint → Prop
  | refused : Sends limit id message p p
  | waited {p' : Port Endpoint} (h : p' = p ∨ p' = posted id message (p.2.pending == 0) p)
      (polls : List CqEvent) : Sends limit id message p (drain limit p' polls).1

/-- The buffer of a session with the header of a reply. -/
def replyRegion (W : Wire) (reply : ReplyStubFactory) (region : Memory) : Memory :=
  writeBytes region 0 (W.header.encode reply.header)

/-- The size of a reply with its header. -/
def replySize (W : Wire) (reply : ReplyStubFactory) : ℕ := reply.payload + W.header.size

theorem header_size_le (W : Wire) : W.header.size ≤ mtu :=
  (Nat.le_add_left _ _).trans W.header_fits

theorem replySize_lt (W : Wire) (reply : ReplyStubFactory) : replySize W reply < 2 ^ 64 := by
  have hheader := header_size_le W
  have hpayload := reply.payload.isLt
  unfold replySize
  omega

theorem generate_reply (W : Wire) (reply : ReplyStubFactory) (region : Memory) :
    reply.generate W (UDMsg.create region).bytes region =
      (replyRegion W reply region, some W.header.size) := by
  have hfits : W.header.size ≤ (UDMsg.create region).bytes.len := header_size_le W
  exact BytesMut.memcpySerializeAt_zero hfits region reply.header

/-- The port of a session behind the post of a reply. -/
def postReply (W : Wire) (s : Sessions Endpoint) (sessionId : ℕ) (session : UDSession Endpoint)
    (region : Memory) (reply : ReplyStubFactory) (env : SendEnv) :
    Port Endpoint × Except DatapathError Unit :=
  UDSession.post sessionId (replyRegion W reply region) (replySize W reply)
    (session.pending == 0) env.postError (s.queue, session)

variable {env : SendEnv}

theorem postReply_of_none (h : env.postError = none) (W : Wire)
    (s : Sessions Endpoint) (sessionId : ℕ) (session : UDSession Endpoint) (region : Memory)
    (reply : ReplyStubFactory) :
    postReply W s sessionId session region reply env =
      (posted sessionId (readBytes (replyRegion W reply region) 0 (replySize W reply))
        (session.pending == 0) (s.queue, session), .ok ()) := by
  rw [postReply, h, post_of_none]

theorem postReply_of_some {err : DatapathError} (h : env.postError = some err)
    (W : Wire) (s : Sessions Endpoint) (sessionId : ℕ) (session : UDSession Endpoint)
    (region : Memory) (reply : ReplyStubFactory) :
    postReply W s sessionId session region reply env = ((s.queue, session), .error err) := by
  rw [postReply, h, post_of_some]

/-- What `send_reply` returns for the outcomes of its post and of its wait. -/
def replyOutcome (posted : Except DatapathError Unit) :
    Except (Halted DatapathError) Unit → Except (Halted HookError) Unit
  | .ok () => posted.mapError fun _ => .err .fatal
  | .error h => .error (h.map fun _ => .fatal)

variable {posted : Except DatapathError Unit} {drained : Except (Halted DatapathError) Unit}
  {W : Wire} {s : Sessions Endpoint} {sessionId : ℕ} {session : UDSession Endpoint}
  {region : Memory} {reply : ReplyStubFactory}

theorem replyOutcome_eq_ok :
    replyOutcome posted drained = .ok () ↔ posted = .ok () ∧ drained = .ok () := by
  rcases posted with err | _ <;> rcases drained with h | _ <;>
    simp [replyOutcome, Except.mapError]

theorem replyOutcome_eq_panicked :
    replyOutcome posted drained = .error .panicked ↔ drained = .error .panicked := by
  rcases posted with err | _ <;> rcases drained with (_ | _ | _) | _ <;>
    simp [replyOutcome, Except.mapError, Halted.map]

theorem replyOutcome_eq_waiting :
    replyOutcome posted drained = .error .waiting ↔ drained = .error .waiting := by
  rcases posted with err | _ <;> rcases drained with (_ | _ | _) | _ <;>
    simp [replyOutcome, Except.mapError, Halted.map]

theorem replyOutcome_eq_err {e : HookError}
    (h : replyOutcome posted drained = .error (.err e)) : e = .fatal := by
  rcases posted with err | _ <;> rcases drained with (_ | _ | _) | _ <;>
    simp_all [replyOutcome, Except.mapError, Halted.map]

theorem Sessions.sendReply_of_lookup
    (h : s.connected.lookup sessionId = some (session, region)) (reply : ReplyStubFactory)
    (env : SendEnv) :
    s.sendReply W sessionId reply env =
      let posted := postReply W s sessionId session region reply env
      let drained := drain 4 posted.1 env.polls
      (s.put sessionId drained.1 (replyRegion W reply region),
        replyOutcome posted.2 drained.2) := by
  rw [sendReply, h]
  dsimp only
  rw [generate_reply]
  dsimp only
  rw [← replySize, Outcome.checked_of_lt (replySize_lt W reply)]
  dsimp only [postReply]
  rcases drain 4 _ env.polls with ⟨p, _ | _⟩ <;> rfl

theorem Sessions.sendReply_eq_err
    (h : s.connected.lookup sessionId = some (session, region)) {e : HookError}
    (herr : (s.sendReply W sessionId reply env).2 = .error (.err e)) : e = .fatal := by
  rw [sendReply_of_lookup h] at herr
  exact replyOutcome_eq_err herr

theorem Sessions.sendReply_of_absent
    (h : s.connected.lookup sessionId = none) (reply : ReplyStubFactory) (env : SendEnv) :
    s.sendReply W sessionId reply env = (s, .error (.err .sessionCreationError)) := by
  rw [sendReply, h]

theorem Sessions.sendReply_not_panicked (W : Wire) (s : Sessions Endpoint) (sessionId : ℕ)
    (reply : ReplyStubFactory) (env : SendEnv) :
    (s.sendReply W sessionId reply env).2 ≠ .error .panicked := by
  cases h : s.connected.lookup sessionId with
  | none =>
    rw [sendReply_of_absent h]
    simp
  | some entry =>
    obtain ⟨session, region⟩ := entry
    rw [sendReply_of_lookup h, Ne, replyOutcome_eq_panicked]
    exact drain_not_panicked 4 _ env.polls

theorem Sessions.mem_sendReply (W : Wire) (s : Sessions Endpoint) (sessionId : ℕ)
    (reply : ReplyStubFactory) (env : SendEnv) (id : ℕ) :
    id ∈ (s.sendReply W sessionId reply env).1.connected ↔ id ∈ s.connected := by
  cases h : s.connected.lookup sessionId with
  | none => rw [sendReply_of_absent h]
  | some entry =>
    obtain ⟨session, region⟩ := entry
    rw [sendReply_of_lookup h]
    exact mem_insert_of_mem (mem_of_lookup h) _ id

/-- A reply that was posted is the only new send, on the endpoint of its session. -/
theorem Sessions.sendReply_posted
    (h : s.connected.lookup sessionId = some (session, region)) (reply : ReplyStubFactory)
    (hpost : env.postError = none) :
    ∃ q pending,
      (s.sendReply W sessionId reply env).1 =
        s.put sessionId (q, ⟨session.endpoint, pending⟩) (replyRegion W reply region) ∧
      q.works = s.queue.works ++ [(⟨sessionId, session.endpoint,
        readBytes (replyRegion W reply region) 0 (replySize W reply)⟩, session.pending == 0)] := by
  rw [sendReply_of_lookup h]
  dsimp only
  rw [postReply_of_none hpost]
  obtain ⟨hworks, hendpoint⟩ := drain_keeps 4 (posted sessionId
    (readBytes (replyRegion W reply region) 0 (replySize W reply)) (session.pending == 0)
    (s.queue, session)) env.polls
  generalize drain 4 _ env.polls = drained at hworks hendpoint ⊢
  obtain ⟨⟨q, endpoint, pending⟩, ret⟩ := drained
  cases hendpoint
  exact ⟨q, pending, rfl, hworks⟩

theorem Sessions.postError_of_sendReply
    (h : s.connected.lookup sessionId = some (session, region))
    (hfatal : (s.sendReply W sessionId reply env).2 ≠ .error (.err .fatal))
    (hwaiting : (s.sendReply W sessionId reply env).2 ≠ .error .waiting) :
    env.postError = none := by
  have hok : (s.sendReply W sessionId reply env).2 = .ok () := by
    have hpanicked := s.sendReply_not_panicked W sessionId reply env
    rcases hret : (s.sendReply W sessionId reply env).2 with (e | _ | _) | _
    · rw [sendReply_eq_err h hret] at hret
      exact absurd hret hfatal
    · exact absurd hret hpanicked
    · exact absurd hret hwaiting
    · rfl
  rw [sendReply_of_lookup h] at hok
  have hposted := (replyOutcome_eq_ok.mp hok).1
  cases hpost : env.postError with
  | none => rfl
  | some err =>
    rw [postReply_of_some hpost] at hposted
    cases hposted

theorem Sessions.sendReply_sends
    (h : s.connected.lookup sessionId = some (session, region)) (reply : ReplyStubFactory)
    (env : SendEnv) :
    ∃ p, Sends 4 sessionId (readBytes (replyRegion W reply region) 0 (replySize W reply))
        (s.queue, session) p ∧
      (s.sendReply W sessionId reply env).1 = s.put sessionId p (replyRegion W reply region) := by
  rw [sendReply_of_lookup h]
  refine ⟨_, ?_, rfl⟩
  cases hpost : env.postError with
  | none =>
    rw [postReply_of_none hpost]
    exact .waited (Or.inr rfl) env.polls
  | some err =>
    rw [postReply_of_some hpost]
    exact .waited (Or.inl rfl) env.polls

/-- The session of a reply that waits has more than four pending sends. -/
theorem Sessions.sendReply_waiting (h : (s.sendReply W sessionId reply env).2 = .error .waiting) :
    ∃ session region,
      (s.sendReply W sessionId reply env).1.connected.lookup sessionId = some (session, region) ∧
        4 < session.pending := by
  cases hlookup : s.connected.lookup sessionId with
  | none =>
    rw [sendReply_of_absent hlookup] at h
    cases h
  | some entry =>
    obtain ⟨session, region⟩ := entry
    rw [sendReply_of_lookup hlookup] at h ⊢
    exact ⟨_, _, lookup_put _ _ _ _, drain_waiting (replyOutcome_eq_waiting.mp h)⟩

def callBytes (W : Wire) (call : CallStubFactory) (arg : List UInt8) : List UInt8 :=
  W.header.encode (call.header arg.length) ++ arg

theorem length_callBytes (W : Wire) (call : CallStubFactory) (arg : List UInt8) :
    (callBytes W call arg).length = W.header.size + arg.length := by
  rw [callBytes, List.length_append, W.header.length_encode]

theorem Sessions.syncCall_sends (W : Wire) (s : Sessions Endpoint) (sessionId : ℕ)
    (call : CallStubFactory) (arg : List UInt8) (env : SendEnv) :
    (s.syncCall W sessionId call arg env).1 = s ∨
      ∃ session region p, s.connected.lookup sessionId = some (session, region) ∧
        W.header.size + arg.length ≤ mtu ∧
        Sends 8 sessionId (callBytes W call arg) (s.queue, session) p ∧
        (s.syncCall W sessionId call arg env).1 =
          s.put sessionId p (writeBytes region 0 (callBytes W call arg)) := by
  unfold syncCall
  cases hlookup : s.connected.lookup sessionId with
  | none => exact Or.inl rfl
  | some entry =>
    obtain ⟨session, region⟩ := entry
    dsimp only
    by_cases hfits : W.header.size + arg.length ≤ mtu
    · right
      refine ⟨session, region, ?_⟩
      have hgenerate : call.generate W arg (UDMsg.create region).bytes region =
          (writeBytes region 0 (callBytes W call arg), some (W.header.size + arg.length)) :=
        generateStub_of_le hfits _ region
      have hread : readBytes (writeBytes region 0 (callBytes W call arg)) 0
          (W.header.size + arg.length) = callBytes W call arg := by
        rw [← length_callBytes W call arg]
        exact readBytes_writeBytes _ _ _
      rw [hgenerate]
      dsimp only
      cases env.postError with
      | some err =>
        rw [post_of_some]
        exact ⟨_, rfl, hfits, .refused, rfl⟩
      | none =>
        rw [post_of_none, hread]
        refine ⟨_, rfl, hfits, .waited (Or.inr rfl) env.polls, ?_⟩
        dsimp only
        generalize drain 8 _ env.polls = drained
        rcases drained with ⟨p, (_ | _ | _) | _⟩ <;> rfl
    · left
      have hgenerate : call.generate W arg (UDMsg.create region).bytes region =
          (writeBytes region 0 (W.header.encode (call.header arg.length)), none) :=
        generateStub_of_lt (header_size_le W) (Nat.lt_of_not_le hfits) _ region
      rw [hgenerate]

theorem Sessions.syncCall_waiting {call : CallStubFactory} {arg : List UInt8}
    (h : (s.syncCall W sessionId call arg env).2 = .error .waiting) :
    ∃ session region,
      (s.syncCall W sessionId call arg env).1.connected.lookup sessionId =
        some (session, region) ∧ 8 < session.pending := by
  unfold syncCall at h ⊢
  cases hlookup : s.connected.lookup sessionId with
  | none =>
    rw [hlookup] at h
    cases h
  | some entry =>
    rw [hlookup] at h
    obtain ⟨session, region⟩ := entry
    dsimp only at h ⊢
    generalize call.generate W arg (UDMsg.create region).bytes region = generated at h ⊢
    obtain ⟨region, _ | reqSz⟩ := generated
    · cases h
    dsimp only at h ⊢
    generalize UDSession.post sessionId region reqSz _ env.postError _ = posted at h ⊢
    obtain ⟨p, err | _⟩ := posted
    · cases h
    dsimp only at h ⊢
    have hpending : (drain 8 p env.polls).2 = .error .waiting →
        8 < (drain 8 p env.polls).1.2.pending := drain_waiting
    generalize drain 8 p env.polls = drained at h hpending ⊢
    obtain ⟨p', (err | _ | _) | _⟩ := drained
    · cases h
    · cases h
    · exact ⟨_, _, lookup_put _ _ _ _, hpending rfl⟩
    · cases h

end Mitosis.Datagram
