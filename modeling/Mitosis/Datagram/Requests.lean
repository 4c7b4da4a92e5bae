import Mathlib.Data.List.ReduceOption
import Mitosis.Datagram.Hook

/-!
# Every request is executed once and answered once

The history of a hook has one entry for each message it took: the session it
connected, the request it executed, or nothing.  What the hook has done is a
function of this history: the invocations of the procedures, the replies that were
posted, the connected sessions and the statistics.
-/

namespace Mitosis.Datagram

open Mitosis.OsNetwork
open Mitosis.Rpc (CallStub)
open Mitosis.Support

variable {σ Endpoint : Type} {W : Wire}

/-! ## Histories -/

/-- What a hook did about a message it answered; a request that found no procedure has no
outcome. -/
inductive Answer (Endpoint : Type) where
  | connected (sessionId : ℕ) (endpoint : Endpoint)
  | served (stub : CallStub) (input : List UInt8) (endpoint : Endpoint)
      (outcome : Option PayloadSize)

/-- A reply: its session, where it goes, and what its header says. -/
structure Reply (Endpoint : Type) where
  sessionId : ℕ
  endpoint : Endpoint
  stub : ReplyStubFactory

namespace Answer

def invocation : Answer Endpoint → Option Invocation
  | .served stub input _ (some size) => some ⟨stub.rpcId, input, size⟩
  | _ => none

def reply : Answer Endpoint → Reply Endpoint
  | .connected sessionId endpoint => ⟨sessionId, endpoint, ⟨.ok, 0⟩⟩
  | .served stub _ endpoint (some size) => ⟨stub.sessionId, endpoint, ⟨.ok, size⟩⟩
  | .served stub _ endpoint none => ⟨stub.sessionId, endpoint, ⟨.notExist, 0⟩⟩

def isRequest : Answer Endpoint → Bool
  | .served .. => true
  | .connected .. => false

/-- The endpoint of a session, if this is the answer to its connect message. -/
def endpointOf (sessionId : ℕ) : Answer Endpoint → Option Endpoint
  | .connected id endpoint => if id = sessionId then some endpoint else none
  | .served .. => none

end Answer

/-- The endpoint of a session that was connected before. -/
def connectedIn (answers : List (Answer Endpoint)) (sessionId : ℕ) : Option Endpoint :=
  answers.findSome? (Answer.endpointOf sessionId)

/-- What a message adds to the answers: a new session, the one execution of a request on a
connected session, and nothing in every other case. -/
inductive Entry (registered : ℕ → Prop) (answers : List (Answer Endpoint))
    (env : PollEnv Endpoint) : Incoming → Option (Answer Endpoint) → Prop
  | connected {sessionId : ℕ} {metadata : UDHyperMeta} {endpoint : Endpoint}
      (hnew : connectedIn answers sessionId = none)
      (hmeta : env.createMeta metadata = some endpoint) (hcreated : env.sessionCreated = true) :
      Entry registered answers env (.connect sessionId (some metadata))
        (some (.connected sessionId endpoint))
  | served {stub : CallStub} {input : List UInt8} {endpoint : Endpoint} {outcome : Option PayloadSize}
      (hsession : connectedIn answers stub.sessionId = some endpoint)
      (houtcome : outcome.isSome ↔ registered stub.rpcId) :
      Entry registered answers env (.request stub input)
        (some (.served stub input endpoint outcome))
  | none {m : Incoming}
      (hconnect : ∀ sessionId metadata, m = .connect sessionId (some metadata) →
        connectedIn answers sessionId ≠ none ∨ env.createMeta metadata = none ∨
          env.sessionCreated = false)
      (hrequest : ∀ stub input, m = .request stub input →
        connectedIn answers stub.sessionId = none) :
      Entry registered answers env m none

/-- The messages a hook took, each with its entry. -/
inductive History (W : Wire) (registered : ℕ → Prop) :
    List (UDMsg × PollEnv Endpoint) → List (Option (Answer Endpoint)) → Prop
  | nil : History W registered [] []
  | snoc {taken : List (UDMsg × PollEnv Endpoint)} {entries : List (Option (Answer Endpoint))}
      {msg : UDMsg} {env : PollEnv Endpoint} {entry : Option (Answer Endpoint)}
      (h : History W registered taken entries)
      (hentry : Entry registered entries.reduceOption env (decode W msg) entry) :
      History W registered (taken ++ [(msg, env)]) (entries ++ [entry])

/-- A send that carries a reply: on its session, to its endpoint, with its header in front
of as many bytes as the header says. -/
structure Posts (W : Wire) (work : UDSend Endpoint × Bool) (reply : Reply Endpoint) : Prop where
  session : work.1.session = reply.sessionId
  endpoint : work.1.endpoint = reply.endpoint
  message : ∃ payload : List UInt8, payload.length = reply.stub.payload ∧
    work.1.message = W.header.encode reply.stub.header ++ payload

theorem exists_reply_payload (W : Wire) (stub : ReplyStubFactory) (region : Memory) :
    ∃ payload : List UInt8, payload.length = stub.payload ∧
      readBytes (replyRegion W stub region) 0 (replySize W stub) =
        W.header.encode stub.header ++ payload := by
  refine ⟨readBytes region (0 + (W.header.encode stub.header).length) stub.payload,
    length_readBytes _ _ _, ?_⟩
  rw [← readBytes_writeBytes_add, W.header.length_encode, replySize, Nat.add_comm]
  rfl

theorem posts_reply (W : Wire) (reply : Reply Endpoint) (region : Memory) (signaled : Bool) :
    Posts W (⟨reply.sessionId, reply.endpoint,
      readBytes (replyRegion W reply.stub region) 0 (replySize W reply.stub)⟩, signaled) reply where
  session := rfl
  endpoint := rfl
  message := exists_reply_payload W reply.stub region

/-! ## The statistics -/

namespace RPCAnalysis

def total (a : RPCAnalysis) : ℕ := tally (fun count => count) a.sessionCounts

theorem total_handleSessionCall (a : RPCAnalysis) (id : ℕ) :
    (a.handleSessionCall id).total = a.total + 1 := by
  unfold handleSessionCall total
  cases hlookup : a.sessionCounts.lookup id with
  | none => exact tally_insert_of_notMem _ (AList.lookup_eq_none.mp hlookup) 1
  | some n =>
    have h := tally_insert_of_lookup (fun count => count) hlookup (n + 1)
    dsimp only at h ⊢
    omega

@[simp] theorem ncalls_handleSessionCall (a : RPCAnalysis) (id : ℕ) :
    (a.handleSessionCall id).ncalls = a.ncalls := by
  unfold handleSessionCall
  cases a.sessionCounts.lookup id <;> rfl

end RPCAnalysis

/-! ## The hook follows its history -/

/-- A hook with this history. -/
structure Matches (W : Wire) (callbacks : AList fun _ : ℕ => Callback σ)
    (hook : RPCHook σ Endpoint) (answers : List (Answer Endpoint)) : Prop where
  callbacks : hook.service.callbacks = callbacks
  sessions : ∀ id, (hook.sessions.connected.lookup id).map (fun entry => entry.1.endpoint) =
    connectedIn answers id
  log : hook.service.log = answers.filterMap Answer.invocation
  works : List.Forall₂ (Posts W) hook.sessions.queue.works (answers.map Answer.reply)
  ncalls : hook.analysis.ncalls = answers.countP Answer.isRequest
  total : hook.analysis.total = hook.analysis.ncalls

theorem connectedIn_concat (answers : List (Answer Endpoint)) (a : Answer Endpoint) (id : ℕ) :
    connectedIn (answers ++ [a]) id = (connectedIn answers id).or (a.endpointOf id) := by
  rw [connectedIn, List.findSome?_append, List.findSome?_singleton]
  rfl

namespace Matches

variable {callbacks : AList fun _ : ℕ => Callback σ} {hook : RPCHook σ Endpoint}
  {answers : List (Answer Endpoint)} {env : PollEnv Endpoint}

variable {id : ℕ} {session : UDSession Endpoint} {region : Memory} {stub : CallStub}

theorem with_transport (h : Matches W callbacks hook answers) (transport : UDReceiver) :
    Matches W callbacks { hook with transport } answers :=
  ⟨h.callbacks, h.sessions, h.log, h.works, h.ncalls, h.total⟩

theorem connectedIn_eq_none (h : Matches W callbacks hook answers) :
    connectedIn answers id = none ↔ id ∉ hook.sessions.connected := by
  rw [← h.sessions, Option.map_eq_none_iff, AList.lookup_eq_none]

theorem connectedIn_of_lookup (h : Matches W callbacks hook answers)
    (hlookup : hook.sessions.connected.lookup id = some (session, region)) :
    connectedIn answers id = some session.endpoint := by
  rw [← h.sessions, hlookup]
  rfl

theorem accept (h : Matches W callbacks hook answers) {sessionId : ℕ}
    (hnew : connectedIn answers sessionId = none) (hpost : env.send.postError = none)
    (endpoint : Endpoint) :
    Matches W callbacks (hook.accept W env sessionId endpoint).1
      (answers ++ [.connected sessionId endpoint]) := by
  obtain ⟨q, pending, hsessions, hworks⟩ := RPCHook.accept_posted hpost W hook sessionId endpoint
  constructor
  case callbacks => exact h.callbacks
  case sessions =>
    intro id
    rw [hsessions, connectedIn_concat]
    by_cases hid : id = sessionId
    · subst hid
      rw [Sessions.lookup_put, hnew]
      simp [Answer.endpointOf]
    · rw [Sessions.lookup_put_ne _ hid, h.sessions]
      simp [Answer.endpointOf, Ne.symm hid]
  case log =>
    rw [List.filterMap_append]
    exact h.log.trans (List.append_nil _).symm
  case works =>
    rw [hsessions, List.map_append]
    dsimp only [Sessions.put]
    rw [hworks]
    apply List.rel_append h.works
    exact .cons (posts_reply W ⟨sessionId, endpoint, ⟨.ok, 0⟩⟩ env.fresh true) .nil
  case ncalls =>
    rw [List.countP_append]
    exact h.ncalls
  case total => exact h.total

theorem serve_of_service (h : Matches W callbacks hook answers)
    {input : List UInt8}
    (hlookup : hook.sessions.connected.lookup stub.sessionId = some (session, region))
    (hpost : env.send.postError = none) {outcome : Option PayloadSize}
    (houtcome : (hook.service.execute stub.rpcId input (RPCHook.outBuf W) region).2.2 = outcome)
    (hcallbacks : (hook.service.execute stub.rpcId input (RPCHook.outBuf W) region).1.callbacks =
      callbacks)
    (hlog : (hook.service.execute stub.rpcId input (RPCHook.outBuf W) region).1.log =
      (answers ++ [Answer.served stub input session.endpoint outcome]).filterMap
        Answer.invocation) :
    Matches W callbacks (hook.serve W env stub input session region).1
      (answers ++ [.served stub input session.endpoint outcome]) := by
  obtain ⟨q, pending, hsessions, hworks⟩ :=
    RPCHook.serve_posted hpost W hook stub input session region
  rw [houtcome] at hsessions hworks
  constructor
  case callbacks => exact hcallbacks
  case sessions =>
    intro id
    rw [hsessions, connectedIn_concat, Answer.endpointOf, Option.or_none, ← h.sessions]
    by_cases hid : id = stub.sessionId
    · subst hid
      rw [Sessions.lookup_put, hlookup]
      rfl
    · rw [Sessions.lookup_put_ne _ hid]
  case log => exact hlog
  case works =>
    rw [hsessions, List.map_append]
    dsimp only [Sessions.put]
    rw [hworks]
    apply List.rel_append h.works
    refine .cons ?_ .nil
    cases outcome with
    | none => exact posts_reply W ⟨stub.sessionId, session.endpoint, ⟨.notExist, 0⟩⟩ _ _
    | some size => exact posts_reply W ⟨stub.sessionId, session.endpoint, ⟨.ok, size⟩⟩ _ _
  case ncalls =>
    rw [List.countP_append, ← h.ncalls]
    change (hook.analysis.handleOne.handleSessionCall stub.sessionId).ncalls = _
    exact RPCAnalysis.ncalls_handleSessionCall _ _
  case total =>
    change (hook.analysis.handleOne.handleSessionCall stub.sessionId).total =
      (hook.analysis.handleOne.handleSessionCall stub.sessionId).ncalls
    rw [RPCAnalysis.total_handleSessionCall, RPCAnalysis.ncalls_handleSessionCall]
    exact congrArg (· + 1) h.total

theorem serve (h : Matches W callbacks hook answers)
    (hlookup : hook.sessions.connected.lookup stub.sessionId = some (session, region))
    (hpost : env.send.postError = none) (input : List UInt8) :
    ∃ outcome : Option PayloadSize, (outcome.isSome ↔ stub.rpcId ∈ callbacks) ∧
      Matches W callbacks (hook.serve W env stub input session region).1
        (answers ++ [.served stub input session.endpoint outcome]) := by
  rcases hook.service.execute_cases stub.rpcId input (RPCHook.outBuf W) region with
    ⟨hnot, hexecute⟩ | ⟨hmem, state, m', size, hexecute⟩
  · refine ⟨none, iff_of_false (by simp) (h.callbacks ▸ hnot), ?_⟩
    apply h.serve_of_service hlookup hpost
    · rw [hexecute]
    · rw [hexecute]
      exact h.callbacks
    · rw [hexecute, List.filterMap_append]
      exact h.log.trans (List.append_nil _).symm
  · refine ⟨some size, iff_of_true rfl (h.callbacks ▸ hmem), ?_⟩
    apply h.serve_of_service hlookup hpost
    · rw [hexecute]
    · rw [hexecute]
      exact h.callbacks
    · rw [hexecute, List.filterMap_append, ← h.log]
      rfl

end Matches

/-! ## Runs -/

/-- No message that a poll takes is a disconnect message, and a reply that it sends is
posted and, where it waits, its wait returns. -/
def SendsSucceed (W : Wire) (hook : RPCHook σ Endpoint) : HookAction Endpoint → Prop
  | .poll env =>
    (∀ transport msg, hook.transport.poll env.recv = (transport, .ok (.ready msg)) →
      decode W msg ≠ .disConnect) ∧
    (hook.poll W env).2 ≠ .error (.err .fatal) ∧ (hook.poll W env).2 ≠ .error .waiting
  | .postMsgBuf _ _ => True

/-- The message a step took, with what the poll met. -/
def takenBy : HookAction Endpoint × HookOutput → List (UDMsg × PollEnv Endpoint)
  | (.poll env, .polled _ consumed _) => consumed.toList.map fun msg => (msg, env)
  | _ => []

/-- The messages that arrived at a step. -/
def arrivedAt : HookAction Endpoint × HookOutput → List UDMsg
  | (_, .polled delivered _ _) => delivered
  | _ => []

namespace Matches

variable {callbacks : AList fun _ : ℕ => Callback σ} {hook : RPCHook σ Endpoint}
  {answers : List (Answer Endpoint)} {env : PollEnv Endpoint}

variable {m : Incoming}

theorem entry_none_of_rejects (h : Matches W callbacks hook answers)
    {e : HookError} (hrejects : hook.Rejects env m e) :
    Entry (· ∈ callbacks) answers env m none := by
  constructor
  · rintro sessionId metadata rfl
    cases hrejects with
    | duplicate hmem =>
      left
      rw [Ne, h.connectedIn_eq_none]
      exact not_not.mpr hmem
    | noEndpoint _ hmeta => exact Or.inr (Or.inl hmeta)
    | noSession _ _ hcreated => exact Or.inr (Or.inr hcreated)
  · rintro stub input rfl
    cases hrejects with
    | notConnected habsent => exact h.connectedIn_eq_none.mpr habsent

theorem react (h : Matches W callbacks hook answers) (hm : m ≠ .disConnect)
    (hfatal : (hook.react W env m).2 ≠ .error (.err .fatal))
    (hwaiting : (hook.react W env m).2 ≠ .error .waiting) :
    ∃ entry, Entry (· ∈ callbacks) answers env m entry ∧
      Matches W callbacks (hook.react W env m).1 (answers ++ entry.toList) := by
  have hreacts := RPCHook.reacts W hook env m
  generalize hook.react W env m = r at hreacts hfatal hwaiting ⊢
  cases hreacts with
  | rejected hrejects =>
    refine ⟨none, h.entry_none_of_rejects hrejects, ?_⟩
    rwa [Option.toList_none, List.append_nil]
  | @accepted sessionId metadata endpoint hconnects =>
    have hpost := RPCHook.postError_of_accept hfatal hwaiting
    have hnew := h.connectedIn_eq_none.mpr hconnects.absent
    exact ⟨_, .connected hnew hconnects.created hconnects.session,
      h.accept hnew hpost endpoint⟩
  | served hlookup input =>
    have hpost := RPCHook.postError_of_serve hfatal hwaiting
    obtain ⟨outcome, houtcome, hmatches⟩ := h.serve hlookup hpost input
    exact ⟨_, .served (h.connectedIn_of_lookup hlookup) houtcome, hmatches⟩
  | aborted => exact absurd rfl hm
  | dropped header =>
    refine ⟨none, .none (by simp) (by simp), ?_⟩
    rwa [Option.toList_none, List.append_nil]

end Matches

variable {callbacks : AList fun _ : ℕ => Callback σ} {hook : RPCHook σ Endpoint}
  {taken : List (UDMsg × PollEnv Endpoint)} {entries : List (Option (Answer Endpoint))}

/-- A step of a hook extends its history by the message it takes. -/
theorem exists_history_step (hhistory : History W (· ∈ callbacks) taken entries)
    (h : Matches W callbacks hook entries.reduceOption) {a : HookAction Endpoint}
    (ha : SendsSucceed W hook a) :
    ∃ entries', History W (· ∈ callbacks)
        (taken ++ takenBy (a, ((hookMachine W).step hook a).2)) entries' ∧
      Matches W callbacks ((hookMachine W).step hook a).1 entries'.reduceOption := by
  cases a with
  | postMsgBuf buf error =>
    refine ⟨entries, ?_, h.with_transport _⟩
    change History W _ (taken ++ []) entries
    rwa [List.append_nil]
  | poll env =>
    obtain ⟨hmarker, hfatal, hwaiting⟩ := ha
    dsimp only [hookMachine]
    cases hmsg : UDReceiver.handedOut (hook.transport.poll env.recv).2 with
    | none =>
      refine ⟨entries, ?_, ?_⟩
      · change History W _ (taken ++ []) entries
        rwa [List.append_nil]
      · rw [(RPCHook.poll_of_not_ready hmsg).1]
        exact h.with_transport _
    | some msg =>
      obtain ⟨transport, hready⟩ := UDReceiver.ready_of_handedOut hmsg
      rw [RPCHook.poll_of_ready hready] at hfatal hwaiting ⊢
      obtain ⟨entry, hentry, hmatches⟩ :=
        (h.with_transport transport).react (hmarker transport msg hready)
          (RPCHook.finish_ne hfatal) (RPCHook.finish_ne hwaiting)
      refine ⟨entries ++ [entry], hhistory.snoc hentry, ?_⟩
      obtain ⟨transport', hfinish, -⟩ := RPCHook.finish_eq env msg
        (RPCHook.react W { hook with transport } env (decode W msg))
      rw [hfinish, List.reduceOption_append, List.reduceOption_singleton]
      exact hmatches.with_transport transport'

theorem exists_history_run {as : List (HookAction Endpoint)}
    (hhistory : History W (· ∈ callbacks) taken entries)
    (h : Matches W callbacks hook entries.reduceOption)
    (has : (hookMachine W).Always (SendsSucceed W) hook as) :
    ∃ entries', History W (· ∈ callbacks)
        (taken ++ ((hookMachine W).trace hook as).flatMap takenBy) entries' ∧
      Matches W callbacks ((hookMachine W).run hook as) entries'.reduceOption := by
  induction as generalizing hook taken entries with
  | nil =>
    refine ⟨entries, ?_, h⟩
    change History W _ (taken ++ []) entries
    rwa [List.append_nil]
  | cons a as ih =>
    obtain ⟨ha, hrest⟩ := has
    obtain ⟨entries', hhistory', h'⟩ := exists_history_step hhistory h ha
    obtain ⟨entries'', hhistory'', h''⟩ := ih hhistory' h' hrest
    refine ⟨entries'', ?_, h''⟩
    rwa [List.append_assoc] at hhistory''

theorem arrived_poll (W : Wire) (hook : RPCHook σ Endpoint) (env : PollEnv Endpoint) :
    (hook.poll W env).1.transport.arrived = (hook.transport.poll env.recv).1.arrived := by
  cases hmsg : UDReceiver.handedOut (hook.transport.poll env.recv).2 with
  | none => rw [(RPCHook.poll_of_not_ready hmsg).1]
  | some msg =>
    obtain ⟨transport, hready⟩ := UDReceiver.ready_of_handedOut hmsg
    obtain ⟨transport', hfinish, harrived⟩ := RPCHook.finish_eq env msg
      (RPCHook.react W { hook with transport } env (decode W msg))
    rw [RPCHook.poll_of_ready hready, hfinish, harrived, RPCHook.react_transport, hready]

theorem taken_append_arrived_step (W : Wire) (hook : RPCHook σ Endpoint)
    (a : HookAction Endpoint) :
    hook.transport.arrived ++ arrivedAt (a, ((hookMachine W).step hook a).2) =
      (takenBy (a, ((hookMachine W).step hook a).2)).map Prod.fst ++
        ((hookMachine W).step hook a).1.transport.arrived := by
  cases a with
  | poll env =>
    dsimp only [hookMachine, arrivedAt, takenBy]
    rw [arrived_poll, UDReceiver.poll_fifo, List.map_map]
    exact congrArg (· ++ _) (List.map_id _).symm
  | postMsgBuf buf error =>
    dsimp only [hookMachine, arrivedAt, takenBy]
    rw [UDReceiver.arrived_postRecvBuf, List.append_nil]
    rfl

/-- Messages are taken in the order of their arrival. -/
theorem taken_append_arrived (W : Wire) (hook : RPCHook σ Endpoint)
    (as : List (HookAction Endpoint)) :
    hook.transport.arrived ++ ((hookMachine W).trace hook as).flatMap arrivedAt =
      (((hookMachine W).trace hook as).flatMap takenBy).map Prod.fst ++
        ((hookMachine W).run hook as).transport.arrived := by
  induction as generalizing hook with
  | nil => exact List.append_nil _
  | cons a as ih =>
    rw [Machine.trace, List.flatMap_cons, List.flatMap_cons, List.map_append, Machine.run_cons,
      ← List.append_assoc, taken_append_arrived_step, List.append_assoc, ih, List.append_assoc]

/-- A service with one procedure, under the number `3`. -/
def echoService : Service Unit := ((Service.new ()).register 3 echo).1

/-- A connect message for session `7`, a request of procedure `3` on it and one of procedure
`4`. -/
def echoTraffic : UDReceiver where
  arrived :=
    [.plain (ConnectStubFactory.header ⟨7⟩ 40) (Wire.packed.hyper.encode default),
      .plain (CallStubFactory.header ⟨7, 3⟩ 2) [1, 2], .plain (CallStubFactory.header ⟨7, 4⟩ 0) []]
  free := []

theorem ne_disConnect_of_handedOut {r : UDReceiver} {e : RecvEvent}
    (h : ∀ msg ∈ UDReceiver.handedOut (r.poll e).2, decode W msg ≠ .disConnect)
    (transport : UDReceiver) (msg : UDMsg) (hready : r.poll e = (transport, .ok (.ready msg))) :
    decode W msg ≠ .disConnect := by
  apply h
  rw [hready]
  rfl

theorem echo_sends_succeed :
    (hookMachine .packed).Always (SendsSucceed .packed)
      (RPCHook.new echoService echoTraffic : RPCHook Unit ℕ)
      [.poll calmEnv, .poll calmEnv, .poll calmEnv] := by
  refine ⟨⟨?_, by decide +kernel, by decide +kernel⟩, ⟨?_, by decide +kernel, by decide +kernel⟩,
    ⟨?_, by decide +kernel, by decide +kernel⟩, trivial⟩
  · exact ne_disConnect_of_handedOut (by decide +kernel)
  · exact ne_disConnect_of_handedOut (by decide +kernel)
  · exact ne_disConnect_of_handedOut (by decide +kernel)

end Mitosis.Datagram
