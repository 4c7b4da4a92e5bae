import Mitosis.Datagram.Calls

/-!
# The receive buffers

A poll takes a message out of its receive buffer, and the buffer is posted again only at
the end of the successful path.  So every message that is turned down costs one buffer,
and a sequence of them leaves an endpoint without any.

Which messages are answered is said by the message, the sessions and the send queue before
the poll: a reply on a new session is sent if the driver takes it, a reply on a session with
four pending sends also needs the completion of an older send.
-/

namespace Mitosis.Datagram

open Mitosis.OsNetwork
open Mitosis.Rpc (CallStub MsgHeader)
open Mitosis.Support

variable {σ Endpoint : Type} {W : Wire}

/-! ## Replies that are sent -/

/-- The polls find a completion before one of them fails: it is waiting, or a signaled send in
flight ends. -/
def FindsCompletion (waiting : Bool) (signals : List Bool) : List CqEvent → Prop
  | [] => False
  | e :: polls =>
    e.pollError = none ∧ (waiting = true ∨ true ∈ signals.take e.arrivals.length ∨
      FindsCompletion false (signals.drop e.arrivals.length) polls)

theorem reportsFrom_eq_nil_iff (place : ℕ) (signals : List Bool) (statuses : List WCStatus) :
    SendQueue.reportsFrom unreported place signals statuses = [] ↔
      true ∉ signals.take statuses.length := by
  induction signals generalizing place statuses with
  | nil => simp
  | cons signaled signals ih =>
    cases statuses with
    | nil => simp
    | cons status statuses =>
      rw [SendQueue.reportsFrom, List.append_eq_nil_iff, ih, List.length_cons,
        List.take_succ_cons, List.mem_cons]
      cases signaled <;> simp [unreported]

theorem UDSession.poll_of_nil {p : Port Endpoint} {e : CqEvent} (h : e.pollError = none)
    (hw : (p.1.completeAll unreported e.arrivals).waiting = []) :
    UDSession.poll p e = ((p.1.completeAll unreported e.arrivals, p.2), .ok .notReady) := by
  unfold UDSession.poll
  rw [h]
  dsimp only
  rw [SendQueue.poll_of_nil hw]

theorem UDSession.poll_of_cons {p : Port Endpoint} {e : CqEvent} (h : e.pollError = none)
    {wc : ℕ × WCStatus} {rest : List (ℕ × WCStatus)}
    (hw : (p.1.completeAll unreported e.arrivals).waiting = wc :: rest) :
    ∃ p', UDSession.poll p e = (p', .ok (.ready wc.2)) := by
  unfold UDSession.poll
  rw [h]
  dsimp only
  rw [SendQueue.poll_of_cons hw]
  exact ⟨_, rfl⟩

/-- The wait of a session ends with a completion just when its polls find one. -/
theorem finds_completion_iff (p : Port Endpoint) (polls : List CqEvent) :
    (∃ status, (blockOn UDSession.poll p polls).2 = some (.ok status)) ↔
      FindsCompletion (!p.1.waiting.isEmpty) p.1.signals polls := by
  induction polls generalizing p with
  | nil => simp [blockOn, FindsCompletion]
  | cons e polls ih =>
    rw [blockOn, FindsCompletion]
    cases herror : e.pollError with
    | some err =>
      refine iff_of_false ?_ (by simp)
      unfold UDSession.poll
      rw [herror]
      simp
    | none =>
      rw [and_iff_right rfl]
      obtain ⟨hsignals, hwaiting, -⟩ :
          (p.1.completeAll unreported e.arrivals).signals = _ ∧
            (p.1.completeAll unreported e.arrivals).waiting = _ ∧ _ :=
        SendQueue.completeAll_spec p.1 e.arrivals
      cases hw : (p.1.completeAll unreported e.arrivals).waiting with
      | cons wc rest =>
        obtain ⟨p', hpoll⟩ := UDSession.poll_of_cons herror hw
        rw [hpoll]
        refine iff_of_true ⟨wc.2, rfl⟩ ?_
        rw [hw] at hwaiting
        cases hp : p.1.waiting with
        | cons first more => exact Or.inl rfl
        | nil =>
          refine Or.inr (Or.inl (not_not.mp fun hnone => ?_))
          rw [hp, (reportsFrom_eq_nil_iff _ _ _).mpr hnone] at hwaiting
          cases hwaiting
      | nil =>
        rw [UDSession.poll_of_nil herror hw]
        rw [hw] at hwaiting
        obtain ⟨hp, hreports⟩ := List.append_eq_nil_iff.mp hwaiting.symm
        dsimp only
        rw [ih, hw, hp, hsignals]
        rw [or_iff_right (by simp), or_iff_right ((reportsFrom_eq_nil_iff _ _ _).mp hreports)]
        rfl

theorem findsCompletion_append_false (waiting : Bool) (signals : List Bool)
    (polls : List CqEvent) :
    FindsCompletion waiting (signals ++ [false]) polls ↔
      FindsCompletion waiting signals polls := by
  induction polls generalizing waiting signals with
  | nil => rfl
  | cons e polls ih =>
    rw [FindsCompletion, FindsCompletion]
    rcases Nat.lt_or_ge signals.length e.arrivals.length with hall | hle
    · have hdrop : ∀ more : List Bool, signals.length + more.length ≤ e.arrivals.length →
          (signals ++ more).drop e.arrivals.length = [] := fun more h =>
        List.drop_eq_nil_of_le (by rwa [List.length_append])
      rw [hdrop [false] hall, List.take_of_length_le (by rwa [List.length_append]),
        List.take_of_length_le hall.le, List.drop_eq_nil_of_le hall.le]
      simp
    · rw [List.take_append_of_le_length hle, List.drop_append_of_le_length hle, ih]

/-- A reply can be sent: the driver takes it, and the session has less than four pending sends
or the wait behind the post finds a completion. -/
def SendsReply (queue : UDQueue Endpoint) (session : UDSession Endpoint) (env : SendEnv) : Prop :=
  env.postError = none ∧
    (session.pending < 4 ∨ FindsCompletion (!queue.waiting.isEmpty) queue.signals env.polls)

theorem signals_post_false (q : UDQueue Endpoint) (send : UDSend Endpoint) :
    (q.post send false).signals = q.signals ∨ (q.post send false).signals = q.signals ++ [false] := by
  rcases Nat.lt_or_ge q.works.length q.finished.length with hlt | hle
  · left
    rw [SendQueue.signals, SendQueue.signals, SendQueue.inFlight, SendQueue.inFlight,
      SendQueue.post_works, SendQueue.post_finished, List.drop_eq_nil_of_le hlt.le,
      List.drop_eq_nil_of_le (by rwa [List.length_append])]
  · exact Or.inr (SendQueue.signals_post hle send false)

theorem Sessions.sendReply_ok_iff {s : Sessions Endpoint} {sessionId : ℕ}
    {session : UDSession Endpoint} {region : Memory}
    (h : s.connected.lookup sessionId = some (session, region)) (reply : ReplyStubFactory)
    (env : SendEnv) :
    (s.sendReply W sessionId reply env).2 = .ok () ↔ SendsReply s.queue session env := by
  rw [sendReply_of_lookup h, replyOutcome_eq_ok, SendsReply]
  cases hpost : env.postError with
  | some err =>
    rw [postReply_of_some hpost]
    simp
  | none =>
    rw [postReply_of_none hpost, and_iff_right rfl, and_iff_right rfl, drain_eq_ok_iff, Drains]
    by_cases hroom : session.pending < 4
    · exact iff_of_true (Or.inl hroom) (Or.inl hroom)
    have hsilent : (session.pending == 0) = false := by
      rw [beq_eq_false_iff_ne]
      omega
    have hfull : ¬ (posted sessionId (readBytes (replyRegion W reply region) 0
        (replySize W reply)) false (s.queue, session)).2.pending ≤ 4 :=
      fun h => hroom (Nat.lt_of_succ_le h)
    rw [or_iff_right hroom, hsilent, or_iff_right hfull, finds_completion_iff]
    rcases signals_post_false s.queue ⟨sessionId, session.endpoint, readBytes
      (replyRegion W reply region) 0 (replySize W reply)⟩ with hsame | hbehind
    · change FindsCompletion _ (s.queue.post _ false).signals _ ↔ _
      rw [hsame]
      rfl
    · change FindsCompletion _ (s.queue.post _ false).signals _ ↔ _
      rw [hbehind, findsCompletion_append_false]
      rfl

/-! ## The buffers of a hook -/

namespace RPCHook

/-- The messages after which the receive buffer is posted again: those that are only logged,
and the connect messages and requests whose answer can be sent. -/
inductive Answers (hook : RPCHook σ Endpoint) (env : PollEnv Endpoint) : Incoming → Prop
  | logged (header : MsgHeader) : Answers hook env (.unknown header)
  | connected {sessionId : ℕ} {metadata : UDHyperMeta} {endpoint : Endpoint}
      (h : hook.Connects env sessionId metadata endpoint) (hpost : env.send.postError = none) :
      Answers hook env (.connect sessionId (some metadata))
  | served {stub : CallStub} {session : UDSession Endpoint} {region : Memory}
      (h : hook.sessions.connected.lookup stub.sessionId = some (session, region))
      (input : List UInt8) (hsends : SendsReply hook.sessions.queue session env.send) :
      Answers hook env (.request stub input)

variable {env : PollEnv Endpoint} {m : Incoming} {hook : RPCHook σ Endpoint}

theorem Answers.of_sessions_eq {hook hook' : RPCHook σ Endpoint} (h : Answers hook env m)
    (hsessions : hook.sessions = hook'.sessions) :
    Answers hook' env m := by
  cases h with
  | logged header => exact .logged header
  | connected h hpost => exact .connected (h.of_sessions_eq hsessions) hpost
  | served h input hsends =>
    rw [hsessions] at h hsends
    exact .served h input hsends

theorem answers_with_transport (hook : RPCHook σ Endpoint) (env : PollEnv Endpoint)
    (transport : UDReceiver) :
    Answers { hook with transport } env m ↔ Answers hook env m :=
  ⟨fun h => h.of_sessions_eq rfl, fun h => h.of_sessions_eq rfl⟩

theorem accept_ok_iff (hook : RPCHook σ Endpoint) (env : PollEnv Endpoint) (sessionId : ℕ)
    (endpoint : Endpoint) :
    (hook.accept W env sessionId endpoint).2 = .ok () ↔ env.send.postError = none := by
  refine (Sessions.sendReply_ok_iff (Sessions.lookup_put _ _ _ _) _ _).trans ?_
  exact and_iff_left (Or.inl (show 0 < 4 by decide))

theorem serve_ok_iff (hook : RPCHook σ Endpoint) (env : PollEnv Endpoint) (stub : CallStub)
    (input : List UInt8) (session : UDSession Endpoint) (region : Memory) :
    (hook.serve W env stub input session region).2 = .ok () ↔
      SendsReply hook.sessions.queue session env.send :=
  Sessions.sendReply_ok_iff (Sessions.lookup_put _ _ _ _) _ _

theorem react_ok_iff :
    (hook.react W env m).2 = .ok () ↔ Answers hook env m := by
  constructor
  · intro hok
    have h := reacts W hook env m
    generalize hook.react W env m = r at h hok
    cases h with
    | rejected h => cases hok
    | accepted h => exact .connected h ((accept_ok_iff _ _ _ _).mp hok)
    | served h input => exact .served h input ((serve_ok_iff _ _ _ _ _ _).mp hok)
    | aborted => cases hok
    | dropped header => exact .logged header
  · intro h
    cases h with
    | logged header => rfl
    | connected h hpost => rw [react_of_connects h, (accept_ok_iff _ _ _ _).mpr hpost]
    | served h input hsends => rw [react_of_lookup h, (serve_ok_iff _ _ _ _ _ _).mpr hsends]

theorem finish_transport (env : PollEnv Endpoint) (msg : UDMsg)
    (r : RPCHook σ Endpoint × Except (Halted HookError) Unit) :
    (r.2 = .ok () ∧ env.postRecvError = none ∧
        (finish env msg r).1.transport.msgQueues.length = r.1.transport.msgQueues.length + 1) ∨
      (¬ (r.2 = .ok () ∧ env.postRecvError = none) ∧
        (finish env msg r).1.transport = r.1.transport) := by
  rcases r with ⟨hook, h | _⟩
  · right
    simp [finish]
  · cases hpost : env.postRecvError with
    | none =>
      left
      refine ⟨rfl, rfl, ?_⟩
      rw [← UDReceiver.length_postRecvBuf_none hook.transport msg]
      simp [finish, hpost, UDReceiver.postRecvBuf_none]
    | some err =>
      right
      simp [finish, hpost, UDReceiver.postRecvBuf_some]

theorem length_poll {transport : UDReceiver} {msg : UDMsg}
    (hready : hook.transport.poll env.recv = (transport, .ok (.ready msg))) :
    (Answers hook env (decode W msg) ∧ env.postRecvError = none ∧
        (hook.poll W env).1.transport.msgQueues.length = hook.transport.msgQueues.length) ∨
      (¬ (Answers hook env (decode W msg) ∧ env.postRecvError = none) ∧
        (hook.poll W env).1.transport.msgQueues.length + 1 =
          hook.transport.msgQueues.length) := by
  have hlength : transport.msgQueues.length + 1 = hook.transport.msgQueues.length := by
    have h := hook.transport.length_poll env.recv
    rwa [hready] at h
  have htransport : (react W { hook with transport } env (decode W msg)).1.transport = transport :=
    react_transport W { hook with transport } env (decode W msg)
  rw [poll_of_ready hready, ← answers_with_transport hook env transport, ← react_ok_iff]
  rcases finish_transport env msg (react W { hook with transport } env (decode W msg)) with
    ⟨hok, hpost, hposted⟩ | ⟨hnot, hsame⟩
  · left
    rw [htransport] at hposted
    exact ⟨hok, hpost, hposted.trans hlength⟩
  · right
    rw [hsame, htransport]
    exact ⟨hnot, hlength⟩

end RPCHook

/-! ## The buffers of a caller -/

namespace Caller

/-- The message that a caller receives: the first one that is there at a poll that does not
fail, before the time is over. -/
def firstMessage (timeoutUsec : ℤ) (receiver : UDReceiver) :
    List (RecvEvent × ℤ) → Option UDMsg
  | [] => none
  | (e, passed) :: events =>
    match e.pollError, (receiver.arriveAll e.packets).arrived with
    | some _, _ => none
    | none, msg :: _ => some msg
    | none, [] =>
      if timeoutUsec ≤ passed then none
      else firstMessage timeoutUsec (receiver.arriveAll e.packets) events

theorem receive_spec (timeoutUsec : ℤ) (receiver : UDReceiver) (events : List (RecvEvent × ℤ)) :
    (∃ msg, firstMessage timeoutUsec receiver events = some msg ∧
        (receive timeoutUsec receiver events).2 = some (.ok msg) ∧
        (receive timeoutUsec receiver events).1.msgQueues.length + 1 =
          receiver.msgQueues.length) ∨
      (firstMessage timeoutUsec receiver events = none ∧
        (∀ msg, (receive timeoutUsec receiver events).2 ≠ some (.ok msg)) ∧
        (receive timeoutUsec receiver events).1.msgQueues.length = receiver.msgQueues.length) := by
  unfold receive
  induction events generalizing receiver with
  | nil => exact Or.inr ⟨rfl, by simp [blockOn], rfl⟩
  | cons first events ih =>
    obtain ⟨e, passed⟩ := first
    have hlength := (UDReceiver.arriveAll_spec receiver e.packets).2
    rw [firstMessage, blockOn, Timeout.poll, UDReceiver.poll]
    dsimp only
    cases e.pollError with
    | some err => exact Or.inr ⟨rfl, by simp, hlength⟩
    | none =>
      cases harrived : (receiver.arriveAll e.packets).arrived with
      | cons msg arrived =>
        refine Or.inl ⟨msg, rfl, rfl, ?_⟩
        rw [← hlength]
        simp [UDReceiver.msgQueues, harrived]
      | nil =>
        dsimp only [Delay.poll]
        by_cases hpassed : timeoutUsec ≤ passed
        · rw [if_pos hpassed, if_pos hpassed]
          exact Or.inr ⟨rfl, by simp, hlength⟩
        · rw [if_neg hpassed, if_neg hpassed, ← hlength]
          exact ih (receiver.arriveAll e.packets)

/-- A call that returns has its buffers, unless the message it received is not a good reply. -/
theorem length_awaitReply {timeoutUsec : ℤ} {caller : Caller Endpoint}
    {events : List (RecvEvent × ℤ)} {registerError : Option DatapathError}
    (hdigestible : ∀ msg ∈ firstMessage timeoutUsec caller.innerReceiver events,
      msg.Digestible W registerError) :
    let after := caller.awaitReply W timeoutUsec events registerError
    ((∀ msg ∈ firstMessage timeoutUsec caller.innerReceiver events, msg.IsOk W) ∧
        after.1.innerReceiver.msgQueues.length = caller.innerReceiver.msgQueues.length) ∨
      ((∃ msg ∈ firstMessage timeoutUsec caller.innerReceiver events, ¬ msg.IsOk W) ∧
        after.1.innerReceiver.msgQueues.length + 1 = caller.innerReceiver.msgQueues.length) := by
  unfold awaitReply
  rw [blockOn_eq_receive]
  rcases receive_spec timeoutUsec caller.innerReceiver events with
    ⟨msg, hfirst, hreceived, hlength⟩ | ⟨hfirst, hreceived, hlength⟩
  · rw [hreceived, hfirst]
    have hmsg := hdigestible msg hfirst
    dsimp only [Option.map_some, digest]
    rcases checkReply_spec W msg with ⟨hshort, -⟩ | ⟨-, ⟨hbad, e, -, hcheck⟩ |
      ⟨hok, ⟨hlong, -⟩ | ⟨-, reply, hcheck⟩⟩⟩
    · exact absurd hmsg.1 (Nat.not_le.mpr hshort)
    · rw [hcheck]
      exact Or.inr ⟨⟨msg, rfl, hbad⟩, hlength⟩
    · exact absurd (hmsg.2 hok).1 (Nat.not_le.mpr hlong)
    · rw [hcheck, (hmsg.2 hok).2]
      refine Or.inl ⟨fun msg' hmsg' => ?_, ?_⟩
      · cases hmsg'
        exact hok
      · exact (UDReceiver.length_postRecvBuf_none _ msg).trans hlength
  · rw [hfirst]
    refine Or.inl ⟨by simp, ?_⟩
    rcases hr : (receive timeoutUsec caller.innerReceiver events).2 with _ | err | msg
    · exact hlength
    · rcases err with err | _ <;> exact hlength
    · exact absurd hr (hreceived msg)

end Caller

/-! ## Runs -/

/-- A step after which a message it took is answered and its buffer posted. -/
def AnswersStep (W : Wire) (hook : RPCHook σ Endpoint) : HookAction Endpoint → Prop
  | .poll env => ∀ transport msg, hook.transport.poll env.recv = (transport, .ok (.ready msg)) →
      RPCHook.Answers hook env (decode W msg) ∧ env.postRecvError = none
  | .postMsgBuf _ _ => True

/-- The receive buffers that are added from outside. -/
def HookAction.added : HookAction Endpoint → ℕ
  | .postMsgBuf _ none => 1
  | _ => 0

variable {hook : RPCHook σ Endpoint}

theorem length_step {a : HookAction Endpoint}
    (h : AnswersStep W hook a) :
    ((hookMachine W).step hook a).1.transport.msgQueues.length =
      hook.transport.msgQueues.length + a.added := by
  cases a with
  | poll env =>
    change (hook.poll W env).1.transport.msgQueues.length = hook.transport.msgQueues.length
    cases hmsg : UDReceiver.handedOut (hook.transport.poll env.recv).2 with
    | none =>
      have hlength := hook.transport.length_poll env.recv
      rw [hmsg] at hlength
      rw [(RPCHook.poll_of_not_ready hmsg).1]
      exact hlength
    | some msg =>
      obtain ⟨transport, hready⟩ := UDReceiver.ready_of_handedOut hmsg
      rcases RPCHook.length_poll (W := W) hready with ⟨-, -, hsame⟩ | ⟨hnot, -⟩
      · exact hsame
      · exact absurd (h transport msg hready) hnot
  | postMsgBuf buf error =>
    cases error with
    | none => exact UDReceiver.length_postRecvBuf_none hook.transport buf
    | some err => rfl

theorem length_run {as : List (HookAction Endpoint)}
    (h : (hookMachine W).Always (AnswersStep W) hook as) :
    ((hookMachine W).run hook as).transport.msgQueues.length =
      hook.transport.msgQueues.length + (as.map HookAction.added).sum := by
  induction as generalizing hook with
  | nil => rfl
  | cons a as ih =>
    obtain ⟨ha, hrest⟩ := h
    rw [Machine.run_cons, ih hrest, length_step ha, List.map_cons, List.sum_cons, Nat.add_assoc]

/-- The buffer of a message stays posted exactly if the message is answered: the hook loses
one buffer for every other message, and the client one for every message it receives that is
not a good reply. -/
theorem recv_buffers_kept_iff (W : Wire) (σ Endpoint : Type) :
    (∀ (hook : RPCHook σ Endpoint) (env : PollEnv Endpoint) (transport : UDReceiver)
        (msg : UDMsg), hook.transport.poll env.recv = (transport, .ok (.ready msg)) →
      let answered := RPCHook.Answers hook env (decode W msg) ∧ env.postRecvError = none
      let after := (hook.poll W env).1.transport.msgQueues.length
      (after = hook.transport.msgQueues.length ↔ answered) ∧
        (¬ answered → after + 1 = hook.transport.msgQueues.length)) ∧
    (∀ (timeoutUsec : ℤ) (caller : Caller Endpoint) (events : List (RecvEvent × ℤ))
        (registerError : Option DatapathError),
      let received := Caller.firstMessage timeoutUsec caller.innerReceiver events
      let after := (caller.awaitReply W timeoutUsec events
        registerError).1.innerReceiver.msgQueues.length
      -- the client does not abort
      (∀ msg ∈ received, msg.Digestible W registerError) →
      (after = caller.innerReceiver.msgQueues.length ↔ ∀ msg ∈ received, msg.IsOk W) ∧
        ((∃ msg ∈ received, ¬ msg.IsOk W) →
          after + 1 = caller.innerReceiver.msgQueues.length)) ∧
    ∀ (hook : RPCHook σ Endpoint) (as : List (HookAction Endpoint)),
      (hookMachine W).Always (AnswersStep W) hook as →
      ((hookMachine W).run hook as).transport.msgQueues.length =
        hook.transport.msgQueues.length + (as.map HookAction.added).sum := by
  refine ⟨?_, ?_, fun hook as h => length_run h⟩
  · intro hook env transport msg hready answered after
    rcases RPCHook.length_poll (W := W) hready with ⟨hanswers, hpost, hsame⟩ | ⟨hnot, hlost⟩
    · exact ⟨iff_of_true hsame ⟨hanswers, hpost⟩, fun hnot => absurd ⟨hanswers, hpost⟩ hnot⟩
    · refine ⟨iff_of_false ?_ hnot, fun _ => hlost⟩
      exact Nat.ne_of_lt (Nat.lt_of_succ_le hlost.le)
  · intro timeoutUsec caller events registerError received after hdigestible
    rcases Caller.length_awaitReply hdigestible with ⟨hok, hsame⟩ | ⟨hbad, hlost⟩
    · refine ⟨iff_of_true hsame hok, ?_⟩
      rintro ⟨msg, hmsg, hnot⟩
      exact absurd (hok msg hmsg) hnot
    · refine ⟨iff_of_false ?_ ?_, fun _ => hlost⟩
      · exact Nat.ne_of_lt (Nat.lt_of_succ_le hlost.le)
      · obtain ⟨msg, hmsg, hnot⟩ := hbad
        exact fun hok => hnot (hok msg hmsg)

/-- The reply to a request of a procedure that does not exist. -/
def notExistMsg : UDMsg := .plain (ReplyStubFactory.header ⟨.notExist, 0⟩) []

/-- Two requests of an unknown session use both buffers of a hook up, and one refused reply
the only buffer of a caller. -/
theorem rejected_messages_use_buffers_up :
    ((hookMachine .packed).run (hookWith [strayMsg, strayMsg])
        [.poll calmEnv, .poll calmEnv]).transport.msgQueues.length = 0 ∧
      (hookWith [strayMsg, strayMsg]).transport.msgQueues.length = 2 ∧
      ((callerWith [notExistMsg]).awaitReply .packed 10 [(⟨[], none⟩, 0)] none).2 =
        .error (.err (.inner .noId)) ∧
      ((callerWith [notExistMsg]).awaitReply .packed 10
        [(⟨[], none⟩, 0)] none).1.innerReceiver.msgQueues.length = 0 ∧
      (callerWith [notExistMsg]).innerReceiver.msgQueues.length = 1 :=
  ⟨by decide +kernel, rfl, by decide +kernel, by decide +kernel, rfl⟩

theorem answered_messages_keep_buffers :
    ((hookWith [connectMsg]).poll .packed calmEnv).1.transport.msgQueues.length = 1 ∧
      ((callerWith [goodReplyMsg]).awaitReply .packed 10
        [(⟨[], none⟩, 0)] none).1.innerReceiver.msgQueues.length = 1 ∧
      ((hookMachine .packed).run (hookWith [connectMsg])
        [.poll calmEnv]).transport.msgQueues.length = 1 := by
  have hdecode : decode .packed connectMsg = .connect 7 (some default) := by decide +kernel
  have hconnects : RPCHook.Connects (hookWith [connectMsg]) calmEnv 7 default 0 :=
    ⟨by decide, rfl, rfl⟩
  have hanswers : RPCHook.Answers (hookWith [connectMsg]) calmEnv (decode .packed connectMsg) := by
    rw [hdecode]
    exact .connected hconnects rfl
  refine ⟨?_, ?_, ?_⟩
  · exact ((recv_buffers_kept_iff .packed Unit ℕ).1 (hookWith [connectMsg]) calmEnv ⟨[], []⟩
      connectMsg rfl).1.mpr ⟨hanswers, rfl⟩
  · have hok : goodReplyMsg.IsOk .packed := (UDMsg.isOk_iff (by decide)).mpr (by decide +kernel)
    refine ((recv_buffers_kept_iff .packed Unit ℕ).2.1 10 (callerWith [goodReplyMsg])
      [(⟨[], none⟩, 0)] none ?_).1.mpr ?_
    · intro msg hmsg
      cases hmsg
      exact ⟨by decide, fun _ => ⟨by decide +kernel, rfl⟩⟩
    · intro msg hmsg
      cases hmsg
      exact hok
  · refine (recv_buffers_kept_iff .packed Unit ℕ).2.2 (hookWith [connectMsg]) [.poll calmEnv]
      ⟨?_, trivial⟩
    intro transport msg hready
    cases hready
    exact ⟨hanswers, rfl⟩

end Mitosis.Datagram
