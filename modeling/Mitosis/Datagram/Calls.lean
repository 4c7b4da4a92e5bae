import Mitosis.Datagram.Failures

/-!
# Calls that return

A client calls a procedure with `sync_call` and waits for the reply with a timer.
Two of the ways in which this can fail are errors of the call; the others abort the
client or leave it waiting.  Both steps return exactly under conditions on the
session before the call, on the completions that its wait for a send meets, and on
the message that ends the wait for the reply.
-/

namespace Mitosis.Datagram

open Mitosis.OsNetwork
open Mitosis.Rpc (MsgHeader)
open Mitosis.Support

variable {Endpoint : Type} {W : Wire}

/-! ## The request -/

/-- No more sends than allowed are pending, or the wait for a completion ends with
one. -/
def Drains (limit : ℕ) (p : Port Endpoint) (polls : List CqEvent) : Prop :=
  p.2.pending ≤ limit ∨ ∃ status, (blockOn UDSession.poll p polls).2 = some (.ok status)

theorem drain_eq_ok_iff {limit : ℕ} {p : Port Endpoint} {polls : List CqEvent} :
    (drain limit p polls).2 = .ok () ↔ Drains limit p polls := by
  by_cases hlimit : p.2.pending > limit
  · have hwait := awaited_blockOn p polls
    rw [Drains, or_iff_right (Nat.not_le.mpr hlimit), drain, if_pos hlimit]
    generalize blockOn UDSession.poll p polls = w at hwait ⊢
    obtain ⟨p', r⟩ := w
    cases hwait <;> simp
  · rw [drain, if_neg hlimit]
    exact iff_of_true rfl (Or.inl (Nat.le_of_not_lt hlimit))

namespace Sessions

/-- The session of a request behind its post. -/
def postedCall (W : Wire) (s : Sessions Endpoint) (sessionId : ℕ) (session : UDSession Endpoint)
    (call : CallStubFactory) (arg : List UInt8) : Port Endpoint :=
  posted sessionId (W.header.encode (call.header arg.length) ++ arg) (session.pending == 0)
    (s.queue, session)

theorem syncCall_cases (W : Wire) (s : Sessions Endpoint) (sessionId : ℕ) (call : CallStubFactory)
    {arg : List UInt8} (hfits : W.header.size + arg.length ≤ mtu) (env : SendEnv) :
    (s.connected.lookup sessionId = none ∧
        (s.syncCall W sessionId call arg env).2 = .error .panicked) ∨
      ∃ session region, s.connected.lookup sessionId = some (session, region) ∧
        ((∃ err, env.postError = some err ∧
            (s.syncCall W sessionId call arg env).2 = .error (.err err)) ∨
          env.postError = none ∧
            ((Drains 8 (s.postedCall W sessionId session call arg) env.polls ∧
                (s.syncCall W sessionId call arg env).2 = .ok ()) ∨
              ¬ Drains 8 (s.postedCall W sessionId session call arg) env.polls ∧
                ¬ Returned (s.syncCall W sessionId call arg env).2)) := by
  unfold syncCall
  cases hlookup : s.connected.lookup sessionId with
  | none => exact Or.inl ⟨rfl, rfl⟩
  | some entry =>
    obtain ⟨session, region⟩ := entry
    refine Or.inr ⟨session, region, rfl, ?_⟩
    have hgenerate : call.generate W arg (UDMsg.create region).bytes region =
        (writeBytes region 0 (W.header.encode (call.header arg.length) ++ arg),
          some (W.header.size + arg.length)) := generateStub_of_le hfits _ _
    have hmessage : readBytes (writeBytes region 0
        (W.header.encode (call.header arg.length) ++ arg)) 0 (W.header.size + arg.length) =
          W.header.encode (call.header arg.length) ++ arg := by
      rw [← W.header.length_encode (call.header arg.length), ← List.length_append]
      exact readBytes_writeBytes _ _ _
    dsimp only
    rw [hgenerate]
    dsimp only
    cases env.postError with
    | some err => exact Or.inl ⟨err, rfl, rfl⟩
    | none =>
      refine Or.inr ⟨rfl, ?_⟩
      rw [post_of_none, hmessage]
      dsimp only
      rw [← postedCall, ← drain_eq_ok_iff]
      generalize drain 8 (s.postedCall W sessionId session call arg) env.polls = w
      obtain ⟨p, (err | _ | _) | _⟩ := w <;> simp [Returned]

end Sessions

/-! ## The reply -/

/-- The routing header fits the buffer; and if the message claims to be a good reply, its
payload does, and the buffer can be posted again. -/
def UDMsg.Digestible (W : Wire) (registerError : Option DatapathError) (msg : UDMsg) : Prop :=
  grhSize ≤ msg.size ∧ (msg.IsOk W →
    grhSize + W.header.size + (msg.claimed W).payload ≤ msg.size ∧ registerError = none)

namespace Caller

/-- How the receiver of a caller waits for a message. -/
def receive (timeoutUsec : ℤ) (receiver : UDReceiver) (events : List (RecvEvent × ℤ)) :
    UDReceiver × Option (Except (TimeoutError DatapathError) UDMsg) :=
  blockOn (Timeout.poll UDReceiver.poll timeoutUsec) receiver events

/-- What a caller makes of the end of that wait. -/
def digest (W : Wire) : Except (TimeoutError DatapathError) UDMsg →
    Except (TimeoutError (Halted CallError)) (UDMsg × BytesMut)
  | .ok msg =>
    match checkReply W msg with
    | .ok reply => .ok (msg, reply)
    | .error halted => .error (.inner halted)
  | .error (.inner err) => .error (.inner (.err (.inner err)))
  | .error .elapsed => .error .elapsed

/-- A caller waits as long as its receiver, and checks what that has received. -/
theorem blockOn_eq_receive (W : Wire) (timeoutUsec : ℤ) (caller : Caller Endpoint)
    (events : List (RecvEvent × ℤ)) :
    blockOn (Timeout.poll (Caller.poll W) timeoutUsec) caller events =
      ({ caller with innerReceiver := (receive timeoutUsec caller.innerReceiver events).1 },
        (receive timeoutUsec caller.innerReceiver events).2.map (digest W)) := by
  unfold receive
  induction events generalizing caller with
  | nil => rfl
  | cons e events ih =>
    rw [blockOn, blockOn, Timeout.poll, Timeout.poll, Caller.poll]
    rcases caller.innerReceiver.poll e.1 with ⟨receiver, err | (msg | _)⟩
    · rfl
    · simp only [digest, Option.map_some]
      cases checkReply W msg <;> rfl
    · simp only [Delay.poll]
      by_cases hpassed : e.2 ≥ timeoutUsec
      · rw [if_pos hpassed]
        rfl
      · rw [if_neg hpassed]
        exact ih { caller with innerReceiver := receiver }

/-- The wait for a reply returns exactly if it ends, and what ends it can be dealt
with. -/
theorem awaitReply_returned_iff {timeoutUsec : ℤ} {caller : Caller Endpoint}
    {events : List (RecvEvent × ℤ)} {registerError : Option DatapathError} :
    Returned (caller.awaitReply W timeoutUsec events registerError).2 ↔
      ∃ r, (receive timeoutUsec caller.innerReceiver events).2 = some r ∧
        ∀ msg, r = .ok msg → msg.Digestible W registerError := by
  unfold awaitReply
  rw [blockOn_eq_receive]
  rcases (receive timeoutUsec caller.innerReceiver events).2 with _ | (err | _) | msg
  · simp [Returned]
  · simp [Returned, digest, haltOf]
  · simp [Returned, digest, haltOf]
  · simp only [Option.map_some, digest, Option.some.injEq, exists_eq_left', Except.ok.injEq,
      forall_eq', UDMsg.Digestible]
    rcases checkReply_spec W msg with ⟨hshort, hcheck⟩ | ⟨hgrh, ⟨hbad, e, -, hcheck⟩ |
      ⟨hok, ⟨hlong, hcheck⟩ | ⟨hfits, reply, hcheck⟩⟩⟩
    · rw [hcheck]
      simp [Returned, haltOf, Nat.not_le.mpr hshort]
    · rw [hcheck]
      exact iff_of_true (Or.inr ⟨_, rfl⟩) ⟨hgrh, fun hok => absurd hok hbad⟩
    · rw [hcheck]
      refine iff_of_false (by simp [Returned, haltOf]) fun h => ?_
      exact absurd (h.2 hok).1 (Nat.not_le.mpr hlong)
    · rw [hcheck]
      cases registerError with
      | none =>
        exact iff_of_true (Or.inl ⟨_, rfl⟩) ⟨hgrh, fun _ => ⟨hfits, rfl⟩⟩
      | some err => exact iff_of_false (by simp [Returned, registerRecvBuf,
          UDReceiver.postRecvBuf]) fun h => absurd (h.2 hok).2 (by simp)

end Caller

end Mitosis.Datagram
