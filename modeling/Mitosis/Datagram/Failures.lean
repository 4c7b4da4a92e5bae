import Mitosis.Datagram.Caller
import Mitosis.Datagram.Hook

/-!
# What a rejected message leaves behind

Both endpoints decode fields that the peer has chosen.  Two things are followed
through every way in which a poll can end: whether it returns at all, and which
sessions are connected afterwards.

A session is inserted before its reply is sent, so a connect message can be answered
by an error and leave its session behind.
-/

namespace Mitosis.Datagram

open Mitosis.OsNetwork
open Mitosis.Rpc (CallStub MsgHeader)
open Mitosis.Support

variable {σ Endpoint : Type} {W : Wire}

/-! ## Polls that do not return -/

/-- A call came back with a value or an error. -/
def Returned {α ε : Type} (r : Except (Halted ε) α) : Prop :=
  (∃ a, r = .ok a) ∨ ∃ e, r = .error (.err e)

variable {env : PollEnv Endpoint} {msg : UDMsg}

theorem returned_iff {α ε : Type} {r : Except (Halted ε) α} :
    Returned r ↔ r ≠ .error .panicked ∧ r ≠ .error .waiting := by
  rcases r with (e | _ | _) | a <;> simp [Returned]

theorem RPCHook.finish_panicked_iff {r : RPCHook σ Endpoint × Except (Halted HookError) Unit} :
    (finish env msg r).2 = .error .panicked ↔ r.2 = .error .panicked := by
  rcases r with ⟨hook, h | _⟩
  · simp [finish]
  · unfold finish
    cases env.postRecvError <;> simp [UDReceiver.postRecvBuf]

theorem decode_eq_disConnect (h : grhSize + W.header.size ≤ msg.size) :
    decode W msg = .disConnect ↔
      (msg.header W).marker = .disConnect ∧
        grhSize + W.header.size + (msg.header W).payload ≤ msg.size := by
  unfold decode
  cases hparse : parseMsg W msg with
  | none =>
    have hlong := (parseMsg_eq_none h).mp hparse
    exact iff_of_false (by simp) fun hfits => absurd hfits.2 (Nat.not_le.mpr hlong)
  | some parsed =>
    obtain ⟨header, rpcArgs⟩ := parsed
    obtain ⟨rfl, hfits, -⟩ := (parseMsg_eq_some h).mp hparse
    dsimp only
    rw [MsgHeader.incoming_eq_disConnect, and_iff_left hfits]

/-- What the header of a received message says; a header that is not there reads as the
default one. -/
def UDMsg.claimed (W : Wire) (msg : UDMsg) : MsgHeader :=
  readHeader W msg.region (msg.bytes.after grhSize)

/-- The message claims to be the reply of a procedure that was executed. -/
def UDMsg.IsOk (W : Wire) (msg : UDMsg) : Prop :=
  (msg.claimed W).isReply = true ∧ (msg.claimed W).getReplyStub = some .ok

theorem UDMsg.isOk_iff (h : grhSize + W.header.size ≤ msg.size) :
    msg.IsOk W ↔ (msg.header W).marker = .reply ∧ (msg.header W).info = .reply .ok := by
  rw [UDMsg.IsOk, UDMsg.claimed, UDMsg.readHeader_after_grh h]
  unfold MsgHeader.isReply MsgHeader.getReplyStub
  rcases msg.header W with ⟨marker, size, info⟩
  rcases info with stub | (_ | _) | stub | _ <;> simp

theorem checkReply_spec (W : Wire) (msg : UDMsg) :
    (msg.size < grhSize ∧ checkReply W msg = .error .panicked) ∨
      grhSize ≤ msg.size ∧
        ((¬ msg.IsOk W ∧ ∃ e, (e = .noId ∨ e = .fatal) ∧ checkReply W msg = .error (.err e)) ∨
          msg.IsOk W ∧
            ((msg.size < grhSize + W.header.size + (msg.claimed W).payload ∧
                checkReply W msg = .error .panicked) ∨
              grhSize + W.header.size + (msg.claimed W).payload ≤ msg.size ∧
                ∃ reply, checkReply W msg = .ok reply)) := by
  by_cases hgrh : grhSize ≤ msg.size
  · refine Or.inr ⟨hgrh, ?_⟩
    have htruncate : msg.bytes.truncateHeader grhSize = some (msg.bytes.after grhSize) :=
      BytesMut.truncateHeader_of_le hgrh
    unfold checkReply UDMsg.IsOk
    rw [htruncate]
    dsimp only
    rw [← UDMsg.claimed]
    by_cases hreply : (msg.claimed W).isReply = true
    · rw [if_pos hreply]
      cases hstub : (msg.claimed W).getReplyStub with
      | none => exact Or.inl ⟨by simp, _, Or.inr rfl, rfl⟩
      | some status =>
        cases status with
        | notExist => exact Or.inl ⟨by simp, _, Or.inl rfl, rfl⟩
        | ok =>
          refine Or.inr ⟨⟨hreply, rfl⟩, ?_⟩
          dsimp only
          have hlen : (msg.bytes.after grhSize).len = msg.size - grhSize := rfl
          by_cases hheader : W.header.size ≤ (msg.bytes.after grhSize).len
          · rw [BytesMut.truncateHeader_of_le hheader]
            dsimp only
            cases hclone : ((msg.bytes.after grhSize).after W.header.size).cloneAndResize
                (msg.claimed W).payload with
            | none =>
              rw [BytesMut.cloneAndResize_eq_none, BytesMut.after_len] at hclone
              exact Or.inl ⟨by omega, rfl⟩
            | some reply =>
              rw [BytesMut.cloneAndResize_eq_some, BytesMut.after_len] at hclone
              exact Or.inr ⟨by omega, reply, rfl⟩
          · rw [BytesMut.truncateHeader_of_lt (Nat.lt_of_not_le hheader)]
            exact Or.inl ⟨by omega, rfl⟩
    · rw [if_neg hreply]
      exact Or.inl ⟨fun h => hreply h.1, _, Or.inr rfl, rfl⟩
  · have hshort : msg.bytes.len < grhSize := Nat.lt_of_not_le hgrh
    refine Or.inl ⟨hshort, ?_⟩
    rw [checkReply, BytesMut.truncateHeader_of_lt hshort]

theorem checkReply_panicked_iff (h : grhSize + W.header.size ≤ msg.size) :
    checkReply W msg = .error .panicked ↔
      (msg.header W).marker = .reply ∧ (msg.header W).info = .reply .ok ∧
        msg.size < grhSize + W.header.size + (msg.header W).payload := by
  have hclaimed : msg.claimed W = msg.header W := UDMsg.readHeader_after_grh h
  rw [← and_assoc, ← UDMsg.isOk_iff h, ← hclaimed]
  rcases checkReply_spec W msg with ⟨hshort, -⟩ | ⟨-, ⟨hbad, e, -, hcheck⟩ |
    ⟨hok, ⟨hlong, hcheck⟩ | ⟨hfits, reply, hcheck⟩⟩⟩
  · omega
  · exact iff_of_false (by simp [hcheck]) fun hok => hbad hok.1
  · exact iff_of_true hcheck ⟨hok, hlong⟩
  · exact iff_of_false (by simp [hcheck]) fun hlong => absurd hlong.2 (Nat.not_lt.mpr hfits)

theorem checkReply_cases (W : Wire) (msg : UDMsg) :
    (∃ reply, checkReply W msg = .ok reply) ∨ checkReply W msg = .error .panicked ∨
      ∃ e, (e = .noId ∨ e = .fatal) ∧ checkReply W msg = .error (.err e) := by
  rcases checkReply_spec W msg with ⟨-, hcheck⟩ | ⟨-, ⟨-, hcheck⟩ | ⟨-, ⟨-, hcheck⟩ | ⟨-, hcheck⟩⟩⟩
  · exact Or.inr (Or.inl hcheck)
  · exact Or.inr (Or.inr hcheck)
  · exact Or.inr (Or.inl hcheck)
  · exact Or.inl hcheck

/-- For a message whose header is complete, the hook returns unless it is a disconnect
message, and the caller returns unless it is a good reply that claims more payload than
its buffer can hold. -/
theorem polls_return_iff (W : Wire) (σ Endpoint : Type) :
    (∀ (hook : RPCHook σ Endpoint) (env : PollEnv Endpoint) (transport : UDReceiver)
        (msg : UDMsg),
      hook.transport.poll env.recv = (transport, .ok (.ready msg)) →
      grhSize + W.header.size ≤ msg.size →
      -- a wait for a send completion has ended
      (hook.poll W env).2 ≠ .error .waiting →
      (Returned (hook.poll W env).2 ↔
        ¬ ((msg.header W).marker = .disConnect ∧
          grhSize + W.header.size + (msg.header W).payload ≤ msg.size))) ∧
    ∀ (caller : Caller Endpoint) (e : RecvEvent) (receiver : UDReceiver) (msg : UDMsg),
      caller.innerReceiver.poll e = (receiver, .ok (.ready msg)) →
      grhSize + W.header.size ≤ msg.size →
      (Returned (caller.poll W e).2 ↔
        ¬ ((msg.header W).marker = .reply ∧ (msg.header W).info = .reply .ok ∧
          msg.size < grhSize + W.header.size + (msg.header W).payload)) := by
  constructor
  · intro hook env transport msg hready hheader hwait
    rw [returned_iff, and_iff_left hwait, Ne, RPCHook.poll_of_ready hready,
      RPCHook.finish_panicked_iff, RPCHook.react_panicked_iff, decode_eq_disConnect hheader]
  · intro caller e receiver msg hready hheader
    rw [Caller.poll_of_ready hready, ← checkReply_panicked_iff hheader, returned_iff]
    rcases checkReply_cases W msg with ⟨reply, hcheck⟩ | hcheck | ⟨e, -, hcheck⟩ <;>
      simp [hcheck, Except.map]

/-- A hook that is about to receive these messages, with no procedure and no session. -/
def hookWith (arrived : List UDMsg) : RPCHook Unit ℕ := .new (.new ()) ⟨arrived, []⟩

/-- A caller that is about to receive these messages. -/
def callerWith (arrived : List UDMsg) : Caller ℕ := .new ⟨arrived, []⟩

def disConnectMsg : UDMsg :=
  .plain ⟨⟨.disConnect, 0, .none⟩, by decide, trivial⟩ []

/-- A good reply that claims five thousand bytes. -/
def hugeReplyMsg : UDMsg := .plain (ReplyStubFactory.header ⟨.ok, 5000⟩) []

def goodReplyMsg : UDMsg := .plain (ReplyStubFactory.header ⟨.ok, 0⟩) []

theorem peer_aborts_both_ends :
    ((hookWith [disConnectMsg]).poll .packed calmEnv).2 = .error .panicked ∧
      ((callerWith [hugeReplyMsg]).poll .packed ⟨[], none⟩).2 = .error .panicked := by
  refine ⟨by decide +kernel, ?_⟩
  have hcheck : checkReply .packed hugeReplyMsg = .error .panicked :=
    (checkReply_panicked_iff (by decide)).mpr (by decide +kernel)
  exact congrArg (Except.map fun reply => .ready (hugeReplyMsg, reply)) hcheck

/-- A request without a session, which both endpoints turn down. -/
def strayMsg : UDMsg := .plain (CallStubFactory.header ⟨7, 3⟩ 0) []

theorem stray_request_returns :
    Returned ((hookWith [strayMsg]).poll .packed calmEnv).2 ∧
      Returned ((callerWith [strayMsg]).poll .packed ⟨[], none⟩).2 :=
  ⟨((polls_return_iff .packed Unit ℕ).1 (hookWith [strayMsg]) calmEnv ⟨[], []⟩ strayMsg rfl
      (by decide) (by decide +kernel)).mpr (by decide +kernel),
    ((polls_return_iff .packed Unit ℕ).2 (callerWith [strayMsg]) ⟨[], none⟩ ⟨[], []⟩ strayMsg rfl
      (by decide)).mpr (by decide +kernel)⟩

/-! ## The connected sessions -/

namespace RPCHook

variable {sessionId : ℕ} {metadata : UDHyperMeta}

theorem Rejects.not_connects {hook : RPCHook σ Endpoint} {e : HookError}
    (h : Rejects hook env (.connect sessionId (some metadata)) e) (endpoint : Endpoint) :
    ¬ Connects hook env sessionId metadata endpoint := by
  rintro ⟨habsent, hcreated, hsession⟩
  cases h with
  | duplicate hmem => exact habsent hmem
  | noEndpoint _ hmeta => simp [hmeta] at hcreated
  | noSession _ _ hfalse => simp [hfalse] at hsession

theorem Connects.of_sessions_eq {hook hook' : RPCHook σ Endpoint} {endpoint : Endpoint}
    (h : Connects hook env sessionId metadata endpoint) (hsessions : hook.sessions = hook'.sessions) :
    Connects hook' env sessionId metadata endpoint :=
  ⟨hsessions ▸ h.absent, h.created, h.session⟩

/-- A message adds the session it connects, if it connects one, and nothing else. -/
theorem mem_react (W : Wire) (hook : RPCHook σ Endpoint) (env : PollEnv Endpoint) (m : Incoming)
    (id : ℕ) :
    id ∈ (hook.react W env m).1.sessions.connected ↔
      id ∈ hook.sessions.connected ∨
        ∃ metadata endpoint, m = .connect id (some metadata) ∧
          Connects hook env id metadata endpoint := by
  have h := reacts W hook env m
  generalize hook.react W env m = r at h
  cases h with
  | rejected h =>
    refine (or_iff_left ?_).symm
    rintro ⟨metadata, endpoint, rfl, hconnects⟩
    exact h.not_connects endpoint hconnects
  | @accepted sessionId metadata endpoint h =>
    refine (Sessions.mem_sendReply W _ _ _ _ id).trans ?_
    refine (AList.mem_insert _).trans ?_
    rw [or_comm]
    refine or_congr_right ?_
    constructor
    · rintro rfl
      exact ⟨metadata, endpoint, rfl, h⟩
    · rintro ⟨metadata', endpoint', hm, -⟩
      cases hm
      rfl
  | served h input =>
    refine ((Sessions.mem_sendReply W _ _ _ _ id).trans
      (mem_insert_of_mem (mem_of_lookup h) _ id)).trans (or_iff_left ?_).symm
    rintro ⟨metadata, endpoint, hm, -⟩
    cases hm
  | aborted =>
    refine (or_iff_left ?_).symm
    rintro ⟨metadata, endpoint, hm, -⟩
    cases hm
  | dropped header =>
    refine (or_iff_left ?_).symm
    rintro ⟨metadata, endpoint, hm, -⟩
    cases hm

end RPCHook

/-- The poll takes a connect message for which a session is created. -/
def TakesConnect (W : Wire) (hook : RPCHook σ Endpoint) (env : PollEnv Endpoint) : Prop :=
  ∃ transport msg sessionId metadata endpoint,
    hook.transport.poll env.recv = (transport, .ok (.ready msg)) ∧
      decode W msg = .connect sessionId (some metadata) ∧
      hook.Connects env sessionId metadata endpoint

/-- A failed poll keeps the connected sessions unless it had created one already; it failed
then because the reply or the receive buffer could not be posted. -/
theorem failed_poll_keeps_sessions_iff (W : Wire) (hook : RPCHook σ Endpoint)
    (env : PollEnv Endpoint) {e : HookError} (hfailed : (hook.poll W env).2 = .error (.err e)) :
    ((∀ id, id ∈ (hook.poll W env).1.sessions.connected ↔ id ∈ hook.sessions.connected) ↔
      ¬ TakesConnect W hook env) ∧
    (TakesConnect W hook env →
      e = .fatal ∨ ∃ err, env.postRecvError = some err ∧ e = .inner err) := by
  refine ⟨⟨?_, ?_⟩, ?_⟩
  · rintro hsame ⟨transport, msg, sessionId, metadata, endpoint, hready, hdecode, hconnects⟩
    apply hconnects.absent
    rw [← hsame sessionId, RPCHook.poll_of_ready hready, RPCHook.finish_sessions,
      RPCHook.mem_react, hdecode]
    exact Or.inr ⟨metadata, endpoint, rfl, hconnects.of_sessions_eq rfl⟩
  · intro hnot id
    cases hmsg : UDReceiver.handedOut (hook.transport.poll env.recv).2 with
    | none => rw [(RPCHook.poll_of_not_ready hmsg).1]
    | some msg =>
      obtain ⟨transport, hready⟩ := UDReceiver.ready_of_handedOut hmsg
      rw [RPCHook.poll_of_ready hready, RPCHook.finish_sessions, RPCHook.mem_react]
      refine or_iff_left ?_
      rintro ⟨metadata, endpoint, hdecode, hconnects⟩
      exact hnot ⟨transport, msg, id, metadata, endpoint, hready, hdecode,
        hconnects.of_sessions_eq rfl⟩
  · rintro ⟨transport, msg, sessionId, metadata, endpoint, hready, hdecode, hconnects⟩
    have hconnects' : RPCHook.Connects { hook with transport } env sessionId metadata endpoint :=
      hconnects.of_sessions_eq rfl
    rw [RPCHook.poll_of_ready hready, hdecode, RPCHook.react_of_connects hconnects'] at hfailed
    rcases RPCHook.finish_eq_err hfailed with hreply | ⟨-, hpost⟩
    · exact Or.inl (RPCHook.accept_eq_err hreply)
    · exact Or.inr hpost

theorem stray_request_keeps_sessions :
    ((hookWith [strayMsg]).poll .packed calmEnv).2 = .error (.err .notConnected) ∧
      ∀ id, id ∈ ((hookWith [strayMsg]).poll .packed calmEnv).1.sessions.connected ↔
        id ∈ (hookWith [strayMsg]).sessions.connected := by
  have hdecode : decode .packed strayMsg = .request ⟨7, 3⟩ [] := by decide +kernel
  have hfailed : ((hookWith [strayMsg]).poll .packed calmEnv).2 =
      .error (.err .notConnected) := by decide +kernel
  refine ⟨hfailed, ?_⟩
  apply (failed_poll_keeps_sessions_iff .packed (hookWith [strayMsg]) calmEnv hfailed).1.mpr
  rintro ⟨transport, msg, sessionId, metadata, endpoint, hready, hconnect, -⟩
  cases hready
  rw [hdecode] at hconnect
  cases hconnect

/-- The connect message of session `7`. -/
def connectMsg : UDMsg :=
  .plain (ConnectStubFactory.header ⟨7⟩ 40) (Wire.packed.hyper.encode default)

/-- The driver refuses the reply. -/
def refusingEnv : PollEnv ℕ := { calmEnv with send := ⟨some .timeoutError, []⟩ }

/-- A connect message answered by an error, and its repetition. -/
theorem failed_connect_stays_connected :
    ((hookWith [connectMsg, connectMsg]).poll .packed refusingEnv).2 = .error (.err .fatal) ∧
      7 ∉ (hookWith [connectMsg, connectMsg]).sessions.connected ∧
      7 ∈ ((hookWith [connectMsg, connectMsg]).poll .packed refusingEnv).1.sessions.connected ∧
      (((hookWith [connectMsg, connectMsg]).poll .packed refusingEnv).1.poll .packed calmEnv).2 =
        .error (.err .sessionCreationError) :=
  ⟨by decide +kernel, by decide +kernel, by decide +kernel, by decide +kernel⟩

end Mitosis.Datagram
