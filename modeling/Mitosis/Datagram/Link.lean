import Mitosis.Datagram.Hook

/-!
# The sessions of one datagram

Sessions made from one datagram share its queue pair and its send completion queue.
The machine below takes the calls on them in any order: a client connects sessions and
sends requests, a server accepts sessions and sends replies.  Sends end at any time,
also while a call waits.

A hook changes its sessions by these calls only (`exists_link_react`).
-/

namespace Mitosis.Datagram

open Mitosis.OsNetwork
open Mitosis.Support

variable {σ Endpoint : Type} {W : Wire}

/-- The connected sessions, and the sessions of `connect` calls that did not succeed: the
call still waits, or it has dropped the session. -/
structure Link (Endpoint : Type) where
  sessions : Sessions Endpoint
  connecting : List (UDSession Endpoint)

def Link.new : Link Endpoint := ⟨.new, []⟩

inductive LinkAction (Endpoint : Type) where
  | connect (id : ℕ) (stub : ConnectStubFactory) (endpoint : Endpoint) (metadata : UDHyperMeta)
      (fresh : Memory) (env : SendEnv)
  /-- the hook inserts a session -/
  | accept (id : ℕ) (endpoint : Endpoint) (fresh : Memory)
  | syncCall (id : ℕ) (call : CallStubFactory) (arg : List UInt8) (env : SendEnv)
  /-- a procedure writes its output, and the reply is sent -/
  | sendReply (id : ℕ) (output : List UInt8) (reply : ReplyStubFactory) (env : SendEnv)
  /-- sends end between two calls -/
  | complete (statuses : List WCStatus)

/-- The buffer of a session behind the output of a procedure. -/
def outputRegion (W : Wire) (output : List UInt8) (region : Memory) : Memory :=
  writeBytes region (RPCHook.outBuf W).ptr (output.take (RPCHook.outBuf W).len)

/-- Write the output of a procedure to the buffer of a session. -/
def Sessions.output (W : Wire) (s : Sessions Endpoint) (id : ℕ) (output : List UInt8) :
    Sessions Endpoint :=
  match s.connected.lookup id with
  | none => s
  | some (session, region) => s.put id (s.queue, session) (outputRegion W output region)

/-- The session of a `connect` call that did not succeed. -/
def unconnected : Port Endpoint × Memory × Except (Halted DatapathError) Unit →
    List (UDSession Endpoint)
  | (_, _, .ok ()) => []
  | (p, _, .error _) => [p.2]

/-- The calls on the sessions of one datagram, with what each of them returns. -/
def linkMachine (W : Wire) :
    Machine (Link Endpoint) (LinkAction Endpoint) (Except (Halted Unit) Unit) where
  step s
    | .connect id stub endpoint metadata fresh env =>
      let (sessions, ret) :=
        s.sessions.connect W id stub (.create endpoint) metadata fresh env
      (⟨sessions, unconnected
          (connectSend W id stub metadata fresh (s.sessions.queue, .create endpoint) env) ++
            s.connecting⟩,
        ret.mapError (Halted.map fun _ => ()))
    | .accept id endpoint fresh =>
      ({ s with sessions := s.sessions.put id (s.sessions.queue, .create endpoint) fresh },
        .ok ())
    | .syncCall id call arg env =>
      let (sessions, ret) := s.sessions.syncCall W id call arg env
      ({ s with sessions }, ret.mapError (Halted.map fun _ => ()))
    | .sendReply id output reply env =>
      let (sessions, ret) := (s.sessions.output W id output).sendReply W id reply env
      ({ s with sessions }, ret.mapError (Halted.map fun _ => ()))
    | .complete statuses =>
      ({ s with
          sessions :=
            { s.sessions with queue := s.sessions.queue.completeAll unreported statuses } },
        .ok ())

/-- A session is connected under an id only once. -/
def ConnectsOnce (s : Link Endpoint) : LinkAction Endpoint → Prop
  | .connect id .. => id ∉ s.sessions.connected
  | .accept id .. => id ∉ s.sessions.connected
  | _ => True

instance (s : Link Endpoint) : ∀ a, Decidable (ConnectsOnce s a)
  | .connect id .. => inferInstanceAs (Decidable (id ∉ s.sessions.connected))
  | .accept id .. => inferInstanceAs (Decidable (id ∉ s.sessions.connected))
  | .syncCall .. => isTrue trivial
  | .sendReply .. => isTrue trivial
  | .complete _ => isTrue trivial

/-! ## What the calls do -/

theorem Sessions.output_of_lookup {s : Sessions Endpoint} {id : ℕ} {session : UDSession Endpoint}
    {region : Memory} (h : s.connected.lookup id = some (session, region)) (output : List UInt8) :
    s.output W id output = s.put id (s.queue, session) (outputRegion W output region) := by
  rw [Sessions.output, h]

/-- What `send_reply` sends from the buffer of a session. -/
def replyBytes (W : Wire) (output : List UInt8) (reply : ReplyStubFactory) (region : Memory) :
    List UInt8 :=
  readBytes (replyRegion W reply (outputRegion W output region)) 0 (replySize W reply)

theorem step_sendReply_of_absent {s : Link Endpoint} {id : ℕ}
    (h : s.sessions.connected.lookup id = none) (output : List UInt8) (reply : ReplyStubFactory)
    (env : SendEnv) : ((linkMachine W).step s (.sendReply id output reply env)).1 = s := by
  dsimp only [linkMachine]
  rw [Sessions.output, h]
  dsimp only
  rw [Sessions.sendReply_of_absent h]

theorem step_sendReply {s : Link Endpoint} {id : ℕ} {session : UDSession Endpoint}
    {region : Memory} (h : s.sessions.connected.lookup id = some (session, region))
    (output : List UInt8) (reply : ReplyStubFactory) (env : SendEnv) :
    ∃ p, Sends 4 id (replyBytes W output reply region) (s.sessions.queue, session) p ∧
      ((linkMachine W).step s (.sendReply id output reply env)).1 =
        { s with
          sessions := s.sessions.put id p
            (replyRegion W reply (outputRegion W output region)) } := by
  obtain ⟨p, hsends, hput⟩ := Sessions.sendReply_sends (W := W)
    (Sessions.lookup_put s.sessions id (s.sessions.queue, session)
      (outputRegion W output region)) reply env
  refine ⟨p, hsends, ?_⟩
  dsimp only [linkMachine]
  rw [Sessions.output_of_lookup h, hput, Sessions.put_put]

/-- What `connect` returns for the outcomes of its wait. -/
def connectOutcome :
    Option (Except DatapathError WCStatus) → Except (Halted DatapathError) Unit
  | none => .error .waiting
  | some (.error _) => .error .panicked
  | some (.ok _) => .ok ()

theorem connectSend_cases (W : Wire) (id : ℕ) (stub : ConnectStubFactory)
    (metadata : UDHyperMeta) (fresh : Memory) (p : Port Endpoint) (env : SendEnv) :
    (∃ region h, h ≠ .waiting ∧
        connectSend W id stub metadata fresh p env = (p, region, .error h)) ∨
      ∃ region message p' r, Holds region 0 message ∧
        Awaited (posted id message true p) p' r ∧
        connectSend W id stub metadata fresh p env = (p', region, connectOutcome r) := by
  unfold connectSend
  generalize stub.generate W _ (UDMsg.create fresh).bytes fresh = generated
  obtain ⟨region, _ | reqSz⟩ := generated
  · exact Or.inl ⟨region, .panicked, by simp, rfl⟩
  dsimp only
  cases env.postError with
  | some err => exact Or.inl ⟨region, .err err, by simp, rfl⟩
  | none =>
    rw [post_of_none]
    dsimp only
    have hawaited := awaited_blockOn (posted id (readBytes region 0 reqSz) true p) env.polls
    generalize blockOn UDSession.poll _ env.polls = waited at hawaited
    obtain ⟨p', r⟩ := waited
    right
    refine ⟨region, readBytes region 0 reqSz, p', r, holds_readBytes _ _ _, hawaited, ?_⟩
    rcases r with _ | _ | _ <;> rfl

theorem step_connect (W : Wire) (s : Link Endpoint) (id : ℕ) (stub : ConnectStubFactory)
    (endpoint : Endpoint) (metadata : UDHyperMeta) (fresh : Memory) (env : SendEnv) :
    let step := (linkMachine W).step s (.connect id stub endpoint metadata fresh env)
    (∃ h, h ≠ .waiting ∧
        step = (⟨s.sessions, .create endpoint :: s.connecting⟩, .error h)) ∨
      ∃ region message p r, Holds region 0 message ∧
        Awaited (posted id message true (s.sessions.queue, .create endpoint)) p r ∧
        (step = ({ s with sessions := s.sessions.put id p region }, .ok ()) ∨
          p.2.pending = 1 ∧ ∃ h,
            step = (⟨{ s.sessions with queue := p.1 }, p.2 :: s.connecting⟩, .error h)) := by
  intro step
  have hstep : step = (linkMachine W).step s (.connect id stub endpoint metadata fresh env) := rfl
  dsimp only [linkMachine, Sessions.connect] at hstep
  rcases connectSend_cases W id stub metadata fresh (s.sessions.queue, .create endpoint) env with
    ⟨region, h, hne, hsend⟩ | ⟨region, message, p, r, hregion, hawaited, hsend⟩
  · left
    rw [hsend] at hstep
    refine ⟨h.map fun _ => (), ?_, hstep⟩
    cases h <;> simp_all [Halted.map]
  · right
    rw [hsend] at hstep
    refine ⟨region, message, p, r, hregion, hawaited, ?_⟩
    cases hawaited with
    | waiting => exact Or.inr ⟨rfl, _, hstep⟩
    | failed => exact Or.inr ⟨rfl, _, hstep⟩
    | taken => exact Or.inl hstep

/-! ## The sessions of a hook -/

theorem execute_memory (service : Service σ) (id : ℕ) (input : List UInt8) (region : Memory) :
    ∃ output, (service.execute id input (RPCHook.outBuf W) region).2.1 =
      outputRegion W output region := by
  unfold Service.execute
  cases service.callbacks.lookup id with
  | none => exact ⟨[], by simp [outputRegion]⟩
  | some func => exact ⟨_, rfl⟩

/-- A hook changes its sessions as calls on the link do. -/
theorem exists_link_react (W : Wire) (hook : RPCHook σ Endpoint) (env : PollEnv Endpoint)
    (m : Incoming) (connecting : List (UDSession Endpoint)) :
    ∃ calls, (linkMachine W).Always ConnectsOnce ⟨hook.sessions, connecting⟩ calls ∧
      (linkMachine W).run ⟨hook.sessions, connecting⟩ calls =
        ⟨(hook.react W env m).1.sessions, connecting⟩ := by
  have h := RPCHook.reacts W hook env m
  generalize hook.react W env m = r at h
  cases h with
  | rejected h => exact ⟨[], trivial, rfl⟩
  | aborted => exact ⟨[], trivial, rfl⟩
  | dropped header => exact ⟨[], trivial, rfl⟩
  | @accepted id metadata endpoint h =>
    refine ⟨[.accept id endpoint env.fresh, .sendReply id [] ⟨.ok, 0⟩ env.send],
      ⟨h.absent, trivial, trivial⟩, ?_⟩
    dsimp only [Machine.run_cons, Machine.run_nil, linkMachine]
    rw [Sessions.output_of_lookup (Sessions.lookup_put _ _ _ _), Sessions.put_put]
    simp only [outputRegion, List.take_nil, writeBytes_nil]
    rfl
  | @served stub session region h input =>
    obtain ⟨output, houtput⟩ :=
      execute_memory (W := W) hook.service stub.rpcId input region
    refine ⟨[.sendReply stub.sessionId output
      (RPCHook.answer (hook.service.execute stub.rpcId input (RPCHook.outBuf W) region).2.2)
        env.send], ⟨trivial, trivial⟩, ?_⟩
    dsimp only [Machine.run_cons, Machine.run_nil, linkMachine, RPCHook.serve]
    rw [Sessions.output_of_lookup h, houtput]

/-- So every run of a hook is a run of the link. -/
theorem exists_link_run (W : Wire) (hook : RPCHook σ Endpoint)
    (connecting : List (UDSession Endpoint)) (as : List (HookAction Endpoint)) :
    ∃ calls, (linkMachine W).Always ConnectsOnce ⟨hook.sessions, connecting⟩ calls ∧
      (linkMachine W).run ⟨hook.sessions, connecting⟩ calls =
        ⟨((hookMachine W).run hook as).sessions, connecting⟩ := by
  apply Machine.exists_run_of_step
    fun hook : RPCHook σ Endpoint => (⟨hook.sessions, connecting⟩ : Link Endpoint)
  intro hook a
  cases a with
  | postMsgBuf buf error => exact ⟨[], trivial, rfl⟩
  | poll env =>
    dsimp only [hookMachine]
    cases htaken : UDReceiver.handedOut (hook.transport.poll env.recv).2 with
    | none =>
      rw [(RPCHook.poll_of_not_ready htaken).1]
      exact ⟨[], trivial, rfl⟩
    | some msg =>
      obtain ⟨transport, hready⟩ := UDReceiver.ready_of_handedOut htaken
      rw [RPCHook.poll_of_ready hready, RPCHook.finish_sessions]
      exact exists_link_react W { hook with transport } env (decode W msg) connecting

end Mitosis.Datagram
