import Mitosis.Datagram.Failures
import Mitosis.Rpc.Caller

/-!
# Connecting the pool of callers to a machine

The pool has one caller for each core.  A probe connects them to a remote machine one by
one and stops at the first that fails; a caller that is connected to the machine already
counts as a failure.  The build checks arithmetic for overflow, so a session id that is no
machine word aborts the probe.
-/

namespace Mitosis.Datagram

open Mitosis.OsNetwork
open Mitosis.Rpc (calculateSessionId)
open Mitosis.Support

variable {Endpoint : Type} {W : Wire}

/-- The callers, and the hint and service id under which each of them is reached. -/
structure CallerPool (Endpoint : Type) where
  pool : List (Caller Endpoint)
  metas : List (UInt64 × UInt64)
  paired : metas.length = pool.length

/-- What `connect_session_at` meets: the metadata factory, the queries of the gid and the port
of the own end, the memory of a new session buffer, what happens to the connect message,
what is received, and whether the receive buffer can be posted again. -/
structure ConnectEnv (Endpoint : Type) where
  createMeta : UDHyperMeta → Option Endpoint
  queryGid : Option (UInt64 × UInt64)
  portNum : UInt8
  fresh : Memory
  send : SendEnv
  replies : List RecvEvent
  registerError : Option DatapathError

/-- How to reach a handler; the gid is what `string_to_gid` makes of its text. -/
structure HandlerConnectInfo where
  gid : Option (UInt64 × UInt64)
  serviceId : UInt64
  qdHint : UInt64
  localPort : UInt8

/-- The session part of `connect_session_at`, on the locked caller: connect, wait for the
answer, and register its buffer again.  All of it must succeed. -/
def Caller.openSession (W : Wire) (caller : Caller Endpoint) (sessionId mySessionId : ℕ)
    (endpoint : Endpoint) (metadata : UDHyperMeta) (env : ConnectEnv Endpoint) :
    Caller Endpoint × Except (Halted Unit) Unit :=
  match caller.sessions.connect W sessionId ⟨.ofNat mySessionId⟩ (.create endpoint) metadata
      env.fresh env.send with
  | (sessions, .error .waiting) => ({ caller with sessions }, .error .waiting)
  | (sessions, .error _) => ({ caller with sessions }, .error .panicked)
  | (sessions, .ok ()) =>
    match blockOn (Caller.poll W) { caller with sessions } env.replies with
    | (caller, none) => (caller, .error .waiting)
    | (caller, some (.error _)) => (caller, .error .panicked)
    | (caller, some (.ok (msg, _))) =>
      match caller.registerRecvBuf msg env.registerError with
      | (caller, .error _) => (caller, .error .panicked)
      | (caller, .ok ()) => (caller, .ok ())

namespace CallerPool

def len (pool : CallerPool Endpoint) : ℕ := pool.pool.length

def set (pool : CallerPool Endpoint) (idx : ℕ) (caller : Caller Endpoint) : CallerPool Endpoint where
  pool := pool.pool.set idx caller
  metas := pool.metas
  paired := by rw [List.length_set, pool.paired]

/-- `CallerPool::connect_session_at`; an error without a value is `None`. -/
def connectSessionAt (W : Wire) (pool : CallerPool Endpoint) (idx sessionId mySessionId : ℕ)
    (metadata : UDHyperMeta) (env : ConnectEnv Endpoint) :
    CallerPool Endpoint × Except (Halted Unit) Unit :=
  match env.createMeta metadata with
  | none => (pool, .error (.err ()))
  | some endpoint =>
    match env.queryGid, pool.metas[idx]? with
    | some myGid, some (hint, serviceId) =>
      match pool.pool[idx]? with
      | none => (pool, .error (.err ()))
      | some caller =>
        if sessionId ∈ caller.sessions.connected then (pool, .error (.err ()))
        else
          let (caller, ret) := caller.openSession W sessionId mySessionId endpoint
            ⟨myGid, serviceId, hint, env.portNum⟩ env
          (pool.set idx caller, ret)
    | _, _ => (pool, .error .panicked)

end CallerPool

/-- The arguments of a probe and the id of the own machine. -/
structure Probe where
  macId : ℕ
  remoteMachineId : ℕ
  connectInfo : HandlerConnectInfo

namespace Probe

/-- The session of the caller `i` of a pool to the machine. -/
def sessionId (probe : Probe) (len i : ℕ) : ℕ := calculateSessionId probe.remoteMachineId i len

def mySessionId (probe : Probe) (len i : ℕ) : ℕ := calculateSessionId probe.macId i len

/-- Neither of the two ids of the caller `i` overflows. -/
def IdsFit (probe : Probe) (len i : ℕ) : Prop :=
  probe.sessionId len i < 2 ^ 64 ∧ probe.mySessionId len i < 2 ^ 64
deriving Decidable

def metadata (probe : Probe) (gid : UInt64 × UInt64) : UDHyperMeta :=
  ⟨gid, probe.connectInfo.serviceId, probe.connectInfo.qdHint, probe.connectInfo.localPort⟩

/-- The loop of `probe_remote_rpc_end` over these callers. -/
def connectAll (W : Wire) (probe : Probe) (len : ℕ) (env : ℕ → ConnectEnv Endpoint) :
    CallerPool Endpoint → List ℕ → CallerPool Endpoint × Except (Halted Unit) Unit
  | pool, [] => (pool, .ok ())
  | pool, i :: is =>
    match Outcome.checked (probe.sessionId len i), Outcome.checked (probe.mySessionId len i) with
    | .ok sessionId, .ok mySessionId =>
      match probe.connectInfo.gid with
      | none => (pool, .error (.err ()))
      | some gid =>
        match pool.connectSessionAt W i sessionId mySessionId (probe.metadata gid)
            (env i) with
        | (pool, .error h) => (pool, .error h)
        | (pool, .ok ()) => connectAll W probe len env pool is
    | _, _ => (pool, .error .panicked)

end Probe

/-- `probe_remote_rpc_end`. -/
def probeRemoteRpcEnd (W : Wire) (probe : Probe) (env : ℕ → ConnectEnv Endpoint)
    (pool : CallerPool Endpoint) : CallerPool Endpoint × Except (Halted Unit) Unit :=
  probe.connectAll W pool.len env pool (List.range pool.len)

/-! ## Connecting one caller -/

namespace Caller

theorem poll_sessions (W : Wire) (caller : Caller Endpoint) (e : RecvEvent) :
    (caller.poll W e).1.sessions = caller.sessions := by
  unfold poll
  rcases caller.innerReceiver.poll e with ⟨receiver, err | (msg | _)⟩ <;> rfl

theorem blockOn_sessions (W : Wire) (caller : Caller Endpoint) (events : List RecvEvent) :
    (blockOn (Caller.poll W) caller events).1.sessions = caller.sessions := by
  have h : Waited (fun c => c.sessions = caller.sessions) (fun c _ => c.sessions = caller.sessions)
      (blockOn (Caller.poll W) caller events) := by
    refine waited_blockOn ?_ events rfl
    intro c e hc
    have hpoll := (poll_sessions W c e).trans hc
    generalize c.poll W e = r at hpoll
    rcases r with ⟨c', err | (msg | _)⟩ <;> exact hpoll
  exact h.state fun _ hc => hc

theorem mem_openSession {caller : Caller Endpoint} {sessionId mySessionId : ℕ}
    {endpoint : Endpoint} {metadata : UDHyperMeta} {env : ConnectEnv Endpoint}
    (h : (caller.openSession W sessionId mySessionId endpoint metadata env).2 = .ok ()) :
    sessionId ∈
      (caller.openSession W sessionId mySessionId endpoint metadata env).1.sessions.connected := by
  unfold openSession Sessions.connect at h ⊢
  generalize connectSend W sessionId _ metadata env.fresh _ env.send = sent at h ⊢
  obtain ⟨p, region, (err | _ | _) | _⟩ := sent
  · cases h
  · cases h
  · cases h
  dsimp only at h ⊢
  have hkept := blockOn_sessions W
    { caller with sessions := caller.sessions.put sessionId p region } env.replies
  generalize blockOn (Caller.poll W) _ env.replies = waited at h hkept ⊢
  obtain ⟨caller', _ | err | ⟨msg, reply⟩⟩ := waited
  · cases h
  · cases h
  dsimp only [registerRecvBuf] at h hkept ⊢
  cases herror : env.registerError with
  | some err =>
    rw [herror] at h
    cases h
  | none =>
    dsimp only [UDReceiver.postRecvBuf]
    rw [hkept]
    exact mem_of_lookup (Sessions.lookup_put _ _ _ _)

end Caller

namespace CallerPool

/-- The caller at this index is connected under this id. -/
def Connected (pool : CallerPool Endpoint) (idx sessionId : ℕ) : Prop :=
  ∃ caller, pool.pool[idx]? = some caller ∧ sessionId ∈ caller.sessions.connected

instance (pool : CallerPool Endpoint) (idx sessionId : ℕ) :
    Decidable (pool.Connected idx sessionId) :=
  inferInstanceAs (Decidable (∃ caller ∈ pool.pool[idx]?, sessionId ∈ caller.sessions.connected))

/-- Everything that a connection of this caller needs succeeds. -/
def Succeeds (W : Wire) (pool : CallerPool Endpoint) (idx sessionId mySessionId : ℕ)
    (metadata : UDHyperMeta) (env : ConnectEnv Endpoint) : Prop :=
  ∃ endpoint ∈ env.createMeta metadata, ∃ myGid ∈ env.queryGid, ∃ entry ∈ pool.metas[idx]?,
    ∃ caller ∈ pool.pool[idx]?, sessionId ∉ caller.sessions.connected →
      (caller.openSession W sessionId mySessionId endpoint
        ⟨myGid, entry.2, entry.1, env.portNum⟩ env).2 = .ok ()
deriving Decidable

/-- Two pools have the same caller at an index. -/
def SameAt (pool pool' : CallerPool Endpoint) (idx : ℕ) : Prop :=
  pool'.pool[idx]? = pool.pool[idx]? ∧ pool'.metas[idx]? = pool.metas[idx]?

theorem SameAt.connected {pool pool' : CallerPool Endpoint} {idx : ℕ} (h : SameAt pool pool' idx)
    (sessionId : ℕ) : pool'.Connected idx sessionId ↔ pool.Connected idx sessionId := by
  rw [Connected, Connected, h.1]

theorem SameAt.succeeds {pool pool' : CallerPool Endpoint} {idx : ℕ} (h : SameAt pool pool' idx)
    {sessionId mySessionId : ℕ} {metadata : UDHyperMeta} {env : ConnectEnv Endpoint}
    (hs : Succeeds W pool idx sessionId mySessionId metadata env) :
    Succeeds W pool' idx sessionId mySessionId metadata env := by
  rw [Succeeds, h.1, h.2]
  exact hs

/-- All that a call can do: it changes nothing and fails, or it opens a session on a caller that
was not connected. -/
theorem connectSessionAt_cases (W : Wire) (pool : CallerPool Endpoint)
    (idx sessionId mySessionId : ℕ) (metadata : UDHyperMeta) (env : ConnectEnv Endpoint) :
    (∃ h, pool.connectSessionAt W idx sessionId mySessionId metadata env = (pool, .error h)) ∨
      ∃ caller endpoint hyper, pool.pool[idx]? = some caller ∧
        sessionId ∉ caller.sessions.connected ∧
        let opened := caller.openSession W sessionId mySessionId endpoint hyper env
        pool.connectSessionAt W idx sessionId mySessionId metadata env =
          (pool.set idx opened.1, opened.2) := by
  unfold connectSessionAt
  cases env.createMeta metadata with
  | none => exact Or.inl ⟨_, rfl⟩
  | some endpoint =>
    dsimp only
    cases env.queryGid with
    | none => exact Or.inl ⟨_, rfl⟩
    | some myGid =>
      cases pool.metas[idx]? with
      | none => exact Or.inl ⟨_, rfl⟩
      | some entry =>
        obtain ⟨hint, serviceId⟩ := entry
        dsimp only
        cases hcaller : pool.pool[idx]? with
        | none => exact Or.inl ⟨_, rfl⟩
        | some caller =>
          by_cases hmem : sessionId ∈ caller.sessions.connected
          · exact Or.inl ⟨_, if_pos hmem⟩
          · exact Or.inr ⟨caller, endpoint, _, rfl, hmem, if_neg hmem⟩

theorem connectSessionAt_frame (W : Wire) (pool : CallerPool Endpoint)
    (idx sessionId mySessionId : ℕ) (metadata : UDHyperMeta) (env : ConnectEnv Endpoint) :
    let after := (pool.connectSessionAt W idx sessionId mySessionId metadata env).1
    after.len = pool.len ∧ ∀ j, j ≠ idx → SameAt pool after j := by
  dsimp only
  rcases connectSessionAt_cases W pool idx sessionId mySessionId metadata env with
    ⟨h, heq⟩ | ⟨caller, endpoint, hyper, -, -, heq⟩
  · rw [heq]
    exact ⟨rfl, fun j _ => ⟨rfl, rfl⟩⟩
  · rw [heq]
    exact ⟨List.length_set, fun j hj => ⟨List.getElem?_set_ne (Ne.symm hj), rfl⟩⟩

variable {pool : CallerPool Endpoint} {idx sessionId mySessionId : ℕ} {metadata : UDHyperMeta}
  {env : ConnectEnv Endpoint}

theorem connectSessionAt_ok
    (h : (pool.connectSessionAt W idx sessionId mySessionId metadata env).2 = .ok ()) :
    ¬ pool.Connected idx sessionId ∧
      (pool.connectSessionAt W idx sessionId mySessionId metadata env).1.Connected
        idx sessionId := by
  rcases connectSessionAt_cases W pool idx sessionId mySessionId metadata env with
    ⟨_, heq⟩ | ⟨caller, endpoint, hyper, hcaller, habsent, heq⟩
  · rw [heq] at h
    cases h
  · rw [heq] at h ⊢
    refine ⟨?_, _, ?_, Caller.mem_openSession h⟩
    · rintro ⟨caller', hcaller', hmem⟩
      cases hcaller.symm.trans hcaller'
      exact habsent hmem
    · exact List.getElem?_set_self (List.getElem?_eq_some_iff.mp hcaller).1

theorem connectSessionAt_of_succeeds (hs : Succeeds W pool idx sessionId mySessionId metadata env)
    (h : ¬ pool.Connected idx sessionId) :
    (pool.connectSessionAt W idx sessionId mySessionId metadata env).2 = .ok () := by
  obtain ⟨endpoint, hmeta, myGid, hgid, entry, hmetas, caller, hcaller, hopen⟩ := hs
  have habsent : sessionId ∉ caller.sessions.connected := fun hmem => h ⟨caller, hcaller, hmem⟩
  rw [connectSessionAt, Option.mem_def.mp hmeta, Option.mem_def.mp hgid, Option.mem_def.mp hmetas,
    Option.mem_def.mp hcaller]
  dsimp only
  rw [if_neg habsent]
  exact hopen habsent

theorem connectSessionAt_of_connected (hs : Succeeds W pool idx sessionId mySessionId metadata env)
    (h : pool.Connected idx sessionId) :
    pool.connectSessionAt W idx sessionId mySessionId metadata env =
      (pool, .error (.err ())) := by
  obtain ⟨endpoint, hmeta, myGid, hgid, entry, hmetas, caller, hcaller, -⟩ := hs
  obtain ⟨caller', hcaller', hmem⟩ := h
  cases (Option.mem_def.mp hcaller).symm.trans hcaller'
  rw [connectSessionAt, Option.mem_def.mp hmeta, Option.mem_def.mp hgid, Option.mem_def.mp hmetas,
    hcaller']
  dsimp only
  rw [if_pos hmem]

end CallerPool

/-! ## The loop -/

namespace Probe

open CallerPool

/-- The caller is connected to the machine. -/
def Reached (probe : Probe) (len : ℕ) (pool : CallerPool Endpoint) (i : ℕ) : Prop :=
  pool.Connected i (probe.sessionId len i)
deriving Decidable

/-- Metadata creation and connect succeed for the caller, if it has ids. -/
def Smooth (W : Wire) (probe : Probe) (len : ℕ) (env : ℕ → ConnectEnv Endpoint)
    (pool : CallerPool Endpoint) (i : ℕ) : Prop :=
  ∃ gid ∈ probe.connectInfo.gid, probe.IdsFit len i →
    Succeeds W pool i (probe.sessionId len i) (probe.mySessionId len i) (probe.metadata gid) (env i)
deriving Decidable

variable {probe : Probe} {len : ℕ} {env : ℕ → ConnectEnv Endpoint}

variable {i : ℕ} {pool : CallerPool Endpoint} {is : List ℕ}

theorem connectAll_of_not_fit (h : ¬ probe.IdsFit len i) (W : Wire)
    (env : ℕ → ConnectEnv Endpoint) (pool : CallerPool Endpoint) (is : List ℕ) :
    probe.connectAll W len env pool (i :: is) = (pool, .error .panicked) := by
  rw [connectAll]
  by_cases hremote : probe.sessionId len i < 2 ^ 64
  · have hmine : 2 ^ 64 ≤ probe.mySessionId len i := Nat.not_lt.mp fun hlt => h ⟨hremote, hlt⟩
    rw [Outcome.checked_of_lt hremote, Outcome.checked_of_le hmine]
  · rw [Outcome.checked_of_le (Nat.not_lt.mp hremote)]

theorem connectAll_of_fit (h : probe.IdsFit len i) {gid : UInt64 × UInt64}
    (hgid : probe.connectInfo.gid = some gid) (W : Wire) (env : ℕ → ConnectEnv Endpoint)
    (pool : CallerPool Endpoint) (is : List ℕ) :
    probe.connectAll W len env pool (i :: is) =
      match pool.connectSessionAt W i (probe.sessionId len i) (probe.mySessionId len i)
          (probe.metadata gid) (env i) with
      | (next, .error h) => (next, .error h)
      | (next, .ok ()) => probe.connectAll W len env next is := by
  rw [connectAll, Outcome.checked_of_lt h.1, Outcome.checked_of_lt h.2, hgid]

theorem connectAll_of_no_gid (h : probe.IdsFit len i)
    (hgid : probe.connectInfo.gid = none) (W : Wire) (env : ℕ → ConnectEnv Endpoint)
    (pool : CallerPool Endpoint) (is : List ℕ) :
    probe.connectAll W len env pool (i :: is) = (pool, .error (.err ())) := by
  rw [connectAll, Outcome.checked_of_lt h.1, Outcome.checked_of_lt h.2, hgid]

theorem connectAll_cons (W : Wire) (probe : Probe) (len : ℕ) (env : ℕ → ConnectEnv Endpoint)
    (pool : CallerPool Endpoint) (i : ℕ) (is : List ℕ) :
    (∃ h after, probe.connectAll W len env pool (i :: is) = (after, .error h) ∧
        after.len = pool.len ∧ ∀ j, j ≠ i → SameAt pool after j) ∨
      ∃ next, probe.connectAll W len env pool (i :: is) = probe.connectAll W len env next is ∧
        next.len = pool.len ∧ (∀ j, j ≠ i → SameAt pool next j) ∧
        probe.IdsFit len i ∧ ¬ probe.Reached len pool i ∧ probe.Reached len next i := by
  by_cases hfit : probe.IdsFit len i
  swap
  · rw [connectAll_of_not_fit hfit]
    exact Or.inl ⟨_, _, rfl, rfl, fun j _ => ⟨rfl, rfl⟩⟩
  cases hgid : probe.connectInfo.gid with
  | none =>
    rw [connectAll_of_no_gid hfit hgid]
    exact Or.inl ⟨_, _, rfl, rfl, fun j _ => ⟨rfl, rfl⟩⟩
  | some gid =>
    rw [connectAll_of_fit hfit hgid]
    have hframe := connectSessionAt_frame W pool i (probe.sessionId len i)
      (probe.mySessionId len i) (probe.metadata gid) (env i)
    have hok : (pool.connectSessionAt W i (probe.sessionId len i) (probe.mySessionId len i)
        (probe.metadata gid) (env i)).2 = .ok () → _ := connectSessionAt_ok
    generalize pool.connectSessionAt W i _ _ _ (env i) = r at hframe hok ⊢
    obtain ⟨next, h | _⟩ := r
    · exact Or.inl ⟨h, next, rfl, hframe⟩
    · exact Or.inr ⟨next, rfl, hframe.1, hframe.2, hfit, hok rfl⟩

theorem connectAll_frame (W : Wire) (probe : Probe) (len : ℕ) (env : ℕ → ConnectEnv Endpoint)
    (pool : CallerPool Endpoint) (is : List ℕ) :
    (probe.connectAll W len env pool is).1.len = pool.len ∧
      ∀ j, j ∉ is → SameAt pool (probe.connectAll W len env pool is).1 j := by
  induction is generalizing pool with
  | nil => exact ⟨rfl, fun j _ => ⟨rfl, rfl⟩⟩
  | cons i is ih =>
    rcases connectAll_cons W probe len env pool i is with
      ⟨h, after, heq, hlen, hsame⟩ | ⟨next, heq, hlen, hsame, -, -, -⟩
    · rw [heq]
      exact ⟨hlen, fun j hj => hsame j (List.ne_of_not_mem_cons hj)⟩
    · rw [heq]
      refine ⟨(ih next).1.trans hlen, fun j hj => ?_⟩
      have hfirst := hsame j (List.ne_of_not_mem_cons hj)
      have hrest := (ih next).2 j (List.not_mem_of_not_mem_cons hj)
      exact ⟨hrest.1.trans hfirst.1, hrest.2.trans hfirst.2⟩

/-- A loop that succeeds meets no connected caller and no overflow, and connects all. -/
theorem connectAll_ok (hnodup : is.Nodup)
    (h : (probe.connectAll W len env pool is).2 = .ok ()) :
    ∀ i ∈ is, probe.IdsFit len i ∧ ¬ probe.Reached len pool i ∧
      probe.Reached len (probe.connectAll W len env pool is).1 i := by
  induction is generalizing pool with
  | nil => simp
  | cons first is ih =>
    obtain ⟨hfirst, hnodup⟩ := List.nodup_cons.mp hnodup
    rcases connectAll_cons W probe len env pool first is with
      ⟨_, _, heq, -, -⟩ | ⟨next, heq, -, hsame, hfit, hnot, hreached⟩
    · rw [heq] at h
      cases h
    · rw [heq] at h ⊢
      intro i hi
      rcases List.mem_cons.mp hi with rfl | hi
      · have hkept := (connectAll_frame W probe len env next is).2 i hfirst
        exact ⟨hfit, hnot, (hkept.connected _).mpr hreached⟩
      · have hne : i ≠ first := fun heq => hfirst (heq ▸ hi)
        obtain ⟨hfit, hnot, hreached⟩ := ih hnodup h i hi
        exact ⟨hfit, fun hbefore => hnot (((hsame i hne).connected _).mpr hbefore), hreached⟩

theorem connectAll_of_smooth (hnodup : is.Nodup)
    (hsmooth : ∀ i ∈ is, probe.Smooth W len env pool i) (hfit : ∀ i ∈ is, probe.IdsFit len i)
    (hnot : ∀ i ∈ is, ¬ probe.Reached len pool i) :
    (probe.connectAll W len env pool is).2 = .ok () := by
  induction is generalizing pool with
  | nil => rfl
  | cons first is ih =>
    obtain ⟨hfirst, hnodup⟩ := List.nodup_cons.mp hnodup
    obtain ⟨gid, hgid, hs⟩ := hsmooth first List.mem_cons_self
    have hfirstFit := hfit first List.mem_cons_self
    have hok := connectSessionAt_of_succeeds (hs hfirstFit) (hnot first List.mem_cons_self)
    have hframe := connectSessionAt_frame W pool first (probe.sessionId len first)
      (probe.mySessionId len first) (probe.metadata gid) (env first)
    rw [connectAll_of_fit hfirstFit (Option.mem_def.mp hgid)]
    generalize pool.connectSessionAt W first _ _ _ (env first) = r at hok hframe ⊢
    obtain ⟨next, ret⟩ := r
    cases hok
    apply ih hnodup
    · intro i hi
      obtain ⟨gid', hgid', hs'⟩ := hsmooth i (List.mem_cons_of_mem _ hi)
      have hsame := hframe.2 i fun heq => hfirst (heq ▸ hi)
      exact ⟨gid', hgid', fun hfit => hsame.succeeds (hs' hfit)⟩
    · exact fun i hi => hfit i (List.mem_cons_of_mem _ hi)
    · intro i hi hreached
      have hsame := hframe.2 i fun heq => hfirst (heq ▸ hi)
      exact hnot i (List.mem_cons_of_mem _ hi) ((hsame.connected _).mp hreached)

theorem connectAll_append (W : Wire) (probe : Probe) (len : ℕ) (env : ℕ → ConnectEnv Endpoint)
    (h : (probe.connectAll W len env pool is).2 = .ok ()) (js : List ℕ) :
    probe.connectAll W len env pool (is ++ js) =
      probe.connectAll W len env (probe.connectAll W len env pool is).1 js := by
  induction is generalizing pool with
  | nil => rfl
  | cons i is ih =>
    rw [List.cons_append]
    by_cases hfit : probe.IdsFit len i
    swap
    · rw [connectAll_of_not_fit hfit] at h
      cases h
    cases hgid : probe.connectInfo.gid with
    | none =>
      rw [connectAll_of_no_gid hfit hgid] at h
      cases h
    | some gid =>
      rw [connectAll_of_fit hfit hgid] at h ⊢
      rw [connectAll_of_fit hfit hgid]
      generalize pool.connectSessionAt W i _ _ _ (env i) = r at h ⊢
      obtain ⟨next, h' | _⟩ := r
      · cases h
      · exact ih h

end Probe

/-! ## A probe after a failed one -/

/-- The probe connects the callers before this one, and fails because it cannot create the
metadata for this one. -/
structure FailsAt (W : Wire) (probe : Probe) (env : ℕ → ConnectEnv Endpoint)
    (pool : CallerPool Endpoint) (i : ℕ) : Prop where
  lt : i < pool.len
  fit : probe.IdsFit pool.len i
  before : (probe.connectAll W pool.len env pool (List.range i)).2 = .ok ()
  noMetadata : ∃ gid, probe.connectInfo.gid = some gid ∧
    (env i).createMeta (probe.metadata gid) = none

variable {pool : CallerPool Endpoint} {probe : Probe} {env : ℕ → ConnectEnv Endpoint}

theorem range_split {i n : ℕ} (h : i < n) :
    ∃ rest, List.range n = List.range i ++ i :: rest := by
  obtain ⟨k, rfl⟩ := Nat.exists_eq_add_of_lt h
  refine ⟨(List.range k).map (i + 1 + ·), ?_⟩
  rw [Nat.add_assoc, List.range_add, Nat.add_comm k 1, List.range_add]
  simp [Function.comp_def, Nat.add_assoc]

theorem FailsAt.probe_eq {i : ℕ} (h : FailsAt W probe env pool i) :
    probeRemoteRpcEnd W probe env pool =
      ((probe.connectAll W pool.len env pool (List.range i)).1, .error (.err ())) := by
  obtain ⟨rest, hrest⟩ := range_split h.lt
  obtain ⟨gid, hgid, hmeta⟩ := h.noMetadata
  rw [probeRemoteRpcEnd, hrest, Probe.connectAll_append W probe pool.len env h.before,
    Probe.connectAll_of_fit h.fit hgid, CallerPool.connectSessionAt, hmeta]

theorem FailsAt.reached {i : ℕ} (h : FailsAt W probe env pool i) {j : ℕ} (hj : j < i) :
    probe.IdsFit pool.len j ∧
      probe.Reached pool.len (probeRemoteRpcEnd W probe env pool).1 j := by
  obtain ⟨hfit, -, hreached⟩ :=
    Probe.connectAll_ok List.nodup_range h.before j (List.mem_range.mpr hj)
  rw [h.probe_eq]
  exact ⟨hfit, hreached⟩

theorem FailsAt.probe_eq_pool (h : FailsAt W probe env pool 0) :
    (probeRemoteRpcEnd W probe env pool).1 = pool := by
  rw [h.probe_eq]
  rfl

theorem len_probe (W : Wire) (probe : Probe) (env : ℕ → ConnectEnv Endpoint)
    (pool : CallerPool Endpoint) : (probeRemoteRpcEnd W probe env pool).1.len = pool.len :=
  (Probe.connectAll_frame W probe pool.len env pool _).1

/-- A probe in which everything succeeds connects the pool exactly if no id overflows and no
caller is connected. -/
theorem probe_ok_iff (hsmooth : ∀ j < pool.len, probe.Smooth W pool.len env pool j) :
    ((probeRemoteRpcEnd W probe env pool).2 = .ok () ∧
        ∀ j < pool.len, probe.Reached pool.len (probeRemoteRpcEnd W probe env pool).1 j) ↔
      ∀ j < pool.len, probe.IdsFit pool.len j ∧ ¬ probe.Reached pool.len pool j := by
  have hall : (probeRemoteRpcEnd W probe env pool).2 = .ok () → _ :=
    Probe.connectAll_ok List.nodup_range
  constructor
  · rintro ⟨hok, -⟩ j hj
    obtain ⟨hfit, hnot, -⟩ := hall hok j (List.mem_range.mpr hj)
    exact ⟨hfit, hnot⟩
  · intro hnew
    have hok := Probe.connectAll_of_smooth List.nodup_range
      (fun j hj => hsmooth j (List.mem_range.mp hj))
      (fun j hj => (hnew j (List.mem_range.mp hj)).1)
      (fun j hj => (hnew j (List.mem_range.mp hj)).2)
    exact ⟨hok, fun j hj => (hall hok j (List.mem_range.mpr hj)).2.2⟩

theorem probe_of_first_reached (hpos : 0 < pool.len) (hfit : probe.IdsFit pool.len 0)
    (hsmooth : probe.Smooth W pool.len env pool 0) (hreached : probe.Reached pool.len pool 0) :
    probeRemoteRpcEnd W probe env pool = (pool, .error (.err ())) := by
  obtain ⟨rest, hrest⟩ := range_split hpos
  obtain ⟨gid, hgid, hs⟩ := hsmooth
  rw [probeRemoteRpcEnd, hrest, List.range_zero, List.nil_append,
    Probe.connectAll_of_fit hfit (Option.mem_def.mp hgid),
    CallerPool.connectSessionAt_of_connected (hs hfit) hreached]

/-- After a probe that could not create the metadata for a caller, a probe in which everything
succeeds connects the whole pool exactly if it was the first caller, none was connected
before, and no session id overflows.  With a later caller the callers that the failed probe connected make it
fail again, and it changes nothing. -/
theorem probe_recovers_iff (W : Wire) (probe : Probe) (pool : CallerPool Endpoint)
    (env env' : ℕ → ConnectEnv Endpoint) (i : ℕ) (hfails : FailsAt W probe env pool i) :
    let first := probeRemoteRpcEnd W probe env pool
    let second := probeRemoteRpcEnd W probe env' first.1
    first.2 = .error (.err ()) ∧
      ((∀ j < pool.len, probe.Smooth W pool.len env' first.1 j) →
        (second.2 = .ok () ∧ (∀ j < pool.len, probe.Reached pool.len second.1 j) ↔
          i = 0 ∧ ∀ j < pool.len, probe.IdsFit pool.len j ∧ ¬ probe.Reached pool.len pool j) ∧
        (0 < i → second = (first.1, .error (.err ())))) := by
  intro first second
  have hpos : 0 < pool.len := Nat.zero_lt_of_lt hfails.lt
  have hlen : first.1.len = pool.len := len_probe W probe env pool
  refine ⟨congrArg Prod.snd hfails.probe_eq, fun hsmooth => ⟨?_, ?_⟩⟩
  · have hiff := probe_ok_iff (hlen.symm ▸ hsmooth)
    rw [hlen] at hiff
    rw [hiff]
    constructor
    · intro hnew
      obtain rfl : i = 0 := by
        by_contra hne
        exact (hnew 0 hpos).2 (hfails.reached (Nat.pos_of_ne_zero hne)).2
      rw [hfails.probe_eq_pool] at hnew
      exact ⟨rfl, hnew⟩
    · rintro ⟨rfl, hnew⟩
      rw [hfails.probe_eq_pool]
      exact hnew
  · intro hi
    obtain ⟨hfit, hreached⟩ := hfails.reached hi
    apply probe_of_first_reached
    · rwa [hlen]
    · rwa [hlen]
    · rw [hlen]
      exact hsmooth 0 hpos
    · rwa [hlen]

/-- A connection in which nothing fails. -/
def connectedEnv : ConnectEnv ℕ where
  createMeta _ := some 0
  queryGid := some (0, 0)
  portNum := 1
  fresh _ := 0
  send := ⟨none, [⟨[.success], none⟩]⟩
  replies := [⟨[], none⟩]
  registerError := none

/-- The metadata cannot be created for this caller. -/
def noMetadataAt (idx : ℕ) : ℕ → ConnectEnv ℕ := fun i =>
  if i = idx then { connectedEnv with createMeta := fun _ => none } else connectedEnv

/-- Two callers without sessions, to each of which a good reply arrives. -/
def twoCallers : CallerPool ℕ :=
  ⟨[callerWith [goodReplyMsg], callerWith [goodReplyMsg]], [(10, 0), (11, 0)], rfl⟩

/-- Machine 0 probes machine 1. -/
def probeMachine : Probe := ⟨0, 1, ⟨some (0, 0), 0, 0, 1⟩⟩

theorem first_caller_recovers :
    let first := probeRemoteRpcEnd .packed probeMachine (noMetadataAt 0) twoCallers
    let second := probeRemoteRpcEnd .packed probeMachine (fun _ => connectedEnv) first.1
    second.2 = .ok () ∧ ∀ j < 2, probeMachine.Reached 2 second.1 j :=
  ((probe_recovers_iff .packed probeMachine twoCallers (noMetadataAt 0) (fun _ => connectedEnv) 0
    ⟨by decide, by decide, rfl, (0, 0), rfl, rfl⟩).2 (by decide +kernel)).1.mpr ⟨rfl, by decide +kernel⟩

/-- The metadata of the second caller cannot be created once.  From then on the first caller
makes every probe fail, and the second is never connected. -/
theorem second_caller_stays_unconnected :
    let first := probeRemoteRpcEnd .packed probeMachine (noMetadataAt 1) twoCallers
    let second := probeRemoteRpcEnd .packed probeMachine (fun _ => connectedEnv) first.1
    first.2 = .error (.err ()) ∧
      (∀ j < 2, probeMachine.Smooth .packed 2 (fun _ => connectedEnv) first.1 j) ∧
      second.2 = .error (.err ()) ∧ ¬ probeMachine.Reached 2 second.1 1 :=
  ⟨by decide +kernel, by decide +kernel, by decide +kernel, by decide +kernel⟩

end Mitosis.Datagram
