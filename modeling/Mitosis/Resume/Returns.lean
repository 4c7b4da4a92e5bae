import Mitosis.Datagram.Calls
import Mitosis.Descriptors.Decoders
import Mitosis.Resume.DescriptorFetch
import Mitosis.Resume.Regions
import Mitosis.Rpc.Caller

/-!
# Whether a resume returns

The system call with everything it goes through: the request and its reply on the
session of the core, the READ of the descriptor, the decoder, and `apply_to`, which
replaces the memory areas and the registers of the process.  What fails before
`apply_to` with an error is answered with `-1`; the other failures abort the thread
or leave it waiting.

What the network, the other machine and the kernel do is an input of the call.
-/

namespace Mitosis.Resume

open Support Descriptors OsNetwork Prefetcher RemoteMapping PageFault
open Support.Codec (u64)
open Datagram (Caller CallStubFactory Returned RecvEvent SendEnv Wire)
open RemotePaging (AccessInfo timeoutUsec)
open Rpc (calculateSessionId)

variable {Endpoint : Type}

structure Process where
  areas : List Region
  regs : RegDescriptor
  resumeRelated : Option ResumeData

/-- The core that the call runs on and what it uses there.  Without the pool of RC
connections no RC connection can be found. -/
structure ResumeHost (Endpoint : Type) where
  macId : ℕ
  cpuId : ℕ
  maxCallerNum : ℕ
  callers : List (Caller Endpoint)
  dcPool : List QueuePair
  rcPool : Option (AList fun _ : ℕ => QueuePair)
  asyncPool : DCPool
  ptCache : RemotePageTableCache

/-- A reply with the key for RC connections. -/
abbrev LookupReply := DescriptorLookupReply × UInt32

/-- How the bytes of a reply are read. -/
structure ReplyImage where
  size : ℕ
  decode : List UInt8 → LookupReply

/-- What happens outside during the call: to the request and the reply, where the buffer of
the descriptor is allocated, if it is, to its READ, to the three calls of `AccessInfo::new`,
and where the kernel maps a region. -/
structure CallEnv where
  send : SendEnv
  replies : List (RecvEvent × ℤ)
  registerError : Option DatapathError
  endpoint : Option ℕ
  buffer : Option ℕ
  localMemory : Memory
  remoteMemory : Memory
  readError : Option DatapathError
  reads : List (CqEvent × ℤ)
  prefetchInfo : Option AccessInfo
  accessInfo : Option AccessInfo
  applyInfo : Option AccessInfo
  mmap : List Region → Region → UInt64

/-- `RPCId::Query`. -/
def queryId : UInt64 := 3

/-- How long the call waits for the reply and for the READ. -/
def resumeTimeout : ℤ := 10 * timeoutUsec

namespace Process

/-- `ChildDescriptor::apply_to`: all areas are unmapped first. -/
def applyTo (p : Process) (des : ChildDescriptor) (env : CallEnv) : Outcome Process := do
  let _ ← Outcome.unwrap env.applyInfo
  let areas ← (mapRegions env.mmap des.vma []).outcome
  .ok { p with areas := areas, regs := des.regs }

end Process

namespace ResumeHost

variable (f : Features) (L : Layout) (W : Wire) (R : ReplyImage)

def remoteSessionId (host : ResumeHost Endpoint) (machineId : ℕ) : ℕ :=
  calculateSessionId machineId host.cpuId host.maxCallerNum

def mySessionId (host : ResumeHost Endpoint) : ℕ :=
  calculateSessionId host.macId host.cpuId host.maxCallerNum

/-! ## The reply -/

def queryCall (host : ResumeHost Endpoint) : CallStubFactory :=
  ⟨.ofNat host.mySessionId, queryId⟩

/-- A `usize`. -/
def queryArg (handlerId : ℕ) : List UInt8 := u64.encode (.ofNat handlerId)

/-- The polls of the receiver; the timer runs out at last. -/
def replyEvents (env : CallEnv) : List (RecvEvent × ℤ) :=
  env.replies ++ [(⟨[], none⟩, resumeTimeout)]

/-- `DescriptorLookupReply::deserialize`. -/
def decodeReply (bytes : List UInt8) : Option LookupReply :=
  if R.size ≤ bytes.length then some (R.decode (bytes.take R.size)) else none

/-- Send the request and wait for its reply.  There is none if the request could not
be posted, if the wait ends with an error, and if the reply is too short. -/
def query (host : ResumeHost Endpoint) (caller : Caller Endpoint) (machineId handlerId : ℕ)
    (env : CallEnv) : Caller Endpoint × Except Halt (Option LookupReply) :=
  match caller.sessions.syncCall W (host.remoteSessionId machineId) host.queryCall
      (queryArg handlerId) env.send with
  | (sessions, .error (.err _)) => ({ caller with sessions }, .ok none)
  | (sessions, .error .panicked) => ({ caller with sessions }, .error .panicked)
  | (sessions, .error .waiting) => ({ caller with sessions }, .error .unfinished)
  | (sessions, .ok ()) =>
    match ({ caller with sessions } : Caller Endpoint).awaitReply W resumeTimeout
        (replyEvents env) env.registerError with
    | (caller, .error (.err _)) => (caller, .ok none)
    | (caller, .error .panicked) => (caller, .error .panicked)
    | (caller, .error .waiting) => (caller, .error .unfinished)
    | (caller, .ok bytes) => (caller, .ok (decodeReply R bytes))

/-! ## The descriptor -/

/-- The queue pair of the READ: the DC queue pair of the core, or the RC connection of
the session. -/
def readQp (host : ResumeHost Endpoint) (machineId : ℕ) : Option QueuePair :=
  if f.useRc then host.rcPool.bind (·.lookup (host.remoteSessionId machineId))
  else host.dcPool[host.cpuId]?

def setReadQp (host : ResumeHost Endpoint) (machineId : ℕ) (qp : QueuePair) :
    ResumeHost Endpoint :=
  if f.useRc then
    { host with rcPool := host.rcPool.map (·.insert (host.remoteSessionId machineId) qp) }
  else { host with dcPool := host.dcPool.set host.cpuId qp }

/-- The endpoint of a DC request is created first; an RC connection has its own. -/
def readEndpoint (env : CallEnv) : Option (Option ℕ) :=
  if f.useRc then some none else env.endpoint.map some

/-- The polls of the READ; the timer runs out at last. -/
def readEvents (env : CallEnv) : List (CqEvent × ℤ) :=
  env.reads ++ [(⟨[], none⟩, resumeTimeout)]

/-- The wait for the READ on a queue pair it was posted on. -/
def waitRead (qp : QueuePair) (endpoint : Option ℕ) (ptr : ℕ) (d : LookupReply)
    (env : CallEnv) : QueuePair × Option (Except (TimeoutError Rdma.Err) WorkCompletion) :=
  let rkey := if f.useRc then d.2.toNat else d.1.rkey.toNat
  blockOn (Timeout.poll RemoteDevice.poll resumeTimeout)
    (Conn.post qp endpoint d.1.pa rkey ptr d.1.sz) (readEvents env)

/-- Both versions of `remote_descriptor_fetch`.  A timer that runs out is not
implemented. -/
def descriptorFetch (host : ResumeHost Endpoint) (machineId : ℕ) (d : LookupReply)
    (env : CallEnv) : ResumeHost Endpoint × Outcome (BytesMut × Memory) :=
  match host.readQp f machineId, env.buffer, readEndpoint f env with
  | some qp, some ptr, some endpoint =>
    if env.readError.isSome then (host, .error .absent)
    else
      match waitRead f qp endpoint ptr d env with
      | (qp, some (.ok _)) =>
        (host.setReadQp f machineId qp, remoteDescriptorFetch env.remoteMemory d.1
          ⟨some ptr, env.localMemory, none⟩)
      | (qp, some (.error (.inner _))) => (host.setReadQp f machineId qp, .error .absent)
      | (qp, _) => (host.setReadQp f machineId qp, .error .panicked)
  | _, _, _ => (host, .error .panicked)

/-- The call behind the reply. -/
def adopt (host : ResumeHost Endpoint) (p : Process) (machineId handlerId : ℕ)
    (d : LookupReply) (env : CallEnv) : Except Halt (ResumeHost Endpoint × Process × ℤ) :=
  if d.1.ready then
    match host.descriptorFetch f machineId d env with
    | (host, .error .absent) => .ok (host, p, -1)
    | (_, .error .panicked) => .error .panicked
    | (host, .ok (bytes, m)) =>
      match deserialize f L host.asyncPool bytes m env.prefetchInfo with
      | (asyncPool, .error .absent) => .ok ({ host with asyncPool }, p, -1)
      | (_, .error .panicked) => .error .panicked
      | (asyncPool, .ok (heap, des, prefetcher)) =>
        match env.accessInfo with
        | none => .ok ({ host with asyncPool }, p, -1)
        | some info =>
          match p.applyTo des env with
          | .error _ => .error .panicked
          | .ok p =>
            let table := startTable f host.ptCache machineId handlerId
              (heap, des.pageTable)
            let data : ResumeData := ⟨handlerId, machineId,
              startChild table des info prefetcher, prefetcher.map Prod.fst⟩
            .ok ({ host with asyncPool }, { p with resumeRelated := some data }, 0)
  else .ok (host, p, -1)

def setCaller (host : ResumeHost Endpoint) (caller : Caller Endpoint) : ResumeHost Endpoint :=
  { host with callers := host.callers.set host.cpuId caller }

/-- The call with the caller of the core. -/
def resumeOn (host : ResumeHost Endpoint) (caller : Caller Endpoint) (p : Process)
    (machineId handlerId : ℕ) (env : CallEnv) :
    Except Halt (ResumeHost Endpoint × Process × ℤ) :=
  match host.query W R caller machineId handlerId env with
  | (_, .error halt) => .error halt
  | (caller, .ok none) => .ok (host.setCaller caller, p, -1)
  | (caller, .ok (some d)) => (host.setCaller caller).adopt f L p machineId handlerId d env

/-- `syscall_resume_w_rpc`.  The build checks both session ids for overflow. -/
def resumeWRpc (host : ResumeHost Endpoint) (p : Process) (machineId handlerId : ℕ)
    (env : CallEnv) : Except Halt (ResumeHost Endpoint × Process × ℤ) :=
  if p.resumeRelated.isSome then .ok (host, p, -1)
  else if host.cpuId < host.maxCallerNum then
    match Outcome.checked (host.remoteSessionId machineId), Outcome.checked host.mySessionId,
        host.callers[host.cpuId]? with
    | .ok _, .ok _, some caller => host.resumeOn f L W R caller p machineId handlerId env
    | _, _, _ => .error .panicked
  else .error .panicked

/-! ## When the parts return -/

/-- The session to the machine is connected.  If the request can be posted, the wait for a
send completion ends with one where there is such a wait, and the message that ends the
wait for the reply can be dealt with. -/
def QueryReturns (host : ResumeHost Endpoint) (caller : Caller Endpoint)
    (machineId handlerId : ℕ) (env : CallEnv) : Prop :=
  ∃ entry, caller.sessions.connected.lookup (host.remoteSessionId machineId) = some entry ∧
    (env.send.postError = none →
      Datagram.Drains 8 (caller.sessions.postedCall W (host.remoteSessionId machineId) entry.1
        host.queryCall (queryArg handlerId)) env.send.polls ∧
      ∀ msg, (Caller.receive resumeTimeout caller.innerReceiver (replyEvents env)).2 =
        some (.ok msg) → msg.Digestible W env.registerError)

/-- There is a queue pair, a buffer and an endpoint, and if the READ can be posted, it ends
before the timer does and into a buffer in the address space. -/
def FetchReturns (host : ResumeHost Endpoint) (machineId : ℕ) (d : LookupReply)
    (env : CallEnv) : Prop :=
  ∃ qp endpoint ptr, host.readQp f machineId = some qp ∧ readEndpoint f env = some endpoint ∧
    env.buffer = some ptr ∧
    (env.readError = none → (waitRead f qp endpoint ptr d env).2 ≠ some (.error .elapsed) ∧
      ∀ wc, (waitRead f qp endpoint ptr d env).2 = some (.ok wc) → ptr + d.1.sz ≤ 2 ^ 64)

variable {f L W R} {host : ResumeHost Endpoint} {caller : Caller Endpoint}
  {machineId handlerId : ℕ} {d : LookupReply} {env : CallEnv}

theorem exists_receive (receiver : Datagram.UDReceiver) (env : CallEnv) :
    ∃ r, (Caller.receive resumeTimeout receiver (replyEvents env)).2 = some r := by
  have hlast : ∀ s s', Timeout.poll Datagram.UDReceiver.poll resumeTimeout s
      (⟨[], none⟩, resumeTimeout) ≠ (s', .ok .notReady) := timeout_ne_notReady le_rfl
  obtain ⟨s, r, h⟩ := exists_blockOn_result hlast env.replies receiver
  exact ⟨r, congrArg Prod.snd h⟩

theorem awaitReply_returned_iff :
    Returned (caller.awaitReply W resumeTimeout (replyEvents env) env.registerError).2 ↔
      ∀ msg, (Caller.receive resumeTimeout caller.innerReceiver (replyEvents env)).2 =
        some (.ok msg) → msg.Digestible W env.registerError := by
  obtain ⟨r, hr⟩ := exists_receive caller.innerReceiver env
  simp [Caller.awaitReply_returned_iff, hr]

theorem exists_query_iff (W : Wire) (R : ReplyImage) (host : ResumeHost Endpoint)
    (caller : Caller Endpoint) (machineId handlerId : ℕ) (env : CallEnv) :
    (∃ caller' reply, host.query W R caller machineId handlerId env = (caller', .ok reply)) ↔
      host.QueryReturns W caller machineId handlerId env := by
  have hfits : W.header.size + (queryArg handlerId).length ≤ Datagram.mtu := by
    have hheader := W.header_fits
    have harg : (queryArg handlerId).length ≤ Datagram.grhSize := by
      rw [queryArg, Codec.length_encode]
      decide
    omega
  have hcases := caller.sessions.syncCall_cases W (host.remoteSessionId machineId)
    host.queryCall hfits env.send
  unfold query QueryReturns
  generalize caller.sessions.syncCall W (host.remoteSessionId machineId) host.queryCall
    (queryArg handlerId) env.send = called at hcases ⊢
  obtain ⟨sessions, result⟩ := called
  rcases hcases with ⟨hlookup, rfl⟩ | ⟨session, region, hlookup, hcases⟩
  · simp [hlookup]
  simp only [hlookup, Option.some.injEq, exists_eq_left']
  rcases hcases with ⟨err, herr, rfl⟩ | ⟨hnone, ⟨hdrains, rfl⟩ | ⟨hdrains, hresult⟩⟩
  · simp [herr]
  · simp only [hnone, hdrains, true_and, forall_const]
    -- the receiver is not touched by the request
    refine Iff.trans ?_
      (awaitReply_returned_iff : _ ↔ ∀ msg, (Caller.receive resumeTimeout
        ({ caller with sessions := sessions } : Caller Endpoint).innerReceiver
        (replyEvents env)).2 = some (.ok msg) → msg.Digestible W env.registerError)
    generalize Caller.awaitReply W resumeTimeout { caller with sessions := sessions }
      (replyEvents env) env.registerError = awaited
    obtain ⟨caller', (err | _ | _) | bytes⟩ := awaited <;> simp [Returned]
  · simp only [hnone, hdrains, false_and, forall_const, iff_false]
    obtain (err | _ | _) | _ := result <;> simp [Returned] at hresult <;> simp

theorem exists_waitRead (f : Features) (qp : QueuePair) (endpoint : Option ℕ) (ptr : ℕ)
    (d : LookupReply) (env : CallEnv) :
    ∃ qp' r, waitRead f qp endpoint ptr d env = (qp', some r) := by
  have hlast : ∀ s s', Timeout.poll RemoteDevice.poll resumeTimeout s
      (⟨[], none⟩, resumeTimeout) ≠ (s', .ok .notReady) := timeout_ne_notReady le_rfl
  exact exists_blockOn_result hlast env.reads _

theorem descriptorFetch_panicked_iff :
    (host.descriptorFetch f machineId d env).2 ≠ .error .panicked ↔
      host.FetchReturns f machineId d env := by
  unfold descriptorFetch FetchReturns
  cases host.readQp f machineId with
  | none => simp
  | some qp =>
    cases env.buffer with
    | none => simp
    | some ptr =>
      cases readEndpoint f env with
      | none => simp
      | some endpoint =>
        simp only [Option.some.injEq, exists_and_left, exists_eq_left']
        cases env.readError with
        | some err => simp
        | none =>
          obtain ⟨qp', r, hwait⟩ := exists_waitRead f qp endpoint ptr d env
          rw [hwait]
          rcases r with (err | _) | wc
          · simp
          · simp
          · simp [remoteDescriptorFetch]

theorem exists_applyTo_iff (p : Process) (des : ChildDescriptor) (env : CallEnv) :
    (∃ p', p.applyTo des env = .ok p') ↔
      env.applyInfo.isSome = true ∧ MapsInOrder env.mmap des.vma [] := by
  rw [← exists_mapRegions_iff, Process.applyTo]
  cases env.applyInfo with
  | none => simp
  | some info =>
    cases (mapRegions env.mmap des.vma []).outcome with
    | error stop => simp
    | ok areas => simp

/-! ## The call -/

/-- The READ does not time out, and what it brings is a descriptor that the process can
take over: no address of its page tables is out of range, and behind the decoder and the
access information its areas can be mapped. -/
def AdoptReturns (f : Features) (L : Layout) (host : ResumeHost Endpoint) (machineId : ℕ)
    (d : LookupReply) (env : CallEnv) : Prop :=
  d.1.ready = true → host.FetchReturns f machineId d env ∧
    ∀ bytes m, (host.descriptorFetch f machineId d env).2 = .ok (bytes, m) →
      (∀ a ∈ scannedSums L bytes m, SumAccepted a.1 a.2) ∧
      ∀ pool heap des prefetcher, deserialize f L host.asyncPool bytes m env.prefetchInfo =
          (pool, .ok (heap, des, prefetcher)) →
        env.accessInfo.isSome = true →
          env.applyInfo.isSome = true ∧ MapsInOrder env.mmap des.vma []

/-- What a call that returned has done: it has set the process up, or it has not touched
it. -/
def Clean (p : Process) (r : Except Halt (ResumeHost Endpoint × Process × ℤ)) : Prop :=
  ∃ host' p' code, r = .ok (host', p', code) ∧ (code = 0 ∨ code = -1) ∧ (code = -1 → p' = p)

theorem clean_error {p : Process} {halt : Halt} :
    ¬ Clean p (.error halt : Except Halt (ResumeHost Endpoint × Process × ℤ)) := by
  rintro ⟨_, _, _, h, -⟩
  cases h

theorem clean_unchanged (host : ResumeHost Endpoint) (p : Process) :
    Clean p (.ok (host, p, -1)) :=
  ⟨host, p, -1, rfl, Or.inr rfl, fun _ => rfl⟩

theorem clean_resumed (host : ResumeHost Endpoint) (p p' : Process) :
    Clean p (.ok (host, p', 0)) :=
  ⟨host, p', 0, rfl, Or.inl rfl, by simp⟩

theorem deserialize_panicked_iff {pool : DCPool} {bytes : BytesMut} {m : Memory}
    {info : Option AccessInfo} :
    (deserialize f L pool bytes m info).2 = .error .panicked ↔
      ∃ a ∈ scannedSums L bytes m, ¬ SumAccepted a.1 a.2 := by
  rw [← child_deserialize_panicked_iff L Heap.empty, deserialize]
  cases ChildDescriptor.deserialize L Heap.empty bytes m with
  | error stop => simp
  | ok r =>
    dsimp only
    split
    · split
      · simp
      · cases info <;> simp
    · simp

theorem descriptorFetch_frame (f : Features) (host : ResumeHost Endpoint) (machineId : ℕ)
    (d : LookupReply) (env : CallEnv) :
    (host.descriptorFetch f machineId d env).1.asyncPool = host.asyncPool ∧
      (host.descriptorFetch f machineId d env).1.ptCache = host.ptCache := by
  have hset : ∀ qp, (host.setReadQp f machineId qp).asyncPool = host.asyncPool ∧
      (host.setReadQp f machineId qp).ptCache = host.ptCache := by
    intro qp
    unfold setReadQp
    split <;> exact ⟨rfl, rfl⟩
  unfold descriptorFetch
  split
  · split
    · exact ⟨rfl, rfl⟩
    · split <;> exact hset _
  · exact ⟨rfl, rfl⟩

theorem clean_adopt_iff {p : Process} :
    Clean p (host.adopt f L p machineId handlerId d env) ↔
      AdoptReturns f L host machineId d env := by
  unfold adopt AdoptReturns
  by_cases hready : d.1.ready = true
  · have hpool := (descriptorFetch_frame f host machineId d env).1
    rw [if_pos hready, forall_prop_of_true hready, ← descriptorFetch_panicked_iff]
    generalize host.descriptorFetch f machineId d env = fetched at hpool ⊢
    obtain ⟨host', (_ | _) | ⟨bytes, m⟩⟩ := fetched
    · exact iff_of_true (clean_unchanged host' p) (by simp)
    · exact iff_of_false clean_error (by simp)
    dsimp only at hpool ⊢
    have hsums : (deserialize f L host.asyncPool bytes m env.prefetchInfo).2 = .error .panicked ↔
        ∃ a ∈ scannedSums L bytes m, ¬ SumAccepted a.1 a.2 := deserialize_panicked_iff
    rw [hpool]
    generalize hdecoded : deserialize f L host.asyncPool bytes m env.prefetchInfo = decoded
      at hsums ⊢
    have hcanonical : decoded.2 ≠ .error .panicked →
        ∀ a ∈ scannedSums L bytes m, SumAccepted a.1 a.2 := by
      intro hne a ha
      by_contra hbad
      exact hne (hsums.mpr ⟨a, ha, hbad⟩)
    obtain ⟨pool, (_ | _) | ⟨heap, des, prefetcher⟩⟩ := decoded
    · refine iff_of_true (clean_unchanged _ p) ⟨by simp, ?_⟩
      rintro _ _ ⟨⟩
      exact ⟨hcanonical (by simp), fun _ _ _ _ h => by rw [hdecoded] at h; cases h⟩
    · refine iff_of_false clean_error fun h => ?_
      obtain ⟨a, ha, hbad⟩ := hsums.mp rfl
      exact hbad ((h.2 bytes m rfl).1 a ha)
    · dsimp only
      cases haccess : env.accessInfo with
      | none =>
        refine iff_of_true (clean_unchanged _ p) ⟨by simp, ?_⟩
        rintro _ _ ⟨⟩
        exact ⟨hcanonical (by simp), fun _ _ _ _ _ h => by cases h⟩
      | some info =>
        dsimp only
        cases happly : p.applyTo des env with
        | error stop =>
          refine iff_of_false clean_error fun h => ?_
          obtain ⟨p', hp'⟩ := (exists_applyTo_iff p des env).mpr
            ((h.2 bytes m rfl).2 _ _ _ _ hdecoded rfl)
          rw [happly] at hp'
          cases hp'
        | ok p' =>
          refine iff_of_true (clean_resumed _ p _) ⟨by simp, ?_⟩
          rintro _ _ ⟨⟩
          refine ⟨hcanonical (by simp), fun pool' heap' des' prefetcher' h _ => ?_⟩
          rw [hdecoded] at h
          cases h
          exact (exists_applyTo_iff p des env).mp ⟨p', happly⟩
  · rw [if_neg hready]
    exact iff_of_true (clean_unchanged host p) fun h => absurd h hready

theorem clean_resumeOn_iff {p : Process} :
    Clean p (host.resumeOn f L W R caller p machineId handlerId env) ↔
      host.QueryReturns W caller machineId handlerId env ∧
        ∀ caller' d, host.query W R caller machineId handlerId env = (caller', .ok (some d)) →
          AdoptReturns f L (host.setCaller caller') machineId d env := by
  rw [← exists_query_iff W R host caller machineId handlerId env, resumeOn]
  generalize host.query W R caller machineId handlerId env = queried
  obtain ⟨caller', halt | _ | d⟩ := queried
  · exact iff_of_false clean_error (by simp)
  · exact iff_of_true (clean_unchanged _ p) (by simp)
  · dsimp only
    rw [clean_adopt_iff]
    simp

/-- The process has resumed already, or no session id overflows and the core has a caller
with which the request and its reply can be dealt with, and the descriptor of a reply can be
taken over. -/
def Survives (f : Features) (L : Layout) (W : Wire) (R : ReplyImage)
    (host : ResumeHost Endpoint) (p : Process) (machineId handlerId : ℕ) (env : CallEnv) : Prop :=
  p.resumeRelated.isSome = true ∨
    host.cpuId < host.maxCallerNum ∧ host.remoteSessionId machineId < 2 ^ 64 ∧
      host.mySessionId < 2 ^ 64 ∧ ∃ caller, host.callers[host.cpuId]? = some caller ∧
        host.QueryReturns W caller machineId handlerId env ∧
        ∀ caller' d, host.query W R caller machineId handlerId env = (caller', .ok (some d)) →
          AdoptReturns f L (host.setCaller caller') machineId d env

/-! ## The call without its network -/

theorem adopt_refines (host : ResumeHost Endpoint) {p p' : Process}
    {host' : ResumeHost Endpoint} {code : ℤ}
    (hp : p.resumeRelated = none)
    (h : host.adopt f L p machineId handlerId d env = .ok (host', p', code)) :
    syscallResumeWRpc f L host.ptCache host.asyncPool none machineId handlerId
        ⟨some d.1, (host.descriptorFetch f machineId d env).2, env.prefetchInfo, env.accessInfo,
          env.applyInfo, true⟩ =
      (host'.asyncPool, p'.resumeRelated, .ok code) := by
  obtain ⟨hpool, hcache⟩ := descriptorFetch_frame f host machineId d env
  unfold adopt at h
  unfold syscallResumeWRpc
  rw [if_neg (by simp)]
  dsimp only
  by_cases hready : d.1.ready = true
  · rw [if_pos hready] at h ⊢
    generalize host.descriptorFetch f machineId d env = fetched at hpool hcache h ⊢
    obtain ⟨host₁, (_ | _) | ⟨bytes, m⟩⟩ := fetched
    · cases h
      rw [hpool, hp]
    · cases h
    dsimp only at hpool hcache h ⊢
    rw [hpool] at h
    generalize deserialize f L host.asyncPool bytes m env.prefetchInfo = decoded at h ⊢
    obtain ⟨pool, (_ | _) | ⟨heap, des, prefetcher⟩⟩ := decoded
    · cases h
      rw [hp]
    · cases h
    dsimp only at h ⊢
    cases haccess : env.accessInfo with
    | none =>
      rw [haccess] at h
      cases h
      rw [hp]
    | some info =>
      rw [haccess] at h
      dsimp only at h ⊢
      cases happly : p.applyTo des env with
      | error stop =>
        rw [happly] at h
        cases h
      | ok p₁ =>
        have hinfo := ((exists_applyTo_iff p des env).mp ⟨p₁, happly⟩).1
        rw [happly] at h
        cases h
        rw [hinfo, hcache]
        rfl
  · rw [if_neg hready] at h ⊢
    cases h
    rw [hp]

/-- A call that returns does with the resume data and the pool what the call does in
which the network is an input. -/
theorem resumeWRpc_refines {p p' : Process} {host' : ResumeHost Endpoint} {code : ℤ}
    (h : host.resumeWRpc f L W R p machineId handlerId env = .ok (host', p', code)) :
    ∃ renv, syscallResumeWRpc f L host.ptCache host.asyncPool p.resumeRelated machineId
      handlerId renv = (host'.asyncPool, p'.resumeRelated, .ok code) := by
  unfold resumeWRpc at h
  by_cases hresumed : p.resumeRelated.isSome = true
  · rw [if_pos hresumed] at h
    cases h
    refine ⟨⟨none, .error .absent, none, none, none, false⟩, ?_⟩
    rw [syscallResumeWRpc, if_pos hresumed]
  rw [if_neg hresumed] at h
  have hp : p.resumeRelated = none := Option.not_isSome_iff_eq_none.mp hresumed
  rw [hp]
  split at h
  · split at h
    · unfold resumeOn at h
      split at h
      · cases h
      · cases h
        exact ⟨⟨none, .error .absent, none, none, none, false⟩, by rw [hp]; rfl⟩
      · next caller' d _ => exact ⟨_, adopt_refines (host.setCaller caller') hp h⟩
    · cases h
  · cases h

end ResumeHost

open ResumeHost

/-- Core `0` of machine `0`, with one caller and one DC queue pair. -/
def singleCore (caller : Caller ℕ) : ResumeHost ℕ where
  macId := 0
  cpuId := 0
  maxCallerNum := 1
  callers := [caller]
  dcPool := [.new]
  rcPool := none
  asyncPool := ⟨[]⟩
  ptCache := ⟨∅⟩

/-- Nothing arrives, and nothing else fails. -/
def silentEnv : CallEnv where
  send := ⟨none, []⟩
  replies := []
  registerError := none
  endpoint := some 0
  buffer := some 0x20000
  localMemory _ := 0
  remoteMemory _ := 0
  readError := none
  reads := []
  prefetchInfo := none
  accessInfo := some ⟨0, 0, 0⟩
  applyInfo := some ⟨0, 0, 0⟩
  mmap _ r := r.start

/-- The fields of a reply one after the other. -/
def replyCodec : Codec (UInt64 × UInt64 × UInt8 × UInt32) :=
  u64.prod (u64.prod (Codec.u8.prod Codec.u32))

/-- A reply with an address, a size and a key. -/
def shortReply : ReplyImage where
  size := replyCodec.size
  decode bytes :=
    let (pa, sz, ready, rkey) := replyCodec.decode bytes
    (⟨pa.toNat, sz.toNat, ready != 0, rkey, 0, (0, 0), 0, 0⟩, 0)

def sampleProcess : Process := ⟨[⟨0x1000, 0x1000⟩], default, none⟩

/-- A caller that is connected to machine `5` and about to receive these messages. -/
def connectedCaller (arrived : List Datagram.UDMsg) : Caller ℕ :=
  ⟨⟨arrived, []⟩, ⟨.empty, (∅ : AList fun _ => _).insert 5 (⟨0, 0⟩, fun _ => 0)⟩⟩

/-- The reply of a machine that has the descriptor. -/
def readyReply : Datagram.UDMsg :=
  .plain (Datagram.ReplyStubFactory.header ⟨.ok, 21⟩) (replyCodec.encode (0x10000, 256, 1, 9))

end Mitosis.Resume
