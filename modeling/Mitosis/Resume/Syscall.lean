import Mitosis.PageFault.Handler
import Mitosis.RemoteMapping.Copy
import Mitosis.Support.KeyedMap

/-!
# Resuming a remote process

`syscall_resume_w_rpc` asks a machine for the descriptor of a handler id, reads it
with one READ, decodes and applies it, and keeps it with the handler of the calling
process.  Built with `prefetch`, decoding takes a queue pair from the async pool,
and dropping the handler gives it back.  Built with `page-cache`, dropping the
handler leaves a copy of the page table in a cache of the machine, and the next
resume of the same handler id starts from a copy of that.

What the network and the other machine do during a resume is an input.
-/

namespace Mitosis.Resume

open Support Descriptors OsNetwork Prefetcher RemoteMapping PageFault
open RemotePaging (AccessInfo)

/-- The reply to a `Query`. -/
structure DescriptorLookupReply where
  pa : ℕ
  sz : ℕ
  ready : Bool
  rkey : UInt32
  lid : UInt32
  gid : UInt64 × UInt64
  dctNum : UInt32
  dcKey : UInt64
deriving DecidableEq

/-! ## The pools of the machine -/

/-- The queue pairs of the async pool, the one pushed last first. -/
structure DCPool where
  pool : List ℕ
deriving DecidableEq, Repr

namespace DCPool

def popOneQp (p : DCPool) : Option (ℕ × DCPool) :=
  match p.pool with
  | [] => none
  | qp :: rest => some (qp, ⟨rest⟩)

def pushOneQp (p : DCPool) (qp : ℕ) : DCPool := ⟨qp :: p.pool⟩

end DCPool

/-- The page tables that exited children left, each with the memory it lies in. -/
structure RemotePageTableCache where
  store : AList fun _ : ℕ => Heap × RemotePageTable

namespace RemotePageTableCache

def genCacheKey (_remoteMacId handlerId : ℕ) : ℕ := handlerId

def lookup (c : RemotePageTableCache) (remoteMacId handlerId : ℕ) :
    Option (Heap × RemotePageTable) :=
  c.store.lookup (genCacheKey remoteMacId handlerId)

def insert (c : RemotePageTableCache) (remoteMacId handlerId : ℕ)
    (value : Heap × RemotePageTable) : RemotePageTableCache :=
  ⟨c.store.insert (genCacheKey remoteMacId handlerId) value⟩

end RemotePageTableCache

/-! ## The system call -/

/-- What a handler keeps of a resume: where the descriptor is from, the running
child, and the queue pair of its prefetcher. -/
structure ResumeData where
  handlerId : ℕ
  remoteMacId : ℕ
  child : Child
  prefetchConn : Option ℕ

/-- What happens outside during a resume.  There is no reply if the call fails, the
timer runs out or the reply is too short.  The READ of the descriptor fills a local
buffer, fails, or panics when its timer runs out.  `AccessInfo::new` is called by
the decoder, by the system call and by `apply_to`, which also maps the areas. -/
structure ResumeEnv where
  reply : Option DescriptorLookupReply
  fetched : Outcome (BytesMut × Memory)
  prefetchInfo : Option AccessInfo
  accessInfo : Option AccessInfo
  applyInfo : Option AccessInfo
  mapped : Bool

section Resume

variable (f : Features) (L : Layout)

/-- `ChildDescriptor::deserialize` with its prefetcher: the queue pair is taken from
the pool when everything is decoded. -/
def deserialize (pool : DCPool) (bytes : BytesMut) (m : Memory)
    (prefetchInfo : Option AccessInfo) :
    DCPool × Outcome (Heap × ChildDescriptor × Option (ℕ × AccessInfo)) :=
  match ChildDescriptor.deserialize L Heap.empty bytes m with
  | .error stop => (pool, .error stop)
  | .ok (heap, des) =>
    if f.prefetch then
      match pool.popOneQp with
      | none => (pool, .error .absent)
      | some (qp, pool) =>
        match prefetchInfo with
        | none => (pool, .error .absent)
        | some info => (pool, .ok (heap, des, some (qp, info)))
    else (pool, .ok (heap, des, none))

/-- The table that the child starts with: the one of the descriptor, or a copy of the
cached one. -/
def startTable (cache : RemotePageTableCache) (machineId handlerId : ℕ)
    (fetched : Heap × RemotePageTable) : Heap × RemotePageTable :=
  if f.pageCache then
    match cache.lookup machineId handlerId with
    | some (heap, cached) => cached.copy heap
    | none => fetched
  else fetched

def startChild (table : Heap × RemotePageTable) (des : ChildDescriptor) (info : AccessInfo)
    (prefetcher : Option (ℕ × AccessInfo)) : Child :=
  let c := Child.resume table.1 { des with pageTable := table.2 } info
  match prefetcher with
  | none => c
  | some (_, prefetchInfo) =>
    { c with exec := { c.exec with prefetcher := .newFromRaw .new prefetchInfo } }

/-- `syscall_resume_w_rpc`, from the call to its return or panic.  A descriptor that
is not kept is dropped, with the queue pair of its prefetcher. -/
def syscallResumeWRpc (cache : RemotePageTableCache) (pool : DCPool)
    (resumeRelated : Option ResumeData) (machineId handlerId : ℕ) (env : ResumeEnv) :
    DCPool × Option ResumeData × Outcome ℤ :=
  if resumeRelated.isSome then (pool, resumeRelated, .ok (-1))
  else
    match env.reply with
    | none => (pool, none, .ok (-1))
    | some d =>
      if d.ready then
        match env.fetched with
        | .error .absent => (pool, none, .ok (-1))
        | .error .panicked => (pool, none, .error .panicked)
        | .ok (bytes, m) =>
          match deserialize f L pool bytes m env.prefetchInfo with
          | (pool, .error .absent) => (pool, none, .ok (-1))
          | (pool, .error .panicked) => (pool, none, .error .panicked)
          | (pool, .ok (heap, des, prefetcher)) =>
            match env.accessInfo with
            | none => (pool, none, .ok (-1))
            | some info =>
              if env.applyInfo.isSome && env.mapped then
                let table := startTable f cache machineId handlerId
                  (heap, des.pageTable)
                (pool, some ⟨handlerId, machineId,
                  startChild table des info prefetcher, prefetcher.map Prod.fst⟩, .ok 0)
              else (pool, none, .error .panicked)
      else (pool, none, .ok (-1))

/-- The descriptor that a resume reads and decodes. -/
def Fetched (env : ResumeEnv) (heap : Heap) (des : ChildDescriptor) : Prop :=
  ∃ bytes m, env.fetched = .ok (bytes, m) ∧
    ChildDescriptor.deserialize L Heap.empty bytes m = .ok (heap, des)

/-- Cache the page table of an exiting child. -/
def cacheMyPt (cache : RemotePageTableCache) (resumeRelated : Option ResumeData) :
    RemotePageTableCache :=
  match resumeRelated with
  | none => cache
  | some r =>
    if f.pageCache then
      cache.insert r.remoteMacId r.handlerId
        (r.child.descriptor.pageTable.copy r.child.exec.heap)
    else cache

/-- `MitosisSysCallHandler::drop`, as far as a resume goes: the connection goes back
to the pool if it could be drained. -/
def drop (cache : RemotePageTableCache) (pool : DCPool) (resumeRelated : Option ResumeData)
    (polls : List CqEvent) : Except Halt (RemotePageTableCache × DCPool) :=
  let cache := cacheMyPt f cache resumeRelated
  match resumeRelated with
  | none => .ok (cache, pool)
  | some r =>
    if f.prefetch then
      match r.child.exec.drainConnections polls with
      | .error halt => .error halt
      | .ok (_, .error _) => .ok (cache, pool)
      | .ok (_, .ok ()) => .ok (cache, r.prefetchConn.elim pool pool.pushOneQp)
    else .ok (cache, pool)

end Resume

section Kept

variable {f : Features} {L : Layout} {cache : RemotePageTableCache} {pool pool' : DCPool}
  {machineId handlerId : ℕ} {env : ResumeEnv} {r : ResumeData}

theorem lookupPgTable_startChild (table : Heap × RemotePageTable) (des : ChildDescriptor)
    (info : AccessInfo) (prefetcher : Option (ℕ × AccessInfo)) (a : VirtAddr) :
    (startChild table des info prefetcher).lookupPgTable a = table.2.translate table.1 a := by
  cases prefetcher <;> rfl

theorem deserialize_eq_ok {bytes : BytesMut} {m : Memory} {info : Option AccessInfo}
    {heap : Heap} {des : ChildDescriptor} {prefetcher : Option (ℕ × AccessInfo)}
    (h : deserialize f L pool bytes m info = (pool', .ok (heap, des, prefetcher))) :
    ChildDescriptor.deserialize L Heap.empty bytes m = .ok (heap, des) := by
  unfold deserialize at h
  split at h
  · cases h
  · next heq =>
      rw [heq]
      split at h
      · split at h
        · cases h
        · split at h <;> cases h
          rfl
      · cases h
        rfl

theorem eq_of_syscallResumeWRpc
    (h : (syscallResumeWRpc f L cache pool none machineId handlerId env).2.1 = some r) :
    ∃ heap des info prefetcher, Fetched L env heap des ∧
      r = ⟨handlerId, machineId, startChild (startTable f cache machineId handlerId
        (heap, des.pageTable)) des info prefetcher, prefetcher.map Prod.fst⟩ := by
  unfold syscallResumeWRpc at h
  rw [if_neg (by simp)] at h
  split at h
  · cases h
  · split at h
    · split at h
      · cases h
      · cases h
      · next bytes m hfetched =>
          split at h
          · cases h
          · cases h
          · next heap des prefetcher hdes =>
              split at h
              · cases h
              · next info hinfo =>
                  split at h
                  · cases h
                    exact ⟨heap, des, info, prefetcher,
                      ⟨bytes, m, hfetched, deserialize_eq_ok hdes⟩, rfl⟩
                  · cases h
    · cases h

theorem drop_cache {cache' : RemotePageTableCache} {data : Option ResumeData}
    {polls : List CqEvent} (h : drop f cache pool data polls = .ok (cache', pool')) :
    cache' = cacheMyPt f cache data := by
  unfold drop at h
  dsimp only at h
  split at h
  · cases h
    rfl
  · split at h
    · split at h <;> cases h <;> rfl
    · cases h
      rfl

end Kept

/-! ## Runs of a machine -/

/-- The open handlers with what they keep. -/
abbrev Handlers := AList fun _ : ℕ => Option ResumeData

/-- A machine whose processes resume: its pools and its open handlers.  A handler is
known by a number, and no number is used twice. -/
structure ResumeNode where
  asyncPool : DCPool
  ptCache : RemotePageTableCache
  handlers : Handlers
  nextHandler : ℕ

def ResumeNode.boot (asyncPool : DCPool) : ResumeNode := ⟨asyncPool, ⟨∅⟩, ∅, 0⟩

inductive NodeAction where
  | open
  | resume (handler machineId handlerId : ℕ) (env : ResumeEnv)
  | child (handler : ℕ) (action : ChildAction)
  | close (handler : ℕ) (polls : List CqEvent)

inductive NodeOutput where
  | opened (handler : ℕ)
  | resumed (result : Outcome ℤ)
  | child (report : Option FaultReport)
  | closed (result : Except Halt Unit)
  | badHandler
deriving DecidableEq

def nodeMachine (f : Features) (L : Layout) (alloc : PageAllocator) :
    Machine ResumeNode NodeAction NodeOutput where
  step s
    | .open =>
      ({ s with handlers := s.handlers.insert s.nextHandler none
                nextHandler := s.nextHandler + 1 }, .opened s.nextHandler)
    | .resume handler machineId handlerId env =>
      match s.handlers.lookup handler with
      | none => (s, .badHandler)
      | some data =>
        let (pool, data, result) :=
          syscallResumeWRpc f L s.ptCache s.asyncPool data machineId handlerId env
        ({ s with asyncPool := pool, handlers := s.handlers.insert handler data },
          .resumed result)
    | .child handler action =>
      match s.handlers.lookup handler with
      | some (some r) =>
        let (child, report) := (childMachine f alloc).step r.child action
        ({ s with handlers := s.handlers.insert handler (some { r with child := child }) },
          .child report)
      | _ => (s, .badHandler)
    | .close handler polls =>
      match s.handlers.lookup handler with
      | none => (s, .badHandler)
      | some data =>
        match drop f s.ptCache s.asyncPool data polls with
        | .error halt => (s, .closed (.error halt))
        | .ok (cache, pool) =>
          ({ s with asyncPool := pool, ptCache := cache
                    handlers := s.handlers.erase handler }, .closed (.ok ()))

section Steps

variable {f : Features} {L : Layout} {alloc : PageAllocator} {s : ResumeNode} {handler : ℕ}

theorem step_resume {machineId handlerId : ℕ} {env : ResumeEnv}
    {data : Option ResumeData} (h : s.handlers.lookup handler = some data) :
    ((nodeMachine f L alloc).step s (.resume handler machineId handlerId env)).1 =
      { s with
        asyncPool :=
          (syscallResumeWRpc f L s.ptCache s.asyncPool data machineId handlerId env).1
        handlers := s.handlers.insert handler
          (syscallResumeWRpc f L s.ptCache s.asyncPool data machineId handlerId env).2.1 } := by
  simp only [nodeMachine, h]

theorem step_close {polls : List CqEvent} {data : Option ResumeData}
    {cache : RemotePageTableCache} {pool : DCPool}
    (h : s.handlers.lookup handler = some data)
    (hdrop : drop f s.ptCache s.asyncPool data polls = .ok (cache, pool)) :
    ((nodeMachine f L alloc).step s (.close handler polls)).1 =
      { s with asyncPool := pool, ptCache := cache, handlers := s.handlers.erase handler } := by
  simp only [nodeMachine, h, hdrop]

end Steps

end Mitosis.Resume
