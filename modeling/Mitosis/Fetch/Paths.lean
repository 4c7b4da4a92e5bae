import Mitosis.PageFault.Handler
import Mitosis.Support.SendQueue

/-!
# The fetch paths and the queue pairs they share

A page reaches a child on one of five ways: `read_remote_page` without and with
the `prefetch` feature, `read_remote_page_wo_prefetch`, the prefetch executor,
and `batch_read_remote_pages` of eager resume.  Each of them allocates a page
and posts a READ into it.  All but the executor share the queue pair of the
core, and the batch posts READs that are not signaled, so here a queue pair is
a send queue with its history.

A call leaves a record for each page it allocated: the READ that was posted
into it and what became of the page.  The allocated page, the core and the
answers of the driver are inputs.
-/

namespace Mitosis.Fetch

open Mitosis.OsNetwork
open Mitosis.PageFault (expiry)
open Mitosis.RemoteMapping
open Mitosis.RemotePaging
open Mitosis.Support

/-- The queue pairs of a machine: one for each core, with `use_rc` one for each
core and remote machine, and one for each child that prefetches. -/
inductive QueueId where
  | dc (cpu : ℕ)
  | rc (cpu macId : ℕ)
  | prefetch (child : ℕ)
deriving DecidableEq, Repr

abbrev CoreQueue := SendQueue ReadRequest WCStatus

abbrev Queues := QueueId → CoreQueue

/-- A READ that is not signaled reports nothing if it succeeds. -/
def quiet (status : WCStatus) : Bool := status = .success

/-! ## Posting and polling -/

def nextRead (q : CoreQueue) (endpoint : Option ℕ) (raddr : PhysAddr) (rkey : ℕ)
    (page : ℕ) : ReadRequest where
  serial := q.works.length
  endpoint := endpoint
  raddr := raddr
  rkey := rkey
  laddr := page
  size := 4096

/-- Poll one completion from the completion queue of the connection. -/
def DCConn.poll (q : CoreQueue) (e : CqEvent) :
    CoreQueue × Poll (ℕ × WCStatus) DatapathError :=
  let q := q.completeAll quiet e.arrivals
  match e.pollError with
  | some err => (q, .error err)
  | none =>
    match q.poll with
    | (q', some wc) => (q', .ok (.ready wc))
    | (q', none) => (q', .ok .notReady)

/-- Poll the completion and check its status. -/
def DCRemoteDevice.poll (q : CoreQueue) (e : CqEvent) :
    CoreQueue × Poll (ℕ × WCStatus) Rdma.Err :=
  match DCConn.poll q e with
  | (q', .ok (.ready wc)) =>
    if wc.2 = .success then (q', .ok (.ready wc)) else (q', .error (.wcErr wc.2))
  | (q', .ok .notReady) => (q', .ok .notReady)
  | (q', .error err) => (q', .error (.datapathError err))

/-- Wait for a completion, whatever its status. -/
def waitConn (q : CoreQueue) (polls : List (CqEvent × ℤ)) :
    CoreQueue × Option (Except (TimeoutError DatapathError) (ℕ × WCStatus)) :=
  blockOn (Timeout.poll DCConn.poll timeoutUsec) q (polls ++ [expiry])

/-- Wait for a completion with status `IB_WC_SUCCESS`. -/
def waitDevice (q : CoreQueue) (polls : List (CqEvent × ℤ)) :
    CoreQueue × Option (Except (TimeoutError Rdma.Err) (ℕ × WCStatus)) :=
  blockOn (Timeout.poll DCRemoteDevice.poll timeoutUsec) q (polls ++ [expiry])

/-! ## The paths -/

/-- What happens when a page is fetched: the core, the page that is allocated
and whether the driver refuses the post. -/
structure PostEnv where
  cpu : ℕ
  page : ℕ
  postError : Option DatapathError
deriving DecidableEq, Repr

/-- Also the polls of a wait. -/
structure FetchEnv extends PostEnv where
  polls : List (CqEvent × ℤ)
deriving DecidableEq, Repr

/-- What becomes of a page: the fetch returns it, gives it back with
`pmem_free_page`, loses it in a panic, or leaves it to the prefetcher. -/
inductive PageFate where
  | returned
  | freed
  | lost
  | pending
deriving DecidableEq, Repr

/-- A page that was allocated, the READ that was posted into it, if the driver
took it, and what became of the page. -/
structure FetchRecord where
  queue : QueueId
  page : ℕ
  read : Option ReadRequest
  fate : PageFate
deriving DecidableEq, Repr

/-- A page is returned if the wait ends well, and freed otherwise. -/
def fateOf {ε α : Type} : Option (Except ε α) → PageFate
  | some (.ok _) => .returned
  | _ => .freed

/-- Read the remote page `src` to the page of the environment. -/
def remoteRead (useRc : Bool) (queues : Queues) (src : PhysAddr) (info : AccessInfo)
    (env : FetchEnv) : Queues × FetchRecord :=
  let id : QueueId := if useRc then .rc env.cpu info.macId else .dc env.cpu
  match env.postError with
  | some _ => (queues, ⟨id, env.page, none, .freed⟩)
  | none =>
    let own := nextRead (queues id) (endpointOf useRc info) (PhysAddr.decode src) info.rkey
      env.page
    let waited := waitDevice ((queues id).post own true) env.polls
    (Function.update queues id waited.1, ⟨id, env.page, some own, fateOf waited.2⟩)

/-- `read_remote_page` without the `prefetch` feature. -/
def readRemotePage (useRc : Bool) (lookupPgTable : VirtAddr → Option PhysAddr)
    (queues : Queues) (remoteVa : VirtAddr) (info : AccessInfo) (env : FetchEnv) :
    Queues × List FetchRecord :=
  match lookupPgTable remoteVa with
  | none => (queues, [])
  | some remotePa =>
    let (queues, record) := remoteRead useRc queues remotePa info env
    (queues, [record])

/-- `read_remote_page_wo_prefetch`, which has the same body. -/
def readRemotePageWoPrefetch (useRc : Bool) (lookupPgTable : VirtAddr → Option PhysAddr)
    (queues : Queues) (remoteVa : VirtAddr) (info : AccessInfo) (env : FetchEnv) :
    Queues × List FetchRecord :=
  readRemotePage useRc lookupPgTable queues remoteVa info env

/-- `read_remote_page` with the `prefetch` feature, for a page that was not read
ahead; the post is unwrapped. -/
def readRemotePagePrefetch (lookupPgTable : VirtAddr → Option PhysAddr) (queues : Queues)
    (remoteVa : VirtAddr) (info : AccessInfo) (env : FetchEnv) :
    Queues × List FetchRecord :=
  match lookupPgTable remoteVa with
  | none => (queues, [])
  | some remotePa =>
    if PhysAddr.isPrefetch remotePa then (queues, [])
    else
      let id : QueueId := .dc env.cpu
      match env.postError with
      | some _ => (queues, [⟨id, env.page, none, .lost⟩])
      | none =>
        let own := nextRead (queues id) (some info.accessHandler)
          (PhysAddr.decode remotePa) info.rkey env.page
        let waited := waitConn ((queues id).post own true) env.polls
        (Function.update queues id waited.1,
          [⟨id, env.page, some own, fateOf waited.2⟩])

/-- One iteration of `batch_read_remote_pages`.  A refused post is only logged;
the request for the last address is signaled and waited for. -/
def batchReadOne (lookupPgTable : VirtAddr → Option PhysAddr) (info : AccessInfo)
    (polls : List (CqEvent × ℤ)) (last : Bool) (queues : Queues) (remoteVa : VirtAddr)
    (env : PostEnv) : Queues × Option FetchRecord :=
  match lookupPgTable remoteVa with
  | none => (queues, none)
  | some src =>
    let id : QueueId := .dc env.cpu
    let own := nextRead (queues id) (some info.accessHandler) src info.rkey env.page
    let posted : CoreQueue × Option ReadRequest :=
      match env.postError with
      | some _ => (queues id, none)
      | none => ((queues id).post own last, some own)
    if last then
      let waited := waitConn posted.1 polls
      (Function.update queues id waited.1, some ⟨id, env.page, posted.2, fateOf waited.2⟩)
    else
      (Function.update queues id posted.1, some ⟨id, env.page, posted.2, .returned⟩)

/-- `batch_read_remote_pages`: a record for each mapped address. -/
def batchReadRemotePages (lookupPgTable : VirtAddr → Option PhysAddr) (info : AccessInfo)
    (polls : List (CqEvent × ℤ)) :
    Queues → List (VirtAddr × PostEnv) → Queues × List (Option FetchRecord)
  | queues, [] => (queues, [])
  | queues, (remoteVa, env) :: rest =>
    let one := batchReadOne lookupPgTable info polls rest.isEmpty queues remoteVa env
    let others := batchReadRemotePages lookupPgTable info polls one.1 rest
    (others.1, one.2 :: others.2)

/-- The READs of `execute_reqs` on the connection of a prefetcher, each for a
slot with a remote address and into a new page. -/
def executeReqs (child : ℕ) (info : AccessInfo) :
    Queues → List (PhysAddr × ℕ) → Queues × List FetchRecord
  | queues, [] => (queues, [])
  | queues, (phyaddr, userPage) :: rest =>
    let id : QueueId := .prefetch child
    let own := nextRead (queues id) (some info.accessHandler) (PhysAddr.realAddr phyaddr)
      info.rkey userPage
    let others := executeReqs child info
      (Function.update queues id ((queues id).post own true)) rest
    (others.1, ⟨id, userPage, some own, .pending⟩ :: others.2)

end Mitosis.Fetch
